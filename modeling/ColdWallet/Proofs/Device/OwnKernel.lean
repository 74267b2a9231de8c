import ColdWallet.Proofs.Device.Commitments

namespace ColdWallet

/-- An output to the shielded pool, as its sender opens it. -/
structure PoolOutput where
  blinding : Scalar
  amount : UInt64
  asset : UInt32

namespace PoolOutput

def commitment (o : PoolOutput) : Point := commit o.blinding o.amount (assetGenerator o.asset)

/-- The amount of an output, where it is of this asset. -/
def amountIn (asset : UInt32) (o : PoolOutput) : Int :=
  if o.asset = asset then o.amount.toNat else 0

noncomputable def point (o : PoolOutput) : CurvePoint :=
  o.blinding.residue • curveG + (o.amount.toNat : ℤ) • curveAsset o.asset

theorem commitment_eq (o : PoolOutput) : o.commitment = .ofCurve o.point :=
  commit_eq o.blinding o.amount o.asset

/-- Outputs of this blinding factor in total, which pay a net amount in full. -/
structure Pay (outputs : List PoolOutput) (blinding : Scalar) (net : UInt64) (asset : UInt32) :
    Prop where
  points : (outputs.map point).sum =
    blinding.residue • curveG + (net.toNat : ℤ) • curveAsset asset
  amounts (a : UInt32) : (outputs.map (amountIn a)).sum = if a = asset then (net.toNat : ℤ) else 0

theorem pay_nothing (asset : UInt32) : Pay [] 0 0 asset where
  points := by
    rw [List.map_nil, List.sum_nil, Scalar.residue_zero, UInt64.toNat_zero]
    module
  amounts a := by
    rw [UInt64.toNat_zero, Nat.cast_zero, ite_self]
    rfl

theorem pay_one (blinding : Scalar) (net : UInt64) (asset : UInt32) :
    Pay [⟨blinding, net, asset⟩] blinding net asset where
  points := by
    rw [List.map_singleton, List.sum_singleton]
    rfl
  amounts a := by
    rw [List.map_singleton, List.sum_singleton, amountIn]
    simp only [eq_comm]

end PoolOutput

def Request.ownKernel? : Request → Option KernelParams
  | split r => some r.kernel
  | sendShielded r => some r.kernel
  | _ => none

namespace Device

/-- What an own kernel carries besides the coins of the balance: the kernels nested in it, and the
outputs to the pool that were checked for it. -/
inductive Carries (d : Device) (b : Ledger) : Request → List (Bytes 32) → List PoolOutput → Prop
  | split (r : Split) : Carries d b (.split r) [] []
  | shielded {r : SendShielded} {net : UInt64} {asset : UInt32} {blinding : Scalar}
      {id : Bytes 32} :
      b.net (some r.kernel.fee) = .ok (net, asset) →
      r.verifyOutput? d.master net asset = some (blinding, id) →
      Carries d b (.sendShielded r) [id] [⟨blinding, net, asset⟩]

theorem settled_ownKernel {r : Request} {kernel : KernelParams} (h : r.ownKernel? = some kernel) :
    r.settled = some kernel.fee := by
  cases r with
  | split r => exact congrArg (Option.map KernelParams.fee) h
  | sendShielded r => exact congrArg (Option.map KernelParams.fee) h
  | _ => cases h

section Answered

variable {d : Device} {s : State} {request : List UInt8} {capacity : Nat}
  {approve : SpendPrompt → Bool} {r : Request} {kernel : KernelParams} {reply : SignedKernel}

/-- How an own kernel was signed that was given out. -/
theorem ownKernel_signed (hrequest : Request.ofList? request = some r)
    (hkernel : r.ownKernel? = some kernel)
    (hanswer : (d.perform s (.invoke request capacity approve)).bytes =
      StatusMajor.ok.toByte :: SignedKernel.layout.write reply) :
    ∃ b keys further net asset nested outputs,
      s.session = some b ∧ b.net (some kernel.fee) = .ok (net, asset) ∧
        Carries d b r nested outputs ∧ PoolOutput.Pay outputs further net asset ∧
        reply = ⟨keys.points, signature b keys further keys.points.noncePub
          (kernel.id keys.points nested)⟩ := by
  have hreply : ∀ {reply' : SignedKernel}, StatusMajor.ok.toByte ::
      SignedKernel.layout.write reply' = StatusMajor.ok.toByte :: SignedKernel.layout.write reply →
      reply' = reply := fun h => SignedKernel.layout_exact.injective (List.cons.inj h).2
  obtain ⟨r', reply', events, u, hr', heffect, hinvoke⟩ :=
    accepted_effect (accepted_cons hanswer)
  cases hrequest.symm.trans hr'
  rw [perform, hinvoke] at hanswer
  cases heffect with
  | added _ => cases hkernel
  | closed _ _ _ => cases hkernel
  | still _ hsettled _ =>
    have hnone := hsettled _ rfl
    rw [settled_ownKernel hkernel] at hnone
    cases hnone
  | @split r b prompt signed hb hplan _ =>
    cases hkernel
    obtain ⟨asset, hnet, _, hsigned⟩ := planSplit_ok hplan
    cases hreply hanswer
    exact ⟨b, r.keys b, 0, 0, asset, [], [], hb, hnet, .split r, PoolOutput.pay_nothing asset,
      hsigned⟩
  | @shielded r b prompt signed hb hplan _ =>
    cases hkernel
    obtain ⟨net, asset, blinding, id, hnet, _, _, hverify, _, hsigned⟩ := planSendShielded_ok hplan
    cases hreply hanswer
    exact ⟨b, r.keys b id, blinding, net, asset, [id], _, hb, hnet, .shielded hnet hverify,
      PoolOutput.pay_one blinding net asset, hsigned⟩

end Answered

/-- From the start on, whatever was listed and signed before: an own kernel that is given out
verifies, over the kernels nested in it. The commitments of the coins listed and of the outputs to
the pool, the kernel's commitment, its offset and all fees sum up to nothing, and so do the amounts
in every asset. -/
theorem own_kernel_balances (d : Device) (slots : UInt32 → Bytes 32) (steps : List Step)
    {request : List UInt8} {capacity : Nat} {approve : SpendPrompt → Bool} {r : Request}
    {kernel : KernelParams} {reply : SignedKernel}
    (hrequest : Request.ofList? request = some r) (hkernel : r.ownKernel? = some kernel)
    (hanswer : (d.perform (d.after (.fresh slots) steps)
      (.invoke request capacity approve)).bytes =
        StatusMajor.ok.toByte :: SignedKernel.layout.write reply) :
    let entries := (d.tally (.fresh slots) steps).entries
    ∃ b nested outputs, (d.after (.fresh slots) steps).session = some b ∧
      Carries d b r nested outputs ∧
      Signature.verify ⟨reply.points.noncePub, reply.signature.response⟩
        (kernel.id reply.points nested) reply.points.commitment = true ∧
      total? (entries.map (Entry.commitment? d.master) ++
        outputs.map (fun o => some o.commitment) ++
        [reply.points.commitment.toPoint?,
          some (commitScalar (.reduce reply.signature.offset)
            (.ofNat (kernel.fee.toNat + b.shieldedFees.toNat)) none)]) = some .infinity ∧
      ∀ asset, (entries.map (Entry.amountIn asset)).sum +
        (outputs.map (PoolOutput.amountIn asset)).sum +
        (if asset = 0 then (kernel.fee.toNat + b.shieldedFees.toNat : ℤ) else 0) = 0 := by
  intro entries
  obtain ⟨b, keys, further, net, asset, nested, outputs, hb, hnet, hcarries, hpay, rfl⟩ :=
    ownKernel_signed hrequest hkernel hanswer
  have haccounts : Ledger.Accounts d.master d.policy entries _ b :=
    after_kept steps (kept_none rfl) b hb
  have hnets := haccounts.nets hnet
  refine ⟨b, nested, outputs, hb, hcarries, ?_, ?_, ?_⟩
  · exact KernelKeys.sign_verifies _ keys.points_commitment keys.points_noncePub
  · refine total?_infinity (entries.map (Entry.point d.master) ++ outputs.map PoolOutput.point ++
      [keys.blinding.residue • curveG,
        (Scalar.reduce (b.offset (keys.blinding + further))).residue • curveG +
          (kernel.fee.toNat + b.shieldedFees.toNat) • curveH]) ?_ ?_
    · simp only [List.map_append, List.map_cons, List.map_nil, List.map_map, Function.comp_def,
        Entry.commitment?_eq, PoolOutput.commitment_eq, KernelKeys.points_commitment,
        commitNative_eq, signature]
    · have hpoints := haccounts.sum_point hnets
      rw [Option.getD_some, Ledger.signed] at hpoints
      rw [reduce_offset, Scalar.residue_add]
      simp only [List.sum_append, List.sum_cons, List.sum_nil, hpay.points]
      calc _ = ((entries.map (Entry.point d.master)).sum +
            (kernel.fee.toNat + b.shieldedFees.toNat) • curveH) +
            (net.toNat : ℤ) • curveAsset asset - b.blinding.residue • curveG := by module
        _ = 0 := by
          rw [hpoints]
          module
  · intro a
    have hamounts := haccounts.sum_amountIn hnets a
    rw [hpay.amounts]
    simp only [Option.getD_some, Ledger.signed] at hamounts
    split_ifs at hamounts ⊢ <;> omega

theorem planSplit_of_net {b : Ledger} {r : Split} {asset : UInt32}
    (hnet : b.net (some r.kernel.fee) = .ok (0, asset)) :
    ∃ prompt reply, planSplit b r = .ok (prompt, reply) := by
  rw [planSplit_of_amount hnet]
  exact ⟨_, _, rfl⟩

/-- A coin of 1000 split into one of 980 and a fee of 20. -/
theorem own_kernel_balances_split :
    let d := Sample.device (.zero 32)
    let s := State.fresh fun _ => .zero 32
    let steps := [Sample.listing 1 [Sample.coin 1 1000 0] [Sample.coin 2 980 0]]
    let kernel : KernelParams := ⟨20, 1, 100⟩
    ∃ reply : SignedKernel,
      (d.perform (d.after s steps)
        (.invoke (Request.split ⟨kernel⟩).toList 131 fun _ => true)).bytes =
          0 :: SignedKernel.layout.write reply ∧
      kernel.signedBy reply.points reply.signature.response = true := by
  intro d s steps kernel
  obtain ⟨b, hb, hnet⟩ : ∃ b : Ledger, (d.after s steps).session = some b ∧
      b.net (some kernel.fee) = .ok (0, 0) := ⟨_, rfl, rfl⟩
  obtain ⟨prompt, reply, hplan⟩ := planSplit_of_net (r := ⟨kernel⟩) hnet
  have hanswer : d.answer (fun _ => true) 130 (.split ⟨kernel⟩) (d.after s steps) = _ :=
    Act.wrap_ok Reply.signedKernel (signPlanned_ok hb hplan rfl)
  have hperform : d.perform (d.after s steps)
      (.invoke (Request.split ⟨kernel⟩).toList 131 fun _ => true) = _ :=
    perform_ok (by decide) hanswer
  obtain ⟨b', nested, outputs, _, hcarries, hverify, _⟩ :=
    own_kernel_balances d (fun _ => .zero 32) steps (Request.ofList?_toList (.split ⟨kernel⟩)) rfl
      (congrArg Response.bytes hperform)
  cases hcarries
  exact ⟨reply, congrArg Response.bytes hperform, hverify⟩

end Device

end ColdWallet
