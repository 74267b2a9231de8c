import ColdWallet.Proofs.Device.Ledger
import ColdWallet.Proofs.Keys.Coin
import ColdWallet.Proofs.Signature

namespace ColdWallet

/-- The sum of points, if all of them are there. -/
def total? : List (Option Point) → Option Point
  | [] => some .infinity
  | p :: points => do return (← p) + (← total? points)

theorem total?_ofCurve (group : List CurvePoint) :
    total? (group.map fun P => some (.ofCurve P)) = some (.ofCurve group.sum) := by
  induction group with
  | nil => rfl
  | cons P group ih =>
    rw [List.map_cons, total?, ih, List.sum_cons, Point.ofCurve_add]
    rfl

theorem total?_infinity {points : List (Option Point)} (group : List CurvePoint)
    (h : points = group.map fun P => some (.ofCurve P)) (hsum : group.sum = 0) :
    total? points = some .infinity := by
  rw [h, total?_ofCurve, hsum]
  rfl

namespace Entry

variable {master : KeyNode} {policy : Policy} {entries : List Entry} {fees : List UInt64}
  {b : Ledger}

/-- What an entry adds to the sum of commitments: an output its own, an input its own taken off. -/
def commitment? (master : KeyNode) : Entry → Option Point
  | input c => do return -(← (c.blindingCommitment master).2.toPoint?)
  | output c => (c.blindingCommitment master).2.toPoint?
  | shielded s => some (-commit (s.blinding master) s.terms.amount (assetGenerator s.terms.asset))

noncomputable def point (master : KeyNode) (e : Entry) : CurvePoint :=
  (e.blinding master).residue • curveG + e.amount • curveAsset e.asset

theorem commitment?_eq (master : KeyNode) :
    commitment? master = fun e => some (.ofCurve (e.point master)) := by
  funext e
  cases e with
  | input c =>
    simp only [commitment?, point, blinding, amount, asset, CoinId.commitment_eq]
    show some (-Point.ofCurve _) = _
    rw [← Point.ofCurve_neg, Scalar.residue_neg]
    congr 2
    module
  | output c => exact c.commitment_eq master
  | shielded s =>
    simp only [commitment?, point, blinding, amount, asset, commit_eq]
    rw [← Point.ofCurve_neg, Scalar.residue_neg]
    congr 2
    module

def amountIn (asset : UInt32) (e : Entry) : Int := if e.asset = asset then e.amount else 0

/-- An entry of the native asset or of this one, with its fee. -/
theorem point_add_fee (master : KeyNode) {e : Entry} {asset : UInt32}
    (h : e.asset ≠ 0 → e.asset = asset) :
    e.point master + e.fee.toNat • curveH =
      (e.blinding master).residue • curveG + e.native • curveH +
        e.foreign • curveAsset asset := by
  unfold point native foreign
  by_cases hz : e.asset = 0
  · rw [if_pos hz, if_pos hz, hz, curveAsset_zero]
    module
  · rw [if_neg hz, if_neg hz, ← h hz]
    module

theorem sum_point (master : KeyNode) {asset : UInt32}
    (h : ∀ e ∈ entries, e.asset ≠ 0 → e.asset = asset) :
    (entries.map (point master)).sum + (entries.map fun e => e.fee.toNat).sum • curveH =
      (entries.map (Entry.blinding master)).sum.residue • curveG +
        (entries.map native).sum • curveH + (entries.map foreign).sum • curveAsset asset := by
  induction entries with
  | nil =>
    simp only [List.map_nil, List.sum_nil, Scalar.residue_zero]
    module
  | cons e entries ih =>
    have hentry := point_add_fee master (h e List.mem_cons_self)
    have hrest := ih fun x hx => h x (List.mem_cons_of_mem e hx)
    simp only [List.map_cons, List.sum_cons, Scalar.residue_add]
    calc _ = (e.point master + e.fee.toNat • curveH) +
          ((entries.map (point master)).sum +
            (entries.map fun e => e.fee.toNat).sum • curveH) := by module
      _ = _ := by
        rw [hentry, hrest]
        module

theorem sum_amountIn (asset : UInt32) {other : UInt32}
    (h : ∀ e ∈ entries, e.asset ≠ 0 → e.asset = other) :
    (entries.map (amountIn asset)).sum =
      if asset = 0 then (entries.map native).sum - (entries.map fun e => e.fee.toNat).sum
      else if asset = other then (entries.map foreign).sum else 0 := by
  induction entries with
  | nil => simp
  | cons e entries ih =>
    have hentry : e.amountIn asset =
        if asset = 0 then e.native - e.fee.toNat
        else if asset = other then e.foreign else 0 := by
      have he := h e List.mem_cons_self
      unfold amountIn native foreign
      split_ifs <;> first | omega | simp_all
    simp only [List.map_cons, List.sum_cons, hentry, ih fun x hx => h x (List.mem_cons_of_mem e hx)]
    split_ifs <;> push_cast <;> omega

end Entry

namespace Ledger

variable {master : KeyNode} {policy : Policy} {entries : List Entry} {fees : List UInt64}
  {b : Ledger} {fee : Option UInt64} {v : UInt64} {a : UInt32}

/-- The amount found as net, signed: it leaves the wallet if a fee is paid, else it arrives. -/
def signed (fee : Option UInt64) (v : UInt64) : Int :=
  match fee with
  | some _ => -v.toNat
  | none => v.toNat

/-- The balance moves this net amount of this asset, besides the fee. -/
structure Nets (b : Ledger) (fee : Option UInt64) (v : UInt64) (a : UInt32) : Prop where
  native : b.native + (fee.getD 0).toNat = if a = 0 then signed fee v else 0
  foreign : b.foreign = if a = 0 then 0 else signed fee v
  asset : a ≠ 0 → a = b.asset

theorem natAbs_toNat {w : Int} (h : inRange w = true) :
    (UInt64.ofNat w.natAbs).toNat = w.natAbs := by
  simp only [inRange, Bool.and_eq_true, decide_eq_true_eq] at h
  have hmin : Int64.minValue.toInt = -2 ^ 63 := rfl
  have hmax : Int64.maxValue.toInt = 2 ^ 63 - 1 := rfl
  rw [UInt64.toNat_ofNat']
  omega

/-- What a sum in range gives as an amount, once its sign is known. -/
theorem signed_amount {w : Int} (h : inRange w = true)
    (hsign : match fee with | some _ => w ≤ 0 | none => 0 < w) :
    signed fee (UInt64.ofNat w.natAbs) = w := by
  cases fee with
  | some _ =>
    simp only [signed, natAbs_toNat h]
    simp only at hsign
    omega
  | none =>
    simp only [signed, natAbs_toNat h]
    simp only at hsign
    omega

theorem net_ok (hbounded : b.Bounded) (hnet : b.net fee = .ok (v, a)) :
    b.foreign = 0 ∧ a = 0 ∧ signed fee v = b.native + (fee.getD 0).toNat ∨
      b.foreign ≠ 0 ∧ a = b.asset ∧ signed fee v = b.foreign ∧
        b.native + (fee.getD 0).toNat = 0 := by
  cases fee with
  | some fee =>
    simp only [net, except_bind_ok, except_guard_ok] at hnet
    obtain ⟨native, hnative, hmixed, hnet⟩ := hnet
    obtain ⟨rfl, hrange⟩ := checked_ok hnative
    by_cases hforeign : b.foreign = 0
    · simp only [if_pos hforeign, except_throw_ok, except_pure_ok, Prod.mk.injEq] at hnet
      obtain ⟨hsign, rfl, rfl⟩ := hnet
      exact Or.inl ⟨hforeign, rfl, signed_amount hrange (Int.not_lt.mp hsign)⟩
    · simp only [if_neg hforeign, except_throw_ok, except_pure_ok, Prod.mk.injEq] at hnet
      obtain ⟨hsign, rfl, rfl⟩ := hnet
      refine Or.inr ⟨hforeign, rfl, signed_amount hbounded.2 (Int.not_lt.mp hsign), ?_⟩
      exact by_contra fun hne => hmixed ⟨hforeign, hne⟩
  | none =>
    simp only [net, except_bind_ok, except_guard_ok] at hnet
    obtain ⟨native, hnative, hmixed, hnet⟩ := hnet
    cases hnative
    have hzero : ((Option.getD none 0 : UInt64).toNat : Int) = 0 := rfl
    rw [hzero, Int.add_zero]
    by_cases hforeign : b.foreign = 0
    · simp only [if_pos hforeign, except_throw_ok, except_pure_ok, Prod.mk.injEq] at hnet
      obtain ⟨hsign, rfl, rfl⟩ := hnet
      exact Or.inl ⟨hforeign, rfl, signed_amount hbounded.1 (Int.not_le.mp hsign)⟩
    · simp only [if_neg hforeign, except_throw_ok, except_pure_ok, Prod.mk.injEq] at hnet
      obtain ⟨hsign, rfl, rfl⟩ := hnet
      refine Or.inr ⟨hforeign, rfl, signed_amount hbounded.2 (Int.not_le.mp hsign), ?_⟩
      exact by_contra fun hne => hmixed ⟨hforeign, hne⟩

theorem Accounts.asset_ne_zero (h : Accounts master policy entries fees b)
    (hforeign : b.foreign ≠ 0) : b.asset ≠ 0 := by
  intro hz
  apply hforeign
  rw [h.foreign]
  apply List.sum_eq_zero
  intro x hx
  obtain ⟨e, he, rfl⟩ := List.mem_map.mp hx
  exact if_pos (h.noAsset.mp hz e he)

/-- On a balance that accounts for its coins, the net amount is all that it moves. -/
theorem Accounts.nets (h : Accounts master policy entries fees b)
    (hnet : b.net fee = .ok (v, a)) : b.Nets fee v a := by
  rcases net_ok h.bounded hnet with ⟨hforeign, rfl, hv⟩ | ⟨hforeign, rfl, hv, hnative⟩
  · refine ⟨?_, ?_, fun h => absurd rfl h⟩
    · rw [if_pos rfl, hv]
    · rw [if_pos rfl, hforeign]
  · have hasset := h.asset_ne_zero hforeign
    refine ⟨?_, ?_, fun _ => rfl⟩
    · rw [if_neg hasset, hnative]
    · rw [if_neg hasset, hv]

/-- The points of the coins, with all fees, are the blinding factor and the net amount. -/
theorem Accounts.sum_point (h : Accounts master policy entries fees b) (hnets : b.Nets fee v a) :
    (entries.map (Entry.point master)).sum +
        ((fee.getD 0).toNat + b.shieldedFees.toNat) • curveH =
      b.blinding.residue • curveG + signed fee v • curveAsset a := by
  have hsum := Entry.sum_point master h.asset
  rw [← h.blinding, ← h.native, ← h.foreign, ← h.shieldedFees] at hsum
  have hnative := hnets.native
  have hforeign := hnets.foreign
  have hmoved : b.native • curveH + ((fee.getD 0).toNat : Int) • curveH +
      b.foreign • curveAsset b.asset = signed fee v • curveAsset a := by
    rw [← add_zsmul, hnative, hforeign]
    by_cases hz : a = 0
    · rw [if_pos hz, if_pos hz, hz, curveAsset_zero]
      module
    · rw [if_neg hz, if_neg hz, ← hnets.asset hz]
      module
  calc _ = (entries.map (Entry.point master)).sum + b.shieldedFees.toNat • curveH +
        (fee.getD 0).toNat • curveH := by module
    _ = b.blinding.residue • curveG + (b.native • curveH +
        ((fee.getD 0).toNat : Int) • curveH + b.foreign • curveAsset b.asset) := by
      rw [hsum]
      module
    _ = _ := by rw [hmoved]

/-- In each asset the amounts of the coins and the fees make the net amount. -/
theorem Accounts.sum_amountIn (h : Accounts master policy entries fees b)
    (hnets : b.Nets fee v a) (asset : UInt32) :
    (entries.map (Entry.amountIn asset)).sum +
        (if asset = 0 then ((fee.getD 0).toNat + b.shieldedFees.toNat : Int) else 0) =
      if asset = a then signed fee v else 0 := by
  rw [Entry.sum_amountIn asset h.asset, ← h.native, ← h.foreign, ← h.shieldedFees]
  have hnative := hnets.native
  have hforeign := hnets.foreign
  by_cases hasset : asset = 0
  · rw [if_pos hasset, if_pos hasset, hasset]
    simp only [eq_comm (a := (0 : UInt32))]
    omega
  · rw [if_neg hasset, if_neg hasset]
    by_cases hz : a = 0
    · rw [if_pos hz] at hforeign
      rw [hforeign, ite_self, hz, if_neg hasset, Int.add_zero]
    · rw [if_neg hz] at hforeign
      rw [hforeign, hnets.asset hz, Int.add_zero]

end Ledger

namespace KernelKeys

/-- The keys of two signers together, which neither of them knows. -/
def join (k l : KernelKeys) : KernelKeys := ⟨k.blinding + l.blinding, k.nonce + l.nonce⟩

/-- Shares under a joint public nonce add up to the response of the joint keys. -/
theorem sign_add (k l : KernelKeys) (noncePub : CompactPoint) (id : Bytes 32) :
    (Scalar.reduce (k.sign noncePub id) + Scalar.reduce (l.sign noncePub id)).toBytes =
      (k.join l).sign noncePub id := by
  unfold sign join
  rw [Scalar.reduce_toBytes, Scalar.reduce_toBytes, signShare_add]

theorem sign_verifies {k : KernelKeys} {points : KernelPoints} (id : Bytes 32)
    (hcommitment : points.commitment.toPoint? = some (.ofCurve (k.blinding.residue • curveG)))
    (hnonce : points.noncePub.toPoint? = some (.ofCurve (k.nonce.residue • curveG))) :
    Signature.verify ⟨points.noncePub, k.sign points.noncePub id⟩ id points.commitment = true :=
  Signature.share_verifies id hcommitment hnonce

theorem points_commitment (k : KernelKeys) :
    k.points.commitment.toPoint? = some (.ofCurve (k.blinding.residue • curveG)) :=
  toPoint?_mulG k.blinding

theorem points_noncePub (k : KernelKeys) :
    k.points.noncePub.toPoint? = some (.ofCurve (k.nonce.residue • curveG)) :=
  toPoint?_mulG k.nonce

end KernelKeys

theorem reduce_offset (b : Ledger) (k : Scalar) :
    (Scalar.reduce (b.offset k)).residue = -(b.blinding.residue + k.residue) := by
  rw [Ledger.offset, Scalar.reduce_toBytes, Scalar.residue_neg, Scalar.residue_add]

/-- An offset and fees, as they enter the sum of a transaction. -/
theorem commitNative_eq (offset : Scalar) (fees : ℕ) :
    commitScalar offset (.ofNat fees) none =
      .ofCurve (offset.residue • curveG + fees • curveH) := by
  have hnone : AssetGenerator.OnCurve none := nofun
  rw [commitScalar_eq _ _ hnone, Scalar.residue_ofNat, Nat.cast_smul_eq_nsmul]
  rfl

end ColdWallet
