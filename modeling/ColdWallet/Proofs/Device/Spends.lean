import ColdWallet.Proofs.Cosigning
import ColdWallet.Proofs.Device.Run
import ColdWallet.Proofs.Kernel
import ColdWallet.Proofs.Shielded.Spend

namespace ColdWallet

/-- What the nonces of a spend are drawn from: what is visible by then, and the secrets behind. One
triple of nonces serves a signature under two challenges and a blinded decoy, so two spends may
share it only if they are one. -/
@[ext]
structure NonceInputs where
  kernelHash : Bytes 32
  poolState : Bytes 32
  generator : Option CompactPoint
  sigmaN : UInt32
  sigmaM : UInt32
  outputCommitment : CompactPoint
  spendPub : CompactPoint
  signatureHash : Bytes 32
  abcd : Vector CompactPoint 4
  decoys : List CompactPoint
  outputBlinding : Scalar
  assetKey : Bytes 32
  outputKey : Bytes 32

namespace NonceInputs

def write (x : NonceInputs) : List UInt8 :=
  x.kernelHash.toList ++ x.poolState.toList ++ Write.pointOption x.generator ++
    Write.num32 x.sigmaN ++ Write.num32 x.sigmaM ++ Write.point x.outputCommitment ++
    Write.point x.spendPub ++ x.signatureHash.toList ++ x.abcd.toList.flatMap Write.point ++
    x.decoys.flatMap Write.point ++ Write.scalar x.outputBlinding ++ x.assetKey.toList ++
    x.outputKey.toList

/-- The decoys have no count before them, but what follows them has a fixed width. -/
theorem decoys_length {decoys decoys' : List CompactPoint} {s t : List UInt8}
    (hwidth : s.length = t.length)
    (h : decoys.flatMap Write.point ++ s = decoys'.flatMap Write.point ++ t) :
    decoys.length = decoys'.length := by
  have hcount : ∀ l : List CompactPoint, (l.flatMap Write.point).length = l.length * 33 :=
    CompactPoint.layout_exact.length_flatMap
  have hlength := congrArg List.length h
  rw [List.length_append, List.length_append, hcount, hcount] at hlength
  omega

/-- The bytes can be read in one way only, for whatever numbers of decoys. -/
theorem write_injective : Function.Injective write := by
  intro x y h
  simp only [write, List.append_assoc] at h
  obtain ⟨hkernel, h⟩ := Write.bytes_prefixFree 32 h
  obtain ⟨hpool, h⟩ := Write.bytes_prefixFree 32 h
  obtain ⟨hgenerator, h⟩ := Write.pointOption_prefixFree h
  obtain ⟨hn, h⟩ := Write.num32_prefixFree h
  obtain ⟨hm, h⟩ := Write.num32_prefixFree h
  obtain ⟨hcommitment, h⟩ := Write.point_prefixFree h
  obtain ⟨hspend, h⟩ := Write.point_prefixFree h
  obtain ⟨hhash, h⟩ := Write.bytes_prefixFree 32 h
  have hfour : x.abcd.toList.length = y.abcd.toList.length := by
    rw [Vector.length_toList, Vector.length_toList]
  obtain ⟨habcd, h⟩ := Write.point_prefixFree.flatMap hfour h
  have hsecrets : ∀ z : NonceInputs, (Write.scalar z.outputBlinding ++ (z.assetKey.toList ++
      z.outputKey.toList)).length = 96 := by
    intro z
    simp only [Write.scalar, List.length_append, Vector.length_toList]
  have hcount := decoys_length ((hsecrets x).trans (hsecrets y).symm) h
  obtain ⟨hdecoys, h⟩ := Write.point_prefixFree.flatMap hcount h
  obtain ⟨hblinding, h⟩ := Write.scalar_prefixFree h
  obtain ⟨hasset, houtput⟩ := Write.bytes_prefixFree 32 h
  exact NonceInputs.ext hkernel hpool hgenerator hn hm hcommitment hspend hhash
    (Vector.toList_inj.mp habcd) hdecoys hblinding hasset (Vector.toList_inj.mp houtput)

/-- The hash that the signature is over, with the transcript after it. -/
def opened (x : NonceInputs) : Bytes 32 × Transcript :=
  (x.signatureHash, x.kernelHash.toList ++ x.poolState.toList ++ Write.pointOption x.generator ++
    Write.num32 x.sigmaN ++ Write.num32 x.sigmaM ++ Write.point x.outputCommitment ++
    Write.point x.spendPub ++ x.signatureHash.toList)

end NonceInputs

/-- Fee and heights, and the end of the window after them, can be read off a kernel's message. -/
theorem SpendShielded.kernelMessage_inj {r r' : SpendShielded}
    (h : r.kernelMessage = r'.kernelMessage) :
    r.input.terms.fee = r'.input.terms.fee ∧ r.window.minHeight = r'.window.minHeight ∧
      r.window.maxHeight = r'.window.maxHeight ∧ r.window.windowEnd = r'.window.windowEnd := by
  obtain ⟨hparams, hend⟩ := KernelParams.specialMessage_prefixFree _ h
  exact ⟨congrArg KernelParams.fee hparams, congrArg KernelParams.minHeight hparams,
    congrArg KernelParams.maxHeight hparams, Write.num_prefixFree.injective hend⟩

theorem ShieldedInput.keyPreimage_inj {i i' : ShieldedInput}
    (h : i.keyPreimage = i'.keyPreimage) :
    i.terms.amount = i'.terms.amount ∧ i.terms.asset = i'.terms.asset := by
  simp only [keyPreimage, List.append_assoc] at h
  obtain ⟨hamount, h⟩ := Write.num_prefixFree (List.append_cancel_left h)
  exact ⟨hamount, (Write.num32_prefixFree h).1⟩

namespace SpendShielded

def spendKey? (r : SpendShielded) (master : KeyNode) : Option Scalar :=
  (Scalar.ofBytes? r.input.secret.serialBlinding).map (r.spendKey master)

/-- What the nonces of a spend are drawn from, under its key and with its decoys. -/
def nonceInputs (r : SpendShielded) (master : KeyNode) (spendKey : Scalar)
    (decoys : List CompactPoint) : NonceInputs where
  kernelHash := sha256 r.kernelMessage
  poolState := r.poolState
  generator := r.generator.ifPresent
  sigmaN := r.window.sigmaN
  sigmaM := r.window.sigmaM
  outputCommitment := (r.outputCommitment master).compact
  spendPub := (mulG spendKey).compact
  signatureHash := sha256 (r.opening (r.outputCommitment master) (mulG spendKey))
  abcd := r.abcd
  decoys
  outputBlinding := r.input.blinding master
  assetKey := r.assetKey
  outputKey := r.outputKey

/-- The same, if the serial blinding is a scalar and the decoys are whole. -/
def nonceInputs? (r : SpendShielded) (master : KeyNode) : Option NonceInputs := do
  return r.nonceInputs master (← r.spendKey? master) (← r.wholeDecoys?)

/-- An answer whose nonces are drawn from the hash of these inputs. -/
structure DrawnFrom (r : SpendShielded) (master : KeyNode) (x : NonceInputs) (a : SpentShielded) :
    Prop where
  inputs : r.nonceInputs? master = some x
  answer : ∃ spendKey decoyPoint, r.spendKey? master = some spendKey ∧
    x.decoys.head?.bind CompactPoint.toPoint? = some decoyPoint ∧
    a = r.respond x.outputBlinding spendKey x.opened (.ofSeed (sha256 x.write)) decoyPoint
      (x.decoys.drop 1)

/-- The parts of two spends that their answers depend on are the same. -/
structure SameSpend (master : KeyNode) (r r' : SpendShielded) : Prop where
  fee : r.input.terms.fee = r'.input.terms.fee
  minHeight : r.window.minHeight = r'.window.minHeight
  maxHeight : r.window.maxHeight = r'.window.maxHeight
  windowEnd : r.window.windowEnd = r'.window.windowEnd
  poolState : r.poolState = r'.poolState
  generator : r.generator.ifPresent = r'.generator.ifPresent
  sigmaN : r.window.sigmaN = r'.window.sigmaN
  sigmaM : r.window.sigmaM = r'.window.sigmaM
  spendKey : r.spendKey? master = r'.spendKey? master
  amount : r.input.terms.amount = r'.input.terms.amount
  asset : r.input.terms.asset = r'.input.terms.asset
  abcd : r.abcd = r'.abcd
  decoys : r.decoys = r'.decoys
  assetKey : r.assetKey = r'.assetKey
  outputKey : r.outputKey = r'.outputKey

variable {r r' : SpendShielded} {master : KeyNode} {x : NonceInputs} {a a' : SpentShielded}

section Drawn

variable (r : SpendShielded) (master : KeyNode) (spendKey : Scalar) (decoys : List CompactPoint)

theorem opened_nonceInputs : (r.nonceInputs master spendKey decoys).opened =
    Transcript.challengeHash (r.opening (r.outputCommitment master) (mulG spendKey)) := rfl

theorem write_nonceInputs : (r.nonceInputs master spendKey decoys).write =
    r.nonceMaterial ((r.nonceInputs master spendKey decoys).opened.2 ++
      r.abcd.toList.flatMap Write.point) decoys (r.input.blinding master) := rfl

end Drawn

theorem drawn_of_prove (h : r.prove master = .ok a) : ∃ x, r.DrawnFrom master x a := by
  cases hserial : Scalar.ofBytes? r.input.secret.serialBlinding with
  | none =>
    rw [prove_overflow hserial] at h
    cases h
  | some serial =>
    cases hfirst : r.firstDecoy? with
    | none =>
      rw [prove_decoy hserial hfirst] at h
      cases h
    | some decoyPoint =>
      obtain ⟨decoy₀, decoys, hwhole, hpoint⟩ := firstDecoy?_eq_some hfirst
      have hkey : r.spendKey? master = some (r.spendKey master serial) := by
        rw [spendKey?, hserial]
        rfl
      refine ⟨r.nonceInputs master (r.spendKey master serial) (decoy₀ :: decoys), ?_,
        r.spendKey master serial, decoyPoint, hkey, hpoint, ?_⟩
      · unfold nonceInputs?
        rw [hkey, hwhole]
        rfl
      · rw [prove_ok hserial hwhole hpoint, nonces, ← opened_eq,
          ← r.opened_nonceInputs master _ (decoy₀ :: decoys), ← write_nonceInputs] at h
        exact (Except.ok.inj h).symm

theorem nonceInputs?_some (h : r.nonceInputs? master = some x) :
    ∃ spendKey decoys, r.spendKey? master = some spendKey ∧ r.wholeDecoys? = some decoys ∧
      r.nonceInputs master spendKey decoys = x := by
  unfold nonceInputs? at h
  cases hkey : r.spendKey? master with
  | none => simp [hkey] at h
  | some spendKey =>
    cases hwhole : r.wholeDecoys? with
    | none => simp [hkey, hwhole] at h
    | some decoys =>
      simp only [hkey, hwhole, Option.bind_eq_bind, Option.bind_some] at h
      exact ⟨spendKey, decoys, rfl, rfl, Option.some.inj h⟩

/-- A generator that is not there is not looked at. -/
theorem nonceInputs?_generator {generator : CompactPoint}
    (h : generator.ifPresent = r.generator.ifPresent) :
    ({ r with generator := generator } : SpendShielded).nonceInputs? master =
      r.nonceInputs? master := by
  unfold nonceInputs? nonceInputs opening
  simp only [h]
  rfl

/-- The response only looks at what these parts of the request say. -/
theorem respond_congr (h : SameSpend master r r') (output spendKey : Scalar)
    (opened : Bytes 32 × Transcript) (n : SpendNonces) (decoyPoint : Point)
    (decoys : List CompactPoint) :
    r.respond output spendKey opened n decoyPoint decoys =
      r'.respond output spendKey opened n decoyPoint decoys := by
  unfold respond signatureResponses decoyResponse
  rw [h.asset, h.amount, h.assetKey, h.outputKey, h.sigmaM, h.abcd]

/-- Spends that draw their nonces from one string are one spend, as far as their answers depend on
them, and answered alike. -/
theorem DrawnFrom.same {x' : NonceInputs} (h : r.DrawnFrom master x a)
    (h' : r'.DrawnFrom master x' a') (hwrite : x.write = x'.write)
    (hkernel : sha256 r.kernelMessage = sha256 r'.kernelMessage →
      r.kernelMessage = r'.kernelMessage)
    (hinput : r.input.blinding master = r'.input.blinding master →
      r.input.keyPreimage = r'.input.keyPreimage) :
    SameSpend master r r' ∧ a = a' := by
  obtain rfl : x = x' := NonceInputs.write_injective hwrite
  obtain ⟨hinputs, spendKey, decoyPoint, hkey, hpoint, ha⟩ := h
  obtain ⟨hinputs', spendKey', decoyPoint', hkey', hpoint', ha'⟩ := h'
  obtain ⟨k, decoys, hk, hwhole, hx⟩ := nonceInputs?_some hinputs
  obtain ⟨k', decoys', hk', hwhole', hx'⟩ := nonceInputs?_some hinputs'
  have hsame : r.nonceInputs master k decoys = r'.nonceInputs master k' decoys' :=
    hx.trans hx'.symm
  obtain ⟨hfee, hmin, hmax, hend⟩ :=
    kernelMessage_inj (hkernel (congrArg NonceInputs.kernelHash hsame))
  obtain ⟨hamount, hasset⟩ :=
    ShieldedInput.keyPreimage_inj (hinput (congrArg NonceInputs.outputBlinding hsame))
  obtain rfl : k = k' := mulG_compact_injective (congrArg NonceInputs.spendPub hsame)
  obtain rfl : decoys = decoys' := congrArg NonceInputs.decoys hsame
  have hspend : SameSpend master r r' := {
    fee := hfee
    minHeight := hmin
    maxHeight := hmax
    windowEnd := hend
    poolState := congrArg NonceInputs.poolState hsame
    generator := congrArg NonceInputs.generator hsame
    sigmaN := congrArg NonceInputs.sigmaN hsame
    sigmaM := congrArg NonceInputs.sigmaM hsame
    spendKey := hk.trans hk'.symm
    amount := hamount
    asset := hasset
    abcd := congrArg NonceInputs.abcd hsame
    decoys := (decoys_of_whole hwhole).trans (decoys_of_whole hwhole').symm
    assetKey := congrArg NonceInputs.assetKey hsame
    outputKey := congrArg NonceInputs.outputKey hsame }
  refine ⟨hspend, ?_⟩
  obtain rfl : spendKey = spendKey' :=
    Option.some.inj (hkey.symm.trans (hspend.spendKey.trans hkey'))
  obtain rfl : decoyPoint = decoyPoint' := Option.some.inj (hpoint.symm.trans hpoint')
  rw [ha, ha', respond_congr hspend]

end SpendShielded

namespace Device

variable {d : Device} {approve : SpendPrompt → Bool} {s : State} {request : List UInt8}
  {capacity : Nat}

theorem spendShielded_ok {r : SpendShielded} {a : SpentShielded} (h : d.spendShielded r = .ok a) :
    r.prove d.master = .ok a := by
  unfold spendShielded at h
  split at h
  · cases h
  · cases hprove : r.prove d.master with
    | ok a' =>
      rw [hprove] at h
      cases h
      rfl
    | error e =>
      rw [hprove] at h
      cases e <;> cases h

theorem spendShielded_accepted {r : SpendShielded}
    (hr : Request.ofList? request = some (.spendShielded r))
    (h : accepted (d.invoke approve request capacity s).bytes = true) :
    ∃ a, r.prove d.master = .ok a ∧ (d.invoke approve request capacity s).bytes =
      StatusMajor.ok.toByte :: SpentShielded.layout.write a := by
  obtain ⟨r', reply, events, t, hr', hanswer, hinvoke⟩ := accepted_answer h
  rw [hr] at hr'
  cases hr'
  obtain ⟨a, ha, rfl⟩ := Act.wrap_result (congrArg Turn.result hanswer)
  exact ⟨a, spendShielded_ok ha, congrArg Response.bytes hinvoke⟩

/-- For any two spends answered by devices with one master key: the string that their nonces are
drawn from can be read in one way only, whatever the numbers of decoys. Where it is the same for
both, and the hash of the kernel's message and the key of the input do not collide on the two, the
spends agree in all that an answer depends on, and both answers are the same. -/
theorem spend_nonces_bound {d' : Device} {approve' : SpendPrompt → Bool} {s' : State}
    {request' : List UInt8} {capacity' : Nat} {r r' : SpendShielded}
    (hmaster : d'.master = d.master)
    (hr : Request.ofList? request = some (.spendShielded r))
    (hr' : Request.ofList? request' = some (.spendShielded r'))
    (h : accepted (d.invoke approve request capacity s).bytes = true)
    (h' : accepted (d'.invoke approve' request' capacity' s').bytes = true) :
    Function.Injective NonceInputs.write ∧
      ∃ x x' a a', r.DrawnFrom d.master x a ∧ r'.DrawnFrom d.master x' a' ∧
        (d.invoke approve request capacity s).bytes =
          StatusMajor.ok.toByte :: SpentShielded.layout.write a ∧
        (d'.invoke approve' request' capacity' s').bytes =
          StatusMajor.ok.toByte :: SpentShielded.layout.write a' ∧
        (x.write = x'.write →
          (sha256 r.kernelMessage = sha256 r'.kernelMessage →
            r.kernelMessage = r'.kernelMessage) →
          (r.input.blinding d.master = r'.input.blinding d.master →
            r.input.keyPreimage = r'.input.keyPreimage) →
          SpendShielded.SameSpend d.master r r' ∧ a = a') := by
  obtain ⟨a, hprove, hbytes⟩ := spendShielded_accepted hr h
  obtain ⟨a', hprove', hbytes'⟩ := spendShielded_accepted hr' h'
  rw [hmaster] at hprove'
  obtain ⟨x, hx⟩ := SpendShielded.drawn_of_prove hprove
  obtain ⟨x', hx'⟩ := SpendShielded.drawn_of_prove hprove'
  refine ⟨NonceInputs.write_injective, x, x', a, a', hx, hx', hbytes, hbytes', ?_⟩
  intro hwrite hkernel hinput
  exact hx.same hx' hwrite hkernel hinput

/-- The spend over one decoy is answered, whatever its generator. -/
theorem soleDecoy_accepted (d : Device) (approve : SpendPrompt → Bool) (s : State)
    (generator : CompactPoint) :
    accepted (d.invoke approve (Request.spendShielded
      { SpendShielded.soleDecoy with generator := generator }).toList 163 s).bytes = true := by
  obtain ⟨r, hr⟩ : ∃ r : SpendShielded,
      r = { SpendShielded.soleDecoy with generator := generator } := ⟨_, rfl⟩
  have hlength : r.decoyBytes.length = 33 := by
    rw [hr]
    exact CompactPoint.layout_exact.length _
  have hserial : Scalar.ofBytes? r.input.secret.serialBlinding ≠ none := by
    have hzero : r.input.secret.serialBlinding = .zero 32 := by
      rw [hr]
      rfl
    rw [hzero, ne_eq, Scalar.ofBytes?_eq_none]
    decide
  have hfirst : r.firstDecoy? ≠ none := by
    rw [ne_eq, SpendShielded.firstDecoy?_eq_none_iff, hlength]
    rintro (hnil | hmod | hpoint)
    · simp [hnil] at hlength
    · exact hmod rfl
    · rw [hr] at hpoint
      cases hpoint.symm.trans SpendShielded.soleDecoy_decoy
  have hcount : r.decoyCount? = some r.window.sigmaM.toNat := by
    unfold SpendShielded.decoyCount?
    rw [hlength, hr]
    rfl
  rcases r.prove_cases d.master with ⟨h, _⟩ | ⟨_, h, _⟩ | ⟨_, _, a, _, _, _, _, _, _, hprove, _⟩
  · exact absurd h hserial
  · exact absurd h hfirst
  · have hspend : d.spendShielded r = .ok a := by
      unfold spendShielded
      rw [if_neg (not_not.mpr hcount), hprove]
    have hanswer : d.answer approve 162 (.spendShielded r) s = _ :=
      Act.wrap_ok Reply.spentShielded (congrFun (congrArg Act.ofExcept hspend) s)
    have hroom : 1 + Opcode.spendShielded.answerWidth ≤ 163 := by decide
    rw [← hr, invoke_admitted (Request.admission_toList hroom) hanswer]
    rfl

/-- Two spends of one input that differ in the unused parity of a generator that is not there are
answered alike. -/
theorem spend_nonces_bound_absent_generator :
    let d := Sample.device (.zero 32)
    let s := State.fresh fun _ => .zero 32
    let r := SpendShielded.soleDecoy
    let r' : SpendShielded := { r with generator := ⟨.zero 32, 1⟩ }
    let request := (Request.spendShielded r).toList
    let request' := (Request.spendShielded r').toList
    request ≠ request' ∧ accepted (d.invoke (fun _ => true) request 163 s).bytes = true ∧
      (d.invoke (fun _ => true) request 163 s).bytes =
        (d.invoke (fun _ => true) request' 163 s).bytes := by
  intro d s r r' request request'
  have haccepted : accepted (d.invoke (fun _ => true) request 163 s).bytes = true :=
    soleDecoy_accepted d _ s r.generator
  have haccepted' : accepted (d.invoke (fun _ => true) request' 163 s).bytes = true :=
    soleDecoy_accepted d _ s r'.generator
  obtain ⟨_, x, x', a, a', hx, hx', hbytes, hbytes', hsame⟩ :=
    spend_nonces_bound rfl (Request.ofList?_toList _) (Request.ofList?_toList _) haccepted
      haccepted'
  have hinputs : r'.nonceInputs? d.master = r.nonceInputs? d.master :=
    SpendShielded.nonceInputs?_generator (by decide)
  obtain rfl : x = x' := Option.some.inj (hx.inputs.symm.trans (hinputs.symm.trans hx'.inputs))
  obtain ⟨_, rfl⟩ := hsame rfl (fun _ => rfl) fun _ => rfl
  refine ⟨?_, haccepted, hbytes.trans hbytes'.symm⟩
  intro hrequests
  have hback := congrArg Request.ofList? hrequests
  rw [Request.ofList?_toList, Request.ofList?_toList] at hback
  have hspends := Request.spendShielded.inj (Option.some.inj hback)
  have hgenerators : r.generator = r'.generator := congrArg (·.generator) hspends
  exact absurd hgenerators (by decide)

end Device

end ColdWallet
