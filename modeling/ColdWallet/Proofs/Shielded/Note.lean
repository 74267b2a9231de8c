import ColdWallet.Proofs.Shielded.Output
import ColdWallet.Proofs.Shielded.Voucher

namespace ColdWallet

namespace Scalar

/-- The 32 bytes that were reduced to a scalar, if it is known whether they were at or above the
group order. -/
def restore (s : Scalar) (overflow : Bool) : Bytes 32 :=
  .ofList 32 (bigEndian 32 (s.val + if overflow then groupOrder else 0))

theorem reduceFlag_eq (b : Bytes 32) :
    reduceFlag b = (reduce b, decide (groupOrder ≤ ofBigEndian b.toList)) := by
  unfold reduceFlag
  cases h : ofBytes? b with
  | none => rw [decide_eq_true (ofBytes?_eq_none.mp h)]
  | some s =>
    obtain ⟨hlt, rfl⟩ := ofBytes?_eq_some.mp h
    rw [decide_eq_false (Nat.not_le.mpr hlt)]

/-- Two group orders are more than 32 bytes can hold, so that one bit is enough. -/
theorem val_reduce_add (b : Bytes 32) :
    (reduce b).val + (if groupOrder ≤ ofBigEndian b.toList then groupOrder else 0) =
      ofBigEndian b.toList := by
  have hval : (reduce b).val = ofBigEndian b.toList % groupOrder := rfl
  have hlt : ofBigEndian b.toList < 2 * groupOrder := by
    have hbound := ofBigEndian_lt b.toList
    rw [Vector.length_toList] at hbound
    exact hbound.trans (by decide)
  rw [hval]
  split
  · next hover => rw [Nat.mod_eq_sub_mod hover, Nat.mod_eq_of_lt (by omega)]; omega
  · next hbelow => rw [Nat.mod_eq_of_lt (by omega)]; omega

theorem restore_reduceFlag (b : Bytes 32) : restore (reduceFlag b).1 (reduceFlag b).2 = b := by
  have hback := bigEndian_ofBigEndian b.toList
  rw [Vector.length_toList] at hback
  rw [reduceFlag_eq, restore]
  simp only [decide_eq_true_eq]
  rw [val_reduce_add, hback, Bytes.ofList_toList]

/-- A 32-byte field is told by its scalar and its flag. -/
theorem reduceFlag_injective : Function.Injective reduceFlag := by
  intro b c h
  rw [← restore_reduceFlag b, h, restore_reduceFlag]

end Scalar

namespace OutputNote

/-- The note with these scalars and flags. -/
def unpack (sender : Scalar) (message : Scalar × Scalar) (flags : UInt8) : OutputNote where
  sender := sender.restore (flags &&& 1 != 0)
  message := (message.1.restore (flags &&& 2 != 0), message.2.restore (flags &&& 4 != 0))

end OutputNote

namespace SendShielded

theorem packFlags_bits : ∀ sender first second : Bool,
    (packFlags sender first second &&& 1 != 0) = sender ∧
      (packFlags sender first second &&& 2 != 0) = first ∧
      (packFlags sender first second &&& 4 != 0) = second := by
  decide

/-- What the receiver of a voucher reads back from the proof over an output's commitment: the note,
the amount and the asset. -/
def readOutput? (v : Voucher) (commitment : CompactPoint) (generator : Option CompactPoint)
    (alwaysHideAsset : UInt8) (p : RangeProof) : Option (OutputNote × UInt64 × UInt32) :=
  let transcript := outputMessage.toList ++ Write.point v.serialPub ++ Write.point v.noncePub ++
    Write.point commitment ++ Write.pointOption generator
  let seed := sha256 (seedPreimage transcript v)
  let recovery := p.recover transcript seed userLength (some seed) true
  match recovery.result with
  | some ⟨amount, some blinding, some message⟩ =>
    let asset := UInt32.ofNat (ofBigEndian (recovery.user.take 4))
    let shift := if asset ≠ 0 ∨ alwaysHideAsset ≠ 0 then assetBlinding v amount else 0
    let sender := blinding + shift - secretScalar "kG-O" v
    some (.unpack sender message (recovery.user.getD 4 0), amount, asset)
  | _ => none

section Read

variable {v : Voucher} {note : OutputNote} {amount : UInt64} {asset : UInt32}
  {generator : Option CompactPoint} {e : Expected}

theorem expected_blinding (he : expected v note amount asset generator = e) :
    e.blinding = secretScalar "kG-O" v + (Scalar.reduceFlag note.sender).1 := by
  subst he
  rfl

theorem expected_note (he : expected v note amount asset generator = e) :
    .unpack (Scalar.reduceFlag note.sender).1 e.message e.flags = note := by
  have hflags : e.flags = packFlags (Scalar.reduceFlag note.sender).2
      (Scalar.reduceFlag note.message.1).2 (Scalar.reduceFlag note.message.2).2 := by
    subst he
    rfl
  have hmessage : e.message =
      ((Scalar.reduceFlag note.message.1).1, (Scalar.reduceFlag note.message.2).1) := by
    subst he
    rfl
  obtain ⟨hsender, hfirst, hsecond⟩ := packFlags_bits (Scalar.reduceFlag note.sender).2
    (Scalar.reduceFlag note.message.1).2 (Scalar.reduceFlag note.message.2).2
  rw [OutputNote.unpack, hflags, hmessage, hsender, hfirst, hsecond]
  simp only [Scalar.restore_reduceFlag]

/-- What is hashed for an output only holds its commitment, and not the message. -/
theorem expected_transcript (he : expected v note amount asset generator = e) :
    e.transcript = outputMessage.toList ++ Write.point v.serialPub ++ Write.point v.noncePub ++
        Write.point (commit e.blinding amount (assetGenerator asset)).compact ++
        Write.pointOption generator ∧
      e.seed = sha256 (seedPreimage e.transcript v) := by
  subst he
  exact ⟨rfl, rfl⟩

theorem expectedUser_asset (e : Expected) (asset : UInt32) :
    UInt32.ofNat (ofBigEndian ((expectedUser e asset).take 4)) = asset := by
  rw [expectedUser, List.take_left' (length_bigEndian 4 _), uint32_bigEndian]

theorem expectedUser_flags (e : Expected) (asset : UInt32) :
    (expectedUser e asset).getD 4 0 = e.flags := by
  have hlength := length_bigEndian 4 asset.toNat
  rw [expectedUser, List.getD_append_right _ _ _ _ hlength.le, hlength]
  rfl

end Read

variable {r : SendShielded} {master : KeyNode} {amount : UInt64} {asset : UInt32}

/-- What the device accepts is what the receiver reads back. -/
theorem readOutput?_of_verified {blinding : Scalar} {id : Bytes 32}
    (h : r.verifyOutput? master amount asset = some (blinding, id)) :
    readOutput? r.voucher (commit blinding amount (assetGenerator asset)).compact
      r.generator.ifPresent r.alwaysHideAsset r.proof = some (r.note, amount, asset) := by
  obtain ⟨e, he⟩ : ∃ e, expected r.voucher r.note amount asset r.generator.ifPresent = e := ⟨_, rfl⟩
  rw [verifyOutput?_eq he, Option.ite_none_right_eq_some, Bool.and_eq_true] at h
  obtain ⟨⟨_, hhonest⟩, hout⟩ := h
  obtain ⟨rfl, _⟩ := Prod.mk.inj (Option.some.inj hout)
  obtain ⟨hresult, huser⟩ := (proofHonest_iff_recover r e amount asset).mp hhonest
  obtain ⟨htranscript, hseed⟩ := expected_transcript he
  have hsender : r.proofBlinding e amount asset +
      (if asset ≠ 0 ∨ r.alwaysHideAsset ≠ 0 then assetBlinding r.voucher amount else 0) -
        secretScalar "kG-O" r.voucher = (Scalar.reduceFlag r.note.sender).1 := by
    rw [proofBlinding, expected_blinding he]
    apply Scalar.residue.injective
    simp only [Scalar.residue_add, Scalar.residue_sub]
    ring
  unfold readOutput?
  simp only [← htranscript, ← hseed, hresult, huser, expectedUser_asset, expectedUser_flags,
    hsender, expected_note he]

/-- The blinding factor of an accepted output does not depend on the message. -/
theorem blinding_of_verified {blinding : Scalar} {id : Bytes 32}
    (h : r.verifyOutput? master amount asset = some (blinding, id)) :
    blinding = secretScalar "kG-O" r.voucher + (Scalar.reduceFlag r.note.sender).1 := by
  obtain ⟨e, he⟩ : ∃ e, expected r.voucher r.note amount asset r.generator.ifPresent = e := ⟨_, rfl⟩
  rw [verifyOutput?_eq he, Option.ite_none_right_eq_some] at h
  obtain ⟨rfl, _⟩ := Prod.mk.inj (Option.some.inj h.2)
  exact expected_blinding he

def withMessage (r : SendShielded) (message : Bytes 32 × Bytes 32) : SendShielded :=
  { r with note := { r.note with message } }

/-- An accepted output has one message. Its scalar and its flag tell each field of the note to the
last byte, so that whoever reads the proof back has the note that was accepted; and as nothing that
is read depends on the message, no two messages are ever accepted with one proof, also where they
are the same modulo the group order. -/
theorem accepted_message_unique (r : SendShielded) (message : Bytes 32 × Bytes 32)
    (master master' : KeyNode) (amount : UInt64) (asset : UInt32) :
    Function.Injective Scalar.reduceFlag ∧
    (∀ blinding id, r.verifyOutput? master amount asset = some (blinding, id) →
      readOutput? r.voucher (commit blinding amount (assetGenerator asset)).compact
        r.generator.ifPresent r.alwaysHideAsset r.proof = some (r.note, amount, asset)) ∧
    ((r.verifyOutput? master amount asset).isSome = true →
      ((r.withMessage message).verifyOutput? master' amount asset).isSome = true →
      message = r.note.message) := by
  refine ⟨Scalar.reduceFlag_injective, fun _ _ => readOutput?_of_verified, fun h h' => ?_⟩
  obtain ⟨⟨blinding, id⟩, hsome⟩ := Option.isSome_iff_exists.mp h
  obtain ⟨⟨blinding', id'⟩, hsome'⟩ := Option.isSome_iff_exists.mp h'
  have hblinding : blinding' = blinding :=
    (blinding_of_verified hsome').trans (blinding_of_verified hsome).symm
  have hread := readOutput?_of_verified hsome
  have hread' := readOutput?_of_verified hsome'
  rw [hblinding] at hread'
  have hnotes : (r.withMessage message).note = r.note :=
    (Prod.mk.inj (Option.some.inj (hread'.symm.trans hread))).1
  exact congrArg OutputNote.message hnotes

/-- An output whose message exceeds the group order by five is accepted, and read back as it is;
five itself is then refused. -/
theorem accepted_message_unique_overflow :
    let high : Bytes 32 := .ofList 32 (bigEndian 32 (groupOrder + 5))
    let low : Bytes 32 := .ofList 32 (bigEndian 32 5)
    let master := KeyNode.ofSeed (.zero 32)
    Scalar.reduce high = Scalar.reduce low ∧
      ∃ r : SendShielded, r.note.message = (high, low) ∧
        (∃ commitment, readOutput? r.voucher commitment r.generator.ifPresent r.alwaysHideAsset
          r.proof = some (r.note, 1, 0)) ∧
        (r.verifyOutput? master 1 0).isSome = true ∧
        (r.withMessage (low, low)).verifyOutput? master 1 0 = none := by
  intro high low master
  let v : Voucher := Voucher.signed
    ⟨Point.infinity.compact, Point.infinity.compact, .zero 32, .blank, (.zero 32, .zero 32)⟩
    (evenKey 1).1
  let r₀ : SendShielded := {
    kernel := ⟨0, 0, 0⟩
    parties := ⟨(evenKey 1).2, 0⟩
    voucher := v
    note := ⟨low, (high, low)⟩
    proof := RangeProof.layout.read []
    alwaysHideAsset := 0
    generator := Point.infinity.compact }
  obtain ⟨e, he⟩ : ∃ e, expected r₀.voucher r₀.note 1 0 r₀.generator.ifPresent = e := ⟨_, rfl⟩
  let r := r₀.withProof (r₀.honestProof e 1 0)
  have hpeer : r₀.peerHonest master = true :=
    (peerHonest_iff r₀ master).mpr ⟨Voucher.signed_verifies _ 1, Or.inl rfl⟩
  have hverify : (r.verifyOutput? master 1 0).isSome = true := by
    show ((r₀.withProof _).verifyOutput? master 1 0).isSome = true
    rw [withProof_verifyOutput? r₀ _ he, honestProof_honest, hpeer]
    rfl
  obtain ⟨_, hread, hunique⟩ := accepted_message_unique r (low, low) master master 1 0
  refine ⟨by decide, r, rfl, ?_, hverify, ?_⟩
  · obtain ⟨⟨blinding, id⟩, hsome⟩ := Option.isSome_iff_exists.mp hverify
    exact ⟨_, hread blinding id hsome⟩
  · rw [← Option.not_isSome_iff_eq_none]
    intro hother
    have hsame : low = high := (Prod.mk.inj (hunique hverify hother)).1
    exact absurd hsame (by decide)

end SendShielded

end ColdWallet
