import ColdWallet.Proofs.Bytes
import ColdWallet.Wire.Opcode

namespace ColdWallet

namespace Layout

variable {α β : Type}

/-- Values take up the layout's width, and come back from their own bytes. -/
structure Lawful (a : Layout α) : Prop where
  length (v : α) : (a.write v).length = a.width
  read (v : α) : a.read (a.write v) = v

theorem Lawful.injective {a : Layout α} (ha : a.Lawful) : Function.Injective a.write := by
  intro v w h
  rw [← ha.read v, h, ha.read]

/-- Besides, bytes of the width come back from the value they are read as. -/
structure Exact (a : Layout α) : Prop extends a.Lawful where
  restores {l : List UInt8} : l.length = a.width → a.write (a.read l) = l

/-- Bytes of the width come back but for the one at place `i`, of which `kept` comes back. -/
structure ExactBut (a : Layout α) (i : ℕ) (kept : UInt8 → UInt8) : Prop extends a.Lawful where
  inside : i < a.width
  restores {l : List UInt8} : l.length = a.width → a.write (a.read l) = l.modify i kept

theorem u8_exact : u8.Exact where
  length _ := rfl
  read _ := rfl
  restores {l} h := by
    obtain ⟨b, rfl⟩ := List.length_eq_one_iff.mp h
    rfl

theorem u32_exact : u32.Exact where
  length v := length_littleEndian 4 v.toNat
  read v := by
    show UInt32.ofNat (ofLittleEndian (littleEndian 4 v.toNat)) = v
    rw [ofLittleEndian_littleEndian, Nat.mod_eq_of_lt (show v.toNat < 256 ^ 4 from v.toNat_lt),
      UInt32.ofNat_toNat]
  restores {l} h := by
    show littleEndian 4 (UInt32.ofNat (ofLittleEndian l)).toNat = l
    rw [UInt32.toNat_ofNat']
    exact littleEndian_mod h

theorem u64_exact : u64.Exact where
  length v := length_littleEndian 8 v.toNat
  read v := by
    show UInt64.ofNat (ofLittleEndian (littleEndian 8 v.toNat)) = v
    rw [ofLittleEndian_littleEndian, Nat.mod_eq_of_lt (show v.toNat < 256 ^ 8 from v.toNat_lt),
      UInt64.ofNat_toNat]
  restores {l} h := by
    show littleEndian 8 (UInt64.ofNat (ofLittleEndian l)).toNat = l
    rw [UInt64.toNat_ofNat']
    exact littleEndian_mod h

theorem bytes_exact (n : ℕ) : (bytes n).Exact where
  length _ := Vector.length_toList
  read b := Bytes.ofList_toList b
  restores h := Bytes.toList_ofList h

theorem empty_exact : empty.Exact where
  length _ := rfl
  read _ := rfl
  restores h := (List.length_eq_zero_iff.mp h).symm

theorem Lawful.pair {a : Layout α} {b : Layout β} (ha : a.Lawful) (hb : b.Lawful) :
    (a.pair b).Lawful where
  length v := by
    unfold Layout.pair
    rw [List.length_append, ha.length, hb.length]
  read v := by
    unfold Layout.pair
    simp only [← ha.length v.1, List.take_left, List.drop_left, ha.read, hb.read]

theorem Exact.pair {a : Layout α} {b : Layout β} (ha : a.Exact) (hb : b.Exact) :
    (a.pair b).Exact where
  toLawful := ha.toLawful.pair hb.toLawful
  restores {l} h := by
    have hwidth : l.length = a.width + b.width := h
    show a.write (a.read (l.take a.width)) ++ b.write (b.read (l.drop a.width)) = l
    rw [ha.restores (by rw [List.length_take]; omega),
      hb.restores (by rw [List.length_drop]; omega), List.take_append_drop]

theorem Exact.pair_exactBut {a : Layout α} {b : Layout β} {i : ℕ} {kept : UInt8 → UInt8}
    (ha : a.Exact) (hb : b.ExactBut i kept) : (a.pair b).ExactBut (a.width + i) kept where
  toLawful := ha.toLawful.pair hb.toLawful
  inside := Nat.add_lt_add_left hb.inside a.width
  restores {l} h := by
    have hwidth : l.length = a.width + b.width := h
    have hfront : (l.take a.width).length = a.width := by rw [List.length_take]; omega
    have hback := List.modifyTailIdx_add (List.modifyHead kept) i (l.take a.width) (l.drop a.width)
    rw [hfront, List.take_append_drop] at hback
    show a.write (a.read (l.take a.width)) ++ b.write (b.read (l.drop a.width)) = _
    rw [ha.restores hfront, hb.restores (by rw [List.length_drop]; omega)]
    exact hback.symm

theorem Exact.twice {a : Layout α} (ha : a.Exact) : a.twice.Exact := ha.pair ha

theorem Lawful.length_flatMap {a : Layout α} (ha : a.Lawful) (vs : List α) :
    (vs.flatMap a.write).length = vs.length * a.width := by
  induction vs with
  | nil => rw [List.flatMap_nil, List.length_nil, List.length_nil, Nat.zero_mul]
  | cons v vs ih =>
    rw [List.flatMap_cons, List.length_append, ha.length, ih, List.length_cons, Nat.succ_mul,
      Nat.add_comm]

theorem Lawful.readMany {a : Layout α} (ha : a.Lawful) (vs : List α) (rest : List UInt8) :
    a.readMany vs.length (vs.flatMap a.write ++ rest) = vs := by
  induction vs with
  | nil => rfl
  | cons v vs ih =>
    rw [List.length_cons, List.flatMap_cons, List.append_assoc, Layout.readMany, ← ha.length v,
      List.take_left, List.drop_left, ha.read, ih]

/-- The values read are those of the bytes they take up. -/
theorem Exact.flatMap_readMany {a : Layout α} (ha : a.Exact) {n : ℕ} {l : List UInt8}
    (h : n * a.width ≤ l.length) :
    (a.readMany n l).flatMap a.write = l.take (n * a.width) := by
  induction n generalizing l with
  | zero => rw [Nat.zero_mul, List.take_zero, Layout.readMany, List.flatMap_nil]
  | succ n ih =>
    rw [Nat.succ_mul, Nat.add_comm] at h
    rw [Layout.readMany, List.flatMap_cons, ih (by rw [List.length_drop]; omega),
      ha.restores (by rw [List.length_take]; omega), Nat.succ_mul, Nat.add_comm,
      List.take_add]

theorem decode_whole {a : Layout α} {l : List UInt8} (h : a.width ≤ l.length) :
    a.decode l = .ok (a.read (l.take a.width), l.drop a.width) := if_neg (Nat.not_lt.mpr h)

theorem decode_short {a : Layout α} {l : List UInt8} (h : l.length < a.width) :
    a.decode l = .error .invalidLength := if_pos h

/-- Where there are bytes for every entry, none is cut short. -/
theorem readEntries_whole (a : Layout α) {n : ℕ} {l : List UInt8}
    (h : n * a.width ≤ l.length) : a.readEntries n l = (a.readMany n l).map .ok := by
  induction n generalizing l with
  | zero => rfl
  | succ n ih =>
    rw [Nat.succ_mul, Nat.add_comm] at h
    have hrest : n * a.width ≤ (l.drop a.width).length := by
      rw [List.length_drop]
      omega
    rw [readEntries, decode_whole (by omega), readMany, List.map_cons, ← ih hrest]

/-- Where there are not, the entries before the cut are read, and the cut is an error. -/
theorem readEntries_cut (a : Layout α) {n : ℕ} {l : List UInt8} (h : l.length < n * a.width) :
    a.readEntries n l =
      (a.readMany (l.length / a.width) l).map .ok ++ [.error .invalidLength] := by
  induction n generalizing l with
  | zero => omega
  | succ n ih =>
    rw [Nat.succ_mul] at h
    by_cases hshort : l.length < a.width
    · rw [readEntries, decode_short hshort, Nat.div_eq_of_lt hshort]
      rfl
    · have hlength : (l.drop a.width).length = l.length - a.width := List.length_drop
      have hwidth : 0 < a.width := by
        by_contra hzero
        simp [Nat.eq_zero_of_not_pos hzero] at h
      have hcount : l.length / a.width = (l.drop a.width).length / a.width + 1 := by
        rw [hlength, ← Nat.add_div_right _ hwidth, Nat.sub_add_cancel (Nat.not_lt.mp hshort)]
      rw [readEntries, decode_whole (Nat.not_lt.mp hshort), hcount, readMany, List.map_cons,
        List.cons_append, ← ih (by omega)]

/-- The chunks of some bytes are all whole if the width divides the length. -/
theorem chunks_whole {a : Layout α} {l : List UInt8} (hwidth : 0 < a.width)
    (h : l.length % a.width = 0) : a.chunks l = (a.readMany (l.length / a.width) l).map .ok := by
  have hcount : (l.length + a.width - 1) / a.width = l.length / a.width := by
    obtain ⟨k, hk⟩ := Nat.dvd_of_mod_eq_zero h
    rw [hk, Nat.add_sub_assoc hwidth, Nat.mul_add_div hwidth, Nat.mul_div_cancel_left k hwidth,
      Nat.div_eq_of_lt (Nat.sub_lt hwidth Nat.one_pos), Nat.add_zero]
  rw [chunks, hcount, readEntries_whole _ (Nat.div_mul_le_self ..)]

/-- Otherwise the last one is cut short. -/
theorem chunks_cut {a : Layout α} {l : List UInt8} (hwidth : 0 < a.width)
    (h : l.length % a.width ≠ 0) : a.chunks l =
      (a.readMany (l.length / a.width) l).map .ok ++ [.error .invalidLength] := by
  have hlast := Nat.mod_lt l.length hwidth
  have hsplit : l.length + a.width - 1 =
      l.length % a.width - 1 + a.width * (l.length / a.width + 1) := by
    have := Nat.mod_add_div l.length a.width
    rw [Nat.mul_add, Nat.mul_one]
    omega
  have hcount : (l.length + a.width - 1) / a.width = l.length / a.width + 1 := by
    rw [hsplit, Nat.add_mul_div_left _ _ hwidth, Nat.div_eq_of_lt (by omega), Nat.zero_add]
  have hcut : l.length < (l.length / a.width + 1) * a.width := by
    rw [Nat.mul_comm]
    exact Nat.lt_mul_div_succ _ hwidth
  rw [chunks, hcount, readEntries_cut _ hcut]

theorem Exact.vector {a : Layout α} (ha : a.Exact) (n : ℕ) : (a.vector n).Exact where
  length v := by
    unfold Layout.vector
    rw [ha.length_flatMap, Vector.length_toList]
  read v := by
    apply Vector.toList_inj.mp
    have h := ha.readMany v.toList []
    rw [Vector.length_toList, List.append_nil] at h
    exact h
  restores {l} h := by
    have hwidth : l.length = n * a.width := h
    show (a.readMany n l).flatMap a.write = l
    rw [ha.flatMap_readMany hwidth.ge, ← hwidth, List.take_length]

theorem Lawful.map {a : Layout α} (ha : a.Lawful) {into : α → β} {out : β → α}
    (hinto : ∀ v, into (out v) = v) : (a.map into out).Lawful where
  length v := ha.length (out v)
  read v := by
    show into (a.read (a.write (out v))) = v
    rw [ha.read, hinto]

theorem Exact.map {a : Layout α} (ha : a.Exact) {into : α → β} {out : β → α}
    (hinto : ∀ v, into (out v) = v) (hout : ∀ v, out (into v) = v) : (a.map into out).Exact where
  toLawful := ha.toLawful.map hinto
  restores {l} h := by
    show a.write (out (into (a.read l))) = l
    rw [hout, ha.restores h]

theorem ExactBut.map {a : Layout α} {i : ℕ} {kept : UInt8 → UInt8} (ha : a.ExactBut i kept)
    {into : α → β} {out : β → α} (hinto : ∀ v, into (out v) = v) (hout : ∀ v, out (into v) = v) :
    (a.map into out).ExactBut i kept where
  toLawful := ha.toLawful.map hinto
  inside := ha.inside
  restores {l} h := by
    show a.write (out (into (a.read l))) = l.modify i kept
    rw [hout, ha.restores h]

/-- A value is taken from the front of the bytes, and the rest is left as it is. -/
theorem Lawful.decode_append {a : Layout α} (ha : a.Lawful) (v : α) (rest : List UInt8) :
    a.decode (a.write v ++ rest) = .ok (v, rest) := by
  have hlength := ha.length v
  rw [decode_whole (by rw [List.length_append]; omega), ← hlength, List.take_left, List.drop_left,
    ha.read]

/-- Decoding takes the width, no more and no less. -/
theorem decode_ok {a : Layout α} {l rest : List UInt8} {v : α} :
    a.decode l = .ok (v, rest) ↔
      a.width ≤ l.length ∧ a.read (l.take a.width) = v ∧ l.drop a.width = rest := by
  rcases Nat.lt_or_ge l.length a.width with h | h
  · rw [decode_short h]
    exact ⟨nofun, fun hl => absurd hl.1 (Nat.not_le.mpr h)⟩
  · rw [decode_whole h, Except.ok.injEq, Prod.mk.injEq]
    exact ⟨fun hl => ⟨h, hl⟩, fun hl => hl.2⟩

theorem Exact.decode_iff {a : Layout α} (ha : a.Exact) {l rest : List UInt8} {v : α} :
    a.decode l = .ok (v, rest) ↔ l = a.write v ++ rest := by
  constructor
  · intro h
    obtain ⟨hlength, rfl, rfl⟩ := decode_ok.mp h
    rw [ha.restores (by rw [List.length_take]; omega), List.take_append_drop]
  · rintro rfl
    exact ha.decode_append v rest

theorem ExactBut.decode_iff {a : Layout α} {i : ℕ} {kept : UInt8 → UInt8} (ha : a.ExactBut i kept)
    {l rest : List UInt8} {v : α} :
    a.decode l = .ok (v, rest) ↔ a.write v ++ rest = l.modify i kept := by
  constructor
  · intro h
    obtain ⟨hlength, rfl, rfl⟩ := decode_ok.mp h
    rw [ha.restores (by rw [List.length_take]; omega), ← List.take_modify,
      ← List.drop_modify_of_lt kept i a.width l ha.inside, List.take_append_drop]
  · intro h
    have hlength : a.width ≤ l.length := by
      rw [← List.length_modify kept l i, ← h, List.length_append, ha.length]
      omega
    refine decode_ok.mpr ⟨hlength, ha.injective ?_, ?_⟩
    · rw [ha.restores (by rw [List.length_take]; omega), ← List.take_modify, ← h, ← ha.length v,
        List.take_left]
    · rw [← List.drop_modify_of_lt kept i a.width l ha.inside, ← h, ← ha.length v, List.drop_left]

end Layout

section Records

open Layout

theorem CompactPoint.layout_exact : CompactPoint.layout.Exact :=
  ((bytes_exact 32).pair u8_exact).map (fun _ => rfl) fun _ => rfl

theorem CoinId.layout_exact : CoinId.layout.Exact :=
  (u64_exact.pair <| u32_exact.pair <| u32_exact.pair <| u64_exact.pair u32_exact).map
    (fun _ => rfl) fun _ => rfl

theorem ShieldedSecret.layout_exact : ShieldedSecret.layout.Exact :=
  ((bytes_exact 32).pair u8_exact).map (fun _ => rfl) fun _ => rfl

theorem ShieldedTerms.layout_exact : ShieldedTerms.layout.Exact :=
  (u64_exact.pair <| u64_exact.pair <| u32_exact.pair u32_exact).map (fun _ => rfl) fun _ => rfl

theorem ShieldedInput.layout_exact : ShieldedInput.layout.Exact :=
  (ShieldedSecret.layout_exact.pair ShieldedTerms.layout_exact).map (fun _ => rfl) fun _ => rfl

theorem Version.layout_exact : Version.layout.Exact :=
  (bytes_exact 8).map (fun _ => rfl) fun _ => rfl

theorem SlotCount.layout_exact : SlotCount.layout.Exact := u32_exact.map (fun _ => rfl) fun _ => rfl

theorem ExportKey.layout_exact : ExportKey.layout.Exact := u8_exact.map (fun _ => rfl) fun _ => rfl

theorem PublicNode.layout_exact : PublicNode.layout.Exact :=
  ((bytes_exact 32).pair <| CompactPoint.layout_exact.pair CompactPoint.layout_exact).map
    (fun _ => rfl) fun _ => rfl

theorem ExportedKey.layout_exact : ExportedKey.layout.Exact :=
  PublicNode.layout_exact.map (fun _ => rfl) fun _ => rfl

/-- The two bits that name a generator. -/
def ImageFlags.kept (b : UInt8) : UInt8 := b &&& 3

theorem ImageFlags.ofByte_toByte (f : ImageFlags) : ofByte f.toByte = f := by
  obtain ⟨onG, onJ⟩ := f
  cases onG <;> cases onJ <;> rfl

theorem ImageFlags.toByte_ofByte (b : UInt8) : (ofByte b).toByte = kept b := by
  have hall : ∀ n < 256, (ofByte (UInt8.ofNat n)).toByte = kept (UInt8.ofNat n) := by
    decide +kernel
  have h := hall b.toNat b.toNat_lt
  rwa [UInt8.ofNat_toNat] at h

theorem ImageFlags.layout_exactBut : ImageFlags.layout.ExactBut 0 kept where
  toLawful := u8_exact.toLawful.map ofByte_toByte
  inside := Nat.one_pos
  restores {l} h := by
    obtain ⟨b, rfl⟩ := List.length_eq_one_iff.mp h
    show [(ofByte b).toByte] = [kept b]
    rw [toByte_ofByte]

theorem KeyImage.layout_exactBut : KeyImage.layout.ExactBut 36 ImageFlags.kept :=
  ((bytes_exact 32).pair_exactBut <| u32_exact.pair_exactBut ImageFlags.layout_exactBut).map
    (fun _ => rfl) fun _ => rfl

theorem KeyImages.layout_exact : KeyImages.layout.Exact :=
  (CompactPoint.layout_exact.pair CompactPoint.layout_exact).map (fun _ => rfl) fun _ => rfl

theorem ShowAddress.layout_exact : ShowAddress.layout.Exact :=
  u64_exact.map (fun _ => rfl) fun _ => rfl

theorem CreateOutput.layout_exact : CreateOutput.layout.Exact :=
  (CoinId.layout_exact.pair <| CompactPoint.layout_exact.twice.pair <|
    (bytes_exact 32).twice.pair CompactPoint.layout_exact).map (fun _ => rfl) fun _ => rfl

theorem CreatedOutput.layout_exact : CreatedOutput.layout.Exact :=
  (CompactPoint.layout_exact.twice.pair (bytes_exact 32)).map (fun _ => rfl) fun _ => rfl

theorem KernelParams.layout_exact : KernelParams.layout.Exact :=
  (u64_exact.pair <| u64_exact.pair u64_exact).map (fun _ => rfl) fun _ => rfl

theorem KernelPoints.layout_exact : KernelPoints.layout.Exact :=
  (CompactPoint.layout_exact.pair CompactPoint.layout_exact).map (fun _ => rfl) fun _ => rfl

theorem Parties.layout_exact : Parties.layout.Exact :=
  ((bytes_exact 32).pair u64_exact).map (fun _ => rfl) fun _ => rfl

theorem KernelSignature.layout_exact : KernelSignature.layout.Exact :=
  ((bytes_exact 32).pair (bytes_exact 32)).map (fun _ => rfl) fun _ => rfl

theorem Signature.layout_exact : Signature.layout.Exact :=
  (CompactPoint.layout_exact.pair (bytes_exact 32)).map (fun _ => rfl) fun _ => rfl

theorem Split.layout_exact : Split.layout.Exact :=
  KernelParams.layout_exact.map (fun _ => rfl) fun _ => rfl

theorem SignedKernel.layout_exact : SignedKernel.layout.Exact :=
  (KernelPoints.layout_exact.pair KernelSignature.layout_exact).map (fun _ => rfl) fun _ => rfl

theorem Receive.layout_exact : Receive.layout.Exact :=
  (KernelParams.layout_exact.pair <| Parties.layout_exact.pair KernelPoints.layout_exact).map
    (fun _ => rfl) fun _ => rfl

theorem Received.layout_exact : Received.layout.Exact :=
  (KernelPoints.layout_exact.pair <|
    KernelSignature.layout_exact.pair Signature.layout_exact).map (fun _ => rfl) fun _ => rfl

theorem OpenSend.layout_exact : OpenSend.layout.Exact :=
  (KernelParams.layout_exact.pair <| Parties.layout_exact.pair u32_exact).map
    (fun _ => rfl) fun _ => rfl

theorem OpenedSend.layout_exact : OpenedSend.layout.Exact :=
  ((bytes_exact 32).pair KernelPoints.layout_exact).map (fun _ => rfl) fun _ => rfl

theorem CloseSend.layout_exact : CloseSend.layout.Exact :=
  (KernelParams.layout_exact.pair <| Parties.layout_exact.pair <| u32_exact.pair <|
    Signature.layout_exact.pair <| (bytes_exact 32).pair KernelPoints.layout_exact).map
    (fun _ => rfl) fun _ => rfl

theorem ClosedSend.layout_exact : ClosedSend.layout.Exact :=
  KernelSignature.layout_exact.map (fun _ => rfl) fun _ => rfl

theorem FoldRound.layout_exact : FoldRound.layout.Exact :=
  ((bytes_exact 32).pair (bytes_exact 32)).map (fun _ => rfl) fun _ => rfl

theorem RangeProof.layout_exact : RangeProof.layout.Exact :=
  ((bytes_exact 32).pair <| (bytes_exact 32).pair <| (bytes_exact 32).pair <|
    (bytes_exact 32).pair <| (bytes_exact 32).pair <| (bytes_exact 32).pair <|
    (bytes_exact 32).pair <| (FoldRound.layout_exact.vector foldRounds).pair <|
    (bytes_exact 32).twice.pair (bytes_exact 2)).map (fun _ => rfl) fun _ => rfl

theorem Voucher.layout_exact : Voucher.layout.Exact :=
  (CompactPoint.layout_exact.pair <| CompactPoint.layout_exact.pair <|
    (bytes_exact 32).pair <| Signature.layout_exact.pair (bytes_exact 32).twice).map
    (fun _ => rfl) fun _ => rfl

theorem CreateVouchers.layout_exact : CreateVouchers.layout.Exact :=
  (u64_exact.pair <| (bytes_exact 32).pair u32_exact).map (fun _ => rfl) fun _ => rfl

theorem SpendWindow.layout_exact : SpendWindow.layout.Exact :=
  (u64_exact.pair <| u64_exact.pair <| u64_exact.pair <| u32_exact.pair u32_exact).map
    (fun _ => rfl) fun _ => rfl

theorem SpendFields.layout_exact : SpendFields.layout.Exact :=
  (ShieldedInput.layout_exact.pair <| SpendWindow.layout_exact.pair <|
    (bytes_exact 32).pair <| CompactPoint.layout_exact.pair <| (bytes_exact 32).pair <|
    (bytes_exact 32).pair (CompactPoint.layout_exact.vector 4)).map (fun _ => rfl) fun _ => rfl

theorem SpentShielded.layout_exact : SpentShielded.layout.Exact :=
  (CompactPoint.layout_exact.pair <| (bytes_exact 32).twice.pair <|
    CompactPoint.layout_exact.pair (bytes_exact 32)).map (fun _ => rfl) fun _ => rfl

theorem OutputNote.layout_exact : OutputNote.layout.Exact :=
  ((bytes_exact 32).pair (bytes_exact 32).twice).map (fun _ => rfl) fun _ => rfl

theorem SendShielded.layout_exact : SendShielded.layout.Exact :=
  (KernelParams.layout_exact.pair <| Parties.layout_exact.pair <|
    Voucher.layout_exact.pair <| OutputNote.layout_exact.pair <|
    RangeProof.layout_exact.pair <| u8_exact.pair CompactPoint.layout_exact).map
    (fun _ => rfl) fun _ => rfl

end Records

end ColdWallet
