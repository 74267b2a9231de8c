import Mathlib.Tactic.Ring
import ColdWallet.Bytes

namespace ColdWallet

theorem length_littleEndian (width v : Nat) : (littleEndian width v).length = width := by
  induction width generalizing v with
  | zero => rfl
  | succ width ih => rw [littleEndian, List.length_cons, ih]

theorem ofLittleEndian_littleEndian (width v : Nat) :
    ofLittleEndian (littleEndian width v) = v % 256 ^ width := by
  induction width generalizing v with
  | zero => rw [littleEndian, ofLittleEndian, pow_zero, Nat.mod_one]
  | succ width ih =>
    rw [littleEndian, ofLittleEndian, ih, UInt8.toNat_ofNat', pow_succ' 256 width, Nat.mod_mul]

theorem littleEndian_ofLittleEndian (l : List UInt8) :
    littleEndian l.length (ofLittleEndian l) = l := by
  induction l with
  | nil => rfl
  | cons b l ih =>
    have hb : b.toNat < 256 := b.toNat_lt
    rw [List.length_cons, littleEndian, ofLittleEndian, Nat.add_mul_div_left _ _ (by decide),
      Nat.div_eq_of_lt hb, Nat.zero_add, ih]
    congr 1
    apply UInt8.toNat_inj.mp
    rw [UInt8.toNat_ofNat', Nat.add_mul_mod_self_left, Nat.mod_eq_of_lt hb]

theorem ofLittleEndian_lt (l : List UInt8) : ofLittleEndian l < 256 ^ l.length := by
  induction l with
  | nil => exact Nat.one_pos
  | cons b l ih =>
    have hb : b.toNat < 256 := b.toNat_lt
    rw [ofLittleEndian, List.length_cons, pow_succ]
    omega

theorem littleEndian_mod {l : List UInt8} {width : Nat} (h : l.length = width) :
    littleEndian width (ofLittleEndian l % 256 ^ width) = l := by
  subst h
  rw [Nat.mod_eq_of_lt (ofLittleEndian_lt l), littleEndian_ofLittleEndian]

theorem length_bigEndian (width v : Nat) : (bigEndian width v).length = width := by
  rw [bigEndian, List.length_reverse, length_littleEndian]

theorem ofBigEndian_bigEndian (width v : Nat) :
    ofBigEndian (bigEndian width v) = v % 256 ^ width := by
  rw [ofBigEndian, bigEndian, List.reverse_reverse, ofLittleEndian_littleEndian]

theorem bigEndian_ofBigEndian (l : List UInt8) : bigEndian l.length (ofBigEndian l) = l := by
  have h := littleEndian_ofLittleEndian l.reverse
  rw [List.length_reverse] at h
  rw [bigEndian, ofBigEndian, h, List.reverse_reverse]

theorem uint32_bigEndian (v : UInt32) : UInt32.ofNat (ofBigEndian (bigEndian 4 v.toNat)) = v := by
  rw [ofBigEndian_bigEndian, Nat.mod_eq_of_lt (show v.toNat < 256 ^ 4 from v.toNat_lt),
    UInt32.ofNat_toNat]

theorem uint64_bigEndian (v : UInt64) : UInt64.ofNat (ofBigEndian (bigEndian 8 v.toNat)) = v := by
  rw [ofBigEndian_bigEndian, Nat.mod_eq_of_lt (show v.toNat < 256 ^ 8 from v.toNat_lt),
    UInt64.ofNat_toNat]

theorem ofLittleEndian_append (l m : List UInt8) :
    ofLittleEndian (l ++ m) = ofLittleEndian l + 256 ^ l.length * ofLittleEndian m := by
  induction l with
  | nil => rw [List.nil_append, ofLittleEndian, List.length_nil, pow_zero, one_mul, zero_add]
  | cons b l ih =>
    rw [List.cons_append, ofLittleEndian, ofLittleEndian, ih, List.length_cons, pow_succ]
    ring

theorem ofBigEndian_append (l m : List UInt8) :
    ofBigEndian (l ++ m) = ofBigEndian l * 256 ^ m.length + ofBigEndian m := by
  rw [ofBigEndian, List.reverse_append, ofLittleEndian_append, List.length_reverse, add_comm,
    mul_comm]
  rfl

theorem ofBigEndian_lt (l : List UInt8) : ofBigEndian l < 256 ^ l.length := by
  have h := ofLittleEndian_lt l.reverse
  rwa [List.length_reverse] at h

/-- The last bytes are those of the number modulo what they can hold. -/
theorem ofBigEndian_drop (l : List UInt8) (k : Nat) :
    ofBigEndian (l.drop k) = ofBigEndian l % 256 ^ (l.length - k) := by
  have hlt := ofBigEndian_lt (l.drop k)
  have hsplit := ofBigEndian_append (l.take k) (l.drop k)
  rw [List.take_append_drop] at hsplit
  rw [hsplit, ← List.length_drop, Nat.mul_add_mod_self_right, Nat.mod_eq_of_lt hlt]

/-- The first bytes are those of the number without what the last ones hold. -/
theorem ofBigEndian_take (l : List UInt8) (k : Nat) :
    ofBigEndian (l.take k) = ofBigEndian l / 256 ^ (l.length - k) := by
  have hlt := ofBigEndian_lt (l.drop k)
  have hsplit := ofBigEndian_append (l.take k) (l.drop k)
  rw [List.take_append_drop] at hsplit
  rw [List.length_drop] at hlt hsplit
  rw [hsplit, mul_comm, Nat.mul_add_div (Nat.pow_pos (by decide)), Nat.div_eq_of_lt hlt, add_zero]

theorem ofBigEndian_inj {l m : List UInt8} (hlength : l.length = m.length)
    (h : ofBigEndian l = ofBigEndian m) : l = m := by
  rw [← bigEndian_ofBigEndian l, ← bigEndian_ofBigEndian m, hlength, h]

theorem ofBigEndian_eq_zero {l : List UInt8} : ofBigEndian l = 0 ↔ allZero l = true := by
  induction l with
  | nil => exact ⟨fun _ => rfl, fun _ => rfl⟩
  | cons b l ih =>
    have hone : ofBigEndian [b] = b.toNat := by simp [ofBigEndian, ofLittleEndian]
    have hall : allZero (b :: l) = (b == 0 && allZero l) := List.all_cons
    have hpos : 256 ^ l.length ≠ 0 := (Nat.pow_pos (by decide)).ne'
    rw [← List.singleton_append, ofBigEndian_append, hone, Nat.add_eq_zero_iff, ih,
      Nat.mul_eq_zero, or_iff_left hpos, List.singleton_append, hall, Bool.and_eq_true,
      beq_iff_eq, ← UInt8.toNat_inj, UInt8.toNat_zero]

namespace Bytes

theorem toList_ofList {n : Nat} {l : List UInt8} (h : l.length = n) : (ofList n l).toList = l := by
  unfold ofList
  simp [Vector.toList, h, List.take_of_length_le]

theorem ofList_toList {n : Nat} (b : Bytes n) : ofList n b.toList = b := by
  apply Vector.toList_inj.mp
  exact toList_ofList (Vector.length_toList)

theorem ofList_bigEndian {n : Nat} (b : Bytes n) :
    ofList n (bigEndian n (ofBigEndian b.toList)) = b := by
  have hback := bigEndian_ofBigEndian b.toList
  rw [Vector.length_toList] at hback
  rw [hback, ofList_toList]

end Bytes

theorem allZero_iff {n : Nat} (b : Bytes n) : allZero b.toList = true ↔ b = .zero n := by
  unfold allZero Bytes.zero
  rw [List.all_eq_true]
  constructor
  · intro h
    apply Vector.toList_inj.mp
    rw [Vector.toList_replicate]
    apply List.eq_replicate_iff.mpr
    exact ⟨Vector.length_toList, fun x hx => by simpa using h x hx⟩
  · rintro rfl x hx
    rw [Vector.toList_replicate] at hx
    simpa using (List.eq_of_mem_replicate hx)

section Buffers

/-- The bytes of a buffer from a place on, unless the place is outside of it. -/
def sliceFrom? (buffer : List UInt8) (place : Nat) : Option (List UInt8) :=
  if place ≤ buffer.length then some (buffer.drop place) else none

/-- The bytes of a buffer up to a place, unless the place is outside of it. -/
def sliceTo? (buffer : List UInt8) (place : Nat) : Option (List UInt8) :=
  if place ≤ buffer.length then some (buffer.take place) else none

/-- A buffer with its front overwritten, unless the bytes do not fit. -/
def overwrite? (buffer l : List UInt8) : Option (List UInt8) :=
  if l.length ≤ buffer.length then some (l ++ buffer.drop l.length) else none

/-- A buffer with one byte of it replaced, unless the place is outside of it. -/
def setAt? (buffer : List UInt8) (place : Nat) (b : UInt8) : Option (List UInt8) :=
  if place < buffer.length then some (buffer.set place b) else none

variable {buffer l : List UInt8} {place : Nat}

theorem sliceFrom?_inside (h : place ≤ buffer.length) :
    sliceFrom? buffer place = some (buffer.drop place) := if_pos h

theorem sliceTo?_inside (h : place ≤ buffer.length) :
    sliceTo? buffer place = some (buffer.take place) := if_pos h

theorem overwrite?_fits (h : l.length ≤ buffer.length) :
    overwrite? buffer l = some (l ++ buffer.drop l.length) := if_pos h

theorem setAt?_inside (h : place < buffer.length) (b : UInt8) :
    setAt? buffer place b = some (buffer.set place b) := if_pos h

/-- The bytes before a place stay, and the one put there follows them. -/
theorem take_succ_set (h : place < buffer.length) (b : UInt8) :
    (buffer.set place b).take (place + 1) = buffer.take place ++ [b] := by
  have hset : place < (buffer.set place b).length := by rwa [List.length_set]
  rw [← List.take_append_getElem hset, List.getElem_set_self, List.take_set_of_le (Nat.le_refl _)]

end Buffers

end ColdWallet
