import ColdWallet.Proofs.Curve.CompactPoint
import ColdWallet.Proofs.Curve.Recoding

namespace ColdWallet.Recoding

/-- A scalar in limbs of 64 bits, the lowest first. -/
abbrev Limbs := Vector UInt64 4

namespace Limbs

def ofScalar (k : Scalar) : Limbs :=
  Vector.ofFn fun i => UInt64.ofNat (ofBigEndian ((k.toBytes.toList.drop (24 - 8 * i)).take 8))

def bit? (l : Limbs) (i : Nat) : Option Bool := do
  let limb ← l[i / 64]?
  return (limb >>> UInt64.ofNat (i % 64)) &&& 1 != 0

def toggle? (l : Limbs) (i : Nat) : Option (Limbs × Bool) := do
  let limb ← l[i / 64]?
  let l := l.setIfInBounds (i / 64) (limb ^^^ (1 <<< UInt64.ofNat (i % 64)))
  return (l, ← bit? l i)

/-- The limbs hold a word, bit by bit. -/
def Holds (l : Limbs) (word : Nat) : Prop := ∀ i < bits, bit? l i = some (word.testBit i)

variable {l : Limbs} {word i : Nat}

theorem limb_bit (limb : UInt64) {j : Nat} (h : j < 64) :
    ((limb >>> UInt64.ofNat j) &&& 1 != 0) = limb.toNat.testBit j := by
  have hj : j < UInt64.size := h.trans (by decide)
  apply Bool.eq_iff_iff.mpr
  simp only [bne_iff_ne, ne_eq, ← UInt64.toNat_inj, UInt64.toNat_and, UInt64.toNat_shiftRight,
    UInt64.toNat_ofNat_of_lt' hj, UInt64.toNat_one, UInt64.toNat_zero, Nat.mod_eq_of_lt h,
    Nat.and_one_is_mod, Nat.shiftRight_eq_div_pow, Nat.testBit_eq_decide_div_mod_eq,
    decide_eq_true_eq, Nat.mod_two_not_eq_zero]

theorem limb_lt (h : i < bits) : i / 64 < 4 := Nat.div_lt_of_lt_mul h

theorem bit?_eq (h : i / 64 < 4) : bit? l i = some (l[i / 64].toNat.testBit (i % 64)) := by
  rw [bit?, Vector.getElem?_eq_getElem h]
  exact congrArg some (limb_bit _ (Nat.mod_lt i (by decide)))

/-- A limb is eight bytes, and so a digit of the scalar in base `2^64`. -/
theorem ofScalar_limb (k : Scalar) {j : Nat} (h : j < 4) :
    ((ofScalar k)[j]).toNat = k.val / 2 ^ (64 * j) % 2 ^ 64 := by
  have hpow (m : Nat) : 256 ^ (8 * m) = 2 ^ (64 * m) := by
    rw [show 256 = 2 ^ 8 from rfl, ← pow_mul, ← Nat.mul_assoc]
  have hlength : (k.toBytes.toList.drop (24 - 8 * j)).length = 8 * (j + 1) := by
    rw [List.length_drop, Vector.length_toList]
    omega
  have hbytes : ofBigEndian ((k.toBytes.toList.drop (24 - 8 * j)).take 8) =
      k.val / 2 ^ (64 * j) % 2 ^ 64 := by
    rw [ofBigEndian_take, ofBigEndian_drop, Scalar.ofBigEndian_toBytes, ← List.length_drop, hlength,
      show 8 * (j + 1) - 8 = 8 * j by omega, hpow, hpow, Nat.mul_add, pow_add,
      Nat.mod_mul_right_div_self]
  rw [ofScalar, Vector.getElem_ofFn, hbytes]
  exact UInt64.toNat_ofNat_of_lt' (Nat.mod_lt _ (by decide))

theorem holds_ofScalar (k : Scalar) : Holds (ofScalar k) k.val := by
  intro i hi
  rw [bit?_eq (limb_lt hi), ofScalar_limb k (limb_lt hi), Nat.testBit_mod_two_pow,
    Nat.testBit_div_two_pow, Nat.mod_add_div, decide_eq_true (Nat.mod_lt i (by decide)),
    Bool.true_and]

theorem limb_flip (limb : UInt64) {j : Nat} (h : j < 64) :
    (limb ^^^ (1 <<< UInt64.ofNat j)).toNat = flip limb.toNat j := by
  have hj : (UInt64.ofNat j).toNat % 64 = j := by
    rw [UInt64.toNat_ofNat_of_lt' (h.trans (by decide)), Nat.mod_eq_of_lt h]
  have hone : (1 <<< j) % 2 ^ 64 = 1 <<< j := by
    rw [Nat.shiftLeft_eq, one_mul]
    exact Nat.mod_eq_of_lt (Nat.pow_lt_pow_right (by decide) h)
  rw [UInt64.toNat_xor, UInt64.toNat_shiftLeft, hj, UInt64.toNat_one, hone, flip]

theorem Holds.toggle (h : Holds l word) (hi : i < bits) :
    ∃ l', toggle? l i = some (l', !word.testBit i) ∧ Holds l' (flip word i) := by
  have hlimb := limb_lt hi
  have hflipped : Holds (l.setIfInBounds (i / 64) (l[i / 64] ^^^ (1 <<< UInt64.ofNat (i % 64))))
      (flip word i) := by
    intro j hj
    have hold := h j hj
    rw [bit?_eq (limb_lt hj), Option.some.injEq] at hold
    rw [bit?_eq (limb_lt hj), Vector.getElem_setIfInBounds, testBit_flip]
    by_cases hsame : i / 64 = j / 64
    · have hbit : i % 64 = j % 64 ↔ i = j :=
        ⟨fun h => by rw [← Nat.div_add_mod i 64, hsame, h, Nat.div_add_mod], fun h => by rw [h]⟩
      simp only [hsame, if_true]
      rw [limb_flip _ (Nat.mod_lt i (by decide)), testBit_flip, hold, decide_eq_decide.mpr hbit]
    · have hother : i ≠ j := fun h => hsame (by rw [h])
      rw [if_neg hsame, hold, decide_eq_false hother, Bool.xor_false]
  refine ⟨_, ?_, hflipped⟩
  have hset := hflipped i hi
  rw [testBit_flip_self] at hset
  rw [toggle?, Vector.getElem?_eq_getElem hlimb]
  show (bit? _ i >>= fun set => some (_, set)) = _
  rw [hset]
  rfl

end Limbs

/-- A byte with bit `n` put in if it is set. -/
def putBit? (a : UInt8) (n : Nat) (set : Bool) : Option UInt8 :=
  if set then if n < 8 then some (a ||| 1 <<< UInt8.ofNat n) else none else some a

def addUnless? (a : UInt8) (n : Nat) (set : Bool) : Option UInt8 :=
  if set then some a else if a.toNat + n < 256 then some (a + UInt8.ofNat n) else none

def sub? (a b : Nat) : Option Nat := if b ≤ a then some (a - b) else none

/-- The limbs of a scalar, and the window where the cursor stands in them. -/
structure Cursor where
  limbs : Limbs
  bit : UInt8
  elem : UInt8

namespace Cursor

def noBit : UInt8 := 0xff

def noElem : UInt8 := 0x80

/-- A recoding in progress. -/
structure Rewriting extends Cursor where
  carry : Bool
  /-- How many bits the open window has taken, zero if none is open. -/
  taken : Nat
  /-- Where the window opened last starts. -/
  start : Nat

namespace Rewriting

def fresh (k : Scalar) : Rewriting where
  limbs := .ofScalar k
  bit := noBit
  elem := noElem
  carry := false
  taken := 0
  start := 0

def opened (r : Rewriting) (i : Nat) : Rewriting :=
  { r with bit := UInt8.ofNat i, elem := 0, taken := 1, start := i }

/-- Takes bit `i` into the open window. The bit after the window is its marker: if that is set
already, the bit where the window starts is cleared instead. -/
def take? (width : Nat) (r : Rewriting) (i : Nat) (set : Bool) : Option Rewriting := do
  let elem ← putBit? r.elem (r.taken - 1) set
  if r.taken < width then return { r with elem, taken := r.taken + 1 }
  else
    let (limbs, _) ← Limbs.toggle? r.limbs (if set then r.start else i)
    return { r with limbs, elem, carry := set, taken := 0 }

def step? (width : Nat) (r : Rewriting) (i : Nat) : Option Rewriting := do
  if r.carry then
    let (limbs, set) ← Limbs.toggle? r.limbs i
    if set then return opened { r with limbs, carry := false } i
    else return { r with limbs }
  else
    let set ← Limbs.bit? r.limbs i
    if r.taken = 0 then return if set then r.opened i else r
    else r.take? width i set

end Rewriting

/-- Looks for a set bit from bit `b` down, no further than to bit `width`. -/
def seek? (width : Nat) (l : Limbs) : (b : Nat) → Option (Option Nat)
  | 0 => do
    if ← Limbs.bit? l 0 then return some 0 else return none
  | b + 1 => do
    if ← Limbs.bit? l (b + 1) then return some (b + 1)
    else if b + 1 ≤ width then return none
    else seek? width l b

/-- Shifts the bits below bit `b` into a byte. -/
def readDown? (l : Limbs) : (count b : Nat) → UInt8 → Option (Nat × UInt8)
  | 0, b, elem => some (b, elem)
  | count + 1, b, elem => do
    let b ← sub? b 1
    let set ← Limbs.bit? l b
    readDown? l count b (if set then elem <<< 1 ||| 1 else elem <<< 1)

/-- Moves to the next window below, over a table of so many odd multiples. -/
def moveNext? (width odds : Nat) (c : Cursor) : Option Cursor := do
  if c.bit.toNat ≤ width then return c
  match ← seek? width c.limbs (c.bit.toNat - 1) with
  | none => return { c with bit := noBit, elem := noElem }
  | some m =>
    let low ← sub? m width
    let (b, elem) ← readDown? c.limbs (width - 1) m 0
    let b ← sub? b 1
    let set ← Limbs.bit? c.limbs b
    let elem ← addUnless? elem odds set
    return { c with bit := UInt8.ofNat low, elem }

/-- The windows where the cursor stands when its bit comes up, from bit `n - 1` down. -/
def walk? (width odds : Nat) : (n : Nat) → Cursor → Option (List Window)
  | 0, _ => some []
  | n + 1, c => do
    if c.bit.toNat ≠ n ∨ c.elem = noElem then walk? width odds n c
    else
      let visited ← walk? width odds n (← c.moveNext? width odds)
      return ⟨c.bit.toNat, c.elem.toNat⟩ :: visited

end Cursor

/-- The windows that a cursor visits in a scalar, and whether a carry left the top bit. -/
def visit? (width : Nat) (k : Scalar) : Option (List Window × Bool) := do
  let r ← (List.range bits).foldlM (Cursor.Rewriting.step? width) (.fresh k)
  let visited ← r.walk? width (2 ^ (width - 1)) bits
  return (visited, r.carry)

section Bytes

theorem putBit?_eq {a : UInt8} {n : Nat} (hn : n < 8) (ha : a.toNat < 2 ^ n) (set : Bool) :
    ∃ b, putBit? a n set = some b ∧ b.toNat = a.toNat + set.toNat * 2 ^ n := by
  cases set with
  | true =>
    have hshift : (UInt8.ofNat n).toNat % 8 = n := by
      rw [UInt8.toNat_ofNat_of_lt' (hn.trans (by decide)), Nat.mod_eq_of_lt hn]
    have hlt : 2 ^ n < 2 ^ 8 := Nat.pow_lt_pow_right (by decide) hn
    refine ⟨a ||| 1 <<< UInt8.ofNat n, if_pos hn, ?_⟩
    rw [UInt8.toNat_or, UInt8.toNat_shiftLeft, hshift, UInt8.toNat_one, Nat.shiftLeft_eq, one_mul,
      Nat.mod_eq_of_lt hlt, Nat.or_two_pow_eq_add_of_lt ha, Bool.toNat_true, one_mul]
  | false =>
    refine ⟨a, rfl, ?_⟩
    rw [Bool.toNat_false, zero_mul, add_zero]

theorem addUnless?_eq {a : UInt8} {n : Nat} (h : a.toNat + n < 256) (set : Bool) :
    ∃ b, addUnless? a n set = some b ∧ b.toNat = a.toNat + if set then 0 else n := by
  cases set with
  | true => exact ⟨a, rfl, rfl⟩
  | false =>
    refine ⟨a + UInt8.ofNat n, if_pos h, ?_⟩
    rw [UInt8.toNat_add, UInt8.toNat_ofNat_of_lt' (Nat.lt_of_le_of_lt (Nat.le_add_left _ _) h),
      Nat.mod_eq_of_lt h]
    rfl

theorem sub?_eq {a b : Nat} (h : b ≤ a) : sub? a b = some (a - b) := if_pos h

/-- A byte shifted up by one, with a bit put in. -/
theorem shifted_toNat {elem : UInt8} (h : 2 * elem.toNat < 256) (set : Bool) :
    (if set then elem <<< 1 ||| 1 else elem <<< 1).toNat = 2 * elem.toNat + set.toNat := by
  have hshift : (elem <<< 1).toNat = 2 * elem.toNat := by
    rw [UInt8.toNat_shiftLeft, UInt8.toNat_one, show 1 % 8 = 1 from rfl, Nat.shiftLeft_eq, pow_one,
      mul_comm, Nat.mod_eq_of_lt h]
  cases set with
  | true =>
    have hor := Nat.shiftLeft_add_eq_or_of_lt (show 1 < 2 ^ 1 by decide) elem.toNat
    rw [Nat.shiftLeft_eq, pow_one, mul_comm] at hor
    rw [if_pos rfl, UInt8.toNat_or, hshift, UInt8.toNat_one, ← hor]
    rfl
  | false => rw [if_neg Bool.false_ne_true, hshift, Bool.toNat_false, add_zero]

end Bytes

namespace Cursor

/-- The cursor stands at a window, or nowhere. -/
def At (c : Cursor) : Option Window → Prop
  | none => c.bit = noBit ∧ c.elem = noElem
  | some t => c.bit.toNat = t.bit ∧ c.elem.toNat = t.index

namespace Rewriting

/-- What is recoded in the limbs is what is recoded in a word. -/
structure Shows (r : Rewriting) (s : Scan) : Prop where
  word : Limbs.Holds r.limbs s.word
  at_top : r.At s.top
  carry : r.carry = s.carry
  taken : r.taken = s.taken
  start : r.start = (s.top.map Window.bit).getD 0

variable {width i : Nat} {r : Rewriting} {s : Scan}

theorem shows_fresh (k : Scalar) : (fresh k).Shows ⟨k.val, false, 0, none⟩ where
  word := Limbs.holds_ofScalar k
  at_top := ⟨rfl, rfl⟩
  carry := rfl
  taken := rfl
  start := rfl

theorem shows_opened (hi : i < bits) {word : Nat} (hword : Limbs.Holds r.limbs word)
    (hcarry : r.carry = false) : (r.opened i).Shows ⟨word, false, 1, some ⟨i, 0⟩⟩ where
  word := hword
  at_top := ⟨UInt8.toNat_ofNat_of_lt' hi, rfl⟩
  carry := hcarry
  taken := rfl
  start := rfl

theorem Shows.take (h : r.Shows s) {k : Nat} {t : Window} (hopen : s.Open width k i t)
    (hwidth : width ≤ 6) (hi : i < bits) :
    ∃ r', r.take? width i (s.word.testBit i) = some r' ∧ r'.Shows (s.take width i) := by
  have hwithin := hopen.within
  have hopened := hopen.start
  have hstart : r.start = t.bit := by
    rw [h.start, hopen.top]
    rfl
  have hplace := h.at_top
  rw [hopen.top] at hplace
  obtain ⟨hbit, hindex⟩ := hplace
  have hlow := hopen.index_lt
  rw [← hindex] at hlow
  obtain ⟨elem, helem, hgrown⟩ :=
    putBit?_eq (show s.taken - 1 < 8 by omega) hlow (s.word.testBit i)
  rw [hindex] at hgrown
  rw [take?, Scan.take, hopen.map_top, h.taken, helem, Option.bind_eq_bind, Option.bind_some]
  by_cases hroom : s.taken < width
  · rw [if_pos hroom, if_pos hroom]
    exact ⟨_, rfl, h.word, ⟨hbit, hgrown⟩, h.carry, rfl, hstart⟩
  · rw [if_neg hroom, if_neg hroom, hopen.top, hstart]
    cases s.word.testBit i with
    | true =>
      obtain ⟨limbs, htoggle, hflipped⟩ := h.word.toggle (show t.bit < bits by omega)
      rw [if_pos rfl, if_pos rfl, htoggle]
      exact ⟨_, rfl, hflipped, ⟨hbit, hgrown⟩, rfl, rfl, rfl⟩
    | false =>
      obtain ⟨limbs, htoggle, hflipped⟩ := h.word.toggle hi
      rw [if_neg Bool.false_ne_true, if_neg Bool.false_ne_true, htoggle]
      exact ⟨_, rfl, hflipped, ⟨hbit, hgrown⟩, rfl, rfl, rfl⟩

/-- The limbs keep up with the word at every bit. -/
theorem Shows.step (h : r.Shows s) {k : Nat} (hreached : s.Reached width k i) (hwidth : width ≤ 6)
    (hi : i < bits) : ∃ r', r.step? width i = some r' ∧ r'.Shows (s.step width i) := by
  unfold Scan.step step?
  rw [h.carry, h.taken]
  cases hc : s.carry with
  | true =>
    obtain ⟨limbs, htoggle, hflipped⟩ := h.word.toggle hi
    rw [if_pos rfl, if_pos rfl, htoggle]
    simp only [Option.bind_eq_bind, Option.bind_some, testBit_flip_self]
    cases hset : s.word.testBit i with
    | true => exact ⟨_, rfl, hflipped, h.at_top, rfl, rfl, h.start⟩
    | false => exact ⟨_, rfl, shows_opened hi hflipped rfl⟩
  | false =>
    rw [if_neg Bool.false_ne_true, if_neg Bool.false_ne_true, h.word i hi, Option.bind_eq_bind,
      Option.bind_some]
    by_cases htaken : s.taken = 0
    · rw [if_pos htaken, if_pos htaken]
      cases hset : s.word.testBit i with
      | true => exact ⟨_, rfl, shows_opened hi h.word (h.carry.trans hc)⟩
      | false => exact ⟨_, rfl, h⟩
    · rw [if_neg htaken, if_neg htaken]
      rcases hreached with hclosed | ⟨t, hopen⟩
      · exact absurd hclosed.taken htaken
      · exact h.take hopen hwidth hi

/-- The limbs after `n` bits show the word after `n` bits. -/
theorem shows_foldlM (hw : 0 < width) (hwidth : width ≤ 6) (k : Scalar) {n : Nat} (hn : n ≤ bits) :
    ∃ r, (List.range n).foldlM (step? width) (fresh k) = some r ∧
      r.Shows ((List.range n).foldl (Scan.step width) ⟨k.val, false, 0, none⟩) := by
  induction n with
  | zero => exact ⟨fresh k, rfl, shows_fresh k⟩
  | succ n ih =>
    obtain ⟨r, hrun, hshows⟩ := ih (Nat.le_of_succ_le hn)
    obtain ⟨r', hstep, hnext⟩ := hshows.step (Scan.reached_foldl hw k.val n) hwidth hn
    refine ⟨r', ?_, ?_⟩
    · rw [List.range_succ, List.foldlM_append, hrun, Option.bind_eq_bind, Option.bind_some,
        List.foldlM_cons, hstep]
      rfl
    · rwa [List.range_succ, List.foldl_concat]

end Rewriting

section Moving

variable {width word : Nat} {l : Limbs} {c : Cursor}

/-- The cursor looks for the highest marker, and stops where there can be none. -/
theorem seek?_eq (h : Limbs.Holds l word) {b : Nat} (hb : b < bits) (hlow : width ≤ b) :
    seek? width l b = some (highestMarker word width (b + 1)) := by
  rw [highestMarker_succ hlow]
  induction b with
  | zero =>
    rw [seek?, h 0 hb]
    cases word.testBit 0 <;> rfl
  | succ b ih =>
    rw [seek?, h (b + 1) hb, Option.bind_eq_bind, Option.bind_some]
    cases word.testBit (b + 1) with
    | true => rfl
    | false =>
      rw [if_neg Bool.false_ne_true, if_neg Bool.false_ne_true]
      by_cases hend : b + 1 ≤ width
      · rw [if_pos hend, highestMarker_of_le hend]
        rfl
      · have hroom : width ≤ b := by omega
        rw [if_neg hend, ih (by omega) hroom, highestMarker_succ hroom]

/-- The bits below bit `b` are shifted into the byte as long as it has room for them. -/
theorem readDown?_eq (h : Limbs.Holds l word) {count b : Nat} {elem : UInt8} (hb : b ≤ bits)
    (hcount : count ≤ b) (hroom : (elem.toNat + 1) * 2 ^ count ≤ 256) :
    ∃ e, readDown? l count b elem = some (b - count, e) ∧
      e.toNat = elem.toNat * 2 ^ count + (word >>> (b - count)) % 2 ^ count := by
  induction count generalizing b elem with
  | zero => exact ⟨elem, rfl, by rw [pow_zero, mul_one, Nat.mod_one, add_zero]⟩
  | succ count ih =>
    obtain ⟨b, rfl⟩ : ∃ a, b = a + 1 := ⟨b - 1, by omega⟩
    have hpow : 2 ^ (count + 1) = 2 * 2 ^ count := pow_succ' 2 count
    have hone : 1 ≤ 2 ^ count := Nat.one_le_two_pow
    have hshifted := shifted_toNat (show 2 * elem.toNat < 256 by nlinarith) (word.testBit b)
    have hroom' : ((if word.testBit b then elem <<< 1 ||| 1 else elem <<< 1).toNat + 1) *
        2 ^ count ≤ 256 := by
      have hset := Bool.toNat_le (word.testBit b)
      rw [hshifted]
      nlinarith
    obtain ⟨e, hread, he⟩ := ih (Nat.le_of_succ_le hb) (Nat.le_of_succ_le_succ hcount) hroom'
    refine ⟨e, ?_, ?_⟩
    · rw [readDown?, sub?_eq (show 1 ≤ b + 1 by omega), Option.bind_eq_bind, Option.bind_some,
        Nat.add_sub_cancel, h b hb, Option.bind_eq_bind, Option.bind_some, hread,
        Nat.add_sub_add_right]
    · rw [he, hshifted, Nat.add_sub_add_right, mod_two_pow_succ, Nat.testBit_shiftRight,
        show b - count + count = b by omega, hpow]
      ring

/-- The window of a marker is read as the word has it. -/
theorem readWindow_eq (hw : 0 < width) (hwidth : width ≤ 6) (h : Limbs.Holds l word) {m : Nat}
    (hlow : width ≤ m) (hm : m < bits) :
    ∃ b e elem, sub? m width = some (windowAt width word m).bit ∧
      readDown? l (width - 1) m 0 = some (b, e) ∧ sub? b 1 = some (m - width) ∧
      addUnless? e (2 ^ (width - 1)) (word.testBit (m - width)) = some elem ∧
      elem.toNat = (windowAt width word m).index := by
  have hsize : 2 ^ (width - 1) ≤ 2 ^ 5 := Nat.pow_le_pow_right (by decide) (by omega)
  have hroom : ((0 : UInt8).toNat + 1) * 2 ^ (width - 1) ≤ 256 := by
    rw [UInt8.toNat_zero]
    omega
  obtain ⟨e, hread, he⟩ := readDown?_eq h (Nat.le_of_lt hm) (show width - 1 ≤ m by omega) hroom
  have hindex := Nat.mod_lt (word >>> (m - (width - 1))) (Nat.two_pow_pos (width - 1))
  rw [UInt8.toNat_zero, zero_mul, zero_add] at he
  obtain ⟨elem, hsign, helem⟩ := addUnless?_eq (a := e) (n := 2 ^ (width - 1)) (by omega)
    (word.testBit (m - width))
  refine ⟨_, e, elem, sub?_eq hlow, hread, ?_, hsign, ?_⟩
  · rw [sub?_eq (by omega)]
    congr 1
    omega
  · rw [helem, he, windowAt, show m - (width - 1) = m - width + 1 by omega]
    simp only [Nat.shiftLeft_eq, one_mul]

/-- A cursor that moves on stands at the next window below; where there is none it stays where it is
or stands nowhere. -/
theorem moveNext?_eq (hw : 0 < width) (hwidth : width ≤ 6) (h : Limbs.Holds c.limbs word) :
    ∃ c', c.moveNext? width (2 ^ (width - 1)) = some c' ∧ c'.limbs = c.limbs ∧
      match next width word c.bit.toNat with
      | none => c'.bit = c.bit ∨ c'.elem = noElem
      | some t => c'.At (some t) := by
  have hbit : c.bit.toNat < bits := c.bit.toNat_lt
  unfold moveNext?
  by_cases hstay : c.bit.toNat ≤ width
  · rw [if_pos hstay, next_of_le hstay]
    exact ⟨c, rfl, rfl, .inl rfl⟩
  · have hseek := seek?_eq h (show c.bit.toNat - 1 < bits by omega)
      (show width ≤ c.bit.toNat - 1 by omega)
    rw [Nat.sub_add_cancel (by omega)] at hseek
    rw [if_neg hstay, hseek, next]
    cases hm : highestMarker word width c.bit.toNat with
    | none => exact ⟨_, rfl, rfl, .inr rfl⟩
    | some m =>
      obtain ⟨hlow, hlt⟩ := highestMarker_eq_some hm
      have hm : m < bits := hlt.trans hbit
      obtain ⟨b, e, elem, hsub, hread, hsign, helem, hindex⟩ := readWindow_eq hw hwidth h hlow hm
      have hstart : m - width < bits := Nat.lt_of_le_of_lt (Nat.sub_le m width) hm
      have hset := h (m - width) hstart
      simp only [Option.bind_eq_bind, Option.bind_some, hsub, hread, hsign, hset, helem]
      exact ⟨_, rfl, rfl, UInt8.toNat_ofNat_of_lt' hstart, hindex⟩

/-- A cursor whose bit has passed, or that stands nowhere, visits nothing more. -/
theorem walk?_ended {odds n : Nat} (h : n ≤ c.bit.toNat ∨ c.elem = noElem) :
    walk? width odds n c = some [] := by
  induction n with
  | zero => rfl
  | succ n ih =>
    have hpassed : c.bit.toNat ≠ n ∨ c.elem = noElem := h.imp_left fun h => by omega
    rw [walk?, if_pos hpassed]
    exact ih (h.imp_left Nat.le_of_succ_le)

/-- A cursor that stands at a window visits it and all windows below it. -/
theorem walk?_eq (hw : 0 < width) (hwidth : width ≤ 6) (h : Limbs.Holds c.limbs word) {t : Window}
    (hat : c.At (some t)) (hindex : t.index < 2 * 2 ^ (width - 1)) {n : Nat} (hn : t.bit < n) :
    walk? width (2 ^ (width - 1)) n c = some (t :: below width word t.bit) := by
  induction n generalizing c t with
  | zero => exact absurd hn (Nat.not_lt_zero _)
  | succ n ih =>
    obtain ⟨hbit, helem⟩ := hat
    rw [walk?]
    by_cases hcomes : t.bit = n
    · have hsize : 2 ^ (width - 1) ≤ 2 ^ 5 := Nat.pow_le_pow_right (by decide) (by omega)
      have hthere : c.elem ≠ noElem := by
        intro hnowhere
        have hlarge : c.elem.toNat = 128 := by rw [hnowhere]; rfl
        omega
      obtain ⟨c', hmove, hlimbs, hnext⟩ := moveNext?_eq hw hwidth h
      have hvisit : ¬(c.bit.toNat ≠ n ∨ c.elem = noElem) := by
        rintro (hother | hnowhere)
        · exact hother (hbit.trans hcomes)
        · exact hthere hnowhere
      rw [if_neg hvisit, hmove, Option.bind_eq_bind, Option.bind_some]
      have hbelow : walk? width (2 ^ (width - 1)) n c' = some (below width word t.bit) := by
        rw [hbit] at hnext
        cases hb : next width word t.bit with
        | none =>
          rw [hb] at hnext
          rw [below_of_none hb]
          exact walk?_ended (hnext.imp_left fun hstays => by rw [hstays, hbit, hcomes])
        | some t' =>
          rw [hb] at hnext
          have hlt := next_eq_some hb
          rw [below_of_some hb]
          exact ih (hlimbs ▸ h) hnext (next_index_lt hb) (by omega)
      rw [hbelow, Option.bind_eq_bind, Option.bind_some, hbit, helem]
      rfl
    · rw [if_pos (.inl fun h => hcomes (hbit.symm.trans h))]
      exact ih h ⟨hbit, helem⟩ hindex (by omega)

end Moving

end Cursor

/-- From the top of what is recoded the cursor visits all of its windows. -/
theorem Cursor.Rewriting.Shows.walk {width k n : Nat} {r : Cursor.Rewriting} {s : Scan}
    (h : r.Shows s) (hw : 0 < width) (hwidth : width ≤ 6) (hreached : s.Reached width k n) :
    r.walk? width (2 ^ (width - 1)) n = some (descend width s.word n s.top) := by
  have hplace := h.at_top
  cases htop : s.top with
  | none =>
    rw [htop] at hplace
    rw [walk?_ended (.inr hplace.2), descend_none]
  | some t =>
    rw [htop] at hplace
    have hlt := hreached.top_lt htop
    rw [walk?_eq hw hwidth h.word hplace (hreached.top_index_lt htop) hlt,
      descend_some s.word hlt]

theorem visit?_eq {width : Nat} (hw : 0 < width) (hwidth : width ≤ 6) (k : Scalar) :
    visit? width k = some (windows width k.val) := by
  obtain ⟨r, hrun, hshows⟩ := Cursor.Rewriting.shows_foldlM hw hwidth k (le_refl bits)
  have hwalk := hshows.walk hw hwidth (reached_scan hw k.val)
  unfold visit? windows
  simp only [hrun, Option.bind_eq_bind, Option.bind_some, hwalk, hshows.carry]
  rfl

/-- Recoding a scalar in place is exact and sparse. The windows visited are odd digits that add up
to the scalar with the carry above them, and each is further below the one before than it is wide;
the zero scalar alone has none. -/
theorem visit_exact {width : Nat} (hw : 0 < width) (hwidth : width ≤ 6) (k : Scalar) :
    ∃ (visited : List Window) (carry : Bool), visit? width k = some (visited, carry) ∧
      windows width k.val = (visited, carry) ∧
      (k.val : Int) = carry.toNat * 2 ^ 256 +
        (visited.map fun v => Window.digit width v.index * 2 ^ v.bit).sum ∧
      visited.Pairwise (fun v w => w.bit + width < v.bit) ∧
      (∀ v ∈ visited, v.bit < 256 ∧ v.index < 2 * 2 ^ (width - 1) ∧
        Odd (Window.digit width v.index) ∧ |Window.digit width v.index| < 2 ^ width) ∧
      (visited = [] ↔ k = 0) := by
  obtain ⟨visited, carry, hwindows⟩ : ∃ visited carry, windows width k.val = (visited, carry) :=
    ⟨_, _, rfl⟩
  have hk : k.val < 2 ^ bits := k.isLt.trans (by decide)
  have hsum := windows_sum hw hk hwindows
  refine ⟨visited, carry, (visit?_eq hw hwidth k).trans (congrArg some hwindows), hwindows,
    hsum.trans (add_comm _ _), windows_apart hw hwindows, ?_, ?_⟩
  · intro v hv
    have hindex := windows_index_lt hw hwindows v hv
    exact ⟨windows_bit_lt hw hwindows v hv, hindex, digit_odd width v.index,
      digit_abs_lt hw hindex⟩
  · constructor
    · rintro rfl
      exact Fin.ext (windows_nil hw hk hwindows)
    · rintro rfl
      have hzero : (0 : Scalar).val = 0 := rfl
      rw [hzero, windows_zero] at hwindows
      exact (congrArg Prod.fst hwindows).symm

/-- A run of ones is two windows: one above the run, and one at its start that is subtracted. -/
theorem visit_exact_run :
    let k : Scalar := 0xffff0
    0 < 3 ∧ 3 ≤ 6 ∧ visit? 3 k = some ([⟨20, 0⟩, ⟨4, 7⟩], false) ∧
      (k.val : Int) = Window.digit 3 0 * 2 ^ 20 + Window.digit 3 7 * 2 ^ 4 ∧ 4 + 3 < 20 := by
  intro k
  have hw : 0 < 3 := by decide
  have hwidth : 3 ≤ 6 := by decide
  have hrun : visit? 3 k = some ([⟨20, 0⟩, ⟨4, 7⟩], false) := by decide +kernel
  obtain ⟨visited, carry, hvisit, -, hsum, hapart, -⟩ := visit_exact hw hwidth k
  obtain ⟨rfl, rfl⟩ := Prod.mk.inj (Option.some.inj (hvisit.symm.trans hrun))
  refine ⟨hw, hwidth, hrun, ?_, (List.pairwise_cons.mp hapart).1 _ (List.mem_singleton.mpr rfl)⟩
  simpa using hsum

end ColdWallet.Recoding
