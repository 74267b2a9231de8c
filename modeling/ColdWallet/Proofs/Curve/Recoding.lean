import Mathlib.Algebra.BigOperators.Group.List.Basic
import Mathlib.Data.Nat.Bitwise
import Mathlib.Tactic.Ring
import Mathlib.Tactic.LinearCombination
import ColdWallet.Curve.Recoding

namespace ColdWallet

namespace Window

/-- The odd digit that an index stands for, over windows of `width` bits. -/
def digit (width index : Nat) : Int :=
  let size := 2 ^ (width - 1)
  if size ≤ index then -(2 * ((2 * size - 1 - index : Nat) : Int) + 1) else 2 * (index : Int) + 1

def value (width : Nat) (w : Window) : Int := digit width w.index * 2 ^ w.bit

end Window

namespace Recoding

/-- The windows start below the limit, each below the one before. -/
def Falling : (limit : Nat) → List Window → Prop
  | _, [] => True
  | limit, w :: below => w.bit < limit ∧ Falling w.bit below

/-- The windows below a bit, read from a recoded word. -/
def below (width word bit : Nat) : List Window := descend width word bit (next width word bit)

section Words

theorem testBit_flip (word bit i : Nat) :
    (flip word bit).testBit i = (word.testBit i ^^ decide (bit = i)) := by
  unfold flip
  rw [Nat.testBit_xor, Nat.shiftLeft_eq, one_mul, Nat.testBit_two_pow]

theorem testBit_flip_of_ne {word bit i : Nat} (h : bit ≠ i) :
    (flip word bit).testBit i = word.testBit i := by
  rw [testBit_flip, decide_eq_false h, Bool.xor_false]

theorem testBit_flip_self (word bit : Nat) : (flip word bit).testBit bit = !word.testBit bit := by
  rw [testBit_flip, decide_eq_true rfl, Bool.xor_true]

theorem mod_two_pow_succ (k i : Nat) :
    k % 2 ^ (i + 1) = k % 2 ^ i + (k.testBit i).toNat * 2 ^ i := by
  rw [Nat.mod_pow_succ, Nat.toNat_testBit, mul_comm]

theorem highestMarker_congr {word word' : Nat} (low : Nat) {limit : Nat}
    (h : ∀ i < limit, word'.testBit i = word.testBit i) :
    highestMarker word' low limit = highestMarker word low limit := by
  induction limit with
  | zero => rfl
  | succ b ih =>
    unfold highestMarker
    rw [h b (by omega), ih (fun i hi => h i (by omega))]

theorem highestMarker_eq_some {word low limit m : Nat}
    (h : highestMarker word low limit = some m) : low ≤ m ∧ m < limit := by
  induction limit with
  | zero => cases h
  | succ b ih =>
    unfold highestMarker at h
    split_ifs at h with hb ht
    · cases h
      omega
    · have := ih h
      omega

theorem highestMarker_succ {word low b : Nat} (h : low ≤ b) :
    highestMarker word low (b + 1) =
      if word.testBit b then some b else highestMarker word low b := by
  rw [highestMarker, if_neg (Nat.not_lt.mpr h)]

theorem highestMarker_of_le {word low limit : Nat} (h : limit ≤ low) :
    highestMarker word low limit = none := by
  cases hm : highestMarker word low limit with
  | none => rfl
  | some m =>
    have := highestMarker_eq_some hm
    omega

theorem highestMarker_succ_of_unset {word bit : Nat} (low : Nat) (h : word.testBit bit = false) :
    highestMarker word low (bit + 1) = highestMarker word low bit := by
  rw [highestMarker, h, if_neg Bool.false_ne_true]
  split_ifs with hb
  · cases bit with
    | zero => rfl
    | succ b => rw [highestMarker, if_pos (by omega)]
  · rfl

theorem windowAt_congr {width word word' m : Nat} (hw : 0 < width)
    (h : ∀ i < m, word'.testBit i = word.testBit i) (hm : width ≤ m) :
    windowAt width word' m = windowAt width word m := by
  unfold windowAt
  have hindex : (word' >>> (m - width + 1)) % 2 ^ (width - 1) =
      (word >>> (m - width + 1)) % 2 ^ (width - 1) := by
    apply Nat.eq_of_testBit_eq
    intro i
    rw [Nat.testBit_mod_two_pow, Nat.testBit_mod_two_pow, Nat.testBit_shiftRight,
      Nat.testBit_shiftRight]
    by_cases hi : i < width - 1
    · rw [h _ (by omega)]
    · rw [decide_eq_false hi, Bool.false_and, Bool.false_and]
  simp only [Nat.shiftLeft_eq, one_mul, hindex, h _ (show m - width < m by omega)]

theorem next_congr {width word word' bit : Nat} (hw : 0 < width)
    (h : ∀ i < bit, word'.testBit i = word.testBit i) :
    next width word' bit = next width word bit := by
  unfold next
  rw [highestMarker_congr width h]
  cases hm : highestMarker word width bit with
  | none => rfl
  | some m =>
    obtain ⟨hlow, hlt⟩ := highestMarker_eq_some hm
    rw [Option.map_some, Option.map_some,
      windowAt_congr hw (fun i hi => h i (by omega)) hlow]

theorem next_succ_of_unset {width word bit : Nat} (h : word.testBit bit = false) :
    next width word (bit + 1) = next width word bit := by
  unfold next
  rw [highestMarker_succ_of_unset width h]

theorem next_succ_of_set {width word bit : Nat} (h : word.testBit bit = true)
    (hb : width ≤ bit) : next width word (bit + 1) = some (windowAt width word bit) := by
  unfold next
  rw [highestMarker, if_neg (by omega), if_pos h]
  rfl

theorem next_eq_some {width word bit : Nat} {w : Window} (h : next width word bit = some w) :
    w.bit + width < bit := by
  obtain ⟨m, hm, rfl⟩ := Option.map_eq_some_iff.mp h
  obtain ⟨hlow, hlt⟩ := highestMarker_eq_some hm
  show m - width + width < bit
  omega

theorem next_of_le {width word bit : Nat} (h : bit ≤ width) : next width word bit = none := by
  rw [next, highestMarker_of_le h, Option.map_none]

end Words

section Reading

variable {width : Nat}

/-- The limit on the windows read does not matter once it reaches their bits. -/
theorem descend_limit (word : Nat) {bit limit : Nat} (h : bit ≤ limit) :
    descend width word limit (next width word bit) = below width word bit := by
  unfold below
  induction bit using Nat.strong_induction_on generalizing limit with
  | _ bit ih =>
    cases hn : next width word bit with
    | none => cases limit <;> cases bit <;> rfl
    | some w =>
      have hlt := next_eq_some hn
      obtain ⟨l, rfl⟩ : ∃ l, limit = l + 1 := ⟨limit - 1, by omega⟩
      obtain ⟨b, rfl⟩ : ∃ b, bit = b + 1 := ⟨bit - 1, by omega⟩
      rw [descend, descend, ih w.bit (by omega) (by omega : w.bit ≤ l),
        ih w.bit (by omega) (by omega : w.bit ≤ b)]

theorem descend_none (width word limit : Nat) : descend width word limit none = [] := by
  cases limit <;> rfl

theorem descend_some (word : Nat) {limit : Nat} {w : Window} (h : w.bit < limit) :
    descend width word limit (some w) = w :: below width word w.bit := by
  obtain ⟨l, rfl⟩ : ∃ l, limit = l + 1 := ⟨limit - 1, by omega⟩
  rw [descend, descend_limit word (by omega)]

theorem below_of_none {word bit : Nat} (h : next width word bit = none) :
    below width word bit = [] := by
  unfold below
  rw [h]
  cases bit <;> rfl

theorem below_of_some {word bit : Nat} {w : Window} (h : next width word bit = some w) :
    below width word bit = w :: below width word w.bit := by
  have hlt := next_eq_some h
  rw [below, h, descend_some word (by omega)]

theorem below_succ_of_unset {word bit : Nat} (h : word.testBit bit = false) :
    below width word (bit + 1) = below width word bit := by
  rw [below, next_succ_of_unset h, descend_limit word (by omega)]

theorem below_congr (hw : 0 < width) {word word' bit : Nat}
    (h : ∀ i < bit, word'.testBit i = word.testBit i) :
    below width word' bit = below width word bit := by
  induction bit using Nat.strong_induction_on with
  | _ bit ih =>
    cases hn : next width word bit with
    | none => rw [below_of_none hn, below_of_none (by rw [next_congr hw h, hn])]
    | some w =>
      have hlt := next_eq_some hn
      rw [below_of_some hn, below_of_some (by rw [next_congr hw h, hn]),
        ih w.bit (by omega) (fun i hi => h i (by omega))]

end Reading

def total (width : Nat) (windows : List Window) : Int := (windows.map (Window.value width)).sum

@[simp] theorem total_nil (width : Nat) : total width [] = 0 := rfl

@[simp] theorem total_cons (width : Nat) (w : Window) (windows : List Window) :
    total width (w :: windows) = w.value width + total width windows := by
  simp [total]

namespace Scan

/-- No window is open at bit `i`: the windows in the word and the carry make the bits so far. -/
structure Closed (width k i : Nat) (s : Scan) : Prop where
  taken : s.taken = 0
  fresh : ∀ j, i ≤ j → s.word.testBit j = k.testBit j
  top : next width s.word i = s.top
  sum : ((k % 2 ^ i : Nat) : Int) = total width (below width s.word i) + s.carry.toNat * 2 ^ i

/-- The window `t` is open at bit `i`, and takes this bit next. -/
structure Open (width k i : Nat) (t : Window) (s : Scan) : Prop where
  carry : s.carry = false
  top : s.top = some t
  start : t.bit + s.taken = i
  positive : 0 < s.taken
  within : s.taken ≤ width
  fresh : ∀ j, i ≤ j → s.word.testBit j = k.testBit j
  opening : s.word.testBit t.bit = true
  index : (s.word >>> (t.bit + 1)) % 2 ^ (s.taken - 1) = t.index
  sum : ((k % 2 ^ i : Nat) : Int) =
    (2 * (t.index : Int) + 1) * 2 ^ t.bit + total width (below width s.word t.bit)

/-- What holds of a scan that has recoded the bits below `i`. -/
def Reached (width k i : Nat) (s : Scan) : Prop :=
  s.Closed width k i ∨ ∃ t, s.Open width k i t

variable {width k i : Nat} {s : Scan}

/-- A set bit that the carry or nothing precedes opens a window. -/
theorem Closed.opened (hw : 0 < width) (h : s.Closed width k i) {word : Nat}
    (hword : ∀ j, j ≠ i → word.testBit j = s.word.testBit j) (hset : word.testBit i = true)
    (hcarry : s.carry = !k.testBit i) :
    Open width k (i + 1) ⟨i, 0⟩ ⟨word, false, 1, some ⟨i, 0⟩⟩ where
  carry := rfl
  top := rfl
  start := rfl
  positive := Nat.one_pos
  within := hw
  fresh j hj := by rw [hword j (by omega), h.fresh j (by omega)]
  opening := hset
  index := by simp [Nat.mod_one]
  sum := by
    have hbelow : below width word i = below width s.word i :=
      below_congr hw (fun j hj => hword j (by omega))
    rw [mod_two_pow_succ, Nat.cast_add, h.sum, hbelow, hcarry]
    cases k.testBit i <;> simp <;> ring

/-- A bit that is set under a carry is cleared, and carries on. -/
theorem Closed.carried (hw : 0 < width) (h : s.Closed width k i) (hcarry : s.carry = true)
    (hset : s.word.testBit i = true) :
    Closed width k (i + 1) { s with word := flip s.word i } where
  taken := h.taken
  fresh j hj := by rw [testBit_flip_of_ne (by omega), h.fresh j (by omega)]
  top := by
    rw [next_succ_of_unset (by rw [testBit_flip_self, hset, Bool.not_true]),
      next_congr hw (fun j hj => testBit_flip_of_ne (by omega)), h.top]
  sum := by
    have hk : k.testBit i = true := by rw [← h.fresh i (le_refl i), hset]
    have hunset : (flip s.word i).testBit i = false := by
      rw [testBit_flip_self, hset, Bool.not_true]
    have hbelow : below width (flip s.word i) (i + 1) = below width s.word i := by
      rw [below_succ_of_unset hunset, below_congr hw (fun j hj => testBit_flip_of_ne (by omega))]
    rw [mod_two_pow_succ, Nat.cast_add, h.sum, hbelow, hk, hcarry]
    push_cast
    simp
    ring

/-- A bit that is not set, with no carry into it, is passed over. -/
theorem Closed.passed (h : s.Closed width k i) (hcarry : s.carry = false)
    (hset : s.word.testBit i = false) : Closed width k (i + 1) s where
  taken := h.taken
  fresh j hj := h.fresh j (by omega)
  top := by rw [next_succ_of_unset hset, h.top]
  sum := by
    have hk : k.testBit i = false := by rw [← h.fresh i (le_refl i), hset]
    rw [mod_two_pow_succ, Nat.cast_add, h.sum, below_succ_of_unset hset, hk, hcarry]
    simp

theorem Closed.step (hw : 0 < width) (h : s.Closed width k i) :
    Reached width k (i + 1) (s.step width i) := by
  have hk := h.fresh i (le_refl i)
  unfold Scan.step
  cases hc : s.carry with
  | true =>
    rw [if_pos rfl]
    cases hset : s.word.testBit i with
    | true =>
      left
      rw [if_neg (by rw [testBit_flip_self, hset]; exact Bool.false_ne_true)]
      rw [← hc]
      exact h.carried hw hc hset
    | false =>
      right
      rw [if_pos (by rw [testBit_flip_self, hset]; rfl)]
      exact ⟨⟨i, 0⟩, h.opened hw (fun j hj => testBit_flip_of_ne hj.symm)
        (by rw [testBit_flip_self, hset]; rfl) (by rw [hc, ← hk, hset]; rfl)⟩
  | false =>
    rw [if_neg Bool.false_ne_true, if_pos h.taken]
    cases hset : s.word.testBit i with
    | true =>
      right
      rw [if_pos rfl]
      exact ⟨⟨i, 0⟩, h.opened hw (fun j _ => rfl) hset (by rw [hc, ← hk, hset]; rfl)⟩
    | false =>
      left
      rw [if_neg Bool.false_ne_true]
      exact h.passed hc hset

variable {t : Window}

theorem Open.index_lt (h : s.Open width k i t) : t.index < 2 ^ (s.taken - 1) := by
  rw [← h.index]
  exact Nat.mod_lt _ (Nat.two_pow_pos _)

/-- The index of the open window after it has taken bit `i`. -/
def grown (s : Scan) (t : Window) (i : Nat) : Window :=
  ⟨t.bit, t.index + (s.word.testBit i).toNat * 2 ^ (s.taken - 1)⟩

theorem Open.map_top (h : s.Open width k i t) :
    (s.top.map fun t =>
      if s.word.testBit i then { t with index := t.index ||| (1 <<< (s.taken - 1)) } else t) =
      some (s.grown t i) := by
  rw [h.top, Option.map_some, grown]
  cases s.word.testBit i with
  | true =>
    rw [if_pos rfl, Nat.shiftLeft_eq, one_mul, Nat.or_two_pow_eq_add_of_lt h.index_lt,
      Bool.toNat_true, one_mul]
  | false => simp

theorem Open.grown_index (h : s.Open width k i t) :
    (s.word >>> (t.bit + 1)) % 2 ^ s.taken = (s.grown t i).index := by
  have hpos := h.positive
  have hstart := h.start
  obtain ⟨j, hj⟩ : ∃ j, s.taken = j + 1 := ⟨s.taken - 1, by omega⟩
  have hindex := h.index
  rw [hj, Nat.add_sub_cancel] at hindex
  rw [hj, mod_two_pow_succ, hindex, Nat.testBit_shiftRight, grown, hj, Nat.add_sub_cancel,
    show t.bit + 1 + j = i by omega]

theorem Open.grown_sum (h : s.Open width k i t) :
    ((k % 2 ^ (i + 1) : Nat) : Int) =
      (2 * ((s.grown t i).index : Int) + 1) * 2 ^ t.bit +
        total width (below width s.word t.bit) := by
  have hpos := h.positive
  have hpow : (2 : Int) ^ i = 2 * 2 ^ (s.taken - 1) * 2 ^ t.bit := by
    rw [← h.start, ← pow_succ', ← pow_add]
    congr 1
    omega
  rw [mod_two_pow_succ, Nat.cast_add, h.sum, ← h.fresh i (le_refl i), grown]
  push_cast
  rw [hpow]
  ring

theorem Open.stretched (h : s.Open width k i t) (hroom : s.taken < width) :
    Open width k (i + 1) (s.grown t i)
      { s with taken := s.taken + 1, top := some (s.grown t i) } where
  carry := h.carry
  top := rfl
  start := by
    have hstart := h.start
    simp only [grown]
    omega
  positive := Nat.succ_pos _
  within := hroom
  fresh j hj := h.fresh j (by omega)
  opening := h.opening
  index := h.grown_index
  sum := h.grown_sum

/-- The window read from a word in which bit `i` is the marker of the window that is open. -/
theorem Open.windowAt_marker (hw : 0 < width) (h : s.Open width k i t) (hfull : s.taken = width)
    {word : Nat} (hword : ∀ j, t.bit < j → j < i → word.testBit j = s.word.testBit j) :
    windowAt width word i =
      ⟨t.bit, t.index + if word.testBit t.bit then 0 else 2 ^ (width - 1)⟩ := by
  have hstart := h.start
  have hbit : i - width = t.bit := by omega
  have hindex : (word >>> (t.bit + 1)) % 2 ^ (width - 1) = t.index := by
    rw [← h.index, hfull]
    apply Nat.eq_of_testBit_eq
    intro j
    rw [Nat.testBit_mod_two_pow, Nat.testBit_mod_two_pow, Nat.testBit_shiftRight,
      Nat.testBit_shiftRight]
    by_cases hj : j < width - 1
    · rw [hword _ (by omega) (by omega)]
    · rw [decide_eq_false hj, Bool.false_and, Bool.false_and]
  unfold windowAt
  simp only [Nat.shiftLeft_eq, one_mul, hbit, hindex]

/-- A window whose marker is not set is closed by setting it. -/
theorem Open.added (hw : 0 < width) (h : s.Open width k i t) (hfull : s.taken = width)
    (hset : s.word.testBit i = false) :
    Closed width k (i + 1) ⟨flip s.word i, false, 0, some (s.grown t i)⟩ := by
  have hstart := h.start
  have hmarker : (flip s.word i).testBit i = true := by
    rw [testBit_flip_self, hset, Bool.not_false]
  have hgrown : s.grown t i = t := by
    rw [grown, hset, Bool.toNat_false, zero_mul, add_zero]
  have hnext : next width (flip s.word i) (i + 1) = some t := by
    rw [next_succ_of_set hmarker (by omega),
      h.windowAt_marker hw hfull (fun j _ hj => testBit_flip_of_ne (by omega)),
      testBit_flip_of_ne (by omega), h.opening, if_pos rfl, add_zero]
  have hbelow : below width (flip s.word i) t.bit = below width s.word t.bit :=
    below_congr hw (fun j hj => testBit_flip_of_ne (by omega))
  refine ⟨rfl, fun j hj => ?_, ?_, ?_⟩
  · rw [testBit_flip_of_ne (by omega), h.fresh j (by omega)]
  · rw [hgrown, hnext]
  · have hlt := h.index_lt
    rw [hfull] at hlt
    rw [h.grown_sum, hgrown, below_of_some hnext, total_cons, Window.value, Window.digit, hbelow,
      if_neg (by omega)]
    simp

/-- A window whose marker is set is closed by clearing its opening bit, and is subtracted. -/
theorem Open.subtracted (hw : 0 < width) (h : s.Open width k i t) (hfull : s.taken = width)
    (hset : s.word.testBit i = true) :
    Closed width k (i + 1) ⟨flip s.word t.bit, true, 0, some (s.grown t i)⟩ := by
  have hstart := h.start
  have hmarker : (flip s.word t.bit).testBit i = true := by
    rw [testBit_flip_of_ne (by omega), hset]
  have hgrown : s.grown t i = ⟨t.bit, t.index + 2 ^ (width - 1)⟩ := by
    rw [grown, hset, Bool.toNat_true, one_mul, hfull]
  have hnext : next width (flip s.word t.bit) (i + 1) = some (s.grown t i) := by
    rw [next_succ_of_set hmarker (by omega),
      h.windowAt_marker hw hfull (fun j hj _ => testBit_flip_of_ne (by omega)),
      testBit_flip_self, h.opening, hgrown]
    rfl
  have hbelow : below width (flip s.word t.bit) t.bit = below width s.word t.bit :=
    below_congr hw (fun j hj => testBit_flip_of_ne (by omega))
  refine ⟨rfl, fun j hj => ?_, hnext, ?_⟩
  · rw [testBit_flip_of_ne (by omega), h.fresh j (by omega)]
  · have hlt := h.index_lt
    rw [hfull] at hlt
    have hdigit : Window.digit width (t.index + 2 ^ (width - 1)) =
        2 * (t.index : Int) + 1 - 2 * 2 ^ (width - 1) := by
      rw [Window.digit, if_pos (by omega),
        show 2 * 2 ^ (width - 1) - 1 - (t.index + 2 ^ (width - 1)) =
          2 ^ (width - 1) - (t.index + 1) by omega, Nat.cast_sub (by omega)]
      push_cast
      ring
    have hpow : (2 : Int) ^ (i + 1) = 2 * (2 * 2 ^ (width - 1)) * 2 ^ t.bit := by
      rw [← pow_succ', ← pow_succ', ← pow_add]
      congr 1
      omega
    rw [h.grown_sum, below_of_some hnext, total_cons, Window.value, hgrown, hbelow, hdigit, hpow]
    push_cast
    simp
    ring

theorem Open.step (hw : 0 < width) (h : s.Open width k i t) :
    Reached width k (i + 1) (s.step width i) := by
  have hpos := h.positive
  unfold Scan.step
  rw [if_neg (by rw [h.carry]; exact Bool.false_ne_true), if_neg (by omega), Scan.take, h.map_top]
  by_cases hroom : s.taken < width
  · right
    rw [if_pos hroom]
    exact ⟨_, h.stretched hroom⟩
  · left
    have hfull : s.taken = width := by
      have := h.within
      omega
    rw [if_neg hroom]
    cases hset : s.word.testBit i with
    | true =>
      rw [if_pos rfl, h.top]
      exact h.subtracted hw hfull hset
    | false =>
      rw [if_neg Bool.false_ne_true]
      exact h.added hw hfull hset

/-- Every bit recoded keeps the value of the bits so far. -/
theorem Reached.step (hw : 0 < width) (h : Reached width k i s) :
    Reached width k (i + 1) (s.step width i) := by
  rcases h with h | ⟨t, h⟩
  · exact h.step hw
  · exact h.step hw

theorem reached_start (width k : Nat) : Reached width k 0 ⟨k, false, 0, none⟩ := by
  left
  refine ⟨rfl, fun j _ => rfl, rfl, ?_⟩
  rw [pow_zero, Nat.mod_one, below_of_none rfl]
  rfl

theorem reached_foldl (hw : 0 < width) (k n : Nat) :
    Reached width k n ((List.range n).foldl (Scan.step width) ⟨k, false, 0, none⟩) := by
  induction n with
  | zero => exact reached_start width k
  | succ n ih =>
    rw [List.range_succ, List.foldl_concat]
    exact ih.step hw

/-- The windows below the top one and the top one itself, of a scan over `n` bits. -/
theorem Reached.sum (hw : 0 < width) {n : Nat} (h : Reached width k n s) :
    ((k % 2 ^ n : Nat) : Int) =
      total width (descend width s.word n s.top) + s.carry.toNat * 2 ^ n := by
  rcases h with h | ⟨t, h⟩
  · rw [h.sum, ← h.top, below]
  · have hpos := h.positive
    have hstart := h.start
    have hlt := h.index_lt
    have hle : 2 ^ (s.taken - 1) ≤ 2 ^ (width - 1) :=
      Nat.pow_le_pow_right (by omega) (by have := h.within; omega)
    rw [h.sum, h.top, descend_some s.word (by omega), total_cons, Window.value, Window.digit,
      if_neg (by omega), h.carry]
    simp

end Scan

theorem reached_scan {width : Nat} (hw : 0 < width) (k : Nat) :
    Scan.Reached width k bits (scan width k) := by
  rw [scan]
  exact Scan.reached_foldl hw k bits

/-- The windows of a word are those of its scan. -/
theorem exists_scan {width k : Nat} {ws : List Window} {carry : Bool} (hw : 0 < width)
    (h : windows width k = (ws, carry)) :
    ∃ s : Scan, s.Reached width k bits ∧ descend width s.word bits s.top = ws ∧
      s.carry = carry := by
  obtain ⟨rfl, rfl⟩ := Prod.mk.inj h
  exact ⟨scan width k, reached_scan hw k, rfl, rfl⟩

/-- The signed windows of a word, with the carry above them, add up to it. -/
theorem windows_sum {width k : Nat} {ws : List Window} {carry : Bool} (hw : 0 < width)
    (hk : k < 2 ^ bits) (h : windows width k = (ws, carry)) :
    (k : Int) = total width ws + carry.toNat * 2 ^ bits := by
  obtain ⟨s, hreached, rfl, rfl⟩ := exists_scan hw h
  have hsum := hreached.sum hw
  rwa [Nat.mod_eq_of_lt hk] at hsum

section Spacing

variable {width k : Nat} {ws : List Window} {carry : Bool}

/-- Each window is further below the one before than it is wide: the marker of the lower one lies
between them. -/
def Apart (width : Nat) (windows : List Window) : Prop :=
  windows.Pairwise fun v w => w.bit + width < v.bit

theorem below_apart (word : Nat) (v : Window) : Apart width (v :: below width word v.bit) := by
  induction hbit : v.bit using Nat.strong_induction_on generalizing v with
  | _ bit ih =>
    cases hn : next width word bit with
    | none =>
      rw [below_of_none hn]
      exact List.pairwise_singleton _ v
    | some t =>
      have hlt := next_eq_some hn
      have hbelow := ih t.bit (by omega) t rfl
      rw [below_of_some hn]
      refine .cons ?_ hbelow
      intro w hw
      rcases List.mem_cons.mp hw with rfl | hw
      · omega
      · have := (List.pairwise_cons.mp hbelow).1 w hw
        omega

theorem Scan.Reached.top_lt {i : Nat} {s : Scan} (h : s.Reached width k i) {t : Window}
    (ht : s.top = some t) : t.bit < i := by
  rcases h with h | ⟨w, h⟩
  · have := next_eq_some (h.top.trans ht)
    omega
  · obtain rfl : w = t := Option.some.inj (h.top.symm.trans ht)
    have hstart := h.start
    have hpos := h.positive
    omega

/-- The windows of a scan are those from its top window down, if one was opened. -/
theorem Scan.Reached.descend_eq {i : Nat} {s : Scan} (h : s.Reached width k i) :
    descend width s.word i s.top = [] ∨ ∃ t, t.bit < i ∧
      descend width s.word i s.top = t :: below width s.word t.bit := by
  cases htop : s.top with
  | none => exact .inl (descend_none width s.word i)
  | some t =>
    have hlt := h.top_lt htop
    exact .inr ⟨t, hlt, descend_some s.word hlt⟩

theorem windows_apart (hw : 0 < width) (h : windows width k = (ws, carry)) : Apart width ws := by
  obtain ⟨s, hreached, rfl, -⟩ := exists_scan hw h
  rcases hreached.descend_eq with hnone | ⟨t, -, hsome⟩
  · rw [hnone]
    exact .nil
  · rw [hsome]
    exact below_apart s.word t

theorem windows_bit_lt (hw : 0 < width) (h : windows width k = (ws, carry)) :
    ∀ w ∈ ws, w.bit < bits := by
  obtain ⟨s, hreached, rfl, -⟩ := exists_scan hw h
  rcases hreached.descend_eq with hnone | ⟨t, hlt, hsome⟩
  · rw [hnone]
    nofun
  · rw [hsome]
    intro w hw
    rcases List.mem_cons.mp hw with rfl | hw
    · exact hlt
    · have := (List.pairwise_cons.mp (below_apart s.word t)).1 w hw
      omega

theorem Apart.falling {limit : Nat} (h : Apart width ws) (hlt : ∀ w ∈ ws, w.bit < limit) :
    Falling limit ws := by
  induction ws generalizing limit with
  | nil => trivial
  | cons v below ih =>
    obtain ⟨hv, hbelow⟩ := List.pairwise_cons.mp h
    refine ⟨hlt v List.mem_cons_self, ih hbelow fun w hw => ?_⟩
    have := hv w hw
    omega

theorem windows_falling (hw : 0 < width) (h : windows width k = (ws, carry)) : Falling bits ws :=
  (windows_apart hw h).falling (windows_bit_lt hw h)

/-- Zero has no bit to open a window at. -/
theorem windows_zero (width : Nat) : windows width 0 = ([], false) := by
  have hstep (i : Nat) : Scan.step width ⟨0, false, 0, none⟩ i = ⟨0, false, 0, none⟩ := by
    simp [Scan.step]
  have hscan (n : Nat) : (List.range n).foldl (Scan.step width) ⟨0, false, 0, none⟩ =
      ⟨0, false, 0, none⟩ := by
    induction n with
    | zero => rfl
    | succ n ih => rw [List.range_succ, List.foldl_concat, ih, hstep]
  rw [windows, scan, hscan, descend_none]

/-- A carry alone is more than a word may be, so only zero has no window. -/
theorem windows_nil (hw : 0 < width) (hk : k < 2 ^ bits) (h : windows width k = ([], carry)) :
    k = 0 := by
  have hsum := windows_sum hw hk h
  rw [total_nil, zero_add] at hsum
  cases carry with
  | true =>
    rw [Bool.toNat_true, Nat.cast_one, one_mul] at hsum
    exact absurd (by exact_mod_cast hsum) hk.ne
  | false =>
    rw [Bool.toNat_false, Nat.cast_zero, zero_mul] at hsum
    exact_mod_cast hsum

end Spacing

section Indices

variable {width word : Nat}

theorem windowAt_index_lt (width word m : Nat) :
    (windowAt width word m).index < 2 * 2 ^ (width - 1) := by
  have hlow := Nat.mod_lt (word >>> (m - width + 1)) (Nat.two_pow_pos (width - 1))
  unfold windowAt
  simp only [Nat.shiftLeft_eq, one_mul]
  split_ifs <;> omega

theorem next_index_lt {bit : Nat} {w : Window} (h : next width word bit = some w) :
    w.index < 2 * 2 ^ (width - 1) := by
  obtain ⟨m, _, rfl⟩ := Option.map_eq_some_iff.mp h
  exact windowAt_index_lt width word m

theorem descend_index_lt {limit : Nat} {top : Option Window}
    (h : ∀ w, top = some w → w.index < 2 * 2 ^ (width - 1)) :
    ∀ w ∈ descend width word limit top, w.index < 2 * 2 ^ (width - 1) := by
  induction limit generalizing top with
  | zero => nofun
  | succ limit ih =>
    cases top with
    | none => nofun
    | some t =>
      intro w hw
      rcases List.mem_cons.mp hw with rfl | hw
      · exact h w rfl
      · exact ih (fun _ => next_index_lt) w hw

theorem Scan.Reached.top_index_lt {k i : Nat} {s : Scan} (h : s.Reached width k i) {w : Window}
    (hw : s.top = some w) : w.index < 2 * 2 ^ (width - 1) := by
  rcases h with h | ⟨t, h⟩
  · exact next_index_lt (h.top.trans hw)
  · obtain rfl : t = w := Option.some.inj (h.top.symm.trans hw)
    have hpow : 2 ^ (s.taken - 1) ≤ 2 ^ (width - 1) :=
      Nat.pow_le_pow_right (by omega) (Nat.sub_le_sub_right h.within 1)
    have hlt := h.index_lt
    omega

/-- Every window asks for one of the multiples there are, or for the negative of one. -/
theorem windows_index_lt {k : Nat} {ws : List Window} {carry : Bool} (hw : 0 < width)
    (h : windows width k = (ws, carry)) : ∀ w ∈ ws, w.index < 2 * 2 ^ (width - 1) := by
  obtain ⟨s, hreached, rfl, -⟩ := exists_scan hw h
  exact descend_index_lt fun _ => hreached.top_index_lt

end Indices

section Digits

variable {width index : Nat}

theorem digit_odd (width index : Nat) : Odd (Window.digit width index) := by
  by_cases hneg : 2 ^ (width - 1) ≤ index
  · rw [Window.digit, if_pos hneg]
    exact (odd_two_mul_add_one _).neg
  · rw [Window.digit, if_neg hneg]
    exact odd_two_mul_add_one _

theorem digit_abs_lt (hw : 0 < width) (h : index < 2 * 2 ^ (width - 1)) :
    |Window.digit width index| < 2 ^ width := by
  have hpow : (2 : Int) ^ width = ((2 * 2 ^ (width - 1) : Nat) : Int) := by
    rw [← pow_succ', Nat.sub_add_cancel hw]
    norm_cast
  rw [hpow, abs_lt]
  by_cases hneg : 2 ^ (width - 1) ≤ index
  · rw [Window.digit, if_pos hneg]
    omega
  · rw [Window.digit, if_neg hneg]
    omega

end Digits

end Recoding

end ColdWallet
