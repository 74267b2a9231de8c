import ColdWallet.Transcript
import ColdWallet.Proofs.Bytes

namespace ColdWallet.Write

/-- The groups of a number: itself if seven bits hold it, and otherwise its low seven bits, marked,
before the groups of the rest. -/
inductive Spells : ℕ → List UInt8 → Prop
  | last {v : ℕ} (h : v < 128) : Spells v [UInt8.ofNat v]
  | more {v : ℕ} {l : List UInt8} (h : 128 ≤ v) (rest : Spells (v / 128) l) :
    Spells v (UInt8.ofNat (v % 128 + 128) :: l)

/-- Every byte but the last has the top bit set, and the last has not. -/
inductive Marked : List UInt8 → Prop
  | last {b : UInt8} (h : b < 0x80) : Marked [b]
  | more {b : UInt8} {l : List UInt8} (h : 0x80 ≤ b) (rest : Marked l) : Marked (b :: l)

/-- The number in the low seven bits of the bytes, least significant first. -/
def ofGroups : List UInt8 → ℕ
  | [] => 0
  | b :: l => (b &&& 0x7f).toNat + 128 * ofGroups l

section Spelling

variable {v : ℕ} {l m s t : List UInt8}

theorem spells_groups {k : ℕ} (h : v < 128 ^ (k + 1)) : Spells v (groups k v) := by
  induction k generalizing v with
  | zero => exact .last h
  | succ k ih =>
    have hrest : v / 128 < 128 ^ (k + 1) := Nat.div_lt_of_lt_mul (by rwa [← pow_succ'])
    unfold groups
    split
    case isTrue hlast => exact .last hlast
    case isFalse hmore => exact .more (Nat.not_lt.mp hmore) (ih hrest)

theorem toNat_group (h : v < 256) : (UInt8.ofNat v).toNat = v := by
  rw [UInt8.toNat_ofNat', Nat.mod_eq_of_lt h]

theorem Spells.marked (h : Spells v l) : Marked l := by
  induction h with
  | last hv =>
    refine .last (UInt8.lt_iff_toNat_lt.mpr ?_)
    rwa [toNat_group (by omega)]
  | more hv _ ih =>
    refine .more (UInt8.le_iff_toNat_le.mpr ?_) ih
    rw [toNat_group (by omega)]
    exact Nat.le_add_left 128 _

theorem toNat_low_group (h : v < 256) : (UInt8.ofNat v &&& 0x7f).toNat = v % 128 := by
  rw [UInt8.toNat_and, toNat_group h]
  exact Nat.and_two_pow_sub_one_eq_mod v 7

theorem Spells.ofGroups_eq (h : Spells v l) : ofGroups l = v := by
  induction h with
  | last hv =>
    rw [ofGroups, ofGroups, toNat_low_group (by omega), Nat.mod_eq_of_lt hv, Nat.mul_zero,
      Nat.add_zero]
  | more hv _ ih =>
    rw [ofGroups, ih, toNat_low_group (by omega), Nat.add_mod_right, Nat.mod_mod, Nat.mod_add_div]

theorem Marked.length_pos (h : Marked l) : 0 < l.length := by
  cases h with
  | last _ => exact Nat.one_pos
  | more _ _ => exact Nat.succ_pos _

theorem Spells.length_le_iff (h : Spells v l) (k : ℕ) :
    l.length ≤ k + 1 ↔ v < 128 ^ (k + 1) := by
  induction h generalizing k with
  | @last v hv =>
    have hpow : 128 ^ 1 ≤ 128 ^ (k + 1) := Nat.pow_le_pow_right (by decide) (Nat.le_add_left 1 k)
    exact ⟨fun _ => by omega, fun _ => Nat.le_add_left 1 k⟩
  | @more v l hv rest ih =>
    have hpos := rest.marked.length_pos
    rw [List.length_cons]
    cases k with
    | zero => omega
    | succ k => rw [Nat.add_le_add_iff_right, ih k, Nat.div_lt_iff_lt_mul (by decide), ← pow_succ]

/-- The last group is the first without a mark, so what ends with it is told from what follows. -/
theorem Marked.append_inj (hl : Marked l) (hm : Marked m) (h : l ++ s = m ++ t) :
    l = m ∧ s = t := by
  induction hl generalizing m with
  | last hb =>
    cases hm with
    | last _ =>
      obtain ⟨rfl, hrest⟩ := List.cons.inj h
      exact ⟨rfl, hrest⟩
    | more hc _ =>
      obtain ⟨rfl, -⟩ := List.cons.inj h
      exact absurd hb (UInt8.not_lt.mpr hc)
  | more hb _ ih =>
    cases hm with
    | last hc =>
      obtain ⟨rfl, -⟩ := List.cons.inj h
      exact absurd hc (UInt8.not_lt.mpr hb)
    | more _ hm =>
      obtain ⟨rfl, hrest⟩ := List.cons.inj h
      obtain ⟨rfl, hst⟩ := ih hm hrest
      exact ⟨rfl, hst⟩

end Spelling

theorem spells_num (v : UInt64) : Spells v.toNat (num v) :=
  spells_groups (v.toNat_lt.trans (by decide))

theorem length_num_le (v : UInt64) : (num v).length ≤ 10 :=
  ((spells_num v).length_le_iff 9).mpr (v.toNat_lt.trans (by decide))

theorem num_append_inj {v w : UInt64} {s t : List UInt8} (h : num v ++ s = num w ++ t) :
    v = w ∧ s = t := by
  obtain ⟨hnum, hrest⟩ := (spells_num v).marked.append_inj (spells_num w).marked h
  refine ⟨UInt64.toNat_inj.mp ?_, hrest⟩
  rw [← (spells_num v).ofGroups_eq, hnum, (spells_num w).ofGroups_eq]

section Buffer

theorem toNat_shiftRight_seven (v : UInt64) : (v >>> 7).toNat = v.toNat / 128 := by
  rw [UInt64.toNat_shiftRight]
  exact Nat.shiftRight_eq_div_pow v.toNat 7

theorem shiftRight_seven_eq_zero {v : UInt64} : v >>> 7 = 0 ↔ v.toNat < 128 := by
  rw [← UInt64.toNat_inj, toNat_shiftRight_seven]
  exact Nat.div_eq_zero_iff_lt (by decide)

/-- Puts the groups of a number into a buffer from a place on, and tells the place behind them. The
number alone ends it; there is no outcome if a byte leaves the buffer. -/
def putGroups? (buffer : List UInt8) (place : ℕ) (v : UInt64) : Option (List UInt8 × ℕ) :=
  let low := (v &&& 0x7f).toUInt8
  if v >>> 7 = 0 then do
    return (← setAt? buffer place low, place + 1)
  else do
    putGroups? (← setAt? buffer place (low ||| 0x80)) (place + 1) (v >>> 7)
termination_by v.toNat
decreasing_by
  rename_i hmore _
  have hlarge := mt shiftRight_seven_eq_zero.mpr hmore
  rw [toNat_shiftRight_seven]
  omega

/-- A transcript with a number behind it that was put together in a buffer of ten bytes. -/
def appendNum? (t : Transcript) (v : UInt64) : Option Transcript := do
  let (buffer, place) ← putGroups? (List.replicate 10 0) 0 v
  return t ++ (← sliceTo? buffer place)

theorem toNat_low_bits (v : UInt64) : ((v &&& 0x7f).toUInt8).toNat = v.toNat % 128 := by
  have hmask : (v &&& 0x7f).toNat = v.toNat % 128 := by
    rw [UInt64.toNat_and]
    exact Nat.and_two_pow_sub_one_eq_mod v.toNat 7
  rw [UInt64.toNat_toUInt8, hmask]
  omega

theorem low_bits_eq (v : UInt64) : (v &&& 0x7f).toUInt8 = UInt8.ofNat (v.toNat % 128) := by
  rw [← toNat_low_bits, UInt8.ofNat_toNat]

theorem marked_bits_eq (v : UInt64) :
    (v &&& 0x7f).toUInt8 ||| 0x80 = UInt8.ofNat (v.toNat % 128 + 128) := by
  have hlow : v.toNat % 128 < 2 ^ 7 := Nat.mod_lt _ (by decide)
  apply UInt8.toNat_inj.mp
  rw [UInt8.toNat_or, toNat_low_bits, toNat_group (by omega), Nat.or_comm, Nat.add_comm]
  exact (Nat.two_pow_add_eq_or_of_lt hlow 1).symm

/-- Groups that fit are put behind what stands before their place, and leave a buffer of the same
length. -/
theorem putGroups?_fits {v : UInt64} {l buffer : List UInt8} {place : ℕ} (h : Spells v.toNat l)
    (hroom : place + l.length ≤ buffer.length) :
    ∃ buffer', putGroups? buffer place v = some (buffer', place + l.length) ∧
      buffer'.length = buffer.length ∧
      buffer'.take (place + l.length) = buffer.take place ++ l := by
  -- By the groups; the buffer and the place move on with the number.
  generalize hn : v.toNat = n at h
  induction h generalizing v buffer place with
  | @last n hlast =>
    subst hn
    have hdone := shiftRight_seven_eq_zero.mpr hlast
    rw [List.length_singleton] at hroom ⊢
    refine ⟨buffer.set place (UInt8.ofNat v.toNat), ?_, List.length_set, take_succ_set hroom _⟩
    rw [putGroups?, if_pos hdone, low_bits_eq, Nat.mod_eq_of_lt hlast, setAt?_inside hroom]
    rfl
  | @more n l hmore rest ih =>
    subst hn
    have hopen := mt shiftRight_seven_eq_zero.mp (Nat.not_lt.mpr hmore)
    rw [List.length_cons, Nat.add_comm l.length, ← Nat.add_assoc] at hroom ⊢
    have hplace : place < buffer.length := Nat.le_of_add_right_le hroom
    have hrest : place + 1 + l.length ≤
        (buffer.set place (UInt8.ofNat (v.toNat % 128 + 128))).length := by
      rwa [List.length_set]
    obtain ⟨buffer', hput, hlength, hfront⟩ := ih hrest (toNat_shiftRight_seven v)
    refine ⟨buffer', ?_, hlength.trans List.length_set, ?_⟩
    · rw [putGroups?, if_neg hopen, marked_bits_eq, setAt?_inside hplace]
      exact hput
    · rw [hfront, take_succ_set hplace, List.append_assoc, List.singleton_append]

theorem appendNum?_eq (t : Transcript) (v : UInt64) : appendNum? t v = some (t ++ num v) := by
  have hroom : 0 + (num v).length ≤ (List.replicate 10 (0 : UInt8)).length := by
    rw [Nat.zero_add, List.length_replicate]
    exact length_num_le v
  obtain ⟨buffer, hput, hlength, hfront⟩ := putGroups?_fits (spells_num v) hroom
  rw [← hlength] at hroom
  rw [Nat.zero_add] at hput hfront hroom
  rw [appendNum?, hput]
  simp only [Option.bind_eq_bind, Option.bind_some, sliceTo?_inside hroom, hfront]
  rfl

end Buffer

/-- A number is written through a buffer of ten bytes that holds it, so it takes one byte to ten,
and no more than it needs. All but the last byte are marked, their groups make the number, and the
number is told from whatever follows it. -/
theorem num_delimited (v : UInt64) :
    (∀ t : Transcript, appendNum? t v = some (t ++ num v)) ∧
    1 ≤ (num v).length ∧ (num v).length ≤ 10 ∧
    (∀ k, (num v).length ≤ k + 1 ↔ v.toNat < 128 ^ (k + 1)) ∧
    Marked (num v) ∧ ofGroups (num v) = v.toNat ∧
    ∀ (w : UInt64) (s t : List UInt8), num v ++ s = num w ++ t ↔ v = w ∧ s = t := by
  have hspells := spells_num v
  refine ⟨fun t => appendNum?_eq t v, hspells.marked.length_pos, length_num_le v,
    hspells.length_le_iff, hspells.marked, hspells.ofGroups_eq,
    fun w s t => ⟨num_append_inj, ?_⟩⟩
  rintro ⟨rfl, rfl⟩
  rfl

example : num 0xffffffffffffffff = List.replicate 9 0xff ++ [1] := by decide

end ColdWallet.Write
