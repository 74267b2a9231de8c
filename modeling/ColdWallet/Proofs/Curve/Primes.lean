import Mathlib.NumberTheory.LucasPrimality
import Mathlib.Tactic.NormNum.Prime
import ColdWallet.Curve.Residue

namespace ColdWallet

theorem powLow_eq_pow {α : Type} [Monoid α] (a : α) (e bits : ℕ) (he : e < 2 ^ bits) :
    powLow 1 a e bits = a ^ e := by
  induction bits generalizing a e with
  | zero =>
    have hz : e = 0 := by simpa using he
    simp [powLow, hz]
  | succ bits ih =>
    have hhalf : e / 2 < 2 ^ bits := by rw [pow_succ] at he; omega
    have hsq : powLow 1 (a * a) (e / 2) bits = a ^ (2 * (e / 2)) := by
      rw [ih (a * a) (e / 2) hhalf, pow_mul, sq]
    simp only [powLow, hsq]
    split
    · rename_i hodd
      rw [← pow_succ']
      congr 1
      omega
    · congr 1
      omega

/-- A power modulo `m`, by the digits of the exponent in base 256, of which there are so many. -/
def powMod (m a : ℕ) : (digits : ℕ) → (e : ℕ) → ℕ
  | 0, _ => 1 % m
  | digits + 1, e => powMod m a digits (e / 256) ^ 256 * a ^ (e % 256) % m

theorem powMod_eq (m a digits e : ℕ) (he : e < 256 ^ digits) :
    powMod m a digits e = a ^ e % m := by
  induction digits generalizing e with
  | zero =>
    have hz : e = 0 := by simpa using he
    simp [powMod, hz]
  | succ digits ih =>
    have hdiv : e / 256 < 256 ^ digits := by rw [pow_succ] at he; omega
    rw [powMod, ih _ hdiv, Nat.mul_mod, ← Nat.pow_mod, ← Nat.mul_mod, ← pow_mul, ← pow_add,
      Nat.div_add_mod']

theorem natCast_pow_eq_one_iff {p : ℕ} (hp : 1 < p) (hlt : p < 256 ^ 32) (a e : ℕ)
    (he : e ≤ p) : (a : ZMod p) ^ e = 1 ↔ powMod p a 32 e = 1 := by
  rw [powMod_eq _ _ _ _ (by omega), ← Nat.cast_pow, ← Nat.cast_one,
    ZMod.natCast_eq_natCast_iff', Nat.mod_eq_of_lt hp]

/-- What Lucas's test computes, for a base and the factors of `p - 1`. -/
def LucasTest (p a : ℕ) (factors : List ℕ) : Prop :=
  p < 256 ^ 32 ∧ factors.prod = p - 1 ∧ powMod p a 32 (p - 1) = 1 ∧
    ∀ q ∈ factors, powMod p a 32 ((p - 1) / q) ≠ 1

instance (p a : ℕ) (factors : List ℕ) : Decidable (LucasTest p a factors) := by
  unfold LucasTest
  infer_instance

/-- The factors come apart as those that trial division can test and those that need a proof of
their own. -/
theorem LucasTest.prime {p a : ℕ} {small large : List ℕ} (h : LucasTest p a (small ++ large))
    (hsmall : ∀ q ∈ small, q.Prime) (hlarge : ∀ q ∈ large, q.Prime) : p.Prime := by
  obtain ⟨hp, hprod, hone, hne⟩ := h
  have hprime : ∀ q ∈ small ++ large, q.Prime := List.forall_mem_append.mpr ⟨hsmall, hlarge⟩
  have hlt : 1 < p := by
    by_contra h
    have hm := List.prod_eq_zero_iff.mp (show (small ++ large).prod = 0 by omega)
    exact (hprime 0 hm).ne_zero rfl
  have hpow (k : ℕ) (hk : k ≤ p - 1) : (a : ZMod p) ^ k = 1 ↔ powMod p a 32 k = 1 :=
    natCast_pow_eq_one_iff hlt hp a k (by omega)
  refine lucas_primality p a ((hpow _ le_rfl).mpr hone) ?_
  intro q hq hdvd
  rw [← hprod] at hdvd
  obtain ⟨r, hr, hqr⟩ := (Prime.dvd_prod_iff hq.prime).mp hdvd
  have he : q = r := (Nat.prime_dvd_prime_iff_eq hq (hprime r hr)).mp hqr
  subst he
  exact fun h => hne q hr ((hpow _ (Nat.div_le_self _ _)).mp h)

/-- A number with the base of its test and the factors of the number less one. The small ones are left
to trial division, and each of the large ones has a row of its own. -/
structure LucasRow where
  number : ℕ
  base : ℕ
  small : List ℕ
  large : List ℕ

/-- Every row passes, and its large factors are the numbers of later rows. -/
def LucasTable : List LucasRow → Prop
  | [] => True
  | row :: rows => LucasTest row.number row.base (row.small ++ row.large) ∧
      row.large ⊆ rows.map LucasRow.number ∧ LucasTable rows

instance : (rows : List LucasRow) → Decidable (LucasTable rows)
  | [] => inferInstanceAs (Decidable True)
  | _ :: rows =>
    have : Decidable (LucasTable rows) := instDecidableLucasTable rows
    inferInstanceAs (Decidable (_ ∧ _ ∧ _))

theorem LucasTable.prime {rows : List LucasRow} (h : LucasTable rows)
    (hsmall : ∀ row ∈ rows, ∀ q ∈ row.small, q.Prime) : ∀ row ∈ rows, row.number.Prime := by
  induction rows with
  | nil => nofun
  | cons row rows ih =>
    obtain ⟨htest, hlarge, hrows⟩ := h
    obtain ⟨hsmall, hlater⟩ := List.forall_mem_cons.mp hsmall
    have hnumbers := ih hrows hlater
    refine List.forall_mem_cons.mpr ⟨htest.prime hsmall fun q hq => ?_, hnumbers⟩
    obtain ⟨later, hmem, rfl⟩ := List.mem_map.mp (hlarge hq)
    exact hnumbers later hmem

def fieldPrimeRows : List LucasRow :=
  [⟨fieldPrime, 3, [2, 3, 7, 13441],
      [205115282021455665897114700593932402728804164701536103180137503955397371]⟩,
    ⟨205115282021455665897114700593932402728804164701536103180137503955397371, 10,
      [2, 3, 5, 29, 29, 31, 7723],
      [132896956044521568488119, 255515944373312847190720520512484175977]⟩,
    ⟨255515944373312847190720520512484175977, 3,
      [2, 2, 2, 7, 7, 11, 1627, 2657, 4423, 41201, 96557, 7240687], [107590001]⟩,
    ⟨107590001, 3, [2, 2, 2, 2, 5, 5, 5, 5, 7, 29, 53], []⟩,
    ⟨132896956044521568488119, 6, [2, 3], [22149492674086928081353]⟩,
    ⟨22149492674086928081353, 5, [2, 2, 2, 3, 5323], [173378833005251801]⟩,
    ⟨173378833005251801, 6, [2, 2, 2, 5, 5, 2621, 24809], [13331831]⟩,
    ⟨13331831, 13, [2, 5, 971, 1373], []⟩]

def groupOrderRows : List LucasRow :=
  [⟨groupOrder, 7, [2, 2, 2, 2, 2, 2, 3, 149, 631],
      [107361793816595537, 174723607534414371449, 341948486974166000522343609283189]⟩,
    ⟨341948486974166000522343609283189, 2, [2, 2, 3, 3, 3, 109],
      [29047611873442575647497758179]⟩,
    ⟨29047611873442575647497758179, 2, [2, 293, 305873], [545358713, 297159362677]⟩,
    ⟨297159362677, 2, [2, 2, 3, 3, 11, 461, 1627771], []⟩,
    ⟨545358713, 5, [2, 2, 2, 41, 59, 28181], []⟩,
    ⟨174723607534414371449, 3, [2, 2, 2, 17, 59, 4051, 120233], [44706919]⟩,
    ⟨44706919, 6, [2, 3, 797, 9349], []⟩,
    ⟨107361793816595537, 3, [2, 2, 2, 2, 16699, 85831, 4681609], []⟩]

-- The powers are computed by recursion on 32 digits.
set_option maxRecDepth 1000

theorem fieldPrime_prime : fieldPrime.Prime := by
  have h : LucasTable fieldPrimeRows := by decide
  have hsmall : ∀ row ∈ fieldPrimeRows, ∀ q ∈ row.small, q.Prime := by
    simp only [fieldPrimeRows, List.forall_mem_cons]
    norm_num
  exact h.prime hsmall _ List.mem_cons_self

theorem groupOrder_prime : groupOrder.Prime := by
  have h : LucasTable groupOrderRows := by decide
  have hsmall : ∀ row ∈ groupOrderRows, ∀ q ∈ row.small, q.Prime := by
    simp only [groupOrderRows, List.forall_mem_cons]
    norm_num
  exact h.prime hsmall _ List.mem_cons_self

instance : Fact fieldPrime.Prime := ⟨fieldPrime_prime⟩

instance : Fact groupOrder.Prime := ⟨groupOrder_prime⟩

end ColdWallet
