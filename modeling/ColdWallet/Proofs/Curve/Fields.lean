import Mathlib.FieldTheory.Finite.Basic
import ColdWallet.Proofs.Curve.Primes

namespace ColdWallet

namespace Fp

def residue : Fp ≃+* ZMod fieldPrime := ZMod.finEquiv fieldPrime

/-- The literals of the curve's formulas. -/
theorem residue_literals : residue 2 = 2 ∧ residue 3 = 3 ∧ residue 7 = 7 := ⟨rfl, rfl, rfl⟩

end Fp

namespace Scalar

def residue : Scalar ≃+* ZMod groupOrder := ZMod.finEquiv groupOrder

@[simp] theorem residue_zero : (0 : Scalar).residue = 0 := map_zero residue

@[simp] theorem residue_add (a b : Scalar) : (a + b).residue = a.residue + b.residue :=
  map_add residue a b

@[simp] theorem residue_mul (a b : Scalar) : (a * b).residue = a.residue * b.residue :=
  map_mul residue a b

@[simp] theorem residue_neg (a : Scalar) : (-a).residue = -a.residue := by
  open scoped Fin.CommRing in exact map_neg residue a

@[simp] theorem residue_sub (a b : Scalar) : (a - b).residue = a.residue - b.residue := by
  open scoped Fin.CommRing in exact map_sub residue a b

theorem mul_ne_zero {a b : Scalar} (ha : a ≠ 0) (hb : b ≠ 0) : a * b ≠ 0 := by
  intro h
  rcases mul_eq_zero.mp ((map_mul residue a b).symm.trans (by rw [h, map_zero])) with h | h
  · exact ha (by simpa using h)
  · exact hb (by simpa using h)

end Scalar

open scoped Fin.CommRing

namespace Fp

theorem natCast_val (a : Fp) : (a.val : ZMod fieldPrime) = a.residue := by
  rw [← map_natCast residue]
  exact congrArg residue (Fin.cast_val_eq_self a)

theorem val_residue (a : Fp) : a.residue.val = a.val := by
  rw [← natCast_val, ZMod.val_natCast, Nat.mod_eq_of_lt a.isLt]

theorem pow_eq (a : Fp) (e : ℕ) : a.pow e = a ^ e :=
  powLow_eq_pow a e _ Nat.lt_log2_self

@[simp] theorem residue_inv (a : Fp) : a.inv.residue = a.residue⁻¹ := by
  rw [inv, pow_eq, map_pow]
  by_cases ha : a.residue = 0
  · rw [ha, inv_zero, zero_pow (by decide)]
  · apply eq_inv_of_mul_eq_one_left
    rw [← pow_succ, ← ZMod.pow_card_sub_one_eq_one ha]
    congr 1

theorem mul_inv_cancel {a : Fp} (ha : a ≠ 0) : a * a.inv = 1 := by
  apply residue.injective
  rw [map_mul, residue_inv, map_one, mul_inv_cancel₀ (by simpa using ha)]

theorem mul_ne_zero {a b : Fp} (ha : a ≠ 0) (hb : b ≠ 0) : a * b ≠ 0 := by
  intro h
  rcases mul_eq_zero.mp ((map_mul residue a b).symm.trans (by rw [h, map_zero])) with h | h
  · exact ha (by simpa using h)
  · exact hb (by simpa using h)

end Fp

namespace Scalar

theorem natCast_val (s : Scalar) : (s.val : ZMod groupOrder) = s.residue := by
  rw [← map_natCast residue]
  exact congrArg residue (Fin.cast_val_eq_self s)

@[simp] theorem residue_ofNat (v : ℕ) : (ofNat v).residue = v := by
  rw [← natCast_val]
  exact ZMod.natCast_mod v groupOrder

@[simp] theorem residue_one : (1 : Scalar).residue = 1 := map_one residue

theorem residue_eq_zero {a : Scalar} : a.residue = 0 ↔ a = 0 := EmbeddingLike.map_eq_zero_iff

theorem pow_eq (a : Scalar) (e : ℕ) : a.pow e = a ^ e :=
  powLow_eq_pow a e _ Nat.lt_log2_self

@[simp] theorem residue_pow (a : Scalar) (e : ℕ) : (a.pow e).residue = a.residue ^ e := by
  rw [pow_eq, map_pow]

theorem exists_inv? {a : Scalar} (ha : a ≠ 0) :
    ∃ b, a.inv? = some b ∧ b.residue = a.residue⁻¹ := by
  refine ⟨a.pow (groupOrder - 2), if_neg ha, ?_⟩
  have hres : a.residue ≠ 0 := fun h => ha (residue_eq_zero.mp h)
  rw [residue_pow]
  apply eq_inv_of_mul_eq_one_left
  rw [← pow_succ, ← ZMod.pow_card_sub_one_eq_one hres]
  congr 1

theorem ne_zero_of_mul_eq_one {a b : Scalar} (h : a * b = 1) : a ≠ 0 ∧ b ≠ 0 := by
  have hres : a.residue * b.residue = 1 := by rw [← residue_mul, h, residue_one]
  exact ⟨fun ha => left_ne_zero_of_mul_eq_one hres (residue_eq_zero.mpr ha),
    fun hb => right_ne_zero_of_mul_eq_one hres (residue_eq_zero.mpr hb)⟩

theorem add_eq_iff {a b c : Scalar} : a + b = c ↔ a = c - b := by
  rw [← residue.injective.eq_iff, ← residue.injective.eq_iff (a := a), residue_add, residue_sub,
    eq_sub_iff_add_eq]

/-- A linear equation over a scalar other than zero has one solution, which dividing finds. -/
theorem exists_solution {w : Scalar} (hw : w ≠ 0) (v a : Scalar) :
    ∃ k, (w.inv?.map fun i => (v - a) * i) = some k ∧ ∀ k', v = a + k' * w ↔ k' = k := by
  obtain ⟨i, hi, hinv⟩ := exists_inv? hw
  have hres : w.residue ≠ 0 := fun h => hw (residue_eq_zero.mp h)
  refine ⟨(v - a) * i, by rw [hi, Option.map_some], fun k' => ?_⟩
  rw [← residue.injective.eq_iff, ← residue.injective.eq_iff (a := k')]
  simp only [residue_add, residue_mul, residue_sub, hinv]
  rw [← div_eq_mul_inv, eq_div_iff hres, eq_sub_iff_add_eq', eq_comm]

end Scalar

end ColdWallet
