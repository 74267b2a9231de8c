import Mathlib.Algebra.Module.ZMod
import Mathlib.GroupTheory.OrderOfElement
import Mathlib.GroupTheory.Perm.Cycle.Type
import ColdWallet.Proofs.Curve.Jacobian

namespace ColdWallet

/-- No point of the curve has abscissa zero: seven is no square. -/
theorem seven_not_square (y : ZMod fieldPrime) : y ^ 2 ≠ 7 := by
  intro h
  have hy : y ≠ 0 := by
    rintro rfl
    exact absurd h (by decide)
  have hone : (7 : ZMod fieldPrime) ^ ((fieldPrime - 1) / 2) = 1 := by
    rw [← h, ← pow_mul, ← ZMod.pow_card_sub_one_eq_one hy]
    congr 1
  have hpow := (natCast_pow_eq_one_iff (by decide) (by decide) 7 _ (by decide)).mp hone
  exact absurd hpow (by decide +kernel)

/-- No point of the curve has ordinate zero: minus seven is no cube. -/
theorem neg_seven_not_cube (x : ZMod fieldPrime) : x ^ 3 + 7 ≠ 0 := by
  intro h
  have hcube : x ^ 3 = ((fieldPrime - 7 : ℕ) : ZMod fieldPrime) := by
    rw [Nat.cast_sub (by decide), ZMod.natCast_self]
    linear_combination h
  have hx : x ≠ 0 := by
    rintro rfl
    exact absurd hcube (by decide)
  have hone : ((fieldPrime - 7 : ℕ) : ZMod fieldPrime) ^ ((fieldPrime - 1) / 3) = 1 := by
    rw [← hcube, ← pow_mul, ← ZMod.pow_card_sub_one_eq_one hx]
    congr 1
  have hpow := (natCast_pow_eq_one_iff (by decide) (by decide) _ _ (by decide)).mp hone
  exact absurd hpow (by decide +kernel)

theorem ordinate_ne_zero {x y : ZMod fieldPrime} (h : curve.Nonsingular x y) : y ≠ 0 := by
  rintro rfl
  have he := (curve_equation x 0).mp h.1
  exact neg_seven_not_cube x (by rw [← he]; ring)

theorem abscissa_ne_zero {x y : ZMod fieldPrime} (h : curve.Nonsingular x y) : x ≠ 0 := by
  rintro rfl
  have he := (curve_equation 0 y).mp h.1
  exact seven_not_square y (by rw [he]; ring)

/-- Opposite ordinates differ in parity. -/
theorem val_neg_odd {y : ZMod fieldPrime} (hy : y ≠ 0) : (-y).val % 2 ≠ y.val % 2 := by
  have hlt := ZMod.val_lt y
  have hpos : y.val ≠ 0 := fun h => hy ((ZMod.val_eq_zero y).mp h)
  have hodd : fieldPrime % 2 = 1 := by decide
  rw [ZMod.neg_val, if_neg hy]
  omega

namespace CurvePoint

/-- A point by its abscissa and the parity of its ordinate. -/
def code : CurvePoint → Option (ZMod fieldPrime × Bool)
  | .zero => none
  | .some x y _ => some (x, y.val % 2 == 1)

theorem code_injective : Function.Injective code := by
  intro P Q h
  cases P with
  | zero =>
    cases Q with
    | zero => rfl
    | some x₂ y₂ h₂ => cases h
  | some x₁ y₁ h₁ =>
    cases Q with
    | zero => cases h
    | some x₂ y₂ h₂ =>
      simp only [code, Option.some.injEq, Prod.mk.injEq] at h
      obtain ⟨hx, hy⟩ := h
      rcases WeierstrassCurve.Affine.Point.X_eq_iff.mp hx with he | he
      · exact he
      · rw [WeierstrassCurve.Affine.Point.neg_some, WeierstrassCurve.Affine.Point.some.injEq,
          Point.curve_negY] at he
        have hpar := val_neg_odd (ordinate_ne_zero h₂)
        rw [he.2, Bool.eq_iff_iff, beq_iff_eq, beq_iff_eq] at hy
        omega

instance : Finite CurvePoint := Finite.of_injective code code_injective

theorem card_le : Nat.card CurvePoint ≤ 2 * fieldPrime + 1 := by
  have h := Nat.card_le_card_of_injective code code_injective
  rwa [Finite.card_option, Nat.card_prod, Nat.card_zmod, Nat.card_eq_fintype_card (α := Bool),
    Fintype.card_bool, mul_comm] at h

/-- A point of order two would have ordinate zero. -/
theorem not_two_dvd_card : ¬2 ∣ Nat.card CurvePoint := by
  intro h
  have : Fact (Nat.Prime 2) := ⟨Nat.prime_two⟩
  obtain ⟨P, hP⟩ := exists_prime_addOrderOf_dvd_card' 2 h
  cases P with
  | zero => 
    rw [← WeierstrassCurve.Affine.Point.zero_def, addOrderOf_zero] at hP
    omega
  | some x y hxy =>
    have htwo := addOrderOf_nsmul_eq_zero (WeierstrassCurve.Affine.Point.some x y hxy)
    rw [hP, two_nsmul, add_eq_zero_iff_eq_neg, WeierstrassCurve.Affine.Point.neg_some,
      WeierstrassCurve.Affine.Point.some.injEq, Point.curve_negY] at htwo
    have hpar := val_neg_odd (ordinate_ne_zero hxy)
    rw [← htwo.2] at hpar
    exact hpar rfl

end CurvePoint

namespace Point

theorem base_onCurve : base.OnCurve := by
  unfold OnCurve base
  decide

theorem base_mul_groupOrder : base.mul groupOrder = infinity := by
  decide +kernel

end Point

namespace CurvePoint

theorem card_eq : Nat.card CurvePoint = groupOrder := by
  obtain ⟨G, hG⟩ := Point.exists_ofCurve Point.base_onCurve
  have hzero : groupOrder • G = 0 := by
    apply Point.ofCurve_injective
    rw [← Point.mul_ofCurve, hG, Point.base_mul_groupOrder]
    rfl
  have hne : G ≠ 0 := by
    rintro rfl
    cases hG
  have hdvd : groupOrder ∣ Nat.card CurvePoint := by
    rw [← addOrderOf_eq_prime hzero hne]
    exact addOrderOf_dvd_natCard G
  obtain ⟨k, hk⟩ := hdvd
  have hle := card_le
  have hodd := not_two_dvd_card
  have hpos : 0 < Nat.card CurvePoint := Nat.card_pos
  have hbound : 2 * fieldPrime + 1 < groupOrder * 3 := by decide
  rw [hk] at hle hodd hpos ⊢
  have hlt : k < 3 := by
    by_contra h
    have := Nat.mul_le_mul_left groupOrder (Nat.le_of_not_lt h)
    omega
  interval_cases k
  · omega
  · rw [mul_one]
  · exact absurd (Dvd.intro_left groupOrder rfl) hodd

theorem groupOrder_nsmul (P : CurvePoint) : groupOrder • P = 0 := by
  rw [← card_eq]
  exact card_nsmul_eq_zero'

instance : Module (ZMod groupOrder) CurvePoint := AddCommGroup.zmodModule groupOrder_nsmul

end CurvePoint

end ColdWallet
