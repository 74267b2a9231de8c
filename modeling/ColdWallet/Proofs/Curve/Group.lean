import Mathlib.AlgebraicGeometry.EllipticCurve.Affine.Point
import ColdWallet.Curve.Jacobian
import ColdWallet.Proofs.Curve.Fields

namespace ColdWallet

open scoped Fin.CommRing

/-- The curve `y² = x³ + 7`. -/
def curve : WeierstrassCurve.Affine (ZMod fieldPrime) where
  a₁ := 0
  a₂ := 0
  a₃ := 0
  a₄ := 0
  a₆ := 7

abbrev CurvePoint := curve.Point

theorem curve_nonsingular : curve.Δ ≠ 0 := by
  decide

theorem curve_equation (x y : ZMod fieldPrime) : curve.Equation x y ↔ y ^ 2 = x ^ 3 + 7 := by
  simp [curve, WeierstrassCurve.Affine.equation_iff]

namespace Point

theorem onCurve_iff (x y : Fp) :
    (affine x y).OnCurve ↔ curve.Nonsingular x.residue y.residue := by
  rw [← curve.equation_iff_nonsingular_of_Δ_ne_zero curve_nonsingular, curve_equation, sq,
    pow_succ, sq, ← Fp.residue_literals.2.2]
  simp only [OnCurve, ← map_mul, ← map_add, EmbeddingLike.apply_eq_iff_eq]

/-- A group element in the coordinates that run. -/
def ofCurve : CurvePoint → Point
  | .zero => infinity
  | .some x y _ => affine (Fp.residue.symm x) (Fp.residue.symm y)

theorem ofCurve_injective : Function.Injective ofCurve := by
  intro P Q h
  cases P <;> cases Q <;> simp_all [ofCurve]

theorem onCurve_ofCurve (P : CurvePoint) : (ofCurve P).OnCurve := by
  cases P with
  | zero => trivial
  | some x y h => simpa [ofCurve, onCurve_iff] using h

theorem exists_ofCurve {p : Point} (hp : p.OnCurve) : ∃ P, ofCurve P = p := by
  cases p with
  | infinity => exact ⟨0, rfl⟩
  | affine x y => exact ⟨.some _ _ ((onCurve_iff x y).mp hp), by simp [ofCurve]⟩

theorem ofCurve_zero : ofCurve 0 = 0 := rfl

theorem curve_negY (x y : ZMod fieldPrime) : curve.negY x y = -y := by
  simp [WeierstrassCurve.Affine.negY, curve]

theorem ofCurve_some {x y : ZMod fieldPrime} (h : curve.Nonsingular x y) :
    ofCurve (.some x y h) = affine (Fp.residue.symm x) (Fp.residue.symm y) := rfl

theorem ofCurve_neg (P : CurvePoint) : ofCurve (-P) = -ofCurve P := by
  cases P with
  | zero => rfl
  | some x y h =>
    rw [WeierstrassCurve.Affine.Point.neg_some, ofCurve_some, ofCurve_some, curve_negY, map_neg]
    rfl

theorem add_opposite (x y : Fp) : affine x (-y) + affine x y = infinity := if_pos ⟨rfl, rfl⟩

theorem add_affine {x₁ y₁ x₂ y₂ : Fp} (h : ¬(x₁ = x₂ ∧ y₁ = -y₂)) :
    affine x₁ y₁ + affine x₂ y₂ =
      let s := slope x₁ y₁ x₂ y₂
      affine (s * s - x₁ - x₂) (s * (x₁ - (s * s - x₁ - x₂)) - y₁) := if_neg h

theorem residue_slope (x₁ y₁ x₂ y₂ : ZMod fieldPrime) (h : ¬(x₁ = x₂ ∧ y₁ = -y₂)) :
    (slope (Fp.residue.symm x₁) (Fp.residue.symm y₁) (Fp.residue.symm x₂)
      (Fp.residue.symm y₂)).residue = curve.slope x₁ x₂ y₁ y₂ := by
  by_cases hx : x₁ = x₂
  · have hy : y₁ ≠ curve.negY x₂ y₂ := by
      rw [curve_negY]
      exact fun he => h ⟨hx, he⟩
    rw [curve.slope_of_Y_ne hx hy, curve_negY]
    simp [slope, hx, curve, Fp.residue_literals]
    ring
  · rw [curve.slope_of_X_ne hx]
    simp [slope, hx]
    ring

theorem ofCurve_add (P Q : CurvePoint) : ofCurve (P + Q) = ofCurve P + ofCurve Q := by
  cases P with
  | zero => cases Q <;> rfl
  | some x₁ y₁ h₁ =>
    cases Q with
    | zero => rfl
    | some x₂ y₂ h₂ =>
      simp only [ofCurve_some]
      by_cases h : x₁ = x₂ ∧ y₁ = -y₂
      · rw [WeierstrassCurve.Affine.Point.add_of_Y_eq h.1 (by rw [curve_negY]; exact h.2), h.1,
          h.2, map_neg, add_opposite]
        rfl
      · have hne : ¬(Fp.residue.symm x₁ = Fp.residue.symm x₂ ∧
            Fp.residue.symm y₁ = -Fp.residue.symm y₂) := by simpa [← map_neg] using h
        rw [WeierstrassCurve.Affine.Point.add_some (by rw [curve_negY]; exact h), ofCurve_some,
          add_affine hne]
        have hs := residue_slope x₁ y₁ x₂ y₂ h
        congr 1 <;> apply Fp.residue.injective <;>
          simp [hs, WeierstrassCurve.Affine.addX, WeierstrassCurve.Affine.addY,
            WeierstrassCurve.Affine.negAddY, curve] <;> ring

end Point

end ColdWallet
