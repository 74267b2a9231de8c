import Mathlib.Tactic.LinearCombination
import ColdWallet.Proofs.Curve.Group

namespace ColdWallet

open scoped Fin.CommRing

namespace Fp

theorem two_mul_ne_zero {a : Fp} (ha : a ≠ 0) : a + a ≠ 0 := by
  intro h
  refine mul_ne_zero (show (1 + 1 : Fp) ≠ 0 by decide) ha ?_
  linear_combination h

end Fp

namespace Jacobian

theorem toPoint_infinity_iff (p : Jacobian) : p.toPoint = .infinity ↔ p.z = 0 := by
  by_cases hz : p.z = 0 <;> simp [toPoint, hz]

/-- The affine coordinates, without an inverse. -/
theorem toPoint_affine_iff (p : Jacobian) (x y : Fp) :
    p.toPoint = .affine x y ↔
      p.z ≠ 0 ∧ p.x = x * (p.z * p.z) ∧ p.y = y * (p.z * p.z * p.z) := by
  by_cases hz : p.z = 0
  · simp [(toPoint_infinity_iff p).mpr hz, hz]
  · have hi := Fp.mul_inv_cancel hz
    simp only [toPoint, hz, if_false, Point.affine.injEq, ne_eq, not_false_eq_true, true_and]
    constructor
    · rintro ⟨rfl, rfl⟩
      constructor
      · linear_combination (-p.x * (p.z * p.z.inv + 1)) * hi
      · linear_combination
          (-p.y * (p.z * p.z.inv * (p.z * p.z.inv) + p.z * p.z.inv + 1)) * hi
    · rintro ⟨hx, hy⟩
      constructor
      · linear_combination (p.z.inv * p.z.inv) * hx + (x * (p.z * p.z.inv + 1)) * hi
      · linear_combination (p.z.inv * p.z.inv * p.z.inv) * hy +
          (y * (p.z * p.z.inv * (p.z * p.z.inv) + p.z * p.z.inv + 1)) * hi

theorem toPoint_ofPoint (p : Point) : (ofPoint p).toPoint = p := by
  cases p with
  | infinity => exact (toPoint_infinity_iff _).mpr rfl
  | affine x y =>
    have hz : (ofPoint (.affine x y)).z ≠ 0 := show (1 : Fp) ≠ 0 by decide
    exact (toPoint_affine_iff _ _ _).mpr ⟨hz, by simp [ofPoint], by simp [ofPoint]⟩

theorem toPoint_zero : (0 : Jacobian).toPoint = 0 := (toPoint_infinity_iff _).mpr rfl

theorem toPoint_neg (p : Jacobian) : (-p).toPoint = -p.toPoint := by
  cases hp : p.toPoint with
  | infinity => exact (toPoint_infinity_iff (-p)).mpr ((toPoint_infinity_iff p).mp hp)
  | affine x y =>
    obtain ⟨hz, hx, hy⟩ := (toPoint_affine_iff p x y).mp hp
    refine (toPoint_affine_iff (-p) x (-y)).mpr ⟨hz, hx, ?_⟩
    change -p.y = -y * (p.z * p.z * p.z)
    linear_combination -hy

/-- The slope of a tangent, without an inverse. -/
theorem slope_tangent (x : Fp) {y : Fp} (hy : y ≠ 0) :
    Point.slope x y x y * (y + y) = (1 + 1 + 1) * x * x := by
  have hi := Fp.mul_inv_cancel (Fp.two_mul_ne_zero hy)
  have hslope : Point.slope x y x y = (1 + 1 + 1) * x * x * (y + y).inv := by
    simp only [Point.slope, if_true, show (3 : Fp) = 1 + 1 + 1 from rfl,
      show (2 : Fp) = 1 + 1 from rfl, add_mul, one_mul]
  rw [hslope]
  linear_combination ((1 + 1 + 1) * x * x) * hi

/-- The slope of a chord, without an inverse. -/
theorem slope_chord {x₁ x₂ : Fp} (y₁ y₂ : Fp) (hx : x₁ ≠ x₂) :
    Point.slope x₁ y₁ x₂ y₂ * (x₁ - x₂) = y₁ - y₂ := by
  have hi := Fp.mul_inv_cancel (sub_ne_zero.mpr hx)
  rw [Point.slope, if_neg hx]
  linear_combination (y₁ - y₂) * hi

theorem toPoint_double (p : Jacobian) : (PointArith.double p).toPoint = p.toPoint + p.toPoint := by
  change p.double.toPoint = _
  cases hp : p.toPoint with
  | infinity =>
    refine (toPoint_infinity_iff p.double).mpr ?_
    simp [Jacobian.double, (toPoint_infinity_iff p).mp hp]
  | affine x y =>
    obtain ⟨hz, hx, hy⟩ := (toPoint_affine_iff p x y).mp hp
    by_cases hy₀ : y = 0
    · subst hy₀
      have hinf : Point.affine x 0 + Point.affine x 0 = .infinity := if_pos ⟨rfl, by simp⟩
      rw [hinf, toPoint_infinity_iff]
      simp [Jacobian.double, hy]
    · have h2y : y + y ≠ 0 := Fp.two_mul_ne_zero hy₀
      have hne : ¬(x = x ∧ y = -y) := fun h => h2y (by linear_combination h.2)
      have hs := slope_tangent x hy₀
      rw [Point.add_affine hne, toPoint_affine_iff]
      simp only [Jacobian.double]
      generalize Point.slope x y x y = s at hs ⊢
      have hz₃ : p.y * p.z + p.y * p.z = (y + y) * (p.z * p.z * (p.z * p.z)) := by
        linear_combination (p.z + p.z) * hy
      have hm : p.x * p.x + p.x * p.x + p.x * p.x = s * (p.y * p.z + p.y * p.z) := by
        rw [hx, hy]
        linear_combination (-(p.z * p.z * (p.z * p.z))) * hs
      refine ⟨?_, ?_, ?_⟩
      · rw [hz₃]
        exact Fp.mul_ne_zero h2y (Fp.mul_ne_zero (Fp.mul_ne_zero hz hz) (Fp.mul_ne_zero hz hz))
      · rw [hm, hx, hy]
        ring
      · rw [hm, hx, hy]
        ring

/-- On the curve, points of one abscissa are equal or opposite. -/
theorem ordinates_of_onCurve {x y₁ y₂ : Fp} (h₁ : (Point.affine x y₁).OnCurve)
    (h₂ : (Point.affine x y₂).OnCurve) : y₁ = y₂ ∨ y₁ = -y₂ := by
  have hsq : y₁ * y₁ = y₂ * y₂ := h₁.trans h₂.symm
  by_contra hne
  rw [not_or] at hne
  have hsub : y₁ - y₂ ≠ 0 := sub_ne_zero.mpr hne.1
  have hadd : y₁ + y₂ ≠ 0 := fun h => hne.2 (by linear_combination h)
  exact Fp.mul_ne_zero hsub hadd (by linear_combination hsq)

/-- The chord rule. Both points have to be on the curve: elsewhere two points of one abscissa need
not be equal or opposite. -/
theorem toPoint_add {p q : Jacobian} (hp : p.toPoint.OnCurve) (hq : q.toPoint.OnCurve) :
    (p + q).toPoint = p.toPoint + q.toPoint := by
  change (p.add q).toPoint = _
  cases hP : p.toPoint with
  | infinity =>
    rw [Jacobian.add, if_pos ((toPoint_infinity_iff p).mp hP)]
    cases q.toPoint <;> rfl
  | affine x₁ y₁ =>
    obtain ⟨hpz, hpx, hpy⟩ := (toPoint_affine_iff p x₁ y₁).mp hP
    cases hQ : q.toPoint with
    | infinity =>
      rw [Jacobian.add, if_neg hpz, if_pos ((toPoint_infinity_iff q).mp hQ), hP]
      rfl
    | affine x₂ y₂ =>
      obtain ⟨hqz, hqx, hqy⟩ := (toPoint_affine_iff q x₂ y₂).mp hQ
      have hw : p.z * q.z ≠ 0 := Fp.mul_ne_zero hpz hqz
      have hu : q.x * (p.z * p.z) - p.x * (q.z * q.z) =
          -((x₁ - x₂) * (p.z * q.z * (p.z * q.z))) := by
        rw [hpx, hqx]
        ring
      have hr : q.y * (p.z * p.z * p.z) - p.y * (q.z * q.z * q.z) =
          -((y₁ - y₂) * (p.z * q.z * (p.z * q.z) * (p.z * q.z))) := by
        rw [hpy, hqy]
        ring
      rw [Jacobian.add, if_neg hpz, if_neg hqz]
      simp only [hu, hr]
      by_cases hx : x₁ = x₂
      · subst hx
        rw [if_pos (by ring)]
        rw [hP] at hp
        rw [hQ] at hq
        by_cases hy : y₁ = y₂
        · subst hy
          rw [if_pos (by ring), ← hP]
          exact toPoint_double p
        · have hopp := (ordinates_of_onCurve hp hq).resolve_left hy
          have hne : -((y₁ - y₂) * (p.z * q.z * (p.z * q.z) * (p.z * q.z))) ≠ 0 :=
            neg_ne_zero.mpr (Fp.mul_ne_zero (sub_ne_zero.mpr hy)
              (Fp.mul_ne_zero (Fp.mul_ne_zero hw hw) hw))
          rw [if_neg hne, hopp, Point.add_opposite]
          exact (toPoint_infinity_iff _).mpr rfl
      · have hne : -((x₁ - x₂) * (p.z * q.z * (p.z * q.z))) ≠ 0 :=
          neg_ne_zero.mpr (Fp.mul_ne_zero (sub_ne_zero.mpr hx) (Fp.mul_ne_zero hw hw))
        have hs := slope_chord y₁ y₂ hx
        rw [if_neg hne, Point.add_affine (fun h => hx h.1), toPoint_affine_iff]
        generalize Point.slope x₁ y₁ x₂ y₂ = s at hs ⊢
        rw [← hs, hpx, hpy]
        refine ⟨Fp.mul_ne_zero hw hne, ?_, ?_⟩
        · ring
        · ring

end Jacobian

/-- A relation between the points of a representation and the group elements they stand for, which
the operations of the representation respect. -/
structure Represents {P A : Type} [PointArith P] [AddCommGroup A] (r : P → A → Prop) : Prop where
  zero : r 0 0
  neg {p a} : r p a → r (-p) (-a)
  add {p q a b} : r p a → r q b → r (p + q) (a + b)
  double {p a} : r p a → r (PointArith.double p) (a + a)

namespace Represents

variable {P A : Type} [PointArith P] [AddCommGroup A] {r : P → A → Prop}

theorem mulLow (hr : Represents r) {p : P} {a : A} (hp : r p a) (k bits : ℕ) :
    r (mulLow p k bits) ((k % 2 ^ bits) • a) := by
  induction bits generalizing k with
  | zero => simpa [Nat.mod_one, ColdWallet.mulLow] using hr.zero
  | succ bits ih =>
    have hsplit : k % 2 ^ (bits + 1) = 2 * (k / 2 % 2 ^ bits) + k % 2 := by
      rw [pow_succ', Nat.mod_mul]
      ring
    have hdouble := hr.double (ih (k / 2))
    rw [← two_nsmul, ← mul_nsmul'] at hdouble
    rw [ColdWallet.mulLow]
    by_cases hodd : k % 2 = 1
    · rw [if_pos hodd, hsplit, hodd, succ_nsmul]
      exact hr.add hdouble hp
    · rw [if_neg hodd, hsplit, Nat.mod_two_ne_one.mp hodd, add_zero]
      exact hdouble

theorem mulNat (hr : Represents r) {p : P} {a : A} (hp : r p a) (k : ℕ) :
    r (mulNat k p) (k • a) := by
  have h := hr.mulLow hp k (k.log2 + 1)
  rwa [Nat.mod_eq_of_lt Nat.lt_log2_self] at h

end Represents

theorem Jacobian.represents :
    Represents fun (p : Jacobian) (P : CurvePoint) => p.toPoint = .ofCurve P where
  zero := toPoint_zero
  neg h := by rw [toPoint_neg, h, Point.ofCurve_neg]
  add {p q P Q} hp hq := by
    have hP := Point.onCurve_ofCurve P
    have hQ := Point.onCurve_ofCurve Q
    rw [toPoint_add (hp ▸ hP) (hq ▸ hQ), hp, hq, Point.ofCurve_add]
  double h := by rw [toPoint_double, h, Point.ofCurve_add]

theorem Point.mul_ofCurve (k : ℕ) (P : CurvePoint) : (ofCurve P).mul k = ofCurve (k • P) :=
  Jacobian.represents.mulNat (Jacobian.toPoint_ofPoint _) k

end ColdWallet
