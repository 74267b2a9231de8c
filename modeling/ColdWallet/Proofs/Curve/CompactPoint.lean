import ColdWallet.Proofs.Bytes
import ColdWallet.Proofs.Curve.Generators

namespace ColdWallet

open scoped Fin.CommRing

namespace Fp

theorem ofBytes?_toBytes (x : Fp) : ofBytes? x.toBytes = some x := by
  have hv : ofBigEndian x.toBytes.toList = x.val := by
    rw [toBytes, Bytes.toList_ofList (length_bigEndian 32 x.val), ofBigEndian_bigEndian,
      Nat.mod_eq_of_lt (x.isLt.trans (by decide))]
  simp only [ofBytes?, hv]
  rw [dif_pos x.isLt]

theorem toBytes_of_ofBytes? {b : Bytes 32} {x : Fp} (h : ofBytes? b = some x) : x.toBytes = b := by
  unfold ofBytes? at h
  simp only at h
  split_ifs at h with hlt
  cases h
  exact Bytes.ofList_bigEndian b

theorem ofBytes?_eq_none {b : Bytes 32} :
    ofBytes? b = none ↔ fieldPrime ≤ ofBigEndian b.toList := by
  unfold ofBytes?
  simp only [dite_eq_right_iff, reduceCtorEq, imp_false, Nat.not_lt]

end Fp

namespace Scalar

theorem ofBigEndian_toBytes (s : Scalar) : ofBigEndian s.toBytes.toList = s.val := by
  rw [toBytes, Bytes.toList_ofList (length_bigEndian 32 s.val), ofBigEndian_bigEndian,
    Nat.mod_eq_of_lt (s.isLt.trans (by decide))]

@[simp] theorem reduce_toBytes (s : Scalar) : reduce s.toBytes = s := by
  rw [reduce, ofBigEndian_toBytes, ofNat]
  exact Fin.ofNat_val_eq_self s

theorem ofBytes?_toBytes (s : Scalar) : ofBytes? s.toBytes = some s := by
  unfold ofBytes?
  simp only [ofBigEndian_toBytes]
  rw [dif_pos s.isLt]

theorem toBytes_of_val {b : Bytes 32} {s : Scalar} (h : ofBigEndian b.toList = s.val) :
    s.toBytes = b := by
  rw [toBytes, ← h, Bytes.ofList_bigEndian]

theorem toBytes_reduce {b : Bytes 32} (h : ofBigEndian b.toList < groupOrder) :
    (reduce b).toBytes = b :=
  toBytes_of_val (Nat.mod_eq_of_lt h).symm

theorem ofBytes?_eq_none {b : Bytes 32} :
    ofBytes? b = none ↔ groupOrder ≤ ofBigEndian b.toList := by
  unfold ofBytes?
  simp only [dite_eq_right_iff, reduceCtorEq, imp_false, Nat.not_lt]

theorem ofBytes?_eq_some {b : Bytes 32} {s : Scalar} :
    ofBytes? b = some s ↔ ofBigEndian b.toList < groupOrder ∧ s = reduce b := by
  constructor
  · intro h
    unfold ofBytes? at h
    simp only at h
    split_ifs at h with hlt
    refine ⟨hlt, ?_⟩
    cases h
    exact Fin.ext (Nat.mod_eq_of_lt hlt).symm
  · rintro ⟨hlt, rfl⟩
    conv_lhs => rw [← toBytes_reduce hlt]
    exact ofBytes?_toBytes _

theorem toBytes_of_nonzeroOfBytes? {b : Bytes 32} {s : Scalar} (h : nonzeroOfBytes? b = some s) :
    s.toBytes = b := by
  obtain ⟨hread, _⟩ := Option.filter_eq_some_iff.mp h
  obtain ⟨hlt, rfl⟩ := ofBytes?_eq_some.mp hread
  exact toBytes_reduce hlt

end Scalar

/-- The power that is tried finds the root of a square up to its sign. -/
theorem Fp.sqrt?_square (y : Fp) : ∃ r, (y * y).sqrt? = some r ∧ (r = y ∨ r = -y) := by
  have hroot : (y * y).pow ((fieldPrime + 1) / 4) * (y * y).pow ((fieldPrime + 1) / 4) = y * y := by
    apply residue.injective
    have he : 2 * ((fieldPrime + 1) / 4 * 2) = fieldPrime + 1 := by decide
    rw [pow_eq, map_mul, map_pow, map_mul, ← pow_two, ← pow_mul, ← pow_two, ← pow_mul, he,
      pow_succ, ZMod.pow_card, pow_two]
  have hsqrt : (y * y).sqrt? = some ((y * y).pow ((fieldPrime + 1) / 4)) := by
    simp only [sqrt?]
    rw [if_pos hroot]
  generalize (y * y).pow ((fieldPrime + 1) / 4) = r at hroot hsqrt
  refine ⟨r, hsqrt, ?_⟩
  have hzero : (r - y) * (r + y) = 0 := by linear_combination hroot
  by_cases hr : r - y = 0
  · left
    exact sub_eq_zero.mp hr
  · right
    by_contra hne
    exact mul_ne_zero hr (fun h => hne (eq_neg_of_add_eq_zero_left h)) hzero

theorem Fp.isOdd_neg {y : Fp} (hy : y ≠ 0) : (-y).isOdd = !y.isOdd := by
  have h := val_neg_odd (y := y.residue) (by simpa using hy)
  rw [← map_neg, val_residue, val_residue] at h
  unfold isOdd
  rw [Bool.eq_iff_iff, beq_iff_eq, Bool.not_eq_true', beq_eq_false_iff_ne]
  omega

namespace Point

theorem coordinates_ne_zero {x y : Fp} (h : (affine x y).OnCurve) : x ≠ 0 ∧ y ≠ 0 := by
  have hn := (onCurve_iff x y).mp h
  exact ⟨by simpa using abscissa_ne_zero hn, by simpa using ordinate_ne_zero hn⟩

theorem liftX?_affine {x y : Fp} (h : (affine x y).OnCurve) (hy : y ≠ 0) :
    liftX? x y.isOdd = some (affine x y) := by
  obtain ⟨r, hr, hsign⟩ := Fp.sqrt?_square y
  unfold liftX?
  rw [← (show y * y = x * x * x + 7 from h), hr, Option.map_some]
  rcases hsign with rfl | rfl
  · rw [if_pos (beq_self_eq_true _)]
  · rw [Fp.isOdd_neg hy, if_neg (by simp), neg_neg]

/-- The point lifted has the abscissa and the parity that were asked for. -/
theorem liftX?_eq_some {x : Fp} {odd : Bool} {p : Point} (h : liftX? x odd = some p) :
    ∃ y, p = affine x y ∧ y.isOdd = odd := by
  unfold liftX? at h
  obtain ⟨r, hr, rfl⟩ := Option.map_eq_some_iff.mp h
  have hon : (affine x r).OnCurve := Fp.sqrt?_sq hr
  refine ⟨_, rfl, ?_⟩
  split_ifs with hodd
  · exact beq_iff_eq.mp hodd
  · rw [Fp.isOdd_neg (coordinates_ne_zero hon).2]
    exact (Bool.eq_not.mpr fun h => hodd (beq_iff_eq.mpr h.symm)).symm

/-- A coordinate is not lifted where it is the abscissa of no point, whatever the parity. -/
theorem liftX?_eq_none {x : Fp} {odd : Bool} :
    liftX? x odd = none ↔ ∀ y, ¬(affine x y).OnCurve := by
  unfold liftX?
  rw [Option.map_eq_none_iff]
  constructor
  · intro h y hy
    obtain ⟨r, hr, _⟩ := Fp.sqrt?_square y
    rw [show y * y = x * x * x + 7 from hy, h] at hr
    cases hr
  · intro h
    cases hr : (x * x * x + 7).sqrt? with
    | none => rfl
    | some r => exact absurd (Fp.sqrt?_sq hr) (h r)

theorem compact_affine (x y : Fp) :
    (affine x y).compact = ⟨x.toBytes, if y.isOdd then 1 else 0⟩ := rfl

/-- The parity byte of a compact form is a bit. -/
theorem compact_parity (P : Point) : P.compact.y = 0 ∨ P.compact.y = 1 := by
  cases P with
  | infinity => exact .inl rfl
  | affine x y =>
    rw [compact_affine]
    cases y.isOdd with
    | false => exact .inl rfl
    | true => exact .inr rfl

/-- No other point takes the form of infinity, as none has abscissa zero. -/
theorem compact_ne_infinity {x y : Fp} (h : (affine x y).OnCurve) :
    (affine x y).compact ≠ .infinity := by
  intro hcompact
  have hbytes : x.toBytes = Bytes.zero 32 := congrArg CompactPoint.x hcompact
  have hback := Fp.ofBytes?_toBytes x
  rw [hbytes] at hback
  exact (coordinates_ne_zero h).1 (Option.some.inj (hback.symm.trans (by decide)))

theorem toFinitePoint?_compact {x y : Fp} (h : (affine x y).OnCurve) :
    (affine x y).compact.toFinitePoint? = some (affine x y) := by
  have hparity : ∀ odd : Bool, ((if odd then 1 else 0 : UInt8) != 0) = odd ∧
      ¬(if odd then 1 else 0 : UInt8) > 1 := by decide
  unfold CompactPoint.toFinitePoint?
  rw [compact_affine, if_neg (hparity y.isOdd).2, (hparity y.isOdd).1, Fp.ofBytes?_toBytes,
    Option.bind_some, liftX?_affine h (coordinates_ne_zero h).2]

end Point

theorem CompactPoint.toPoint?_of_ne {c : CompactPoint} (h : c ≠ infinity) :
    c.toPoint? = c.toFinitePoint? := by
  unfold toPoint? isZero
  rw [if_neg (by simpa using h)]

/-- A point of the curve comes back from its compact form. -/
theorem Point.toPoint?_compact {p : Point} (hp : p.OnCurve) : p.compact.toPoint? = some p := by
  cases p with
  | infinity => rfl
  | affine x y => rw [CompactPoint.toPoint?_of_ne (compact_ne_infinity hp), toFinitePoint?_compact hp]

@[simp] theorem CompactPoint.toPoint?_ofCurve (P : CurvePoint) :
    (Point.ofCurve P).compact.toPoint? = some (.ofCurve P) :=
  Point.toPoint?_compact (Point.onCurve_ofCurve P)

/-- What a compact form names is the image of a group element. -/
theorem CompactPoint.exists_ofCurve {c : CompactPoint} {p : Point} (h : c.toPoint? = some p) :
    ∃ P, p = .ofCurve P := by
  obtain ⟨P, hP⟩ := Point.exists_ofCurve (toPoint?_onCurve h)
  exact ⟨P, hP.symm⟩

namespace CompactPoint

variable {c : CompactPoint} {p : Point}

/-- A parity byte that is not refused is the bit of a parity. -/
theorem parity_of_le {y : UInt8} (h : ¬y > 1) : (if (y != 0) = true then 1 else 0 : UInt8) = y := by
  by_cases hy : y = 0
  · rw [hy]
    rfl
  · have hne : y.toNat ≠ 0 := fun h => hy (UInt8.toNat_inj.mp h)
    have hone : (1 : UInt8).toNat = 1 := rfl
    rw [gt_iff_lt, UInt8.lt_iff_toNat_lt] at h
    rw [if_pos (by simpa using hy)]
    apply UInt8.toNat_inj.mp
    omega

theorem compact_of_toFinitePoint? (h : c.toFinitePoint? = some p) : p.compact = c := by
  unfold toFinitePoint? at h
  split_ifs at h with hy
  obtain ⟨x, hx, hlift⟩ := Option.bind_eq_some_iff.mp h
  obtain ⟨y, rfl, hodd⟩ := Point.liftX?_eq_some hlift
  rw [Point.compact_affine, Fp.toBytes_of_ofBytes? hx, hodd, parity_of_le hy]

theorem toPoint?_eq_some : c.toPoint? = some p ↔ p.OnCurve ∧ p.compact = c := by
  constructor
  · intro h
    refine ⟨toPoint?_onCurve h, ?_⟩
    by_cases hc : c = infinity
    · subst hc
      cases h
      rfl
    · rw [toPoint?_of_ne hc] at h
      exact compact_of_toFinitePoint? h
  · rintro ⟨hp, rfl⟩
    exact Point.toPoint?_compact hp

/-- The three faults of a form: its parity, the size of its abscissa, and that no point has it. -/
theorem toFinitePoint?_eq_none :
    c.toFinitePoint? = none ↔ 1 < c.y ∨ fieldPrime ≤ ofBigEndian c.x.toList ∨
      ∀ x, Fp.ofBytes? c.x = some x → ∀ y, ¬(Point.affine x y).OnCurve := by
  unfold toFinitePoint?
  rw [← Fp.ofBytes?_eq_none]
  by_cases hy : c.y > 1
  · rw [if_pos hy]
    exact iff_of_true rfl (.inl hy)
  · rw [if_neg hy, or_iff_right hy]
    cases Fp.ofBytes? c.x with
    | none => exact iff_of_true rfl (.inl rfl)
    | some x =>
      rw [Option.bind_some, Point.liftX?_eq_none]
      simp

/-- All bytes zero have the abscissa that no point has. -/
theorem toFinitePoint?_zero (y : UInt8) : toFinitePoint? ⟨.zero 32, y⟩ = none := by
  rw [toFinitePoint?_eq_none]
  right
  right
  intro x hx y hon
  have hzero : Fp.ofBytes? (.zero 32) = some 0 := by decide
  exact (Point.coordinates_ne_zero hon).1 (Option.some.inj (hx.symm.trans hzero))

theorem toFinitePoint?_eq_some : c.toFinitePoint? = some p ↔ c ≠ infinity ∧ c.toPoint? = some p := by
  by_cases hc : c = infinity
  · subst hc
    rw [show infinity = ⟨.zero 32, 0⟩ from rfl, toFinitePoint?_zero]
    simp
  · rw [toPoint?_of_ne hc, and_iff_right hc]

/-- Compact forms and points of the curve belong to each other one to one. A form names just the
point whose form it is, be it infinity; every point comes back from its own form, and no second form
names it. Refused are the forms with another parity byte, an abscissa that is no coordinate or that
no point has, which abscissa zero is unless all is zero; and infinity's, where a finite point is
asked for. -/
theorem names_exact (c : CompactPoint) :
    (∀ p, c.toPoint? = some p ↔ p.OnCurve ∧ p.compact = c) ∧
      (∀ p : Point, p.OnCurve → p.compact.toPoint? = some p) ∧
      (∀ c' p, c.toPoint? = some p → c'.toPoint? = some p → c' = c) ∧
      (c.toPoint? = none ↔ c ≠ infinity ∧ (1 < c.y ∨ fieldPrime ≤ ofBigEndian c.x.toList ∨
        ∀ x, Fp.ofBytes? c.x = some x → ∀ y, ¬(Point.affine x y).OnCurve)) ∧
      (c.x = .zero 32 → c.y ≠ 0 → c.toPoint? = none) ∧
      ∀ p, c.toFinitePoint? = some p ↔ c ≠ infinity ∧ c.toPoint? = some p := by
  refine ⟨fun p => toPoint?_eq_some, fun p => Point.toPoint?_compact, ?_, ?_, ?_,
    fun p => toFinitePoint?_eq_some⟩
  · intro c' p h h'
    rw [← (toPoint?_eq_some.mp h).2, (toPoint?_eq_some.mp h').2]
  · by_cases hc : c = infinity
    · subst hc
      exact iff_of_false nofun fun h => h.1 rfl
    · rw [toPoint?_of_ne hc, toFinitePoint?_eq_none, and_iff_right hc]
  · intro hx hy
    have hc : c ≠ infinity := fun h => hy (congrArg CompactPoint.y h)
    rw [toPoint?_of_ne hc, show c = ⟨.zero 32, c.y⟩ by rw [← hx], toFinitePoint?_zero]

/-- The base point has its own form back and no other, and abscissa zero with an odd parity names
nothing. -/
theorem names_exact_base :
    Point.base.OnCurve ∧ Point.base.compact.toPoint? = some .base ∧
      (⟨Point.base.compact.x, 3⟩ : CompactPoint).toPoint? = none ∧
      (⟨.zero 32, 1⟩ : CompactPoint).toPoint? = none ∧ infinity.toFinitePoint? ≠ some .infinity := by
  have hbase := Point.base_onCurve
  have hmalformed : (⟨Point.base.compact.x, 3⟩ : CompactPoint) ≠ infinity :=
    fun h => absurd (congrArg CompactPoint.y h) (by decide)
  refine ⟨hbase, (names_exact Point.base.compact).2.1 _ hbase,
    (names_exact _).2.2.2.1.mpr ⟨hmalformed, .inl (by decide)⟩,
    (names_exact _).2.2.2.2.1 rfl (by decide), fun h => ?_⟩
  exact ((names_exact infinity).2.2.2.2.2 .infinity).mp h |>.1 rfl

end CompactPoint

end ColdWallet
