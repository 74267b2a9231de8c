import ColdWallet.Curve.Generators
import ColdWallet.Keys.Coin
import ColdWallet.Proofs.Curve.MultiMul
import ColdWallet.Proofs.Curve.Order

namespace ColdWallet

open scoped Fin.CommRing

theorem Fp.sqrt?_sq {a r : Fp} (h : a.sqrt? = some r) : r * r = a := by
  unfold sqrt? at h
  generalize a.pow _ = root at h
  simp only [Option.ite_none_right_eq_some, Option.some.injEq] at h
  obtain ⟨hsq, rfl⟩ := h
  exact hsq

namespace Point

open Classical in
/-- The group element of a point of the curve, zero for any other point. -/
noncomputable def toCurve (p : Point) : CurvePoint :=
  if h : p.OnCurve then (exists_ofCurve h).choose else 0

theorem ofCurve_toCurve {p : Point} (h : p.OnCurve) : ofCurve p.toCurve = p := by
  rw [toCurve, dif_pos h]
  exact (exists_ofCurve h).choose_spec

@[simp] theorem toCurve_ofCurve (P : CurvePoint) : (ofCurve P).toCurve = P :=
  ofCurve_injective (ofCurve_toCurve (onCurve_ofCurve P))

theorem liftX?_onCurve {x : Fp} {odd : Bool} {p : Point} (h : liftX? x odd = some p) :
    p.OnCurve := by
  unfold liftX? at h
  obtain ⟨y, hy, rfl⟩ := Option.map_eq_some_iff.mp h
  have hsq := Fp.sqrt?_sq hy
  split_ifs
  · exact hsq
  · show -y * -y = x * x * x + 7
    rw [neg_mul_neg, hsq]

end Point

theorem CompactPoint.toFinitePoint?_onCurve {c : CompactPoint} {p : Point}
    (h : c.toFinitePoint? = some p) : p.OnCurve := by
  unfold toFinitePoint? at h
  split_ifs at h
  obtain ⟨x, _, hlift⟩ := Option.bind_eq_some_iff.mp h
  exact Point.liftX?_onCurve hlift

theorem CompactPoint.toPoint?_onCurve {c : CompactPoint} {p : Point} (h : c.toPoint? = some p) :
    p.OnCurve := by
  unfold toPoint? at h
  split_ifs at h
  · cases h
    trivial
  · exact toFinitePoint?_onCurve h

/-- Whatever hash is drawn, and when drawing gives up too. -/
theorem Transcript.drawPoint_onCurve (limit : ℕ) (t : Transcript) :
    (drawPoint limit t).1.2.OnCurve := by
  induction limit generalizing t with
  | zero =>
    rw [drawPoint]
    exact Point.base_onCurve
  | succ limit ih =>
    rw [drawPoint]
    cases hp : CompactPoint.toFinitePoint? ⟨t.challengeHash.1, 0⟩ with
    | none =>
      simp only [hp]
      exact ih _
    | some p =>
      simp only [hp]
      exact CompactPoint.toFinitePoint?_onCurve hp

theorem Transcript.challengePoint_onCurve (t : Transcript) : (challengePoint t).1.2.OnCurve :=
  drawPoint_onCurve drawLimit t

theorem Generator.ofLabel_onCurve (name : String) (index : Option UInt64) :
    (ofLabel name index).OnCurve :=
  Transcript.challengePoint_onCurve _

theorem Generator.H_onCurve : H.OnCurve := ofLabel_onCurve _ _

theorem Generator.J_onCurve : J.OnCurve := ofLabel_onCurve _ _

theorem assetPoint_onCurve (asset : UInt32) : (assetPoint asset).2.OnCurve :=
  Transcript.challengePoint_onCurve _

/-- The base point, the second blinding generator and that of native amounts, as group elements. -/
noncomputable def curveG : CurvePoint := Point.base.toCurve

noncomputable def curveJ : CurvePoint := Generator.J.toCurve

noncomputable def curveH : CurvePoint := Generator.H.toCurve

namespace AssetGenerator

def OnCurve (a : AssetGenerator) : Prop := ∀ p, a = some p → p.OnCurve

noncomputable def toCurve : AssetGenerator → CurvePoint
  | some p => p.toCurve
  | none => curveH

end AssetGenerator

theorem assetGenerator_onCurve (asset : UInt32) :
    AssetGenerator.OnCurve (assetGenerator asset) := by
  intro p h
  unfold assetGenerator at h
  split_ifs at h
  cases h
  exact assetPoint_onCurve asset

namespace Table

/-- Jacobian coordinates of a point of the curve stand for its group element. -/
theorem jacobian_ofPoint {p : Point} (hp : p.OnCurve) :
    (Jacobian.ofPoint p).toPoint = .ofCurve p.toCurve := by
  rw [Jacobian.toPoint_ofPoint, Point.ofCurve_toCurve hp]

theorem secret_holds {p : Point} (hp : p.OnCurve) :
    (secret p).Holds (fun (p : Jacobian) P => p.toPoint = .ofCurve P) Generator.offset.toCurve
      p.toCurve :=
  SecretTable.holds_ofPoint Jacobian.represents (jacobian_ofPoint hp)
    (jacobian_ofPoint (Generator.ofLabel_onCurve _ _))

theorem odd_holds (n : ℕ) {p : Point} (hp : p.OnCurve) :
    (odd (2 ^ n) p).Holds (fun (p : Jacobian) P => p.toPoint = .ofCurve P) p.toCurve :=
  OddTable.holds_ofPoint Jacobian.represents (jacobian_ofPoint hp) n

end Table

theorem Scalar.val_smul (k : Scalar) (P : CurvePoint) : k.val • P = k.residue • P := by
  rw [← natCast_val, Nat.cast_smul_eq_nsmul]

/-- A joint multiplication over tables of curve points, in the curve's group. -/
theorem toPoint_multiMul (secret : List (Point × Scalar)) (terms : List ((ℕ × Point) × Scalar))
    (hsecret : ∀ s ∈ secret, s.1.OnCurve) (hterms : ∀ t ∈ terms, t.1.2.OnCurve) :
    (multiMul (secret.map fun s => (Table.secret s.1, s.2))
        (terms.map fun t => (Table.odd (2 ^ t.1.1) t.1.2, t.2))).toPoint =
      .ofCurve ((secret.map fun s => s.2.residue • s.1.toCurve).sum +
        (terms.map fun t => t.2.residue • t.1.2.toCurve).sum) := by
  have h := Jacobian.represents.multiMul (fun s hs => Table.secret_holds (hsecret s hs))
    (fun t ht => Table.odd_holds t.1.1 (hterms t ht)) Prod.snd Prod.snd
  simp only [Scalar.val_smul] at h
  exact h

theorem mulG_eq (k : Scalar) : mulG k = .ofCurve (k.residue • curveG) := by
  have h := toPoint_multiMul [(.base, k)] [] (by simpa using Point.base_onCurve) (by simp)
  simpa [mulG, Table.G, curveG] using h

theorem mulJ_eq (k : Scalar) : mulJ k = .ofCurve (k.residue • curveJ) := by
  have h := toPoint_multiMul [(Generator.J, k)] []
    (by simpa using Generator.J_onCurve) (by simp)
  simpa [mulJ, Table.J, curveJ] using h

theorem mulGJ_eq (kg kj : Scalar) :
    mulGJ kg kj = .ofCurve (kg.residue • curveG + kj.residue • curveJ) := by
  have h := toPoint_multiMul [(.base, kg), (Generator.J, kj)] []
    (by simpa using ⟨Point.base_onCurve, Generator.J_onCurve⟩) (by simp)
  simpa [mulGJ, Table.G, Table.J, curveG, curveJ] using h

theorem mulGPlus_eq (k e : Scalar) {p : Point} (hp : p.OnCurve) :
    mulGPlus k e p = .ofCurve (k.residue • curveG + e.residue • p.toCurve) := by
  have h := toPoint_multiMul [(.base, k)] [((3, p), e)] (by simpa using Point.base_onCurve)
    (by simpa using hp)
  simpa [mulGPlus, Table.G, oddsCustom, curveG] using h

/-- A commitment in the group, for any generator given for the asset. -/
theorem commitScalar_eq (sk v : Scalar) {asset : AssetGenerator} (h : asset.OnCurve) :
    commitScalar sk v asset = .ofCurve (sk.residue • curveG + v.residue • asset.toCurve) := by
  cases asset with
  | some p => exact mulGPlus_eq sk v (h p rfl)
  | none =>
    have h := toPoint_multiMul [(.base, sk)] [((4, Generator.H), v)]
      (by simpa using Point.base_onCurve) (by simpa using Generator.H_onCurve)
    simpa [commitScalar, Table.G, Table.H, oddsH, AssetGenerator.toCurve, curveG, curveH] using h

/-- The generator of amounts of an asset, as a group element. -/
noncomputable def curveAsset (asset : UInt32) : CurvePoint := (assetGenerator asset).toCurve

theorem curveAsset_zero : curveAsset 0 = curveH := rfl

/-- The generator of amounts is that of the native asset, or is hashed from the asset's number. -/
theorem ofCurve_curveAsset (asset : UInt32) :
    Point.ofCurve (curveAsset asset) =
      if asset = 0 then Generator.H else (assetPoint asset).2 := by
  unfold curveAsset assetGenerator
  split_ifs
  · exact Point.ofCurve_toCurve Generator.H_onCurve
  · exact Point.ofCurve_toCurve (assetPoint_onCurve asset)

theorem commit_eq (sk : Scalar) (amount : UInt64) (asset : UInt32) :
    commit sk amount (assetGenerator asset) =
      .ofCurve (sk.residue • curveG + (amount.toNat : ℤ) • curveAsset asset) := by
  rw [commit, commitScalar_eq _ _ (assetGenerator_onCurve asset), Scalar.residue_ofNat,
    Nat.cast_smul_eq_nsmul, natCast_zsmul]
  rfl

end ColdWallet
