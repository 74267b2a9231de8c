import ColdWallet.Shielded.Spend
import ColdWallet.Proofs.Curve.CompactPoint
import ColdWallet.Proofs.Wire.Layout

namespace ColdWallet

section Decoys

variable {α : Type}

theorem mapM_toOption_ok {ε : Type} (vs : List α) :
    (vs.map (.ok : α → Except ε α)).mapM Except.toOption = some vs := by
  induction vs with
  | nil => rfl
  | cons v vs ih =>
    rw [List.map_cons, List.mapM_cons, ih]
    rfl

theorem mapM_toOption_error {ε : Type} (vs : List α) (e : ε) :
    (vs.map (.ok : α → Except ε α) ++ [Except.error e]).mapM Except.toOption = none := by
  induction vs with
  | nil => rfl
  | cons v vs ih =>
    rw [List.map_cons, List.cons_append, List.mapM_cons, ih]
    rfl

end Decoys

namespace SpendShielded

variable {r : SpendShielded} {master : KeyNode} {serial : Scalar} {decoy₀ : CompactPoint}
  {decoys : List CompactPoint}

theorem wholeDecoys?_eq (r : SpendShielded) : r.wholeDecoys? =
    if r.decoyBytes.length % 33 = 0 then
      some (CompactPoint.layout.readMany (r.decoyBytes.length / 33) r.decoyBytes)
    else none := by
  have hwidth : CompactPoint.layout.width = 33 := rfl
  unfold wholeDecoys? SpendShielded.decoys
  split
  · next h =>
    rw [Layout.chunks_whole (by decide) (hwidth ▸ h), mapM_toOption_ok, hwidth]
  · next h =>
    rw [Layout.chunks_cut (by decide) (hwidth ▸ h), mapM_toOption_error]

/-- Whole decoys are the entries that the bytes hold. -/
theorem decoys_of_whole (h : r.wholeDecoys? = some decoys) : r.decoys = decoys.map .ok := by
  rw [wholeDecoys?_eq] at h
  split at h
  · next hmod =>
    cases h
    exact Layout.chunks_whole (by decide) hmod
  · cases h

/-- The point of the first decoy, if all of them are whole and the first names a point. -/
def firstDecoy? (r : SpendShielded) : Option Point := do (← (← r.wholeDecoys?).head?).toPoint?

theorem firstDecoy?_eq_none_iff (r : SpendShielded) : r.firstDecoy? = none ↔
    r.decoyBytes = [] ∨ r.decoyBytes.length % 33 ≠ 0 ∨
      (CompactPoint.layout.read (r.decoyBytes.take 33)).toPoint? = none := by
  unfold firstDecoy?
  rw [wholeDecoys?_eq]
  split
  · next hmod =>
    cases hcount : r.decoyBytes.length / 33 with
    | zero =>
      have hnil : r.decoyBytes = [] := List.length_eq_zero_iff.mp (by omega)
      simp [hnil, Layout.readMany]
    | succ n =>
      have hne : r.decoyBytes ≠ [] := by
        intro hnil
        simp [hnil] at hcount
      simp only [hne, hmod, ne_eq, not_true_eq_false, false_or]
      rfl
  · next hmod => simp [hmod]

theorem firstDecoy?_eq_some {p : Point} (h : r.firstDecoy? = some p) :
    ∃ decoy₀ decoys, r.wholeDecoys? = some (decoy₀ :: decoys) ∧ decoy₀.toPoint? = some p := by
  unfold firstDecoy? at h
  cases hwhole : r.wholeDecoys? with
  | none => simp [hwhole] at h
  | some all =>
    cases all with
    | nil => simp [hwhole] at h
    | cons decoy₀ decoys =>
      simp only [hwhole, Option.bind_eq_bind, Option.bind_some, List.head?_cons] at h
      exact ⟨decoy₀, decoys, rfl, h⟩

noncomputable def outputPoint (r : SpendShielded) (master : KeyNode) : CurvePoint :=
  (r.input.blinding master).residue • curveG +
    (r.input.terms.amount.toNat : ℤ) • curveAsset r.input.terms.asset

noncomputable def spendPoint (r : SpendShielded) (master : KeyNode) (serial : Scalar) :
    CurvePoint :=
  (r.spendKey master serial).residue • curveG

/-- The hash that the signature is over, with the transcript after it. -/
noncomputable def opened (r : SpendShielded) (master : KeyNode) (serial : Scalar) :
    Bytes 32 × Transcript :=
  Transcript.challengeHash
    (r.opening (.ofCurve (r.outputPoint master)) (.ofCurve (r.spendPoint master serial)))

theorem outputCommitment_eq (r : SpendShielded) (master : KeyNode) :
    r.outputCommitment master = .ofCurve (r.outputPoint master) := commit_eq ..

theorem opened_eq (r : SpendShielded) (master : KeyNode) (serial : Scalar) :
    Transcript.challengeHash
      (r.opening (r.outputCommitment master) (mulG (r.spendKey master serial))) =
        r.opened master serial := by
  rw [outputCommitment_eq, mulG_eq]
  rfl

/-- The nonces that a spend draws. -/
noncomputable def nonces (r : SpendShielded) (master : KeyNode) (serial : Scalar)
    (decoys : List CompactPoint) : SpendNonces :=
  .ofSeed (sha256 (r.nonceMaterial
    ((r.opened master serial).2 ++ r.abcd.toList.flatMap Write.point) decoys
    (r.input.blinding master)))

theorem prove_overflow (h : Scalar.ofBytes? r.input.secret.serialBlinding = none) :
    r.prove master = .error .serialOverflow := by
  unfold prove
  simp only [h]
  rfl

theorem prove_decoy (hserial : Scalar.ofBytes? r.input.secret.serialBlinding = some serial)
    (h : r.firstDecoy? = none) : r.prove master = .error .decoy := by
  unfold prove firstDecoy? at *
  simp only [hserial]
  cases hwhole : r.wholeDecoys? with
  | none => rfl
  | some decoys =>
    simp only [hwhole, Option.bind_eq_bind, Option.bind_some] at h
    cases hhead : decoys.head? with
    | none => simp only [hhead]; rfl
    | some decoy₀ =>
      simp only [hhead, Option.bind_some] at h
      simp only [hhead, h]
      rfl

theorem prove_ok (hserial : Scalar.ofBytes? r.input.secret.serialBlinding = some serial)
    (hwhole : r.wholeDecoys? = some (decoy₀ :: decoys)) {p : Point}
    (hpoint : decoy₀.toPoint? = some p) :
    r.prove master = .ok (r.respond (r.input.blinding master) (r.spendKey master serial)
      (r.opened master serial) (r.nonces master serial (decoy₀ :: decoys)) p decoys) := by
  unfold prove
  simp only [hserial, hwhole, List.head?_cons, hpoint, opened_eq]
  rfl

/-- What the pool checks of the answer to a spend. `N`, `G₀` and `D` are the points behind the public
nonce, the blinded decoy and the decoy itself; the challenges are drawn from what is sent. -/
structure Solves (r : SpendShielded) (master : KeyNode) (a : SpentShielded) (serial : Scalar)
    (decoy₀ : CompactPoint) (decoys : List CompactPoint) (N G₀ D : CurvePoint) : Prop where
  serial_read : Scalar.ofBytes? r.input.secret.serialBlinding = some serial
  decoys_whole : r.decoys = (decoy₀ :: decoys).map .ok
  nonce_imports : a.noncePub.toPoint? = some (.ofCurve N)
  blinded_imports : a.g₀.toPoint? = some (.ofCurve G₀)
  decoy_imports : decoy₀.toPoint? = some (.ofCurve D)
  signature :
    -(Scalar.reduce a.responses.1).residue • curveG -
        (Scalar.reduce a.responses.2).residue • (curveAsset r.input.terms.asset -
          (Scalar.reduce r.assetKey).residue • curveG) =
      N + (signatureChallenges a.noncePub (r.opened master serial).1).1.residue •
          r.outputPoint master +
        (signatureChallenges a.noncePub (r.opened master serial).1).2.residue •
          r.spendPoint master serial
  membership : 1 ≤ r.window.sigmaM.toNat →
    (Scalar.reduce a.zR).residue • curveG + G₀ =
      D + ((sigmaChallenge ((r.opened master serial).2 ++ r.abcd.toList.flatMap Write.point)
          a.g₀ decoys).residue ^ r.window.sigmaM.toNat *
        ((Scalar.reduce r.outputKey).residue - (r.input.blinding master).residue)) • curveG

/-- The blinded asset key, the amount and both keys cancel out of the responses. -/
theorem signature_equation (r : SpendShielded) (output spendKey : Scalar) (n : SpendNonces)
    (e : Scalar × Scalar) :
    -(r.signatureResponses output spendKey n e).1.residue • curveG -
        (r.signatureResponses output spendKey n e).2.residue •
          (curveAsset r.input.terms.asset - (Scalar.reduce r.assetKey).residue • curveG) =
      (n.first.residue • curveG + n.second.residue • curveAsset r.input.terms.asset) +
        e.1.residue • (output.residue • curveG +
          (r.input.terms.amount.toNat : ℤ) • curveAsset r.input.terms.asset) +
        e.2.residue • spendKey.residue • curveG := by
  rw [← Int.cast_smul_eq_zsmul (ZMod groupOrder)]
  simp only [signatureResponses, Scalar.residue_neg, Scalar.residue_add, Scalar.residue_mul,
    Scalar.residue_ofNat, Int.cast_natCast]
  module

theorem membership_equation (r : SpendShielded) (output tau x : Scalar) (D : CurvePoint)
    (h : 1 ≤ r.window.sigmaM.toNat) :
    (r.decoyResponse output tau x).residue • curveG + (tau.residue • curveG + D) =
      D + (x.residue ^ r.window.sigmaM.toNat *
        ((Scalar.reduce r.outputKey).residue - output.residue)) • curveG := by
  simp only [decoyResponse, Nat.max_eq_right h, Scalar.residue_sub, Scalar.residue_mul,
    Scalar.residue_pow]
  module

/-- Both equations hold for any nonces. Those that are drawn stay out of it, as the kernel would run
their stream to compare the two sides. -/
theorem respond_solves (hserial : Scalar.ofBytes? r.input.secret.serialBlinding = some serial)
    (hwhole : r.wholeDecoys? = some (decoy₀ :: decoys)) {D : CurvePoint}
    (hD : decoy₀.toPoint? = some (.ofCurve D)) (n : SpendNonces) :
    r.Solves master (r.respond (r.input.blinding master) (r.spendKey master serial)
        (r.opened master serial) n (.ofCurve D) decoys) serial decoy₀ decoys
      (n.first.residue • curveG + n.second.residue • curveAsset r.input.terms.asset)
      (n.tau.residue • curveG + D) D where
  serial_read := hserial
  decoys_whole := decoys_of_whole hwhole
  nonce_imports := by
    unfold respond
    simp only [commitScalar_eq _ _ (assetGenerator_onCurve _)]
    exact CompactPoint.toPoint?_ofCurve _
  blinded_imports := by
    unfold respond
    simp only [mulG_eq, ← Point.ofCurve_add]
    exact CompactPoint.toPoint?_ofCurve _
  decoy_imports := hD
  signature := by
    unfold respond
    simp only [Scalar.reduce_toBytes]
    exact r.signature_equation ..
  membership := by
    unfold respond
    simp only [Scalar.reduce_toBytes]
    exact r.membership_equation _ _ _ _

/-- A spend succeeds, and then solves both equations, unless its serial blinding or its decoys are
refused. -/
theorem prove_cases (r : SpendShielded) (master : KeyNode) :
    (Scalar.ofBytes? r.input.secret.serialBlinding = none ∧
      r.prove master = .error .serialOverflow) ∨
    (Scalar.ofBytes? r.input.secret.serialBlinding ≠ none ∧ r.firstDecoy? = none ∧
      r.prove master = .error .decoy) ∨
    (Scalar.ofBytes? r.input.secret.serialBlinding ≠ none ∧ r.firstDecoy? ≠ none ∧
      ∃ a serial decoy₀ decoys N G₀ D, r.prove master = .ok a ∧
        r.Solves master a serial decoy₀ decoys N G₀ D) := by
  cases hserial : Scalar.ofBytes? r.input.secret.serialBlinding with
  | none => exact .inl ⟨rfl, prove_overflow hserial⟩
  | some serial =>
    cases hfirst : r.firstDecoy? with
    | none => exact .inr (.inl ⟨nofun, rfl, prove_decoy hserial hfirst⟩)
    | some p =>
      -- the decoys behind the first are only hashed, and need not be points
      obtain ⟨decoy₀, decoys, hwhole, hpoint⟩ := firstDecoy?_eq_some hfirst
      obtain ⟨D, rfl⟩ := CompactPoint.exists_ofCurve hpoint
      exact .inr (.inr ⟨nofun, nofun, _, _, _, _, _, _, _, prove_ok hserial hwhole hpoint,
        respond_solves hserial hwhole hpoint _⟩)

/-- What the device gives out for a spend is always right: either the answer solves the equations of
its signature and of the blinded decoy, or the request is refused, and each refusal has one cause. -/
theorem prove_exact (r : SpendShielded) (master : KeyNode) :
    (r.prove master = .error .serialOverflow ↔
      groupOrder ≤ ofBigEndian r.input.secret.serialBlinding.toList) ∧
    (r.prove master = .error .decoy ↔
      ofBigEndian r.input.secret.serialBlinding.toList < groupOrder ∧
        (r.decoyBytes = [] ∨ r.decoyBytes.length % 33 ≠ 0 ∨
          (CompactPoint.layout.read (r.decoyBytes.take 33)).toPoint? = none)) ∧
    ∀ a, r.prove master = .ok a →
      ∃ serial decoy₀ decoys N G₀ D, r.Solves master a serial decoy₀ decoys N G₀ D := by
  rw [← Scalar.ofBytes?_eq_none, ← firstDecoy?_eq_none_iff, ← Nat.not_le, ← Scalar.ofBytes?_eq_none]
  rcases r.prove_cases master with ⟨hserial, h⟩ | ⟨hserial, hdecoys, h⟩ | ⟨hserial, hdecoys, h⟩
  · simp [hserial, h]
  · simp [hserial, hdecoys, h]
  · obtain ⟨a, serial, decoy₀, decoys, N, G₀, D, h, hsolves⟩ := h
    rw [h]
    refine ⟨⟨nofun, fun hnone => absurd hnone hserial⟩,
      ⟨nofun, fun hnone => absurd hnone.2 hdecoys⟩, fun a' ha => ?_⟩
    cases ha
    exact ⟨serial, decoy₀, decoys, N, G₀, D, hsolves⟩

/-- A spend that hides among the base point alone. -/
def soleDecoy : SpendShielded where
  input := ⟨⟨.zero 32, 0⟩, ⟨0, 1, 0, 0⟩⟩
  window := ⟨0, 0, 0, 1, 1⟩
  poolState := .zero 32
  generator := Point.infinity.compact
  assetKey := .zero 32
  outputKey := .zero 32
  abcd := .replicate 4 Point.infinity.compact
  decoyBytes := CompactPoint.layout.write Point.base.compact

theorem soleDecoy_decoy : (CompactPoint.layout.read (soleDecoy.decoyBytes.take 33)).toPoint? =
    some .base := by
  have hlength : soleDecoy.decoyBytes.length = 33 := CompactPoint.layout_exact.length _
  have hread : CompactPoint.layout.read soleDecoy.decoyBytes = Point.base.compact :=
    CompactPoint.layout_exact.read _
  rw [← hlength, List.take_length, hread, Point.toPoint?_compact Point.base_onCurve]

/-- Nothing refuses it, so that there is an answer, which solves the equations. -/
theorem prove_exact_soleDecoy :
    ∃ a serial decoy₀ decoys N G₀ D, soleDecoy.prove ⟨.zero 32, 1⟩ = .ok a ∧
      soleDecoy.Solves ⟨.zero 32, 1⟩ a serial decoy₀ decoys N G₀ D := by
  obtain ⟨hoverflow, hdecoy, hsolves⟩ := prove_exact soleDecoy ⟨.zero 32, 1⟩
  have hlength : soleDecoy.decoyBytes.length = 33 := CompactPoint.layout_exact.length _
  cases hprove : soleDecoy.prove ⟨.zero 32, 1⟩ with
  | ok a =>
    obtain ⟨serial, decoy₀, decoys, N, G₀, D, h⟩ := hsolves a hprove
    exact ⟨a, serial, decoy₀, decoys, N, G₀, D, rfl, h⟩
  | error e =>
    exfalso
    cases e with
    | serialOverflow => exact absurd (hoverflow.mp hprove) (by decide)
    | decoy =>
      rcases (hdecoy.mp hprove).2 with hnil | hmod | hpoint
      · simp [hnil] at hlength
      · exact hmod (by rw [hlength])
      · rw [soleDecoy_decoy] at hpoint
        cases hpoint

end SpendShielded

end ColdWallet
