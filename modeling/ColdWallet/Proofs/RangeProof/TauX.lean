import ColdWallet.Proofs.RangeProof.Commitments
import ColdWallet.Proofs.RangeProof.Output
import ColdWallet.Proofs.Device.Commitments
import ColdWallet.Proofs.Transcript

namespace ColdWallet.RangeProof

section Equation

/-- The part imports and opens to the coin, and its response answers for what was added to the halves.
`C`, `T₁` and `T₂` are the points given out, `I₁` and `I₂` the halves that came; the challenges are
drawn again from what is given out. -/
structure Part.Solves (part : Part) (master : KeyNode) (coin : CoinId)
    (t : CompactPoint × CompactPoint) (generator : Option CompactPoint)
    (C T₁ T₂ I₁ I₂ : CurvePoint) : Prop where
  commitment_imports : part.commitment.toPoint? = some (.ofCurve C)
  t₁_imports : part.t.1.toPoint? = some (.ofCurve T₁)
  t₂_imports : part.t.2.toPoint? = some (.ofCurve T₂)
  half₁_imports : t.1.toPoint? = some (.ofCurve I₁)
  half₂_imports : t.2.toPoint? = some (.ofCurve I₂)
  opens : C = (coin.blinding master).residue • curveG +
    (coin.amount.toNat : ℤ) • curveAsset coin.asset
  tauX : part.tauX.residue • curveG =
    (part.challenges generator).z.residue ^ 2 •
        (C - (coin.amount.toNat : ℤ) • curveAsset coin.asset) +
      (part.challenges generator).x.residue • (T₁ - I₁) +
      (part.challenges generator).x.residue ^ 2 • (T₂ - I₂)

variable {master : KeyNode} {coin : CoinId} {t : CompactPoint × CompactPoint}
  {extra : Option (Bytes 32 × Bytes 32)} {generator : Option CompactPoint} {part : Part}

theorem toPoint?_blinded (tau : Scalar) (I : CurvePoint) :
    (mulG tau + .ofCurve I).compact.toPoint? = some (.ofCurve (tau.residue • curveG + I)) := by
  rw [mulG_eq, ← Point.ofCurve_add, CompactPoint.toPoint?_ofCurve]

theorem Part.Made.solves (h : part.Made master coin t extra generator) :
    ∃ C T₁ T₂ I₁ I₂, part.Solves master coin t generator C T₁ T₂ I₁ I₂ := by
  obtain ⟨half₁, half₂, tau₁, tau₂, hhalf₁, hhalf₂, ht, htauX⟩ := h.tau
  obtain ⟨I₁, rfl⟩ := CompactPoint.exists_ofCurve hhalf₁
  obtain ⟨I₂, rfl⟩ := CompactPoint.exists_ofCurve hhalf₂
  refine ⟨_, tau₁.residue • curveG + I₁, tau₂.residue • curveG + I₂, I₁, I₂, {
    commitment_imports := by rw [h.commitment, CoinId.commitment_eq]
    t₁_imports := by rw [ht, toPoint?_blinded]
    t₂_imports := by rw [ht, toPoint?_blinded]
    half₁_imports := hhalf₁
    half₂_imports := hhalf₂
    opens := rfl
    tauX := ?_ }⟩
  rw [htauX, CoinId.blindingCommitment_fst, add_sub_cancel_right, add_sub_cancel_right,
    add_sub_cancel_right]
  simp only [Scalar.residue_add, Scalar.residue_mul]
  module

theorem part?_eq_none_iff :
    part? master coin t extra generator = none ↔ t.1.toPoint? = none ∨ t.2.toPoint? = none := by
  unfold part?
  cases t.1.toPoint? with
  | none => simp
  | some half₁ =>
    cases t.2.toPoint? with
    | none => simp
    | some half₂ => simp

/-- A part is refused for halves that are no points only. Every other one opens to its coin, and its
response solves the equation of `tauX` under the challenges that a verifier draws from what was given
out, for any asset, extra scalars and generator. -/
theorem part_solves_tauX (master : KeyNode) (coin : CoinId) (t : CompactPoint × CompactPoint)
    (extra : Option (Bytes 32 × Bytes 32)) (generator : Option CompactPoint) :
    (part? master coin t extra generator = none ↔
      t.1.toPoint? = none ∨ t.2.toPoint? = none) ∧
    ∀ part, part? master coin t extra generator = some part →
      ∃ C T₁ T₂ I₁ I₂, part.Solves master coin t generator C T₁ T₂ I₁ I₂ :=
  ⟨part?_eq_none_iff, fun _ hpart => (part?_some hpart).solves⟩

/-- The largest amount of an asset, with extra scalars, a generator, and infinity for one half. A parity
byte of two names no point. -/
theorem part_solves_tauX_asset :
    let master := KeyNode.ofSeed (.zero 32)
    let coin : CoinId :=
      { index := 7, kind := 1, subIndex := 0x2000003, amount := 0xffffffffffffffff, asset := 5 }
    let extra := some (Bytes.zero 32, Bytes.zero 32)
    let generator := some Point.base.compact
    (∃ part C T₁ T₂ I₁ I₂,
      part? master coin (Point.base.compact, .infinity) extra generator = some part ∧
        part.Solves master coin (Point.base.compact, .infinity) generator C T₁ T₂ I₁ I₂) ∧
      part? master coin (Point.base.compact, ⟨.zero 32, 2⟩) extra generator = none := by
  intro master coin extra generator
  have hparity : (⟨.zero 32, 2⟩ : CompactPoint).toPoint? = none := by decide
  obtain ⟨part, hpart⟩ : ∃ part,
      part? master coin (Point.base.compact, .infinity) extra generator = some part :=
    part?_base_infinity
  obtain ⟨C, T₁, T₂, I₁, I₂, hsolves⟩ := (part_solves_tauX master coin _ extra generator).2 part hpart
  exact ⟨⟨part, C, T₁, T₂, I₁, I₂, hpart, hsolves⟩,
    (part_solves_tauX master coin _ extra generator).1.mpr (.inr hparity)⟩

end Equation

/-- The transcript that `y` is drawn from. -/
def Part.transcript (part : Part) (generator : Option CompactPoint) : Transcript :=
  opening part.commitment generator ++ (Write.point part.a ++ Write.point part.s)

def Part.material (part : Part) (master : KeyNode) (coin : CoinId)
    (t : CompactPoint × CompactPoint) (generator : Option CompactPoint) : List UInt8 :=
  tauMaterial (coin.blinding master) (part.challenges generator).y (part.challenges generator).z t

/-- The response is a linear equation in the blindings, which are drawn from the bytes and added to the
halves. -/
structure Part.Linear (part : Part) (master : KeyNode) (coin : CoinId)
    (t : CompactPoint × CompactPoint) (generator : Option CompactPoint) (tau : Scalar × Scalar) :
    Prop where
  drawn : tauDraws (part.material master coin t generator) = tau
  t : ∃ half₁ half₂, t.1.toPoint? = some half₁ ∧ t.2.toPoint? = some half₂ ∧
    part.t = ((mulG tau.1 + half₁).compact, (mulG tau.2 + half₂).compact)
  tauX : part.tauX = coin.blinding master * (part.challenges generator).z *
      (part.challenges generator).z + tau.1 * (part.challenges generator).x +
    tau.2 * (part.challenges generator).x * (part.challenges generator).x

theorem Part.challenges_y (part : Part) (generator : Option CompactPoint) :
    (part.challenges generator).y = (part.transcript generator).challenge.1 := by
  unfold challenges drawChallenges transcript
  rfl

/-- The transcript tells what it is made of, whatever follows. -/
theorem Part.transcript_injective {part part' : Part} {generator generator' : Option CompactPoint}
    {rest rest' : List UInt8}
    (h : part.transcript generator ++ rest = part'.transcript generator' ++ rest') :
    part.commitment = part'.commitment ∧ generator = generator' ∧ part.a = part'.a ∧
      part.s = part'.s := by
  simp only [transcript, opening, List.append_assoc] at h
  obtain ⟨_, h⟩ := Write.num_prefixFree h
  obtain ⟨hcommitment, h⟩ := Write.point_prefixFree h
  obtain ⟨hgenerator, h⟩ := Write.pointOption_prefixFree h
  obtain ⟨ha, h⟩ := Write.point_prefixFree h
  obtain ⟨hs, _⟩ := Write.point_prefixFree h
  exact ⟨hcommitment, hgenerator, ha, hs⟩

/-- The key, the challenges and the raw bytes of both halves stand in the bytes. -/
theorem tauMaterial_injective {sk sk' y y' z z' : Scalar} {t t' : CompactPoint × CompactPoint}
    (h : tauMaterial sk y z t = tauMaterial sk' y' z' t') :
    sk = sk' ∧ y = y' ∧ z = z' ∧ t = t' := by
  have hfirst : Write.scalar sk ++ (Write.point t.1 ++ (Write.scalar y ++ (Write.point t.2 ++
      (Write.scalar z ++ [])))) = Write.scalar sk' ++ (Write.point t'.1 ++ (Write.scalar y' ++
      (Write.point t'.2 ++ (Write.scalar z' ++ [])))) := by
    simpa only [tauMaterial, Write.scalar, Write.point, List.append_assoc, List.append_nil] using h
  obtain ⟨hsk, h⟩ := Write.scalar_prefixFree hfirst
  obtain ⟨h₁, h⟩ := Write.point_prefixFree h
  obtain ⟨hy, h⟩ := Write.scalar_prefixFree h
  obtain ⟨h₂, h⟩ := Write.point_prefixFree h
  obtain ⟨hz, _⟩ := Write.scalar_prefixFree h
  exact ⟨hsk, hy, hz, Prod.ext h₁ h₂⟩

section Bound
variable {master master' : KeyNode} {coin coin' : CoinId} {t t' : CompactPoint × CompactPoint}
  {extra extra' : Option (Bytes 32 × Bytes 32)} {generator generator' : Option CompactPoint}
  {part part' : Part}

/-- A part is the response to its own commitments, under the coin's key. -/
theorem part?_responds (h : part? master coin t extra generator = some part) :
    ∃ half₁ half₂, t.1.toPoint? = some half₁ ∧ t.2.toPoint? = some half₂ ∧
      respondTau (coin.blinding master, part.commitment) part.a part.s t generator half₁ half₂ =
        part := by
  obtain ⟨half₁, half₂, h₁, h₂, hpart⟩ := part?_eq_some_iff.mp h
  have hkey : (coin.blinding master, part.commitment) = coin.blindingCommitment master := by
    rw [← hpart, respondTau_commitment, ← CoinId.blindingCommitment_fst]
  refine ⟨half₁, half₂, h₁, h₂, ?_⟩
  rw [hkey, ← hpart, respondTau_a, respondTau_s]

theorem part?_linear (h : part? master coin t extra generator = some part) :
    part.Linear master coin t generator (tauDraws (part.material master coin t generator)) := by
  obtain ⟨half₁, half₂, h₁, h₂, hpart⟩ := part?_responds h
  obtain ⟨tau₁, tau₂, hdraws, hT, htauX⟩ := respondTau_draws (coin.blinding master, part.commitment)
    part.a part.s t generator half₁ half₂
  rw [hpart] at hdraws hT htauX
  have htau : tauDraws (part.material master coin t generator) = (tau₁, tau₂) := hdraws
  rw [htau]
  exact { drawn := htau, t := ⟨half₁, half₂, h₁, h₂, hT⟩, tauX := htauX }

/-- What the blindings are drawn from fixes the whole answer: the bytes hold the challenge `y`, whose
transcript holds the commitment, `A`, `S` and the generator, and everything after is computed from
these. -/
theorem tau_nonces_bound (hpart : part? master coin t extra generator = some part)
    (hpart' : part? master' coin' t' extra' generator' = some part')
    (hcollision : (part.transcript generator).CollisionFree (part'.transcript generator'))
    (hmaterial : part.material master coin t generator =
      part'.material master' coin' t' generator') :
    ∃ tau, part.Linear master coin t generator tau ∧ part'.Linear master' coin' t' generator' tau ∧
      part = part' ∧ generator = generator' ∧
      part.challenges generator = part'.challenges generator' := by
  obtain ⟨hsk, hy, -, ht⟩ := tauMaterial_injective hmaterial
  rw [Part.challenges_y, Part.challenges_y] at hy
  obtain ⟨rest, rest', hcommon⟩ := hcollision.common hy
  obtain ⟨hcommitment, hgenerator, ha, hs⟩ := Part.transcript_injective hcommon
  have hlinear' : part'.Linear master' coin' t' generator'
      (tauDraws (part.material master coin t generator)) := hmaterial ▸ part?_linear hpart'
  refine ⟨_, part?_linear hpart, hlinear', ?_⟩
  obtain ⟨half₁, half₂, h₁, h₂, hresponse⟩ := part?_responds hpart
  obtain ⟨half₁', half₂', h₁', h₂', hresponse'⟩ := part?_responds hpart'
  -- The halves are imported from the same bytes.
  rw [← ht] at h₁' h₂' hresponse'
  obtain rfl : half₁ = half₁' := Option.some.inj (h₁.symm.trans h₁')
  obtain rfl : half₂ = half₂' := Option.some.inj (h₂.symm.trans h₂')
  rw [← hsk, ← hcommitment, ← ha, ← hs, ← hgenerator] at hresponse'
  obtain rfl : part = part' := hresponse.symm.trans hresponse'
  exact ⟨rfl, hgenerator, by rw [hgenerator]⟩

/-- No extra scalars and two zeros make the same part, as do any that agree as residues. -/
theorem part?_congr (h : extraAt extra = extraAt extra') :
    part? master coin t extra generator = part? master coin t extra' generator := by
  have hwindow : 0 < sWindow := by decide
  unfold part?
  simp only [sPoint_congr hwindow h]

/-- One answer to two requests: without extra scalars, and with two that are zero. -/
theorem tau_nonces_bound_zeros :
    let master := KeyNode.ofSeed (.zero 32)
    let coin : CoinId :=
      { index := 7, kind := 1, subIndex := 0x2000003, amount := 0xffffffffffffffff, asset := 5 }
    let t := (Point.base.compact, CompactPoint.infinity)
    let generator := some Point.base.compact
    ∃ part part' tau, part? master coin t none generator = some part ∧
      part? master coin t (some (.zero 32, .zero 32)) generator = some part' ∧
      (part.transcript generator).CollisionFree (part'.transcript generator) ∧
      part.material master coin t generator = part'.material master coin t generator ∧
      part.Linear master coin t generator tau ∧ part'.Linear master coin t generator tau ∧
      part = part' := by
  intro master coin t generator
  have hzero : Scalar.reduce (.zero 32) = 0 := by decide
  have hextra : extraAt none = extraAt (some (.zero 32, .zero 32)) := by
    funext i
    simp only [extraAt, hzero, ite_self]
  obtain ⟨part, hpart⟩ : ∃ part, part? master coin t none generator = some part :=
    part?_base_infinity
  have hpart' : part? master coin t (some (.zero 32, .zero 32)) generator = some part :=
    (part?_congr hextra).symm.trans hpart
  obtain ⟨tau, hlinear, hlinear', hsame, -, -⟩ := tau_nonces_bound hpart hpart' (.inl rfl) rfl
  exact ⟨part, part, tau, hpart, hpart', .inl rfl, rfl, hlinear, hlinear', hsame⟩

end Bound

end ColdWallet.RangeProof
