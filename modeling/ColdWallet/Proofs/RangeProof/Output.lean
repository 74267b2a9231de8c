import ColdWallet.Proofs.RangeProof.Recovery

namespace ColdWallet.RangeProof

/-- The challenges of the transcript that the device's part was made over. -/
def Part.challenges (part : Part) (generator : Option CompactPoint) : Challenges :=
  (drawChallenges (opening part.commitment generator) (Write.point part.a ++ Write.point part.s)
    (Write.point part.t.1 ++ Write.point part.t.2)).1

/-- The proof carries the points of the device's part, by their abscissas and parities. -/
structure Part.CarriedBy (part : Part) (p : RangeProof) : Prop where
  a : part.a = ⟨p.a, p.parity bitA⟩
  s : part.s = ⟨p.s, p.parity bitS⟩
  t₁ : part.t.1 = ⟨p.t₁, p.parity bitT₁⟩
  t₂ : part.t.2 = ⟨p.t₂, p.parity bitT₂⟩

/-- The blindings of `T₁` and `T₂`, drawn from the bytes behind them. -/
def tauDraws (material : List UInt8) : Scalar × Scalar :=
  let first := (NonceStream.ofMaterial (label "bulletproof-sk") material).nextScalar
  (first.1, first.2.nextScalar.1)

section respondTau
variable (key : Scalar × CompactPoint) (a s : CompactPoint) (t : CompactPoint × CompactPoint)
  (generator : Option CompactPoint) (half₁ half₂ : Point)

@[simp] theorem respondTau_commitment :
    (respondTau key a s t generator half₁ half₂).commitment = key.2 := rfl

@[simp] theorem respondTau_a : (respondTau key a s t generator half₁ half₂).a = a := rfl

@[simp] theorem respondTau_s : (respondTau key a s t generator half₁ half₂).s = s := rfl

/-- The challenges that are answered are those of the transcript, and the blindings are drawn from bytes
that hold `y` and `z`. They are named, as the kernel would run their stream to compare projections. -/
theorem respondTau_draws :
    let part := respondTau key a s t generator half₁ half₂
    let c := part.challenges generator
    ∃ tau₁ tau₂, tauDraws (tauMaterial key.1 c.y c.z t) = (tau₁, tau₂) ∧
      part.t = ((mulG tau₁ + half₁).compact, (mulG tau₂ + half₂).compact) ∧
      part.tauX = key.1 * c.z * c.z + tau₁ * c.x + tau₂ * c.x * c.x := by
  refine ⟨_, _, ?_, rfl, ?_⟩
  · simp only [Part.challenges, drawChallenges, respondTau, tauDraws, ← List.append_assoc]
  · simp only [Part.challenges, drawChallenges, respondTau, ← List.append_assoc]

theorem respondTau_tauX :
    let part := respondTau key a s t generator half₁ half₂
    let c := part.challenges generator
    ∃ tau₁ tau₂, part.t = ((mulG tau₁ + half₁).compact, (mulG tau₂ + half₂).compact) ∧
      part.tauX = key.1 * c.z * c.z + tau₁ * c.x + tau₂ * c.x * c.x := by
  obtain ⟨tau₁, tau₂, -, h⟩ := respondTau_draws key a s t generator half₁ half₂
  exact ⟨tau₁, tau₂, h⟩

end respondTau

/-- What the device's part is made of. -/
structure Part.Made (part : Part) (master : KeyNode) (coin : CoinId)
    (t : CompactPoint × CompactPoint) (extra : Option (Bytes 32 × Bytes 32))
    (generator : Option CompactPoint) : Prop where
  commitment : part.commitment = (coin.blindingCommitment master).2
  a : part.a = (aPoint (coinNonces master coin part.commitment).1 coin.amount).compact
  s : part.s = (sPoint sWindow extra (coinNonces master coin part.commitment).2).1.compact
  /-- The blindings of `T₁` and `T₂` are added to the host's halves, and answer the challenges. -/
  tau : ∃ half₁ half₂ tau₁ tau₂, t.1.toPoint? = some half₁ ∧ t.2.toPoint? = some half₂ ∧
    part.t = ((mulG tau₁ + half₁).compact, (mulG tau₂ + half₂).compact) ∧
    part.tauX = (coin.blindingCommitment master).1 * (part.challenges generator).z *
        (part.challenges generator).z + tau₁ * (part.challenges generator).x +
      tau₂ * (part.challenges generator).x * (part.challenges generator).x

section part
variable {master : KeyNode} {coin : CoinId} {t : CompactPoint × CompactPoint}
  {extra : Option (Bytes 32 × Bytes 32)} {generator : Option CompactPoint} {part : Part}

/-- A part is the response to its own commitments, once both halves are points. -/
theorem part?_eq_some_iff :
    part? master coin t extra generator = some part ↔
      ∃ half₁ half₂, t.1.toPoint? = some half₁ ∧ t.2.toPoint? = some half₂ ∧
        respondTau (coin.blindingCommitment master)
          (aPoint (coinNonces master coin (coin.blindingCommitment master).2).1
            coin.amount).compact
          (sPoint sWindow extra
            (coinNonces master coin (coin.blindingCommitment master).2).2).1.compact
          t generator half₁ half₂ = part := by
  unfold part?
  cases t.1.toPoint? with
  | none => simp
  | some half₁ =>
    cases t.2.toPoint? with
    | none => simp
    | some half₂ => simp

theorem part?_some (h : part? master coin t extra generator = some part) :
    part.Made master coin t extra generator := by
  obtain ⟨half₁, half₂, h₁, h₂, rfl⟩ := part?_eq_some_iff.mp h
  obtain ⟨tau₁, tau₂, hT, htauX⟩ := respondTau_tauX (coin.blindingCommitment master) _ _ t
    generator half₁ half₂
  exact {
    commitment := respondTau_commitment ..
    a := by rw [respondTau_a, respondTau_commitment]
    s := by rw [respondTau_s, respondTau_commitment]
    tau := ⟨half₁, half₂, tau₁, tau₂, h₁, h₂, hT, htauX⟩ }

theorem part?_isSome {half₁ half₂ : Point} (h₁ : t.1.toPoint? = some half₁)
    (h₂ : t.2.toPoint? = some half₂) : ∃ part, part? master coin t extra generator = some part :=
  ⟨_, part?_eq_some_iff.mpr ⟨half₁, half₂, h₁, h₂, rfl⟩⟩

/-- The base point and infinity are halves for any coin. -/
theorem part?_base_infinity :
    ∃ part, part? master coin (Point.base.compact, .infinity) extra generator = some part := by
  have hbase : Point.base.compact.toPoint? = some .base := Point.toPoint?_compact Point.base_onCurve
  have hinfinity : CompactPoint.infinity.toPoint? = some .infinity := by decide
  exact part?_isSome hbase hinfinity

end part

/-- A proof with the device's points, and with zeros where the host puts its own. -/
def Part.pack (part : Part) (mu : Bytes 32) : RangeProof where
  a := part.a.x
  s := part.s.x
  t₁ := part.t.1.x
  t₂ := part.t.2.x
  tauX := part.tauX.toBytes
  mu
  tDot := .zero 32
  rounds := .replicate foldRounds ⟨.zero 32, .zero 32⟩
  condensed := (.zero 32, .zero 32)
  parities := #v[0, part.a.y <<< 4 ||| part.s.y <<< 5 ||| part.t.1.y <<< 6 ||| part.t.2.y <<< 7]

/-- Bits put side by side are read back. -/
theorem packed_bits {a s t u : UInt8} (ha : a = 0 ∨ a = 1) (hs : s = 0 ∨ s = 1)
    (ht : t = 0 ∨ t = 1) (hu : u = 0 ∨ u = 1) :
    let byte := a <<< 4 ||| s <<< 5 ||| t <<< 6 ||| u <<< 7
    (byte >>> 4) &&& 1 = a ∧ (byte >>> 5) &&& 1 = s ∧ (byte >>> 6) &&& 1 = t ∧
      (byte >>> 7) &&& 1 = u := by
  rcases ha with rfl | rfl <;> rcases hs with rfl | rfl <;> rcases ht with rfl | rfl <;>
    rcases hu with rfl | rfl <;> decide

/-- The points of every part fit into a proof. -/
theorem Part.Made.carriedBy_pack {master : KeyNode} {coin : CoinId}
    {t : CompactPoint × CompactPoint} {extra : Option (Bytes 32 × Bytes 32)}
    {generator : Option CompactPoint} {part : Part}
    (h : part.Made master coin t extra generator) (mu : Bytes 32) :
    part.CarriedBy (part.pack mu) := by
  obtain ⟨_, _, _, _, -, -, hT, -⟩ := h.tau
  have ha : part.a.y = 0 ∨ part.a.y = 1 := h.a ▸ Point.compact_parity _
  have hs : part.s.y = 0 ∨ part.s.y = 1 := h.s ▸ Point.compact_parity _
  have ht₁ : part.t.1.y = 0 ∨ part.t.1.y = 1 := hT ▸ Point.compact_parity _
  have ht₂ : part.t.2.y = 0 ∨ part.t.2.y = 1 := hT ▸ Point.compact_parity _
  obtain ⟨hA, hS, hT₁, hT₂⟩ := packed_bits ha hs ht₁ ht₂
  exact {
    a := congrArg (CompactPoint.mk part.a.x) hA.symm
    s := congrArg (CompactPoint.mk part.s.x) hS.symm
    t₁ := congrArg (CompactPoint.mk part.t.1.x) hT₁.symm
    t₂ := congrArg (CompactPoint.mk part.t.2.x) hT₂.symm }

def coinUser (c : CoinId) : List UInt8 :=
  bigEndian 4 c.asset.toNat ++ bigEndian 8 c.index.toNat ++ bigEndian 4 c.kind.toNat ++
    bigEndian 4 c.subIndex.toNat

theorem length_coinUser (c : CoinId) : (coinUser c).length = 20 := by
  simp only [coinUser, List.length_append, length_bigEndian]

theorem reduce_coinParams (c : CoinId) :
    (Scalar.reduce (coinParams c)).val =
      ofBigEndian (coinUser c ++ bigEndian 8 c.amount.toNat) := by
  have hbytes : (coinParams c).toList =
      bigEndian 4 0 ++ (coinUser c ++ bigEndian 8 c.amount.toNat) := by
    unfold coinParams
    rw [Bytes.toList_ofList (by simp only [List.length_append, length_bigEndian])]
    simp only [coinUser, List.append_assoc]
  have hlt := ofBigEndian_lt (coinUser c ++ bigEndian 8 c.amount.toNat)
  rw [List.length_append, length_coinUser, length_bigEndian] at hlt
  have hzero : ofBigEndian (bigEndian 4 0) = 0 := by decide
  rw [Scalar.reduce, hbytes, ofBigEndian_append, hzero, Nat.zero_mul, Nat.zero_add]
  exact Nat.mod_eq_of_lt (hlt.trans (by decide))

theorem ofUser_coinUser (c : CoinId) :
    ({ asset := UInt32.ofNat (ofBigEndian ((coinUser c).take 4))
       index := UInt64.ofNat (ofBigEndian (((coinUser c).drop 4).take 8))
       kind := UInt32.ofNat (ofBigEndian (((coinUser c).drop 12).take 4))
       subIndex := UInt32.ofNat (ofBigEndian (((coinUser c).drop 16).take 4))
       amount := c.amount } : CoinId) = c := by
  have hasset : (coinUser c).take 4 = bigEndian 4 c.asset.toNat := by
    simp only [coinUser, List.append_assoc]
    rw [List.take_left' (length_bigEndian 4 _)]
  have hindex : ((coinUser c).drop 4).take 8 = bigEndian 8 c.index.toNat := by
    simp only [coinUser, List.append_assoc]
    rw [List.drop_left' (length_bigEndian 4 _), List.take_left' (length_bigEndian 8 _)]
  have hkind : ((coinUser c).drop 12).take 4 = bigEndian 4 c.kind.toNat := by
    rw [coinUser, List.append_assoc, List.drop_left' (by simp [length_bigEndian]),
      List.take_left' (length_bigEndian 4 _)]
  have hsubIndex : ((coinUser c).drop 16).take 4 = bigEndian 4 c.subIndex.toNat := by
    rw [coinUser, List.drop_left' (by simp [length_bigEndian]),
      List.take_of_length_le (length_bigEndian 4 _).le]
  rw [hasset, hindex, hkind, hsubIndex, uint32_bigEndian, uint64_bigEndian, uint32_bigEndian,
    uint32_bigEndian]

/-- An abscissa with its parity bit is exposed as the compact point. -/
theorem pointParts_parity (p : RangeProof) (x : Bytes 32) (place : ℕ) :
    Write.pointParts x (p.parity place) = Write.point ⟨x, p.parity place⟩ := by
  unfold Write.pointParts Write.point CompactPoint.toList parity
  rw [UInt8.and_assoc, UInt8.and_self]

/-- The challenges read from the proof are those that were answered. -/
theorem Part.CarriedBy.exposePoints {part : Part} {p : RangeProof} (h : part.CarriedBy p)
    (generator : Option CompactPoint) :
    (p.exposePoints (opening part.commitment generator)).1 = part.challenges generator := by
  unfold RangeProof.exposePoints challenges
  rw [h.a, h.s, h.t₁, h.t₂]
  simp only [pointParts_parity]

/-- A reading with its draws named: the kernel would run the streams to compare them. -/
theorem reading_of_draws {p : RangeProof} {t transcript : Transcript} {seed : Bytes 32}
    {alpha rho : Scalar} {rest stream : NonceStream} {challenges : Challenges}
    (hfirst : (NonceStream.ofMaterial vectorSalt seed.toList).nextScalar = (alpha, rest))
    (hsecond : rest.nextScalar = (rho, stream))
    (hexposed : exposePoints p t = (challenges, transcript)) :
    reading p t seed = ⟨alpha, rho, stream, challenges, transcript⟩ := by
  unfold reading
  simp only [hfirst, hsecond, hexposed]

theorem coinNonces_of_draw {master : KeyNode} {commitment : CompactPoint} {alpha : Scalar}
    {rest : NonceStream} (hfirst : (NonceStream.ofMaterial vectorSalt
      (coinSeed master commitment).toList).nextScalar = (alpha, rest)) (coin : CoinId) :
    coinNonces master coin commitment = (alpha + Scalar.reduce (coinParams coin), rest) := by
  unfold coinNonces
  simp only [hfirst]

/-- What is read is what the device drew: its nonces, with the identifier on top of the first, and
the challenges of its transcript. -/
theorem Part.CarriedBy.reading {part : Part} {p : RangeProof} (h : part.CarriedBy p)
    (master : KeyNode) (coin : CoinId) (generator : Option CompactPoint) :
    let r := p.reading (opening part.commitment generator) (coinSeed master part.commitment)
    (coinNonces master coin part.commitment).1 =
        r.alphaBase + Scalar.reduce (coinParams coin) ∧
      (coinNonces master coin part.commitment).2.nextScalar.1 = r.rho ∧
      part.challenges generator = r.challenges := by
  obtain ⟨⟨alpha, rest⟩, hfirst⟩ : ∃ draw, (NonceStream.ofMaterial vectorSalt
      (coinSeed master part.commitment).toList).nextScalar = draw := ⟨_, rfl⟩
  obtain ⟨⟨rho, stream⟩, hsecond⟩ : ∃ draw, rest.nextScalar = draw := ⟨_, rfl⟩
  obtain ⟨⟨challenges, transcript⟩, hexposed⟩ : ∃ exposed,
      p.exposePoints (opening part.commitment generator) = exposed := ⟨_, rfl⟩
  rw [reading_of_draws hfirst hsecond hexposed, coinNonces_of_draw hfirst,
    ← h.exposePoints, hexposed]
  simp only [hsecond, and_self]

/-- Own coins are always recovered: a proof that carries the device's points and the response to
their challenges gives back the identifier, whatever else it holds. -/
theorem own_coin_recovered {master : KeyNode} {coin : CoinId} {t : CompactPoint × CompactPoint}
    {extra : Option (Bytes 32 × Bytes 32)} {generator : Option CompactPoint} {part : Part}
    (hpart : part? master coin t extra generator = some part) {p : RangeProof}
    (hcarried : part.CarriedBy p)
    (hmu : p.mu = ((coinNonces master coin part.commitment).1 +
      (coinNonces master coin part.commitment).2.nextScalar.1 *
        (part.challenges generator).x).toBytes) :
    recoverCoin? master p part.commitment generator = some coin := by
  have ha := (part?_some hpart).a
  obtain ⟨halpha, hrho, hchallenges⟩ := hcarried.reading master coin generator
  obtain ⟨hzeros, huser, hamount⟩ := (read_iff ((length_coinUser coin).trans_le (by decide))
    coin.amount).mpr (reduce_coinParams coin)
  rw [hcarried.a, halpha, ← hamount] at ha
  rw [halpha, hrho, hchallenges] at hmu
  obtain ⟨hparams, hopens⟩ := Reading.opens_of_response hmu ha.symm hzeros
  rw [length_coinUser] at hopens huser
  obtain ⟨found, hresult, hread, hfound, -⟩ := recover_opened p _ _ (by decide) none false hopens
  rw [hparams] at hread hfound
  unfold recoverCoin?
  simp only [hresult, hread, hfound, huser, hamount, Option.map_some, ofUser_coinUser]

/-- The largest amount of an asset, with one point and infinity for the host's halves. -/
theorem own_coin_recovered_largest_amount :
    let master := KeyNode.ofSeed (.zero 32)
    let coin : CoinId :=
      { index := 7, kind := 1, subIndex := 0x2000003, amount := 0xffffffffffffffff, asset := 5 }
    ∃ part p, part? master coin (Point.base.compact, .infinity) none none = some part ∧
      part.CarriedBy p ∧
      p.mu = ((coinNonces master coin part.commitment).1 +
        (coinNonces master coin part.commitment).2.nextScalar.1 *
          (part.challenges none).x).toBytes ∧
      recoverCoin? master p part.commitment none = some coin := by
  intro master coin
  obtain ⟨part, hpart⟩ : ∃ part,
      part? master coin (Point.base.compact, .infinity) none none = some part :=
    part?_base_infinity
  have hcarried := (part?_some hpart).carriedBy_pack ((coinNonces master coin part.commitment).1 +
    (coinNonces master coin part.commitment).2.nextScalar.1 * (part.challenges none).x).toBytes
  exact ⟨part, _, hpart, hcarried, rfl, own_coin_recovered hpart hcarried rfl⟩

end ColdWallet.RangeProof
