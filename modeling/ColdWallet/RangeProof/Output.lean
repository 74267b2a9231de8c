import ColdWallet.RangeProof.Commitments

namespace ColdWallet.RangeProof

def coinSeed (master : KeyNode) (commitment : CompactPoint) : Bytes 32 :=
  sha256 (Write.scalar (master.publicHalf (sha256 (Write.point commitment))))

/-- The transcript that binds a proof to its commitment and asset generator. The leading number is
the incubation period, always zero. -/
def opening (commitment : CompactPoint) (generator : Option CompactPoint) : Transcript :=
  Write.num 0 ++ Write.point commitment ++ Write.pointOption generator

/-- The coin's identifier as the bytes that are added to the blinding of `A`, from which the owner
reads it back. -/
def coinParams (c : CoinId) : Bytes 32 :=
  .ofList 32 (bigEndian 4 0 ++ bigEndian 4 c.asset.toNat ++ bigEndian 8 c.index.toNat ++
    bigEndian 4 c.kind.toNat ++ bigEndian 4 c.subIndex.toNat ++ bigEndian 8 c.amount.toNat)

def vectorSalt : List UInt8 := label "bulletproof"

structure Part where
  t : CompactPoint × CompactPoint
  tauX : Scalar
  commitment : CompactPoint
  a : CompactPoint
  s : CompactPoint
deriving DecidableEq

def tauMaterial (sk y z : Scalar) (t : CompactPoint × CompactPoint) : List UInt8 :=
  sk.toBytes.toList ++ t.1.toList ++ y.toBytes.toList ++ t.2.toList ++ z.toBytes.toList

/-- The blinding of `A`, which carries the coin's identifier, and the stream that `S` is drawn from
next. -/
def coinNonces (master : KeyNode) (coin : CoinId) (commitment : CompactPoint) :
    Scalar × NonceStream :=
  let first := (NonceStream.ofMaterial vectorSalt (coinSeed master commitment).toList).nextScalar
  (first.1 + Scalar.reduce (coinParams coin), first.2)

/-- What follows once `A` and `S` are known: the device adds its blindings to the host's halves of
`T₁` and `T₂` and answers the challenges. -/
def respondTau (key : Scalar × CompactPoint) (a s : CompactPoint) (t : CompactPoint × CompactPoint)
    (generator : Option CompactPoint) (half₁ half₂ : Point) : Part :=
  let drawnY := Transcript.challenge (opening key.2 generator ++ Write.point a ++ Write.point s)
  let drawnZ := drawnY.2.challenge
  let material := tauMaterial key.1 drawnY.1 drawnZ.1 t
  let drawnTau₁ := (NonceStream.ofMaterial (label "bulletproof-sk") material).nextScalar
  let tau₁ := drawnTau₁.1
  let tau₂ := drawnTau₁.2.nextScalar.1
  let t₁ := (mulG tau₁ + half₁).compact
  let t₂ := (mulG tau₂ + half₂).compact
  let x := (Transcript.challenge (drawnZ.2 ++ Write.point t₁ ++ Write.point t₂)).1
  let tauX := key.1 * drawnZ.1 * drawnZ.1 + tau₁ * x + tau₂ * x * x
  { t := (t₁, t₂), tauX, commitment := key.2, a, s }

/-- The device's part for a coin, from the host's halves of `T₁` and `T₂`; none if these are no
points. -/
def part? (master : KeyNode) (coin : CoinId) (t : CompactPoint × CompactPoint)
    (extra : Option (Bytes 32 × Bytes 32)) (generator : Option CompactPoint) : Option Part :=
  let key := coin.blindingCommitment master
  let nonces := coinNonces master coin key.2
  let s := (sPoint sWindow extra nonces.2).1.compact
  let a := (aPoint nonces.1 coin.amount).compact
  match t.1.toPoint?, t.2.toPoint? with
  | some half₁, some half₂ => some (respondTau key a s t generator half₁ half₂)
  | _, _ => none

end ColdWallet.RangeProof
