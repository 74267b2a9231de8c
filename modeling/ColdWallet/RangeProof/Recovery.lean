import ColdWallet.RangeProof.Output
import ColdWallet.RangeProof.Folding

namespace ColdWallet.RangeProof

def userWidth : Nat := 24

structure Recovered where
  amount : UInt64
  blinding : Option Scalar
  extra : Option (Scalar × Scalar)
deriving DecidableEq

/-- An attempt to recover: its result, the user bytes, which may be known even when it fails, and
the transcript, which holds what was exposed until then. -/
structure Recovery where
  result : Option Recovered
  user : List UInt8
  transcript : Transcript

def exposePoints (p : RangeProof) (t : Transcript) : Challenges × Transcript :=
  drawChallenges t
    (Write.pointParts p.a (p.parity bitA) ++ Write.pointParts p.s (p.parity bitS))
    (Write.pointParts p.t₁ (p.parity bitT₁) ++ Write.pointParts p.t₂ (p.parity bitT₂))

structure Reading where
  alphaBase : Scalar
  rho : Scalar
  stream : NonceStream
  challenges : Challenges
  transcript : Transcript

def reading (p : RangeProof) (t : Transcript) (seed : Bytes 32) : Reading :=
  let first := (NonceStream.ofMaterial vectorSalt seed.toList).nextScalar
  let second := first.2.nextScalar
  let exposed := exposePoints p t
  { alphaBase := first.1
    rho := second.1
    stream := second.2
    challenges := exposed.1
    transcript := exposed.2 }

/-- The parameters under a response, which is `alphaBase + params + rho·x`. -/
def Reading.params (r : Reading) (mu : Scalar) : Scalar :=
  mu - (r.rho * r.challenges.x + r.alphaBase)

def tauNonces (keySeed : Bytes 32) : Scalar × Scalar :=
  let first := (NonceStream.ofMaterial (label "bp-key") keySeed.toList).nextScalar
  (first.1, first.2.nextScalar.1)

/-- The blinding factor behind `tauX`, which is `tau₁·x + tau₂·x² + sk·z²`. -/
def recoverBlinding? (p : RangeProof) (c : Challenges) (keySeed : Bytes 32) : Option Scalar :=
  let tau := tauNonces keySeed
  (c.z * c.z).inv?.map fun i => (Scalar.reduce p.tauX - (tau.2 * c.x + tau.1) * c.x) * i

/-- The weight of an extra scalar in its folded vector, `x` times the challenges of all rounds. -/
def extraWeight (x : Scalar) (es : List Scalar) : Scalar := es.foldl (· * ·) x

/-- An extra scalar: what a folded vector holds beyond the one rebuilt without it, over its
weight. -/
def recoverExtra? (folded rebuilt x : Scalar) (es : List Scalar) : Option Scalar :=
  (extraWeight x es).inv?.map fun i => (folded - rebuilt) * i

def recoverExtras (p : RangeProof) (stream : NonceStream) (amount : UInt64) (c : Challenges)
    (t : Transcript) : Option (Scalar × Scalar) × Transcript :=
  let exposed := roundChallenges p t
  let extras := do
    let rounds ← exposed.1
    let folded := condense stream amount c rounds
    let first ← recoverExtra? (Scalar.reduce p.condensed.1) folded.1 c.x (rounds.map Prod.fst)
    let second ← recoverExtra? (Scalar.reduce p.condensed.2) folded.2 c.x (rounds.map Prod.snd)
    pure (first, second)
  (extras, exposed.2)

/-- Recovers what is asked for beside the parameters, once `A` is seen to open to these. -/
def Reading.complete (r : Reading) (p : RangeProof) (user : List UInt8) (amount : UInt64)
    (keySeed : Option (Bytes 32)) (wantExtra : Bool) : Recovery :=
  match keySeed.map (recoverBlinding? p r.challenges) with
  | some none => ⟨none, user, r.transcript⟩
  | blinding? =>
    let blinding := blinding?.bind fun b => b
    if wantExtra then
      let extra := recoverExtras p r.stream amount r.challenges r.transcript
      ⟨extra.1.map fun e => ⟨amount, blinding, some e⟩, user, extra.2⟩
    else ⟨some ⟨amount, blinding, none⟩, user, r.transcript⟩

/-- Recovers a proof made from `seed` over a transcript. The parameters hold zeros, then
`userLength` user bytes, then the amount; that `A` opens to them rules out any other seed. -/
def recover (p : RangeProof) (t : Transcript) (seed : Bytes 32) (userLength : Nat)
    (keySeed : Option (Bytes 32)) (wantExtra : Bool) : Recovery :=
  let blank := List.replicate userLength 0
  if userWidth < userLength then ⟨none, blank, t⟩
  else
    let r := reading p t seed
    match Scalar.ofBytes? p.mu with
    | none => ⟨none, blank, r.transcript⟩
    | some mu =>
      let params := r.params mu
      let bytes := params.toBytes.toList
      let padding := userWidth - userLength
      if !allZero (bytes.take padding) then ⟨none, blank, r.transcript⟩
      else
        let user := (bytes.take userWidth).drop padding
        let amount := UInt64.ofNat (ofBigEndian (bytes.drop userWidth))
        if (aPoint (r.alphaBase + params) amount).compact ≠ ⟨p.a, p.parity bitA⟩ then
          ⟨none, user, r.transcript⟩
        else r.complete p user amount keySeed wantExtra

def recoverCoin? (master : KeyNode) (p : RangeProof) (commitment : CompactPoint)
    (generator : Option CompactPoint) : Option CoinId :=
  let r := recover p (opening commitment generator) (coinSeed master commitment) 20 none false
  r.result.map fun found =>
    { asset := UInt32.ofNat (ofBigEndian (r.user.take 4))
      index := UInt64.ofNat (ofBigEndian ((r.user.drop 4).take 8))
      kind := UInt32.ofNat (ofBigEndian ((r.user.drop 12).take 4))
      subIndex := UInt32.ofNat (ofBigEndian ((r.user.drop 16).take 4))
      amount := found.amount }

end ColdWallet.RangeProof
