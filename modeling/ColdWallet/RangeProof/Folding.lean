import ColdWallet.Wire.RangeProof
import ColdWallet.Curve.Generators
import ColdWallet.Hash.NonceStream

namespace ColdWallet.RangeProof

structure Challenges where
  y : Scalar
  z : Scalar
  x : Scalar
deriving DecidableEq

/-- The challenges of a proof, with the transcript after them: `y` and `z` are drawn once the vector
commitments are exposed, `x` once `T₁` and `T₂` are. -/
def drawChallenges (t : Transcript) (commitments tau : List UInt8) : Challenges × Transcript :=
  let drawnY := Transcript.challenge (t ++ commitments)
  let drawnZ := drawnY.2.challenge
  let drawnX := Transcript.challenge (drawnZ.2 ++ tau)
  (⟨drawnY.1, drawnZ.1, drawnX.1⟩, drawnX.2)

def Challenges.lessBit (c : Challenges) (bit : Bool) : Scalar := if bit then c.z - 1 else c.z

/-- The left vector from entry `i` on, `s·x - z + bitᵢ` for each draw `s`. -/
def leftEntries (c : Challenges) (amount : UInt64) : (i : Nat) → List Scalar → List Scalar
  | _, [] => []
  | i, s :: draws =>
    (s * c.x - c.lessBit (amount.toNat.testBit i)) :: leftEntries c amount (i + 1) draws

/-- The right vector from entry `i` on, `yⁱ·(s·x + z - 1 + bitᵢ) + z²·2ⁱ` for each draw `s`; the
power of `y` and the doubled square of `z` run along. -/
def rightEntries (c : Challenges) (amount : UInt64) :
    (i : Nat) → (yPower doubled : Scalar) → List Scalar → List Scalar
  | _, _, _, [] => []
  | i, yPower, doubled, s :: draws =>
    (s * c.x * yPower + c.lessBit (!amount.toNat.testBit i) * yPower + doubled) ::
      rightEntries c amount (i + 1) (yPower * c.y) (doubled * 2) draws

def vectors (stream : NonceStream) (amount : UInt64) (c : Challenges) :
    List Scalar × List Scalar :=
  let left := stream.scalars Generator.rangeBits
  let right := left.2.scalars Generator.rangeBits
  (leftEntries c amount 0 left.1, rightEntries c amount 0 1 (c.z * c.z) right.1)

/-- One folding round: the lower half times `e` plus the upper half times `f`. -/
def foldHalves (l : List Scalar) (e f : Scalar) : List Scalar :=
  let (low, high) := l.splitAt (l.length / 2)
  List.zipWith (fun a b => a * e + b * f) low high

def foldVector (l : List Scalar) (rounds : List (Scalar × Scalar)) : Scalar :=
  (rounds.foldl (fun l (e, f) => foldHalves l e f) l).headD 0

/-- The two vectors folded through the round challenges `e` and their inverses: the left vector's
lower half takes `e`, the right vector's the inverse. -/
def condense (stream : NonceStream) (amount : UInt64) (c : Challenges)
    (rounds : List (Scalar × Scalar)) : Scalar × Scalar :=
  let v := vectors stream amount c
  (foldVector v.1 rounds, foldVector v.2 (rounds.map Prod.swap))

def exposeRounds (p : RangeProof) :
    (c : Nat) → List FoldRound → Transcript → Option (List (Scalar × Scalar)) × Transcript
  | _, [], t => (some [], t)
  | c, r :: rs, t =>
    let drawn := t.challenge
    match drawn.1.inv? with
    | none => (none, drawn.2)
    | some f =>
      let later := exposeRounds p (c + 1) rs (drawn.2 ++
        Write.pointParts r.left (p.parity (2 * c)) ++ Write.pointParts r.right (p.parity (2 * c + 1)))
      (later.1.map ((drawn.1, f) :: ·), later.2)

/-- The round challenges of a proof with their inverses. The challenge after the dot product is
drawn and not used. -/
def roundChallenges (p : RangeProof) (t : Transcript) :
    Option (List (Scalar × Scalar)) × Transcript :=
  exposeRounds p 0 p.rounds.toList (Transcript.challenge (t ++ p.tDot.toList)).2

end ColdWallet.RangeProof
