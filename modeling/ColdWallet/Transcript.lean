import ColdWallet.Curve.CompactPoint
import ColdWallet.Hash.Sha256

namespace ColdWallet

namespace Write

/-- A number in groups of seven bits, least significant first, all but the last group marked by the
top bit; so many groups may precede the last. -/
def groups : Nat → Nat → List UInt8
  | 0, v => [UInt8.ofNat v]
  | k + 1, v =>
    if v < 128 then [UInt8.ofNat v] else UInt8.ofNat (v % 128 + 128) :: groups k (v / 128)

def num (v : UInt64) : List UInt8 := groups 9 v.toNat

def num32 (v : UInt32) : List UInt8 := num v.toUInt64

/-- A compact point as it stands: abscissa, then the raw parity byte. -/
def point (c : CompactPoint) : List UInt8 := c.toList

def pointParts (x : Bytes 32) (y : UInt8) : List UInt8 := x.toList ++ [y &&& 1]

def pointOption : Option CompactPoint → List UInt8
  | some c => 1 :: point c
  | none => [0]

def scalar (s : Scalar) : List UInt8 := s.toBytes.toList

def curvePoint (p : Point) : List UInt8 := point p.compact

end Write

/-- After this many blocks without one that is accepted, drawing gives up and takes a fixed value.
Each block is refused with a chance of one half at most. -/
def drawLimit : Nat := 0x100000000

/-- The first block of a stream that encodes a nonzero scalar, with the stream after it. -/
@[irreducible]
def drawScalar {σ : Type} (next : σ → Bytes 32 × σ) : (limit : Nat) → σ → Scalar × σ
  | 0, s => (1, s)
  | limit + 1, s =>
    let (block, s) := next s
    match Scalar.nonzeroOfBytes? block with
    | some k => (k, s)
    | none => drawScalar next limit s

/-- Everything exposed so far. A challenge is the hash of the transcript and joins it at once. -/
abbrev Transcript := List UInt8

namespace Transcript

def challengeHash (t : Transcript) : Bytes 32 × Transcript :=
  let h := sha256 t
  (h, t ++ h.toList)

def challenge (t : Transcript) : Scalar × Transcript := drawScalar challengeHash drawLimit t

/-- The first challenge hashes that are abscissas of the curve, as points of even ordinate. -/
@[irreducible]
def drawPoint : (limit : Nat) → Transcript → (CompactPoint × Point) × Transcript
  | 0, t => ((Point.base.compact, .base), t)
  | limit + 1, t =>
    let (h, t) := challengeHash t
    let c : CompactPoint := ⟨h, 0⟩
    match c.toFinitePoint? with
    | some p => ((c, p), t)
    | none => drawPoint limit t

def challengePoint (t : Transcript) : (CompactPoint × Point) × Transcript := drawPoint drawLimit t

end Transcript

end ColdWallet
