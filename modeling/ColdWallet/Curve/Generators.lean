import ColdWallet.Curve.MultiMul
import ColdWallet.Transcript

namespace ColdWallet

namespace Generator

/-- The point hashed from a label and, for a family, the index in it, so that no relation between
the generators is known. -/
def ofLabel (name : String) (index : Option UInt64) : Point :=
  (Transcript.challengePoint (label name ++ (index.map Write.num).getD [])).1.2

/-- The offset point of the tables for secret scalars. -/
def offset : Point := ofLabel "beam.gen.nums" none

/-- The generator of amounts in the native asset. -/
def H : Point := ofLabel "beam.gen.H" none

/-- The second blinding generator. -/
def J : Point := ofLabel "beam.gen.J" none

def rangeBits : Nat := 64

/-- The generators of the two bit vectors of a range proof, one vector after the other. -/
def vector : List Point :=
  (List.range (2 * rangeBits)).map fun i => ofLabel "beam.gen.rp" (some (UInt64.ofNat i))

end Generator

def oddsH : Nat := 16

/-- Odd multiples kept for a generator or public key met in a request. -/
def oddsCustom : Nat := 8

def oddsVector : Nat := 2

namespace Table

def secret (p : Point) : SecretTable Jacobian :=
  .ofPoint (.ofPoint p) (.ofPoint Generator.offset)

def odd (size : Nat) (p : Point) : OddTable Jacobian := .ofPoint size (.ofPoint p)

def G : SecretTable Jacobian := secret .base

def J : SecretTable Jacobian := secret Generator.J

def H : OddTable Jacobian := odd oddsH Generator.H

def vector : List (OddTable Jacobian) := Generator.vector.map (odd oddsVector)

end Table

def mulG (k : Scalar) : Point := (multiMul [(Table.G, k)] []).toPoint

def mulJ (k : Scalar) : Point := (multiMul [(Table.J, k)] []).toPoint

def mulGJ (kg kj : Scalar) : Point := (multiMul [(Table.G, kg), (Table.J, kj)] []).toPoint

/-- `k·G + e·P` for a public multiplier `e`. -/
def mulGPlus (k e : Scalar) (p : Point) : Point :=
  (multiMul [(Table.G, k)] [(Table.odd oddsCustom p, e)]).toPoint

/-- The generator of amounts in an asset, where `none` is the native one. -/
abbrev AssetGenerator := Option Point

/-- The commitment `sk·G + v·H`, over the asset's generator in place of `H` if one is given. -/
def commitScalar (sk v : Scalar) : AssetGenerator → Point
  | some a => mulGPlus sk v a
  | none => (multiMul [(Table.G, sk)] [(Table.H, v)]).toPoint

def commit (sk : Scalar) (amount : UInt64) (asset : AssetGenerator) : Point :=
  commitScalar sk (Scalar.ofNat amount.toNat) asset

/-- The key with the sign that gives its public point an even ordinate, with that point's
abscissa. -/
def evenKey (sk : Scalar) : Scalar × Bytes 32 :=
  let c := (mulG sk).compact
  (if c.y = 1 then -sk else sk, c.x)

end ColdWallet
