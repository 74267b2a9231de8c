import ColdWallet.Keys.Coin

namespace ColdWallet.RangeProof

/-- `A = alpha·G + Σ (bitᵢ ? Rᵢ : -R₆₄₊ᵢ)` over the bits of the amount. -/
def aPoint (alpha : Scalar) (amount : UInt64) : Point :=
  let (low, high) := Table.vector.splitAt Generator.rangeBits
  let term (acc : Jacobian) (r : (OddTable Jacobian × OddTable Jacobian) × Nat) : Jacobian :=
    acc + if amount.toNat.testBit r.2 then r.1.1.point else -r.1.2.point
  ((low.zip high).zipIdx.foldl term (multiMul [(Table.G, alpha)] [])).toPoint

def extraAt (extra : Option (Bytes 32 × Bytes 32)) (i : Nat) : Scalar :=
  match extra with
  | none => 0
  | some (low, high) =>
    if i = 0 then Scalar.reduce low else if i = Generator.rangeBits then Scalar.reduce high else 0

/-- Draws the entries from index `base` on and sums their terms, at most `window` in one sweep; the
secret terms join the first. There are no more than `limit` sweeps. -/
def sumEntries (window : Nat) (extra : Option (Bytes 32 × Bytes 32)) :
    (limit base : Nat) → List (OddTable Jacobian) → List (SecretTable Jacobian × Scalar) →
      NonceStream → Jacobian × NonceStream
  | 0, _, _, _, stream => (0, stream)
  | _, _, [], _, stream => (0, stream)
  | limit + 1, base, tables, secret, stream =>
    let now := tables.take window
    let (entries, stream) := stream.scalars now.length
    let entries := (entries.zipIdx base).map fun (s, i) => s + extraAt extra i
    let part := multiMul secret (now.zip entries)
    let (rest, stream) :=
      sumEntries window extra limit (base + window) (tables.drop window) [] stream
    (part + rest, stream)

/-- `S = rho·G + Σ sᵢ·Rᵢ`, drawing `rho` and then the entries from the stream. -/
def sPoint (window : Nat) (extra : Option (Bytes 32 × Bytes 32)) (stream : NonceStream) :
    Point × NonceStream :=
  let (rho, stream) := stream.nextScalar
  let (s, stream) :=
    sumEntries window extra Table.vector.length 0 Table.vector [(Table.G, rho)] stream
  (s.toPoint, stream)

def sWindow : Nat := 2 * Generator.rangeBits

end ColdWallet.RangeProof
