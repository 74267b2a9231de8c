import ColdWallet.Curve.Residue

namespace ColdWallet

inductive Point where
  | infinity
  | affine (x y : Fp)
deriving DecidableEq

namespace Point

/-- A point of the curve: infinity, or coordinates that satisfy its equation. -/
def OnCurve : Point → Prop
  | infinity => True
  | affine x y => y * y = x * x * x + 7

instance : Zero Point := ⟨infinity⟩

protected def neg : Point → Point
  | infinity => infinity
  | affine x y => affine x (-y)

instance : Neg Point := ⟨Point.neg⟩

/-- The slope of the chord through two points, or of the tangent where their abscissas agree. -/
def slope (x₁ y₁ x₂ y₂ : Fp) : Fp :=
  if x₁ = x₂ then (3 * x₁ * x₁) * (2 * y₁).inv else (y₁ - y₂) * (x₁ - x₂).inv

protected def add : Point → Point → Point
  | infinity, q => q
  | p, infinity => p
  | affine x₁ y₁, affine x₂ y₂ =>
    if x₁ = x₂ ∧ y₁ = -y₂ then infinity
    else
      let s := slope x₁ y₁ x₂ y₂
      let x := s * s - x₁ - x₂
      affine x (s * (x₁ - x) - y₁)

instance : Add Point := ⟨Point.add⟩

/-- The point with this abscissa whose ordinate has the given parity. -/
def liftX? (x : Fp) (odd : Bool) : Option Point :=
  (Fp.sqrt? (x * x * x + 7)).map fun y => affine x (if y.isOdd == odd then y else -y)

def base : Point :=
  affine
    (Fin.ofNat fieldPrime 0x79be667ef9dcbbac55a06295ce870b07029bfcdb2dce28d959f2815b16f81798)
    (Fin.ofNat fieldPrime 0x483ada7726a3c4655da4fbfc0e1108a8fd17b448a68554199c47d08ffb10d4b8)

end Point

end ColdWallet
