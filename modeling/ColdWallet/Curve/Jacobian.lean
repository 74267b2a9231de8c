import ColdWallet.Curve.Point

namespace ColdWallet

/-- What a sum of multiples needs of its points. -/
class PointArith (P : Type) extends Zero P, Add P, Neg P where
  double : P → P

def mulLow {P : Type} [PointArith P] (p : P) (k : Nat) : (bits : Nat) → P
  | 0 => 0
  | bits + 1 =>
    let r := PointArith.double (mulLow p (k / 2) bits)
    if k % 2 = 1 then r + p else r

/-- `k · p` by doubling and adding, from the highest bit of `k` down. -/
def mulNat {P : Type} [PointArith P] (k : Nat) (p : P) : P := mulLow p k (k.log2 + 1)

instance : PointArith Point where
  double p := p + p

/-- The point `(x / z², y / z³)`, or infinity where `z` is zero. -/
structure Jacobian where
  x : Fp
  y : Fp
  z : Fp

namespace Jacobian

def ofPoint : Point → Jacobian
  | .infinity => ⟨1, 1, 0⟩
  | .affine x y => ⟨x, y, 1⟩

def toPoint (p : Jacobian) : Point :=
  if p.z = 0 then .infinity
  else
    let i := p.z.inv
    let ii := i * i
    .affine (p.x * ii) (p.y * (ii * i))

protected def neg (p : Jacobian) : Jacobian := ⟨p.x, -p.y, p.z⟩

/-- The tangent rule; a point with ordinate zero doubles to infinity. -/
protected def double (p : Jacobian) : Jacobian :=
  let yy := p.y * p.y
  let xyy := p.x * yy
  let s := xyy + xyy + xyy + xyy
  let xx := p.x * p.x
  let m := xx + xx + xx
  let x := m * m - (s + s)
  let yz := p.y * p.z
  let y₄ := yy * yy
  let y₄ := y₄ + y₄ + (y₄ + y₄)
  ⟨x, m * (s - x) - (y₄ + y₄), yz + yz⟩

protected def add (p q : Jacobian) : Jacobian :=
  if p.z = 0 then q
  else if q.z = 0 then p
  else
    let pzz := p.z * p.z
    let qzz := q.z * q.z
    let u₁ := p.x * qzz
    let u₂ := q.x * pzz
    let s₁ := p.y * (qzz * q.z)
    let s₂ := q.y * (pzz * p.z)
    let h := u₂ - u₁
    let r := s₂ - s₁
    if h = 0 then
      if r = 0 then p.double else ⟨1, 1, 0⟩
    else
      let hh := h * h
      let hhh := hh * h
      let v := u₁ * hh
      let x := r * r - hhh - (v + v)
      ⟨x, r * (v - x) - s₁ * hhh, p.z * q.z * h⟩

instance : PointArith Jacobian where
  zero := ⟨1, 1, 0⟩
  add := Jacobian.add
  neg := Jacobian.neg
  double := Jacobian.double

end Jacobian

def Point.mul (k : Nat) (p : Point) : Point := (mulNat k (Jacobian.ofPoint p)).toPoint

end ColdWallet
