import ColdWallet.Curve.Point

namespace ColdWallet

/-- An abscissa and the parity of the ordinate as they travel; only parities 0 and 1 name a point.
All bytes zero stand for infinity, which is safe as no curve point has abscissa zero. -/
structure CompactPoint where
  x : Bytes 32
  y : UInt8
deriving DecidableEq

namespace CompactPoint

def infinity : CompactPoint := ⟨.zero 32, 0⟩

def isZero (c : CompactPoint) : Bool := c == infinity

def toList (c : CompactPoint) : List UInt8 := c.x.toList ++ [c.y]

/-- The point itself unless its abscissa is zero, which marks an absent generator. -/
def ifPresent (c : CompactPoint) : Option CompactPoint :=
  if allZero c.x.toList then none else some c

/-- The curve point named by a compact form other than infinity's. -/
def toFinitePoint? (c : CompactPoint) : Option Point :=
  if c.y > 1 then none else (Fp.ofBytes? c.x).bind fun x => Point.liftX? x (c.y != 0)

def toPoint? (c : CompactPoint) : Option Point :=
  if c.isZero then some .infinity else c.toFinitePoint?

end CompactPoint

def Point.compact : Point → CompactPoint
  | .infinity => .infinity
  | .affine x y => ⟨x.toBytes, if y.isOdd then 1 else 0⟩

end ColdWallet
