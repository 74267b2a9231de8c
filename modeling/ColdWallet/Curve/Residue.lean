import ColdWallet.Bytes

namespace ColdWallet

/-- The field prime `2^256 - 2^32 - 977`. -/
def fieldPrime : Nat := 0xfffffffffffffffffffffffffffffffffffffffffffffffffffffffefffffc2f

/-- The prime order of the group of curve points. -/
def groupOrder : Nat := 0xfffffffffffffffffffffffffffffffebaaedce6af48a03bbfd25e8cd0364141

/-- The zero of `Nat` is named, so that the instance is the one that literals look for. -/
instance : @NeZero Nat Zero.ofOfNat0 fieldPrime := ⟨by decide⟩

instance : @NeZero Nat Zero.ofOfNat0 groupOrder := ⟨by decide⟩

abbrev Fp := Fin fieldPrime

abbrev Scalar := Fin groupOrder

/-- The power given by the low `bits` bits of the exponent, where `one` is the empty product. -/
def powLow {α : Type} [Mul α] (one a : α) (e : Nat) : (bits : Nat) → α
  | 0 => one
  | bits + 1 =>
    let r := powLow one (a * a) (e / 2) bits
    if e % 2 = 1 then a * r else r

namespace Fp

def pow (a : Fp) (e : Nat) : Fp := powLow 1 a e (e.log2 + 1)

/-- The inverse, by the power two below the prime; zero for zero. -/
def inv (a : Fp) : Fp := a.pow (fieldPrime - 2)

/-- A square root, where there is one: the prime is 3 modulo 4. -/
def sqrt? (a : Fp) : Option Fp :=
  let r := a.pow ((fieldPrime + 1) / 4)
  if r * r = a then some r else none

def isOdd (a : Fp) : Bool := a.val % 2 == 1

/-- The coordinate with these bytes, most significant first, if they are below the prime. -/
def ofBytes? (b : Bytes 32) : Option Fp :=
  let v := ofBigEndian b.toList
  if h : v < fieldPrime then some ⟨v, h⟩ else none

def toBytes (a : Fp) : Bytes 32 := .ofList 32 (bigEndian 32 a.val)

end Fp

namespace Scalar

def ofNat (v : Nat) : Scalar := Fin.ofNat groupOrder v

def ofBytes? (b : Bytes 32) : Option Scalar :=
  let v := ofBigEndian b.toList
  if h : v < groupOrder then some ⟨v, h⟩ else none

def nonzeroOfBytes? (b : Bytes 32) : Option Scalar := (ofBytes? b).filter (· ≠ 0)

def reduce (b : Bytes 32) : Scalar := ofNat (ofBigEndian b.toList)

/-- The reduced scalar, and whether the bytes were at or above the group order. -/
def reduceFlag (b : Bytes 32) : Scalar × Bool :=
  match ofBytes? b with
  | some s => (s, false)
  | none => (reduce b, true)

def toBytes (s : Scalar) : Bytes 32 := .ofList 32 (bigEndian 32 s.val)

def pow (s : Scalar) (e : Nat) : Scalar := powLow 1 s e (e.log2 + 1)

def inv? (s : Scalar) : Option Scalar := if s = 0 then none else some (s.pow (groupOrder - 2))

end Scalar

end ColdWallet
