import ColdWallet.Bytes

namespace ColdWallet

inductive WireError where
  | invalidLength
  | invalidEncoding
deriving DecidableEq, Repr

def WireError.message : WireError → String
  | .invalidLength => "Invalid buffer length"
  | .invalidEncoding => "Invalid APDU encoding"

/-- A layout in a fixed number of bytes. `read` is meant for exactly `width` bytes. -/
structure Layout (α : Type) where
  width : Nat
  write : α → List UInt8
  read : List UInt8 → α

namespace Layout

variable {α β : Type}

def u8 : Layout UInt8 where
  width := 1
  write v := [v]
  read l := l.headD 0

def u32 : Layout UInt32 where
  width := 4
  write v := littleEndian 4 v.toNat
  read l := UInt32.ofNat (ofLittleEndian l)

def u64 : Layout UInt64 where
  width := 8
  write v := littleEndian 8 v.toNat
  read l := UInt64.ofNat (ofLittleEndian l)

def bytes (n : Nat) : Layout (Bytes n) where
  width := n
  write v := v.toList
  read := .ofList n

def empty : Layout Unit where
  width := 0
  write _ := []
  read _ := ()

def pair (a : Layout α) (b : Layout β) : Layout (α × β) where
  width := a.width + b.width
  write v := a.write v.1 ++ b.write v.2
  read l := (a.read (l.take a.width), b.read (l.drop a.width))

def twice (a : Layout α) : Layout (α × α) := a.pair a

/-- So many fields of one layout, as a list. -/
def readMany (a : Layout α) : Nat → List UInt8 → List α
  | 0, _ => []
  | n + 1, l => a.read (l.take a.width) :: readMany a n (l.drop a.width)

theorem length_readMany (a : Layout α) (n : Nat) (l : List UInt8) :
    (a.readMany n l).length = n := by
  induction n generalizing l with
  | zero => rfl
  | succ n ih => simp [readMany, ih]

def vector (n : Nat) (a : Layout α) : Layout (Vector α n) where
  width := n * a.width
  write v := v.toList.flatMap a.write
  read l := ⟨(a.readMany n l).toArray, by simp [length_readMany]⟩

def map (a : Layout α) (into : α → β) (out : β → α) : Layout β where
  width := a.width
  write v := a.write (out v)
  read l := into (a.read l)

/-- Reads a value from the front of the bytes, with the bytes after it. -/
def decode (a : Layout α) (l : List UInt8) : Except WireError (α × List UInt8) :=
  if l.length < a.width then .error .invalidLength
  else .ok (a.read (l.take a.width), l.drop a.width)

end Layout

/-- How one kind of value is sent and received. Decoding takes the value from the front of the bytes
and returns those it left. -/
structure Codec (α : Type) where
  encode : α → List UInt8
  decode : List UInt8 → Except WireError (α × List UInt8)

def Codec.encodeWithin {α : Type} (c : Codec α) (capacity : Nat) (v : α) :
    Except WireError (List UInt8) :=
  let l := c.encode v
  if capacity < l.length then .error .invalidLength else .ok l

def Layout.codec {α : Type} (a : Layout α) : Codec α where
  encode := a.write
  decode := a.decode

end ColdWallet
