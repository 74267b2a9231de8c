import ColdWallet.Wire.Codec

namespace ColdWallet

inductive StatusMajor where
  | ok
  | unspecified
  | userAbort
  | protoError
deriving DecidableEq, Repr

namespace StatusMajor

def toByte : StatusMajor → UInt8
  | ok => 0
  | unspecified => 1
  | userAbort => 2
  | protoError => 3

def ofByte? (b : UInt8) : Option StatusMajor :=
  if b = 0 then some ok
  else if b = 1 then some unspecified
  else if b = 2 then some userAbort
  else if b = 3 then some protoError
  else none

end StatusMajor

structure Status where
  major : StatusMajor
  minor : UInt8
deriving DecidableEq, Repr

namespace Status

def success : Status := ⟨.ok, 0⟩

def toList (s : Status) : List UInt8 := [s.major.toByte, s.minor]

/-- Major code in the low byte of a word, minor code in the high byte. -/
def pack (s : Status) : UInt16 := (s.minor.toUInt16 <<< 8) ||| s.major.toByte.toUInt16

def unpack (v : UInt16) : Except WireError Status :=
  match StatusMajor.ofByte? v.toUInt8 with
  | some major => .ok ⟨major, (v >>> 8).toUInt8⟩
  | none => .error .invalidEncoding

/-- Success is recognised by its first byte alone; a failure needs its minor code as well. -/
def codec : Codec Status where
  encode := toList
  decode
    | [] => .error .invalidLength
    | b :: l =>
      match StatusMajor.ofByte? b, l with
      | none, _ => .error .invalidEncoding
      | some .ok, l => .ok (success, l)
      | some major, minor :: l => .ok (⟨major, minor⟩, l)
      | some _, [] => .error .invalidLength

end Status

end ColdWallet
