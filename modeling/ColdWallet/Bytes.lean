namespace ColdWallet

abbrev Bytes (n : Nat) := Vector UInt8 n

/-- The first `n` bytes of a list, filled up with zeros where the list is shorter. -/
def Bytes.ofList (n : Nat) (l : List UInt8) : Bytes n :=
  ⟨(l.take n ++ List.replicate (n - l.length) 0).toArray, by simp; omega⟩

def Bytes.zero (n : Nat) : Bytes n := Vector.replicate n 0

def allZero (l : List UInt8) : Bool := l.all (· == 0)

/-- The low `width` bytes of a number, least significant first. -/
def littleEndian : (width : Nat) → Nat → List UInt8
  | 0, _ => []
  | width + 1, v => UInt8.ofNat v :: littleEndian width (v / 256)

/-- The number whose bytes, least significant first, are the list. -/
def ofLittleEndian : List UInt8 → Nat
  | [] => 0
  | b :: l => b.toNat + 256 * ofLittleEndian l

def bigEndian (width : Nat) (v : Nat) : List UInt8 := (littleEndian width v).reverse

def ofBigEndian (l : List UInt8) : Nat := ofLittleEndian l.reverse

/-- The ASCII bytes of a domain label, closed by a zero byte. -/
def label (s : String) : List UInt8 := s.toList.map (fun c => UInt8.ofNat c.toNat) ++ [0]

/-- Four bytes read as a tag, most significant first. -/
def fourByteTag (b : Bytes 4) : UInt32 := UInt32.ofNat (ofBigEndian b.toList)

end ColdWallet
