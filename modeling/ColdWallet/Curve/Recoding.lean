import ColdWallet.Curve.Residue

namespace ColdWallet

/-- A window by its lowest bit and its index: `j < 2^(width-1)` stands for the multiple `2j + 1`,
and the index that far from the upper end, `2^width - 1 - j`, for its negative. -/
structure Window where
  bit : Nat
  index : Nat
deriving DecidableEq

namespace Recoding

def bits : Nat := 256

/-- A recoding in progress. Every window of `width` bits, opened at a set bit, is followed by a
marker bit. A window whose marker was already set is subtracted instead: its opening bit is cleared
and one is carried above the marker. -/
structure Scan where
  word : Nat
  carry : Bool
  /-- How many bits the open window has taken, zero if none is open. -/
  taken : Nat
  top : Option Window

def flip (word bit : Nat) : Nat := word ^^^ (1 <<< bit)

/-- Takes bit `i` into the open window, and closes the window when `i` is its marker. -/
def Scan.take (width : Nat) (s : Scan) (i : Nat) : Scan :=
  let set := s.word.testBit i
  let top := s.top.map fun t =>
    if set then { t with index := t.index ||| (1 <<< (s.taken - 1)) } else t
  if s.taken < width then { s with taken := s.taken + 1, top }
  else if set then
    { word := flip s.word ((s.top.map Window.bit).getD 0), carry := true, taken := 0, top }
  else { word := flip s.word i, carry := false, taken := 0, top }

def Scan.step (width : Nat) (s : Scan) (i : Nat) : Scan :=
  if s.carry then
    let word := flip s.word i
    if word.testBit i then ⟨word, false, 1, some ⟨i, 0⟩⟩ else { s with word }
  else if s.taken = 0 then
    if s.word.testBit i then { s with taken := 1, top := some ⟨i, 0⟩ } else s
  else s.take width i

def scan (width k : Nat) : Scan :=
  (List.range bits).foldl (Scan.step width) ⟨k, false, 0, none⟩

def highestMarker (word low : Nat) : (limit : Nat) → Option Nat
  | 0 => none
  | b + 1 => if b < low then none else if word.testBit b then some b else highestMarker word low b

def windowAt (width word m : Nat) : Window :=
  let size := 1 <<< (width - 1)
  { bit := m - width
    index := (word >>> (m - width + 1)) % size + if word.testBit (m - width) then 0 else size }

def next (width word bit : Nat) : Option Window :=
  (highestMarker word width bit).map (windowAt width word)

/-- The window given and all below it; a word has no more than `limit`. -/
def descend (width word : Nat) : (limit : Nat) → Option Window → List Window
  | limit + 1, some w => w :: descend width word limit (next width word w.bit)
  | _, _ => []

/-- The windows of a scalar in falling order, and whether a carry left its top bit. -/
def windows (width k : Nat) : List Window × Bool :=
  let s := scan width k
  (descend width s.word bits s.top, s.carry)

end Recoding

end ColdWallet
