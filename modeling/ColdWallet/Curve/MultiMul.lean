import ColdWallet.Curve.Jacobian
import ColdWallet.Curve.Recoding

namespace ColdWallet

section Tables

variable {P : Type} [PointArith P]

/-- So many points from `start` on, each `step` after the one before. -/
def progression (start step : P) : (count : Nat) → List P
  | 0 => []
  | count + 1 => start :: progression (start + step) step count

def fixedWidth : Nat := 4

def fixedValues : Nat := 1 <<< fixedWidth

/-- How often the offset point enters a sum: once in each fixed window, at that window's weight. -/
def offsetWeight : Nat :=
  (List.range (Recoding.bits / fixedWidth)).foldl (fun sum w => sum + (1 <<< (fixedWidth * w))) 0

/-- The points `offset + j·P` for the sixteen values of a fixed window, and the point that takes the
offsets of all windows out again. -/
structure SecretTable (P : Type) where
  entries : Array P
  correction : P

def SecretTable.ofPoint (p offset : P) : SecretTable P where
  entries := (progression offset p fixedValues).toArray
  correction := -(mulNat offsetWeight offset)

def SecretTable.read (t : SecretTable P) (k : Scalar) (bit : Nat) : P :=
  t.entries.getD ((k.val >>> bit) % fixedValues) 0

/-- The odd multiples `P, 3P, …` of a point. -/
structure OddTable (P : Type) where
  odds : Array P

def OddTable.ofPoint (size : Nat) (p : P) : OddTable P where
  odds := (progression p (PointArith.double p) size).toArray

namespace OddTable

def size (t : OddTable P) : Nat := t.odds.size

def point (t : OddTable P) : P := t.odds.getD 0 0

def width (t : OddTable P) : Nat := t.size.log2 + 1

def multiple (t : OddTable P) (index : Nat) : P :=
  if t.size ≤ index then -(t.odds.getD (2 * t.size - 1 - index) 0) else t.odds.getD index 0

end OddTable

/-- A public term of a sum during the sweep: its table and the windows still to come. -/
structure PublicTerm (P : Type) where
  table : OddTable P
  windows : List Window

namespace PublicTerm

/-- The term before the sweep, and whether its recoding carried out of the top bit. -/
def start (t : OddTable P) (k : Scalar) : PublicTerm P × Bool :=
  let (windows, carry) := Recoding.windows t.width k.val
  (⟨t, windows⟩, carry)

def addAt (bit : Nat) (acc : P) (t : PublicTerm P) : P :=
  match t.windows with
  | w :: _ => if w.bit = bit then acc + t.table.multiple w.index else acc
  | [] => acc

def pass (bit : Nat) (t : PublicTerm P) : PublicTerm P :=
  match t.windows with
  | w :: rest => if w.bit = bit then { t with windows := rest } else t
  | [] => t

end PublicTerm

/-- Doubles and adds from the bit below `bits` down to bit zero. -/
def sweep (secret : List (SecretTable P × Scalar)) :
    (bits : Nat) → P → List (PublicTerm P) → P
  | 0, acc, _ => acc
  | bit + 1, acc, terms =>
    let acc := PointArith.double acc
    let acc :=
      if bit % fixedWidth = 0 then secret.foldl (fun acc (t, k) => acc + t.read k bit) acc else acc
    sweep secret bit (terms.foldl (PublicTerm.addAt bit) acc) (terms.map (PublicTerm.pass bit))

/-- The sum of `k·P` over the secret and the public terms, in one sweep over the bits. -/
@[irreducible]
def multiMul (secret : List (SecretTable P × Scalar)) (terms : List (OddTable P × Scalar)) : P :=
  let started := terms.map fun (t, k) => PublicTerm.start t k
  let carried := started.foldl (fun acc (t, carry) => if carry then acc + t.table.point else acc) 0
  let swept := sweep secret Recoding.bits carried (started.map Prod.fst)
  secret.foldl (fun acc (t, _) => acc + t.correction) swept

end Tables

end ColdWallet
