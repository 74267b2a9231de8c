import ColdWallet.Wire.Kernel

namespace ColdWallet

structure FoldRound where
  left : Bytes 32
  right : Bytes 32
deriving DecidableEq

def FoldRound.layout : Layout FoldRound :=
  ((Layout.bytes 32).pair (Layout.bytes 32)).map
    (fun (left, right) => { left, right }) (fun r => (r.left, r.right))

/-- Each round halves vectors of 64 entries, down to one. -/
def foldRounds : Nat := 6

/-- A range proof as the host hands it over: abscissas only, with the parities of all points packed
into two bytes. -/
structure RangeProof where
  a : Bytes 32
  s : Bytes 32
  t₁ : Bytes 32
  t₂ : Bytes 32
  tauX : Bytes 32
  mu : Bytes 32
  tDot : Bytes 32
  rounds : Vector FoldRound foldRounds
  condensed : Bytes 32 × Bytes 32
  parities : Bytes 2
deriving DecidableEq

namespace RangeProof

def layout : Layout RangeProof :=
  ((Layout.bytes 32).pair <| (Layout.bytes 32).pair <| (Layout.bytes 32).pair <|
    (Layout.bytes 32).pair <| (Layout.bytes 32).pair <| (Layout.bytes 32).pair <|
    (Layout.bytes 32).pair <| (FoldRound.layout.vector foldRounds).pair <|
    (Layout.bytes 32).twice.pair (Layout.bytes 2)).map
    (fun (a, s, t₁, t₂, tauX, mu, tDot, rounds, condensed, parities) =>
      { a, s, t₁, t₂, tauX, mu, tDot, rounds, condensed, parities })
    (fun p => (p.a, p.s, p.t₁, p.t₂, p.tauX, p.mu, p.tDot, p.rounds, p.condensed, p.parities))

/-- The place of a point's parity among the sixteen. The two points of round `c` have `2c` and
`2c + 1`. -/
def bitA : Nat := 12
def bitS : Nat := 13
def bitT₁ : Nat := 14
def bitT₂ : Nat := 15

def parity (p : RangeProof) (place : Nat) : UInt8 :=
  (p.parities.toList.getD (place / 8) 0 >>> UInt8.ofNat (place % 8)) &&& 1

def setParity (p : RangeProof) (place : Nat) (odd : Bool) : RangeProof :=
  let mask : UInt8 := 1 <<< UInt8.ofNat (place % 8)
  let byte := p.parities.toList.getD (place / 8) 0
  let byte := if odd then byte ||| mask else byte &&& mask.complement
  { p with parities := p.parities.setIfInBounds (place / 8) byte }

end RangeProof

end ColdWallet
