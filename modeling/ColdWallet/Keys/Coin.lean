import ColdWallet.Keys.Node

namespace ColdWallet

def assetPoint (asset : UInt32) : CompactPoint × Point :=
  (Transcript.challengePoint (label "B.Asset.Gen.V1" ++ Write.num32 asset)).1

def assetGenerator (asset : UInt32) : AssetGenerator :=
  if asset = 0 then none else some (assetPoint asset).2

namespace CoinId

/-- Bits of `subIndex` below the scheme. -/
def subkeyBits : UInt32 := 24

def subkeyMask : UInt32 := (1 <<< subkeyBits) - 1

/-- The first scheme, in which neither amount nor asset enters the key. -/
def schemeV0 : UInt8 := 0

/-- A variant of the first scheme whose keys never came from a child node. -/
def schemeBB21 : UInt8 := 1

/-- The scheme that binds amount and asset into the key. -/
def schemeV1 : UInt8 := 2

def scheme (c : CoinId) : UInt8 := (c.subIndex >>> subkeyBits).toUInt8

def subkey (c : CoinId) : UInt32 := c.subIndex &&& subkeyMask

def hasChild (c : CoinId) : Bool := c.subkey != 0 && c.scheme != schemeBB21

def isWeak (c : CoinId) : Bool := c.scheme == schemeV0 || c.scheme == schemeBB21

/-- The bytes hashed for a coin's key; both weak schemes write the same. -/
def keyPreimage (c : CoinId) : List UInt8 :=
  if c.isWeak then
    label "kid" ++ Write.num c.index ++ Write.num32 c.kind ++ Write.num32 c.subkey
  else
    label "kidv-1" ++ Write.num c.index ++ Write.num32 c.kind ++ Write.num32 c.subIndex ++
      Write.num c.amount ++ if c.asset = 0 then [] else label "asset" ++ Write.num32 c.asset

def keyHash (c : CoinId) : Bytes 32 := sha256 c.keyPreimage

def rawKey (c : CoinId) (master : KeyNode) : Scalar :=
  (if c.hasChild then master.child c.subkey else master).key c.keyHash

def switchShift (onG onJ : Point) : Scalar :=
  (Transcript.challenge (Write.curvePoint onG ++ Write.curvePoint onJ)).1

/-- The blinding factor, the shift in it, and the commitment before the shift. The shift hashes the
commitments on both generators, which keeps the commitment opening to one key only. -/
def switch (c : CoinId) (master : KeyNode) : Scalar × Scalar × Point :=
  let sk := c.rawKey master
  let plain := commit sk c.amount (assetGenerator c.asset)
  let shift := switchShift plain (mulJ sk)
  (sk + shift, shift, plain)

def blinding (c : CoinId) (master : KeyNode) : Scalar := (c.switch master).1

def blindingCommitment (c : CoinId) (master : KeyNode) : Scalar × CompactPoint :=
  let (sk, shift, plain) := c.switch master
  (sk, (mulG shift + plain).compact)

end CoinId

end ColdWallet
