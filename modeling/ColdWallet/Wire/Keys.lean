import ColdWallet.Curve.CompactPoint
import ColdWallet.Wire.Coin

namespace ColdWallet

def CompactPoint.layout : Layout CompactPoint :=
  ((Layout.bytes 32).pair Layout.u8).map (fun (x, y) => { x, y }) (fun c => (c.x, c.y))

structure Version where
  signature : Bytes 8
deriving DecidableEq

def Version.layout : Layout Version :=
  (Layout.bytes 8).map Version.mk Version.signature

def Version.current : Version := ⟨#v[0x42, 0x65, 0x61, 0x6d, 0x48, 0x57, 0x00, 0x01]⟩

structure SlotCount where
  slots : UInt32
deriving DecidableEq, Repr

def SlotCount.layout : Layout SlotCount := Layout.u32.map SlotCount.mk SlotCount.slots

structure ExportKey where
  /-- Zero for the owner's key, anything else for the child key. -/
  kind : UInt8
deriving DecidableEq, Repr

def ExportKey.layout : Layout ExportKey := Layout.u8.map ExportKey.mk ExportKey.kind

/-- What a watcher needs of a key node: its secret, and its cofactor on both blinding generators. -/
structure PublicNode where
  secret : Bytes 32
  cofactorG : CompactPoint
  cofactorJ : CompactPoint
deriving DecidableEq

def PublicNode.layout : Layout PublicNode :=
  ((Layout.bytes 32).pair <| CompactPoint.layout.pair CompactPoint.layout).map
    (fun (secret, cofactorG, cofactorJ) => { secret, cofactorG, cofactorJ })
    (fun k => (k.secret, k.cofactorG, k.cofactorJ))

structure ExportedKey where
  node : PublicNode
deriving DecidableEq

def ExportedKey.layout : Layout ExportedKey := PublicNode.layout.map ExportedKey.mk ExportedKey.node

/-- On which generators an image is wanted: the two low bits of a byte. -/
structure ImageFlags where
  onG : Bool
  onJ : Bool
deriving DecidableEq, Repr

namespace ImageFlags

def ofByte (b : UInt8) : ImageFlags := ⟨b &&& 1 != 0, b &&& 2 != 0⟩

def toByte (f : ImageFlags) : UInt8 := (if f.onG then 1 else 0) ||| (if f.onJ then 2 else 0)

/-- The other six bits are forgotten. -/
def layout : Layout ImageFlags := Layout.u8.map ofByte toByte

end ImageFlags

structure KeyImage where
  hash : Bytes 32
  child : UInt32
  flags : ImageFlags
deriving DecidableEq

def KeyImage.layout : Layout KeyImage :=
  ((Layout.bytes 32).pair <| Layout.u32.pair ImageFlags.layout).map
    (fun (hash, child, flags) => { hash, child, flags })
    (fun r => (r.hash, r.child, r.flags))

structure KeyImages where
  onG : CompactPoint
  onJ : CompactPoint
deriving DecidableEq

def KeyImages.layout : Layout KeyImages :=
  (CompactPoint.layout.pair CompactPoint.layout).map
    (fun (onG, onJ) => { onG, onJ }) (fun r => (r.onG, r.onJ))

structure ShowAddress where
  address : UInt64
deriving DecidableEq, Repr

def ShowAddress.layout : Layout ShowAddress := Layout.u64.map ShowAddress.mk ShowAddress.address

structure CreateOutput where
  coin : CoinId
  t : CompactPoint × CompactPoint
  extra : Bytes 32 × Bytes 32
  generator : CompactPoint
deriving DecidableEq

namespace CreateOutput

def layout : Layout CreateOutput :=
  (CoinId.layout.pair <| CompactPoint.layout.twice.pair <|
    (Layout.bytes 32).twice.pair CompactPoint.layout).map
    (fun (coin, t, extra, generator) => { coin, t, extra, generator })
    (fun r => (r.coin, r.t, r.extra, r.generator))

/-- The scalars to embed; all bytes zero mean none. -/
def extra? (r : CreateOutput) : Option (Bytes 32 × Bytes 32) :=
  if allZero r.extra.1.toList && allZero r.extra.2.toList then none else some r.extra

end CreateOutput

structure CreatedOutput where
  t : CompactPoint × CompactPoint
  tauX : Bytes 32
deriving DecidableEq

def CreatedOutput.layout : Layout CreatedOutput :=
  (CompactPoint.layout.twice.pair (Layout.bytes 32)).map
    (fun (t, tauX) => { t, tauX }) (fun r => (r.t, r.tauX))

end ColdWallet
