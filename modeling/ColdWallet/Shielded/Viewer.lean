import ColdWallet.Keys.Node

namespace ColdWallet

/-- The keys of a viewer of the shielded pool: a node for blindings and nonces, and one for spend
keys. -/
structure Viewer where
  blinding : KeyNode
  serial : KeyNode
deriving DecidableEq

namespace Viewer

def domain (name : String) : List UInt8 := label "Output.Shielded." ++ label name

/-- The keys of viewer `i`. The serial node's cofactor carries its own seed once more. -/
def ofMaster (master : KeyNode) (i : UInt32) : Viewer :=
  let blindingSeed := master.publicHalf (sha256 (domain "Own.Gen" ++ Write.num32 i))
  let first := master.publicHalf (sha256 (domain "Own.Ser" ++ Write.num32 i))
  let second := master.publicHalf first.toBytes
  { blinding := .ofSeed blindingSeed.toBytes
    serial := (KeyNode.ofSeed second.toBytes).scale second }

/-- The key that spends an output of the given blinding. A viewer derives it with the cofactor, a
holder of the public half without. -/
def spendKey (v : Viewer) (blinding : Scalar) (byViewer : Bool) : Scalar :=
  let hash := sha256 (domain "kG-k" ++ Write.scalar blinding)
  let k := if byViewer then v.blinding.key hash else v.blinding.publicHalf hash
  v.serial.key (sha256 (domain "k-pI" ++ Write.scalar k))

def exchangeKey (v : Viewer) (serialPub : CompactPoint) : Scalar :=
  v.blinding.key (sha256 (domain "DH" ++ Write.point serialPub))

end Viewer

end ColdWallet
