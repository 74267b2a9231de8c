import ColdWallet.Keys.Node

namespace ColdWallet

/-- The tag of the type of address keys, `tRid`. -/
def addressTag : UInt32 := 0x74526964

def addressPreimage (number : UInt64) : List UInt8 :=
  label "kid" ++ Write.num number ++ Write.num32 addressTag ++ Write.num 0

/-- The signing key of an own address, and the identity peers know it by. -/
def KeyNode.address (master : KeyNode) (number : UInt64) : Scalar × Bytes 32 :=
  evenKey (master.key (sha256 (addressPreimage number)))

def paymentPreimage (sender kernelId : Bytes 32) (amount : UInt64) (asset : UInt32) : List UInt8 :=
  label "PaymentConfirmation" ++ kernelId.toList ++ sender.toList ++ Write.num amount ++
    if asset = 0 then [] else label "asset" ++ Write.num32 asset

def paymentConfirmation (sender kernelId : Bytes 32) (amount : UInt64) (asset : UInt32) :
    Bytes 32 :=
  sha256 (paymentPreimage sender kernelId amount asset)

end ColdWallet
