import ColdWallet.Signature

namespace ColdWallet

namespace KernelParams

/-- The bytes hashed for a kernel's identifier: its parameters and commitment, no asset emission, no
extension, and the kernels nested in it. The public nonce is not among them. -/
def idPreimage (k : KernelParams) (points : KernelPoints) (nested : List (Bytes 32)) : List UInt8 :=
  Write.num k.fee ++ Write.num k.minHeight ++ Write.num k.maxHeight ++
    Write.point points.commitment ++ Write.num 0 ++ [0] ++
    nested.flatMap (fun id => 0 :: id.toList) ++ [1]

def id (k : KernelParams) (points : KernelPoints) (nested : List (Bytes 32)) : Bytes 32 :=
  sha256 (k.idPreimage points nested)

def signedBy (k : KernelParams) (points : KernelPoints) (response : Bytes 32) : Bool :=
  Signature.verify ⟨points.noncePub, response⟩ (k.id points []) points.commitment

/-- The opening bytes of the message of a kernel of a special kind, to be followed by fields of that
kind. -/
def specialMessage (k : KernelParams) (kind : UInt8) : List UInt8 :=
  Write.num k.fee ++ Write.num k.minHeight ++ Write.num k.maxHeight ++ List.replicate 32 0 ++
    [1] ++ Write.num kind.toUInt64 ++ [1]

end KernelParams

def shieldedOutputKind : UInt8 := 3

def shieldedInputKind : UInt8 := 4

end ColdWallet
