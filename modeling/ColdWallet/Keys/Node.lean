import ColdWallet.Curve.Generators
import ColdWallet.Hash.NonceStream
import ColdWallet.Wire.Keys

namespace ColdWallet

/-- A secret and a cofactor. The secret alone gives the public half of every key; the key is that
half times the cofactor, so a watcher who knows the secret and the cofactor's points can follow all
keys without spending. -/
structure KeyNode where
  secret : Bytes 32
  cofactor : Scalar
deriving DecidableEq

namespace KeyNode

def ofSeed (seed : Bytes 32) : KeyNode :=
  let stream := NonceStream.ofMaterial (label "beam-HKdf") seed.toList
  { secret := (stream.withContext (label "gen")).next.1
    cofactor := (stream.withContext (label "coF")).nextScalar.1 }

def stream (k : KeyNode) (hash : Bytes 32) : NonceStream :=
  .ofMaterial (label "beam-Key") (k.secret.toList ++ hash.toList)

def publicHalf (k : KeyNode) (hash : Bytes 32) : Scalar := (k.stream hash).nextScalar.1

def key (k : KeyNode) (hash : Bytes 32) : Scalar := k.publicHalf hash * k.cofactor

/-- The tag of the type of child keys, `SubK`. -/
def childTag : UInt32 := 0x5375624b

def childPreimage (i : UInt32) : List UInt8 :=
  label "kid" ++ Write.num32 i ++ Write.num32 childTag ++ Write.num 0

def child (k : KeyNode) (i : UInt32) : KeyNode :=
  ofSeed (k.key (sha256 (childPreimage i))).toBytes

def scale (k : KeyNode) (c : Scalar) : KeyNode := { k with cofactor := k.cofactor * c }

def toPublic (k : KeyNode) : PublicNode :=
  { secret := k.secret
    cofactorG := (mulG k.cofactor).compact
    cofactorJ := (mulJ k.cofactor).compact }

end KeyNode

end ColdWallet
