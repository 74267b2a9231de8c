import ColdWallet.Hash.Hmac
import ColdWallet.Transcript

namespace ColdWallet

/-- Deterministic secrets. The key is extracted from a salt and key material. -/
structure NonceStream where
  key : Bytes 32
  context : List UInt8 := []
  /-- The block drawn last; none at the start and after a restart. -/
  last : Option (Bytes 32) := none
  counter : UInt8 := 0

namespace NonceStream

def ofMaterial (salt material : List UInt8) : NonceStream := { key := hmac salt material }

/-- Draws the next block, the key's digest of the block before it, the context and a counter byte
that wraps. -/
def next (s : NonceStream) : Bytes 32 × NonceStream :=
  let counter := s.counter + 1
  let before := match s.last with
    | some block => block.toList
    | none => []
  let block := hmac s.key.toList (before ++ s.context ++ [counter])
  (block, { s with last := some block, counter })

/-- The same stream under another context; the block drawn last still enters the next one. -/
def withContext (s : NonceStream) (context : List UInt8) : NonceStream := { s with context }

def restart (s : NonceStream) : NonceStream := { s with last := none, counter := 0 }

def nextScalar (s : NonceStream) : Scalar × NonceStream := drawScalar next drawLimit s

def scalars : Nat → NonceStream → List Scalar × NonceStream
  | 0, s => ([], s)
  | n + 1, s =>
    let (k, s) := s.nextScalar
    let (ks, s) := scalars n s
    (k :: ks, s)

def firstScalar (salt material : List UInt8) : Scalar := (ofMaterial salt material).nextScalar.1

end NonceStream

end ColdWallet
