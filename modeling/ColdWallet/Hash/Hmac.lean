import ColdWallet.Hash.Sha256

namespace ColdWallet

/-- The key as one 64-byte block: a longer key is hashed first, a shorter one filled with zeros. -/
def hmacBlock (key : List UInt8) : List UInt8 :=
  let short := if key.length ≤ 64 then key else (sha256 key).toList
  short ++ List.replicate (64 - short.length) 0

def hmac (key message : List UInt8) : Bytes 32 :=
  let block := hmacBlock key
  let inner := sha256 (block.map (· ^^^ 0x36) ++ message)
  sha256 (block.map (· ^^^ 0x5c) ++ inner.toList)

end ColdWallet
