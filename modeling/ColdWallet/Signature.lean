import ColdWallet.Curve.Generators
import ColdWallet.Hash.NonceStream
import ColdWallet.Wire.Kernel

namespace ColdWallet

def challenge (noncePub : CompactPoint) (message : Bytes 32) : Scalar :=
  (Transcript.challenge (Write.point noncePub ++ message.toList)).1

/-- One signer's share of the response, under which `k·G + e·Pk + NoncePub = 0` holds of the sums.
-/
def signShare (e sk nonce : Scalar) : Scalar := -(e * sk + nonce)

namespace Signature

/-- The nonce is drawn from the key and the message. -/
def sign (message : Bytes 32) (sk : Scalar) : Signature :=
  let nonce := NonceStream.firstScalar (label "beam-Schnorr") (sk.toBytes.toList ++ message.toList)
  let noncePub := (mulG nonce).compact
  ⟨noncePub, (signShare (challenge noncePub message) sk nonce).toBytes⟩

/-- Whether the signature verifies under a public key. A response at or above the group order is
reduced, and under the key at infinity the challenge has no part. -/
def verify (s : Signature) (message : Bytes 32) (pk : CompactPoint) : Bool :=
  match pk.toPoint?, s.noncePub.toPoint? with
  | some pk, some noncePub =>
    let k := Scalar.reduce s.response
    let sum := if pk = .infinity then mulG k else mulGPlus k (challenge s.noncePub message) pk
    sum + noncePub = .infinity
  | _, _ => false

def verifyX (s : Signature) (message pkX : Bytes 32) : Bool := s.verify message ⟨pkX, 0⟩

end Signature

end ColdWallet
