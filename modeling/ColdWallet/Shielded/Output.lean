import ColdWallet.Keys.Address
import ColdWallet.RangeProof.Recovery
import ColdWallet.Shielded.Voucher

namespace ColdWallet.SendShielded

def secretScalar (name : String) (v : Voucher) : Scalar :=
  NonceStream.firstScalar (label name) v.sharedSecret.toList

def outputMessage : Bytes 32 :=
  sha256 (KernelParams.specialMessage ⟨0, 0, 0xffffffffffffffff⟩ shieldedOutputKind)

/-- What the receiver has to read back from an honest output. -/
structure Expected where
  blinding : Scalar
  /-- Which of sender and message fields were at or above the group order, one bit each. -/
  flags : UInt8
  message : Scalar × Scalar
  transcript : Transcript
  seed : Bytes 32

def packFlags (sender first second : Bool) : UInt8 :=
  (if sender then 1 else 0) ||| (if first then 2 else 0) ||| (if second then 4 else 0)

def seedPreimage (transcript : Transcript) (v : Voucher) : List UInt8 :=
  transcript ++ label "bp-s" ++ v.sharedSecret.toList

def expected (v : Voucher) (note : OutputNote) (amount : UInt64) (asset : UInt32)
    (generator : Option CompactPoint) : Expected :=
  let (sender, senderOver) := Scalar.reduceFlag note.sender
  let (first, firstOver) := Scalar.reduceFlag note.message.1
  let (second, secondOver) := Scalar.reduceFlag note.message.2
  let blinding := secretScalar "kG-O" v + sender
  let transcript := outputMessage.toList ++ Write.point v.serialPub ++ Write.point v.noncePub ++
    Write.curvePoint (commit blinding amount (assetGenerator asset)) ++
    Write.pointOption generator
  { blinding
    flags := packFlags senderOver firstOver secondOver
    message := (first, second)
    transcript
    seed := sha256 (seedPreimage transcript v) }

def assetBlinding (v : Voucher) (amount : UInt64) : Scalar :=
  secretScalar "skG-O" v * Scalar.ofNat amount.toNat

def userLength : Nat := 5

/-- Whether the range proof gives the receiver the expected output of this amount and asset. -/
def proofHonest (r : SendShielded) (e : Expected) (amount : UInt64) (asset : UInt32) : Bool :=
  let recovery := r.proof.recover e.transcript e.seed userLength (some e.seed) true
  match recovery.result with
  | some ⟨found, some blinding, some extra⟩ =>
    let shift := if asset ≠ 0 ∨ r.alwaysHideAsset ≠ 0 then assetBlinding r.voucher amount else 0
    extra = e.message ∧ recovery.user = bigEndian 4 asset.toNat ++ [e.flags] ∧ found = amount ∧
      blinding + shift = e.blinding
  | _ => false

/-- Whether the peer signed the voucher, and is the own address if one is named. -/
def peerHonest (r : SendShielded) (master : KeyNode) : Bool :=
  r.voucher.signature.verifyX r.voucher.hash r.parties.peer &&
    (r.parties.ownAddress == 0 || (master.address r.parties.ownAddress).2 == r.parties.peer)

/-- The blinding factor of the shielded output and the identifier of the kernel that carries it, if
the output is honest. -/
def verifyOutput? (r : SendShielded) (master : KeyNode) (amount : UInt64) (asset : UInt32) :
    Option (Scalar × Bytes 32) :=
  let e := expected r.voucher r.note amount asset r.generator.ifPresent
  if r.peerHonest master && r.proofHonest e amount asset then
    some (e.blinding, sha256 (outputMessage.toList ++ RangeProof.layout.write r.proof))
  else none

end ColdWallet.SendShielded
