import ColdWallet.Wire.Status

namespace ColdWallet

inductive DeviceError where
  | emptyRequest
  | tooShort
  | unknownOpcode (byte : UInt8)
  | sizeMismatch
  | outputOverflow
  | rangeProof
  | noImage
  /-- An amount leaves its range, or a second asset enters a transaction. -/
  | amountOverflow
  | childOutput
  | weakOutput
  | weakInput
  | shieldedFee
  | noBalance
  | mixedAssets
  | notSending
  | notReceiving
  /-- Nothing is left to transfer, or something is left of a split. -/
  | netAmount
  | serialOverflow
  | peerCommitments
  | decoy
  | slotRange
  | shieldedOutput
  | userAgreement
  | paymentProof
  | declined
  | missingPeer
deriving DecidableEq, Repr

namespace DeviceError

def hexByte (b : UInt8) : String :=
  let digit (n : Nat) : Char := Char.ofNat (if n < 10 then 48 + n else 87 + n)
  String.ofList [digit (b.toNat / 16), digit (b.toNat % 16)]

def message : DeviceError → String
  | emptyRequest => "empty request"
  | tooShort => "request or response too short"
  | unknownOpcode byte => "unknown opcode 0x" ++ hexByte byte
  | sizeMismatch => "request size mismatch"
  | outputOverflow => "response does not fit output buffer"
  | rangeProof => "range proof failed"
  | noImage => "no image requested"
  | amountOverflow => "amount overflow or asset mismatch"
  | childOutput => "output to child subkey"
  | weakOutput => "weak output scheme"
  | weakInput => "weak inputs not allowed"
  | shieldedFee => "shielded fee above cap"
  | noBalance => "not in transaction balance"
  | mixedAssets => "mixed asset balance"
  | notSending => "sender is receiving"
  | notReceiving => "receiver is not receiving"
  | netAmount => "unexpected net amount"
  | serialOverflow => "shielded serial key overflow"
  | peerCommitments => "invalid peer commitments"
  | decoy => "invalid decoy"
  | slotRange => "slot out of range"
  | shieldedOutput => "shielded output verification failed"
  | userAgreement => "user agreement mismatch"
  | paymentProof => "invalid payment proof"
  | declined => "declined by user"
  | missingPeer => "missing peer id"

def status : DeviceError → Status
  | emptyRequest => ⟨.protoError, 0xfd⟩
  | tooShort => ⟨.protoError, 0xfe⟩
  | unknownOpcode _ => ⟨.protoError, 0xff⟩
  | sizeMismatch => ⟨.protoError, 0⟩
  | outputOverflow => ⟨.protoError, 1⟩
  | rangeProof => ⟨.unspecified, 0⟩
  | noImage => ⟨.unspecified, 0⟩
  | amountOverflow => ⟨.unspecified, 1⟩
  | childOutput => ⟨.unspecified, 3⟩
  | weakOutput => ⟨.unspecified, 4⟩
  | weakInput => ⟨.unspecified, 5⟩
  | shieldedFee => ⟨.unspecified, 8⟩
  | noBalance => ⟨.unspecified, 10⟩
  | mixedAssets => ⟨.unspecified, 11⟩
  | notSending => ⟨.unspecified, 12⟩
  | notReceiving => ⟨.unspecified, 13⟩
  | netAmount => ⟨.unspecified, 21⟩
  | serialOverflow => ⟨.unspecified, 21⟩
  | peerCommitments => ⟨.unspecified, 22⟩
  | decoy => ⟨.unspecified, 22⟩
  | slotRange => ⟨.unspecified, 23⟩
  | shieldedOutput => ⟨.unspecified, 23⟩
  | userAgreement => ⟨.unspecified, 24⟩
  | paymentProof => ⟨.unspecified, 25⟩
  | declined => ⟨.userAbort, 0⟩
  | missingPeer => ⟨.userAbort, 22⟩

/-- Every cause, with this byte as the unknown opcode. -/
def all (byte : UInt8) : List DeviceError :=
  [emptyRequest, tooShort, unknownOpcode byte, sizeMismatch, outputOverflow, rangeProof, noImage,
   amountOverflow, childOutput, weakOutput, weakInput, shieldedFee, noBalance, mixedAssets,
   notSending, notReceiving, netAmount, serialOverflow, peerCommitments, decoy, slotRange,
   shieldedOutput, userAgreement, paymentProof, declined, missingPeer]

end DeviceError

end ColdWallet
