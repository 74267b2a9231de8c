import ColdWallet.Wire.RangeProof

namespace ColdWallet

/-- What a receiver hands to a sender: the keys of one output, proved and signed. -/
structure Voucher where
  serialPub : CompactPoint
  noncePub : CompactPoint
  sharedSecret : Bytes 32
  signature : Signature
  responses : Bytes 32 × Bytes 32
deriving DecidableEq

def Voucher.layout : Layout Voucher :=
  (CompactPoint.layout.pair <| CompactPoint.layout.pair <| (Layout.bytes 32).pair <|
    Signature.layout.pair (Layout.bytes 32).twice).map
    (fun (serialPub, noncePub, sharedSecret, signature, responses) =>
      { serialPub, noncePub, sharedSecret, signature, responses })
    (fun v => (v.serialPub, v.noncePub, v.sharedSecret, v.signature, v.responses))

def maxVouchers : Nat := 16

structure CreateVouchers where
  address : UInt64
  nonce : Bytes 32
  count : UInt32
deriving DecidableEq

def CreateVouchers.layout : Layout CreateVouchers :=
  (Layout.u64.pair <| (Layout.bytes 32).pair Layout.u32).map
    (fun (address, nonce, count) => { address, nonce, count })
    (fun r => (r.address, r.nonce, r.count))

/-- A batch of vouchers, at most `maxVouchers`, led by their number. -/
structure Vouchers where
  list : List Voucher
deriving DecidableEq

namespace Vouchers

def countWidth : Nat := 4

def widthFor (count : Nat) : Nat := countWidth + count * Voucher.layout.width

def codec : Codec Vouchers where
  encode r := littleEndian countWidth r.list.length ++ r.list.flatMap Voucher.layout.write
  decode l := do
    let (count, l) ← Layout.u32.decode l
    if maxVouchers < count.toNat then .error .invalidLength
    else if l.length < count.toNat * Voucher.layout.width then .error .invalidLength
    else .ok (⟨Voucher.layout.readMany count.toNat l⟩, l.drop (count.toNat * Voucher.layout.width))

end Vouchers

/-- The window of heights of a spend, and the dimensions of its one-out-of-many proof. -/
structure SpendWindow where
  minHeight : UInt64
  maxHeight : UInt64
  windowEnd : UInt64
  sigmaN : UInt32
  sigmaM : UInt32
deriving DecidableEq, Repr

def SpendWindow.layout : Layout SpendWindow :=
  (Layout.u64.pair <| Layout.u64.pair <| Layout.u64.pair <| Layout.u32.pair Layout.u32).map
    (fun (minHeight, maxHeight, windowEnd, sigmaN, sigmaM) =>
      { minHeight, maxHeight, windowEnd, sigmaN, sigmaM })
    (fun w => (w.minHeight, w.maxHeight, w.windowEnd, w.sigmaN, w.sigmaM))

structure SpendFields where
  input : ShieldedInput
  window : SpendWindow
  poolState : Bytes 32
  generator : CompactPoint
  assetKey : Bytes 32
  outputKey : Bytes 32
  abcd : Vector CompactPoint 4
deriving DecidableEq

def SpendFields.layout : Layout SpendFields :=
  (ShieldedInput.layout.pair <| SpendWindow.layout.pair <| (Layout.bytes 32).pair <|
    CompactPoint.layout.pair <| (Layout.bytes 32).pair <| (Layout.bytes 32).pair
      (CompactPoint.layout.vector 4)).map
    (fun (input, window, poolState, generator, assetKey, outputKey, abcd) =>
      { input, window, poolState, generator, assetKey, outputKey, abcd })
    (fun f => (f.input, f.window, f.poolState, f.generator, f.assetKey, f.outputKey, f.abcd))

/-- A request to spend a shielded input, closed by the decoys it hides among. -/
structure SpendShielded extends SpendFields where
  decoyBytes : List UInt8
deriving DecidableEq

/-- Reads the bytes in entries of one layout, of which the last may be cut short. -/
def Layout.chunks {α : Type} (a : Layout α) (l : List UInt8) : List (Except WireError α) :=
  a.readEntries ((l.length + a.width - 1) / a.width) l

namespace SpendShielded

def decoys (r : SpendShielded) : List (Except WireError CompactPoint) :=
  CompactPoint.layout.chunks r.decoyBytes

def decoyCount? (r : SpendShielded) : Option Nat :=
  if r.decoyBytes.length % CompactPoint.layout.width = 0 then
    some (r.decoyBytes.length / CompactPoint.layout.width)
  else none

def codec : Codec SpendShielded where
  encode r := SpendFields.layout.write r.toSpendFields ++ r.decoyBytes
  decode l := (SpendFields.layout.decode l).map fun (f, decoyBytes) => (⟨f, decoyBytes⟩, [])

end SpendShielded

structure SpentShielded where
  noncePub : CompactPoint
  responses : Bytes 32 × Bytes 32
  g₀ : CompactPoint
  zR : Bytes 32
deriving DecidableEq

def SpentShielded.layout : Layout SpentShielded :=
  (CompactPoint.layout.pair <| (Layout.bytes 32).twice.pair <|
    CompactPoint.layout.pair (Layout.bytes 32)).map
    (fun (noncePub, responses, g₀, zR) => { noncePub, responses, g₀, zR })
    (fun r => (r.noncePub, r.responses, r.g₀, r.zR))

structure OutputNote where
  sender : Bytes 32
  message : Bytes 32 × Bytes 32
deriving DecidableEq

def OutputNote.layout : Layout OutputNote :=
  ((Layout.bytes 32).pair (Layout.bytes 32).twice).map
    (fun (sender, message) => { sender, message }) (fun n => (n.sender, n.message))

structure SendShielded where
  kernel : KernelParams
  parties : Parties
  voucher : Voucher
  note : OutputNote
  proof : RangeProof
  /-- Nonzero to blind the asset of a native output too. -/
  alwaysHideAsset : UInt8
  generator : CompactPoint
deriving DecidableEq

def SendShielded.layout : Layout SendShielded :=
  (KernelParams.layout.pair <| Parties.layout.pair <| Voucher.layout.pair <|
    OutputNote.layout.pair <| RangeProof.layout.pair <| Layout.u8.pair CompactPoint.layout).map
    (fun (kernel, parties, voucher, note, proof, alwaysHideAsset, generator) =>
      { kernel, parties, voucher, note, proof, alwaysHideAsset, generator })
    (fun r => (r.kernel, r.parties, r.voucher, r.note, r.proof, r.alwaysHideAsset, r.generator))

end ColdWallet
