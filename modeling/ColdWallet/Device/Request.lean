import ColdWallet.Device.Error
import ColdWallet.Wire.Opcode

namespace ColdWallet

inductive Request where
  | version
  | slotCount
  | exportKey (r : ExportKey)
  | keyImage (r : KeyImage)
  | createOutput (r : CreateOutput)
  | addCoins (r : AddCoins)
  | split (r : Split)
  | receive (r : Receive)
  | openSend (r : OpenSend)
  | closeSend (r : CloseSend)
  | sendShielded (r : SendShielded)
  | showAddress (r : ShowAddress)
  | createVouchers (r : CreateVouchers)
  | spendShielded (r : SpendShielded)

namespace Request

/-- Reads a request of fixed width that takes up all of the bytes. -/
def exact {α : Type} (a : Layout α) (l : List UInt8) : Except DeviceError α :=
  if l.length < a.width then .error .tooShort
  else if a.width < l.length then .error .sizeMismatch
  else .ok (a.read l)

/-- Reads a request with a tail of any length. -/
def tailed {α : Type} (c : Codec α) (l : List UInt8) : Except DeviceError α :=
  match c.decode l with
  | .ok (v, _) => .ok v
  | .error _ => .error .tooShort

def ofPayload (op : Opcode) (l : List UInt8) : Except DeviceError Request :=
  match op with
  | .version => (exact .empty l).map fun _ => version
  | .slotCount => (exact .empty l).map fun _ => slotCount
  | .exportKey => (exact ExportKey.layout l).map exportKey
  | .keyImage => (exact KeyImage.layout l).map keyImage
  | .createOutput => (exact CreateOutput.layout l).map createOutput
  | .addCoins => (tailed AddCoins.codec l).map addCoins
  | .split => (exact Split.layout l).map split
  | .receive => (exact Receive.layout l).map receive
  | .openSend => (exact OpenSend.layout l).map openSend
  | .closeSend => (exact CloseSend.layout l).map closeSend
  | .sendShielded => (exact SendShielded.layout l).map sendShielded
  | .showAddress => (exact ShowAddress.layout l).map showAddress
  | .createVouchers => (exact CreateVouchers.layout l).map createVouchers
  | .spendShielded => (tailed SpendShielded.codec l).map spendShielded

end Request

inductive Reply where
  | version (r : Version)
  | slotCount (r : SlotCount)
  | exportedKey (r : ExportedKey)
  | keyImages (r : KeyImages)
  | createdOutput (r : CreatedOutput)
  | signedKernel (r : SignedKernel)
  | received (r : Received)
  | openedSend (r : OpenedSend)
  | closedSend (r : ClosedSend)
  | vouchers (r : Vouchers)
  | spentShielded (r : SpentShielded)
  /-- Success with nothing to tell. -/
  | done

def Reply.toList : Reply → List UInt8
  | version r => Version.layout.write r
  | slotCount r => SlotCount.layout.write r
  | exportedKey r => ExportedKey.layout.write r
  | keyImages r => KeyImages.layout.write r
  | createdOutput r => CreatedOutput.layout.write r
  | signedKernel r => SignedKernel.layout.write r
  | received r => Received.layout.write r
  | openedSend r => OpenedSend.layout.write r
  | closedSend r => ClosedSend.layout.write r
  | vouchers r => Vouchers.codec.encode r
  | spentShielded r => SpentShielded.layout.write r
  | done => []

end ColdWallet
