import ColdWallet.Wire.Shielded

namespace ColdWallet

inductive Opcode where
  | version
  | slotCount
  | exportKey
  | keyImage
  | createOutput
  | addCoins
  | split
  | receive
  | openSend
  | closeSend
  | sendShielded
  | showAddress
  | createVouchers
  | spendShielded
deriving DecidableEq, Repr

namespace Opcode

/-- The class byte of every request frame. -/
def frameClass : UInt8 := 0xbe

def toByte : Opcode → UInt8
  | version => 0x01
  | slotCount => 0x02
  | exportKey => 0x03
  | keyImage => 0x04
  | createOutput => 0x10
  | addCoins => 0x20
  | split => 0x21
  | receive => 0x22
  | openSend => 0x23
  | closeSend => 0x24
  | sendShielded => 0x25
  | showAddress => 0x30
  | createVouchers => 0x31
  | spendShielded => 0x32

def all : List Opcode :=
  [version, slotCount, exportKey, keyImage, createOutput, addCoins, split, receive, openSend,
   closeSend, sendShielded, showAddress, createVouchers, spendShielded]

def ofByte? (b : UInt8) : Option Opcode := all.find? fun op => op.toByte = b

/-- The width of the answer after its status byte; for vouchers, of an answer with none. -/
def answerWidth : Opcode → Nat
  | version => Version.layout.width
  | slotCount => SlotCount.layout.width
  | exportKey => ExportedKey.layout.width
  | keyImage => KeyImages.layout.width
  | createOutput => CreatedOutput.layout.width
  | addCoins => 0
  | split => SignedKernel.layout.width
  | receive => Received.layout.width
  | openSend => OpenedSend.layout.width
  | closeSend => ClosedSend.layout.width
  | sendShielded => SignedKernel.layout.width
  | showAddress => 0
  | createVouchers => Vouchers.widthFor 0
  | spendShielded => SpentShielded.layout.width

end Opcode

end ColdWallet
