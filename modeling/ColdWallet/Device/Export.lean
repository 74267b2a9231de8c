import ColdWallet.Device.Request
import ColdWallet.Device.Turn
import ColdWallet.Keys.Address
import ColdWallet.RangeProof.Output

namespace ColdWallet.Device

def exportedChild : UInt32 := 0xffffffff

/-- The public node of the owner, or for a nonzero kind that of the exported child. -/
def exportKey (d : Device) (r : ExportKey) : ExportedKey :=
  ⟨(if r.kind = 0 then d.master else d.master.child exportedChild).toPublic⟩

/-- The images of a child's key on the generators asked for, with infinity for the other. -/
def keyImages (d : Device) (r : KeyImage) : Except DeviceError KeyImages :=
  if r.flags.onG || r.flags.onJ then
    let k := (d.master.child r.child).key r.hash
    .ok {
      onG := if r.flags.onG then (mulG k).compact else .infinity
      onJ := if r.flags.onJ then (mulJ k).compact else .infinity }
  else .error .noImage

def createOutput (d : Device) (r : CreateOutput) : Except DeviceError CreatedOutput :=
  match RangeProof.part? d.master r.coin r.t r.extra? r.generator.ifPresent with
  | some part => .ok ⟨part.t, part.tauX.toBytes⟩
  | none => .error .rangeProof

def createVouchers (d : Device) (room : Nat) (r : CreateVouchers) : Except DeviceError Vouchers :=
  if min maxVouchers room < r.count.toNat then .error .outputOverflow
  else
    let viewer := Viewer.ofMaster d.master 0
    let (sk, _) := d.master.address r.address
    .ok ⟨Voucher.batch viewer sk r.count.toNat r.nonce⟩

/-- The device's part of a spend, over as many decoys as the proof has columns. -/
def spendShielded (d : Device) (r : SpendShielded) : Except DeviceError SpentShielded :=
  if r.decoyCount? ≠ some r.window.sigmaM.toNat then .error .sizeMismatch
  else
    match r.prove d.master with
    | .ok s => .ok s
    | .error .serialOverflow => .error .serialOverflow
    | .error .decoy => .error .decoy

end ColdWallet.Device
