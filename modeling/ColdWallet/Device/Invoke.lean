import ColdWallet.Device.Export
import ColdWallet.Device.Transfer

namespace ColdWallet.Device

/-- Answers a request; `room` is what the answer may hold after its status byte. -/
def answer (d : Device) (approve : SpendPrompt → Bool) (room : Nat) : Request → Act Reply
  | .version => return .version .current
  | .slotCount => return .slotCount ⟨d.policy.slots⟩
  | .exportKey r => return .exportedKey (d.exportKey r)
  | .keyImage r => return .keyImages (← Act.ofExcept (d.keyImages r))
  | .createOutput r => return .createdOutput (← Act.ofExcept (d.createOutput r))
  | .addCoins r => do
    d.addCoins r
    return .done
  | .split r => return .signedKernel (← split approve r)
  | .receive r => return .received (← Act.ofExcept (d.receive (← Act.ledger) r))
  | .openSend r => return .openedSend (← d.openSend approve r)
  | .closeSend r => return .closedSend (← d.closeSend r)
  | .sendShielded r => return .signedKernel (← d.sendShielded approve r)
  | .showAddress r => do
    Act.notify (.addressShown r.address (d.master.address r.address).2)
    return .done
  | .createVouchers r =>
    let fit := (room - Vouchers.countWidth) / Voucher.layout.width
    return .vouchers (← Act.ofExcept (d.createVouchers fit r))
  | .spendShielded r => return .spentShielded (← Act.ofExcept (d.spendShielded r))

def encodeReply (room : Nat) (reply : Reply) : Except DeviceError (List UInt8) :=
  if room < reply.toList.length then .error .tooShort else .ok reply.toList

/-- The bytes after the status, for a request and the length its answer may have. That the shortest
reply fits is checked before anything is read or changed. -/
def dispatch (d : Device) (approve : SpendPrompt → Bool) (request : List UInt8) (capacity : Nat) :
    Act (List UInt8) :=
  match request with
  | [] => Act.fail .emptyRequest
  | byte :: payload =>
    match Opcode.ofByte? byte with
    | none => Act.fail (.unknownOpcode byte)
    | some op =>
      if capacity < 1 + op.answerWidth then Act.fail .tooShort
      else do
        let request ← Act.ofExcept (Request.ofPayload op payload)
        let reply ← d.answer approve (capacity - 1) request
        Act.ofExcept (encodeReply (capacity - 1) reply)

structure Response where
  bytes : List UInt8
  events : List Event
  state : State

/-- Handles a request. A failure is answered with as much of its status as fits. -/
def invoke (d : Device) (approve : SpendPrompt → Bool) (request : List UInt8) (capacity : Nat)
    (s : State) : Response :=
  let t := d.dispatch approve request capacity s
  let bytes := match t.result with
    | .ok reply => StatusMajor.ok.toByte :: reply
    | .error e => e.status.toList.take capacity
  ⟨bytes, t.events, t.state⟩

def reset (s : State) : State := { s with session := none }

end ColdWallet.Device
