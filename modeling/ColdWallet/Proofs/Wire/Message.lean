import ColdWallet.Device.Request
import ColdWallet.Proofs.Wire.Layout

namespace ColdWallet

namespace Opcode

theorem ofByte?_toByte (op : Opcode) : ofByte? op.toByte = some op := by
  cases op <;> rfl

end Opcode

namespace Request

def opcode : Request → Opcode
  | version => .version
  | slotCount => .slotCount
  | exportKey _ => .exportKey
  | keyImage _ => .keyImage
  | createOutput _ => .createOutput
  | addCoins _ => .addCoins
  | split _ => .split
  | receive _ => .receive
  | openSend _ => .openSend
  | closeSend _ => .closeSend
  | sendShielded _ => .sendShielded
  | showAddress _ => .showAddress
  | createVouchers _ => .createVouchers
  | spendShielded _ => .spendShielded

def payload : Request → List UInt8
  | version => []
  | slotCount => []
  | exportKey r => ExportKey.layout.write r
  | keyImage r => KeyImage.layout.write r
  | createOutput r => CreateOutput.layout.write r
  | addCoins r => AddCoins.codec.encode r
  | split r => Split.layout.write r
  | receive r => Receive.layout.write r
  | openSend r => OpenSend.layout.write r
  | closeSend r => CloseSend.layout.write r
  | sendShielded r => SendShielded.layout.write r
  | showAddress r => ShowAddress.layout.write r
  | createVouchers r => CreateVouchers.layout.write r
  | spendShielded r => SpendShielded.codec.encode r

def toList (r : Request) : List UInt8 := r.opcode.toByte :: r.payload

def ofList? : List UInt8 → Option Request
  | [] => none
  | byte :: payload => do
    let op ← Opcode.ofByte? byte
    (ofPayload op payload).toOption

theorem exact_write {α : Type} {a : Layout α} (ha : a.Lawful) (v : α) :
    exact a (a.write v) = .ok v := by
  unfold exact
  rw [ha.length, if_neg (lt_irrefl _), if_neg (lt_irrefl _), ha.read]

/-- A request of fixed width is read back from its bytes. -/
theorem map_exact_write {α : Type} {a : Layout α} (ha : a.Lawful) (f : α → Request) (v : α) :
    (exact a (a.write v)).map f = .ok (f v) := by
  rw [exact_write ha]
  rfl

theorem ofPayload_payload (r : Request) : ofPayload r.opcode r.payload = .ok r := by
  cases r with
  | version => rfl
  | slotCount => rfl
  | exportKey r => exact map_exact_write ExportKey.layout_exact.toLawful exportKey r
  | keyImage r => exact map_exact_write KeyImage.layout_exactBut.toLawful keyImage r
  | createOutput r => exact map_exact_write CreateOutput.layout_exact.toLawful createOutput r
  | addCoins r => rfl
  | split r => exact map_exact_write Split.layout_exact.toLawful split r
  | receive r => exact map_exact_write Receive.layout_exact.toLawful receive r
  | openSend r => exact map_exact_write OpenSend.layout_exact.toLawful openSend r
  | closeSend r => exact map_exact_write CloseSend.layout_exact.toLawful closeSend r
  | sendShielded r => exact map_exact_write SendShielded.layout_exact.toLawful sendShielded r
  | showAddress r => exact map_exact_write ShowAddress.layout_exact.toLawful showAddress r
  | createVouchers r => exact map_exact_write CreateVouchers.layout_exact.toLawful createVouchers r
  | spendShielded r =>
    have h : SpendShielded.codec.decode (SpendShielded.codec.encode r) = .ok (r, []) := by
      simp only [SpendShielded.codec, SpendFields.layout_exact.decode_append]
      rfl
    simp only [opcode, payload, ofPayload, tailed, h]
    rfl

theorem ofList?_toList (r : Request) : ofList? r.toList = some r := by
  simp only [toList, ofList?, Opcode.ofByte?_toByte, Option.bind_eq_bind, Option.bind_some,
    ofPayload_payload]
  rfl

/-- What is mapped into the requests of one opcode has that opcode. -/
theorem opcode_of_map {α : Type} {x : Except DeviceError α} {f : α → Request} {op : Opcode}
    {r : Request} (hf : ∀ v, (f v).opcode = op) (h : x.map f = .ok r) : r.opcode = op := by
  cases x with
  | error e => cases h
  | ok v =>
    cases h
    exact hf v

theorem opcode_of_ofPayload {op : Opcode} {l : List UInt8} {r : Request}
    (h : ofPayload op l = .ok r) : r.opcode = op := by
  cases op <;> exact opcode_of_map (fun _ => rfl) h

end Request

end ColdWallet
