import ColdWallet.Proofs.Device.Invoke

namespace ColdWallet

theorem StatusMajor.toByte_mem {major : StatusMajor} (h : major ≠ .ok) :
    major.toByte ∈ [1, 2, 3] := by
  cases major with
  | ok => exact absurd rfl h
  | unspecified | userAbort | protoError => decide

/-- Bytes that are read back in full as what a request is answered with. -/
structure Request.ReadBack (r : Request) (l : List UInt8) : Prop where
  record (record : Record) : r.opcode.reply? = some record →
    l.length = record.format.width ∧
      ∃ v, l = record.format.layout.codec.encode v ∧
        record.format.layout.codec.decode l = .ok (v, [])
  vouchers (c : CreateVouchers) : r = .createVouchers c →
    l.length = 4 + 227 * c.count.toNat ∧
      ∃ v : Vouchers, v.list.length = c.count.toNat ∧ l = Vouchers.codec.encode v ∧
        Vouchers.codec.decode l = .ok (v, [])

theorem Request.Replied.readBack {room : Nat} {r : Request} {l : List UInt8}
    (h : r.Replied room l) : r.ReadBack l := by
  cases h with
  | record record hreply v =>
    have hsound := record.format_sound
    refine ⟨fun record' hreply' => ?_, ?_⟩
    · obtain rfl : record = record' := Option.some.inj (hreply.symm.trans hreply')
      have hdecode := hsound.lawful.decode_append v []
      rw [List.append_nil] at hdecode
      exact ⟨(hsound.lawful.length v).trans hsound.layout_width, v, rfl, hdecode⟩
    · rintro c rfl
      cases hreply
  | @vouchers c v hcount hfew =>
    refine ⟨nofun, fun c' hc => ?_⟩
    cases hc
    have hmax : v.list.length ≤ maxVouchers := by
      rw [hcount]
      exact hfew.trans (Nat.min_le_left _ _)
    refine ⟨?_, v, hcount, rfl, ?_⟩
    · rw [Vouchers.length_encode, hcount, Nat.mul_comm]
    · exact Vouchers.decode_iff.mpr ⟨hmax, (List.append_nil _).symm⟩

section Buffer

/-- The difference of two lengths, unless it falls below zero. -/
def lengthLess? (n k : Nat) : Option Nat := if k ≤ n then some (n - k) else none

/-- What an answer leaves in its buffer, and how much of the buffer it is. -/
structure Filled where
  buffer : List UInt8
  length : Nat
  events : List Event
  state : State

namespace Device

/-- The turn of a request that is handled over a buffer. There is none if the buffer has no place
for a status when the reply needs one, or less room than a batch of vouchers is led by. -/
def turnInto? (d : Device) (approve : SpendPrompt → Bool) (request buffer : List UInt8)
    (s : State) : Option (Turn (List UInt8)) :=
  match request with
  | [] => some (Act.fail .emptyRequest s)
  | byte :: payload =>
    match Opcode.ofByte? byte with
    | none => some (Act.fail (.unknownOpcode byte) s)
    | some op =>
      if buffer.length < 1 + op.answerWidth then some (Act.fail .tooShort s)
      else do
        let out ← sliceFrom? buffer 1
        if op = .createVouchers then
          let _ ← lengthLess? out.length Vouchers.countWidth
        let act : Act (List UInt8) := do
          let request ← Act.ofExcept (Request.ofPayload op payload)
          let reply ← d.answer approve out.length request
          Act.ofExcept (encodeReply out.length reply)
        return act s

/-- Handles a request and writes the answer into a buffer, in place. There is no outcome if a slice
leaves the buffer or a length falls below zero. -/
def invokeInto? (d : Device) (approve : SpendPrompt → Bool) (request buffer : List UInt8)
    (s : State) : Option Filled := do
  let t ← d.turnInto? approve request buffer s
  match t.result with
  | .ok reply =>
    let out ← overwrite? (← sliceFrom? buffer 1) reply
    return ⟨StatusMajor.ok.toByte :: out, 1 + reply.length, t.events, t.state⟩
  | .error e =>
    let status := e.status.toList
    let n := min status.length buffer.length
    let filled ← overwrite? buffer (status.take n)
    return ⟨filled, n, t.events, t.state⟩

end Device

end Buffer

namespace Device

variable {d : Device} {approve : SpendPrompt → Bool} {request buffer : List UInt8} {s : State}
  {capacity : Nat} {r : Request}

/-- The check of the shortest reply comes before everything that it makes safe. -/
theorem turnInto?_eq (d : Device) (approve : SpendPrompt → Bool) (request buffer : List UInt8)
    (s : State) :
    d.turnInto? approve request buffer s =
      some (d.dispatch approve request buffer.length s) := by
  unfold turnInto? dispatch
  cases request with
  | nil => rfl
  | cons byte payload =>
    simp only
    cases Opcode.ofByte? byte with
    | none => rfl
    | some op =>
      simp only
      by_cases hshort : buffer.length < 1 + op.answerWidth
      · rw [if_pos hshort, if_pos hshort]
      · rw [if_neg hshort, if_neg hshort, sliceFrom?_inside (by omega)]
        simp only [Option.bind_eq_bind, Option.bind_some, List.length_drop]
        by_cases hvouchers : op = .createVouchers
        · subst hvouchers
          have hroom : Vouchers.countWidth ≤ buffer.length - 1 := by
            have : Opcode.createVouchers.answerWidth = Vouchers.countWidth := rfl
            omega
          rw [if_pos rfl, lengthLess?, if_pos hroom]
          rfl
        · rw [if_neg hvouchers]
          rfl

theorem dispatch_ok {bytes : List UInt8}
    (h : (d.dispatch approve request capacity s).result = .ok bytes) :
    ∃ r reply, Request.ofList? request = some r ∧ 1 + r.opcode.answerWidth ≤ capacity ∧
      (d.answer approve (capacity - 1) r s).result = .ok reply ∧ reply.toList = bytes := by
  cases hadmission : Request.admission request capacity with
  | error e =>
    rw [dispatch_refused hadmission] at h
    cases h
  | ok r =>
    obtain ⟨hrequest, hroom⟩ := Request.admission_ok hadmission
    rw [dispatch_result hadmission] at h
    cases hanswer : (d.answer approve (capacity - 1) r s).result with
    | error e =>
      rw [hanswer] at h
      cases h
    | ok reply =>
      rw [hanswer] at h
      exact ⟨r, reply, hrequest, hroom, hanswer, Except.ok.inj h⟩

theorem dispatch_length {bytes : List UInt8}
    (h : (d.dispatch approve request capacity s).result = .ok bytes) :
    1 + bytes.length ≤ capacity := by
  obtain ⟨r, reply, _, hroom, hanswer, rfl⟩ := dispatch_ok h
  have := answer_length hanswer (by omega)
  omega

theorem dispatch_readBack {bytes : List UInt8}
    (h : (d.dispatch approve request capacity s).result = .ok bytes) :
    ∃ r, Request.ofList? request = some r ∧ r.ReadBack bytes := by
  obtain ⟨r, reply, hrequest, _, hanswer, rfl⟩ := dispatch_ok h
  exact ⟨r, hrequest, (answer_replied hanswer).readBack⟩

/-- An answer is written into every buffer of its capacity, and the rest of the buffer is left. -/
theorem invokeInto?_eq (d : Device) (approve : SpendPrompt → Bool) (request buffer : List UInt8)
    (s : State) :
    let response := d.invoke approve request buffer.length s
    d.invokeInto? approve request buffer s =
      some ⟨response.bytes ++ buffer.drop response.bytes.length, response.bytes.length,
        response.events, response.state⟩ := by
  unfold invokeInto? invoke
  rw [turnInto?_eq]
  simp only [Option.bind_eq_bind, Option.bind_some]
  cases hresult : (d.dispatch approve request buffer.length s).result with
  | ok reply =>
    have hlength := dispatch_length hresult
    have hfits : reply.length ≤ (buffer.drop 1).length := by
      rw [List.length_drop]
      omega
    simp only [sliceFrom?_inside (show 1 ≤ buffer.length by omega), overwrite?_fits hfits,
      Option.bind_some, List.drop_drop, List.length_cons, Nat.add_comm reply.length 1]
    rfl
  | error e =>
    have hlength : min e.status.toList.length buffer.length =
        (e.status.toList.take buffer.length).length := by
      rw [List.length_take, Nat.min_comm]
    have htake : e.status.toList.take (e.status.toList.take buffer.length).length =
        e.status.toList.take buffer.length := by
      rw [← hlength, Nat.min_comm, ← List.take_take, List.take_length]
    have hfits : (e.status.toList.take buffer.length).length ≤ buffer.length := by
      rw [List.length_take]
      omega
    simp only [hlength, htake, overwrite?_fits hfits, Option.bind_some]
    rfl

/-- The reply to every request but one has a single width, which is the one that was asked room
for. -/
theorem answer_width {room : Nat} {reply : Reply}
    (h : (d.answer approve room r s).result = .ok reply) (hone : r.opcode ≠ .createVouchers) :
    reply.toList.length = r.opcode.answerWidth := by
  have hreplied := answer_replied h
  generalize reply.toList = l at hreplied
  cases hreplied with
  | record record hreply v =>
    have hsound := record.format_sound
    rw [hsound.lawful.length, hsound.layout_width, Opcode.reply?_width hreply]
  | vouchers => exact absurd rfl hone

/-- Every answer is well formed, and in place it stays inside its buffer. It is as much of the
status of a failure as there is room for, or the status of success and the reply to the request,
read back in full and with nothing after it. Once the shortest reply has room, every reply does. -/
theorem invoke_well_formed (d : Device) (approve : SpendPrompt → Bool) (request : List UInt8)
    (capacity : Nat) (s : State) :
    let response := d.invoke approve request capacity s
    response.bytes.length ≤ capacity ∧
      (∀ buffer : List UInt8, buffer.length = capacity →
        d.invokeInto? approve request buffer s =
          some ⟨response.bytes ++ buffer.drop response.bytes.length, response.bytes.length,
            response.events, response.state⟩) ∧
      ((∃ e, (d.dispatch approve request capacity s).result = .error e ∧
          e.status.major.toByte ∈ [1, 2, 3] ∧ response.bytes.length = min capacity 2 ∧
          response.bytes = [e.status.major.toByte, e.status.minor].take capacity) ∨
        ∃ r reply, Request.ofList? request = some r ∧ response.bytes = 0 :: reply ∧
          r.ReadBack reply) ∧
      ∀ r reply, 1 + r.opcode.answerWidth ≤ capacity →
        (d.answer approve (capacity - 1) r s).result = .ok reply →
        encodeReply (capacity - 1) reply = .ok reply.toList ∧
          (r.opcode ≠ .createVouchers → reply.toList.length = r.opcode.answerWidth) := by
  intro response
  have hplaced : ∀ buffer : List UInt8, buffer.length = capacity →
      d.invokeInto? approve request buffer s =
        some ⟨response.bytes ++ buffer.drop response.bytes.length, response.bytes.length,
          response.events, response.state⟩ := by
    rintro buffer rfl
    exact invokeInto?_eq d approve request buffer s
  have hencoded : ∀ r reply, 1 + r.opcode.answerWidth ≤ capacity →
      (d.answer approve (capacity - 1) r s).result = .ok reply →
      encodeReply (capacity - 1) reply = .ok reply.toList ∧
        (r.opcode ≠ .createVouchers → reply.toList.length = r.opcode.answerWidth) := by
    intro r reply hroom hanswer
    exact ⟨encodeReply_answer hanswer (by omega), answer_width hanswer⟩
  cases hresult : (d.dispatch approve request capacity s).result with
  | error e =>
    have hbytes : response.bytes = [e.status.major.toByte, e.status.minor].take capacity :=
      invoke_error hresult
    have hlength : response.bytes.length = min capacity 2 := by
      rw [hbytes, List.length_take]
      rfl
    have hmajor : e.status.major.toByte ∈ [1, 2, 3] :=
      StatusMajor.toByte_mem e.status_major_ne
    exact ⟨hlength.trans_le (Nat.min_le_left _ _), hplaced,
      Or.inl ⟨e, rfl, hmajor, hlength, hbytes⟩, hencoded⟩
  | ok bytes =>
    have hbytes : response.bytes = 0 :: bytes := invoke_ok hresult
    obtain ⟨r, hrequest, hread⟩ := dispatch_readBack hresult
    have hlength : response.bytes.length ≤ capacity := by
      rw [hbytes, List.length_cons, Nat.add_comm]
      exact dispatch_length hresult
    exact ⟨hlength, hplaced, Or.inr ⟨r, bytes, hrequest, hbytes, hread⟩, hencoded⟩

end Device

end ColdWallet
