import ColdWallet.Proofs.Device.Effect
import ColdWallet.Proofs.Wire.Message
import ColdWallet.Proofs.Wire.RoundTrip

namespace ColdWallet

/-- The request in these bytes, for an answer of so many bytes. -/
def Request.admission (request : List UInt8) (capacity : Nat) : Except DeviceError Request :=
  match request with
  | [] => .error .emptyRequest
  | byte :: payload =>
    match Opcode.ofByte? byte with
    | none => .error (.unknownOpcode byte)
    | some op => if capacity < 1 + op.answerWidth then .error .tooShort else ofPayload op payload

namespace Request

theorem admission_ok {request : List UInt8} {capacity : Nat} {r : Request}
    (h : admission request capacity = .ok r) :
    ofList? request = some r ∧ 1 + r.opcode.answerWidth ≤ capacity := by
  cases request with
  | nil => cases h
  | cons byte payload =>
    simp only [admission] at h
    cases hop : Opcode.ofByte? byte with
    | none =>
      rw [hop] at h
      cases h
    | some op =>
      simp only [hop] at h
      split at h
      · cases h
      · rw [opcode_of_ofPayload h]
        refine ⟨?_, by omega⟩
        simp only [ofList?, hop, Option.bind_eq_bind, Option.bind_some, h]
        rfl

/-- A request that can be read is admitted wherever the shortest reply to it has room. -/
theorem admission_eq {request : List UInt8} {r : Request} (h : ofList? request = some r)
    (capacity : Nat) :
    admission request capacity =
      if capacity < 1 + r.opcode.answerWidth then .error .tooShort else .ok r := by
  cases request with
  | nil => cases h
  | cons byte payload =>
    obtain ⟨op, hop, hpayload⟩ := Option.bind_eq_some_iff.mp h
    have hread : ofPayload op payload = .ok r := by
      cases hresult : ofPayload op payload with
      | ok r' =>
        rw [hresult] at hpayload
        exact congrArg Except.ok (Option.some.inj hpayload)
      | error e =>
        rw [hresult] at hpayload
        cases hpayload
    simp only [admission, hop, opcode_of_ofPayload hread, hread]

theorem admission_of_ofList? {request : List UInt8} {capacity : Nat} {r : Request}
    (h : ofList? request = some r) (hcapacity : 1 + r.opcode.answerWidth ≤ capacity) :
    admission request capacity = .ok r := by
  rw [admission_eq h, if_neg (Nat.not_lt.mpr hcapacity)]

theorem admission_toList {r : Request} {capacity : Nat} (h : 1 + r.opcode.answerWidth ≤ capacity) :
    admission r.toList capacity = .ok r :=
  admission_of_ofList? (ofList?_toList r) h

end Request

namespace Act

variable {α β : Type} {x : Act α} {s : State}

theorem wrap_result {g : α → β} {b : β}
    (h : ((x >>= fun a => (pure (g a) : Act β)) s).result = .ok b) :
    ∃ a, (x s).result = .ok a ∧ g a = b := by
  cases hx : (x s).result with
  | error e =>
    rw [bind_error _ (show x s = ⟨.error e, (x s).events, (x s).state⟩ by rw [← hx])] at h
    cases h
  | ok a =>
    rw [wrap_ok g (show x s = ⟨.ok a, (x s).events, (x s).state⟩ by rw [← hx])] at h
    cases h
    exact ⟨a, rfl, rfl⟩

end Act

theorem DeviceError.status_major_ne (e : DeviceError) : e.status.major ≠ .ok := by
  cases e <;> nofun

/-- The record that a request of this opcode is answered with. Vouchers come in a batch instead. -/
def Opcode.reply? : Opcode → Option Record
  | version => some .version
  | slotCount => some .slotCount
  | exportKey => some .exportedKey
  | keyImage => some .keyImages
  | createOutput => some .createdOutput
  | addCoins => some .empty
  | split => some .signedKernel
  | receive => some .received
  | openSend => some .openedSend
  | closeSend => some .closedSend
  | sendShielded => some .signedKernel
  | showAddress => some .empty
  | createVouchers => none
  | spendShielded => some .spentShielded

theorem Opcode.reply?_width {op : Opcode} {record : Record} (h : op.reply? = some record) :
    record.format.width = op.answerWidth := by
  cases op <;> cases h <;> rfl

/-- The bytes of a reply: the record of the request's opcode, or as many vouchers as were asked
for. Of these no more are given than one answer may hold and than there is room for. -/
inductive Request.Replied (room : Nat) : Request → List UInt8 → Prop
  | record {r : Request} (record : Record) (h : r.opcode.reply? = some record)
      (v : record.format.Value) : Replied room r (record.format.layout.write v)
  | vouchers {c : CreateVouchers} {v : Vouchers} : v.list.length = c.count.toNat →
      c.count.toNat ≤ min maxVouchers ((room - Vouchers.countWidth) / Voucher.layout.width) →
      Replied room (.createVouchers c) (Vouchers.codec.encode v)

theorem Request.Replied.length_le {room : Nat} {r : Request} {l : List UInt8}
    (h : r.Replied room l) (hroom : r.opcode.answerWidth ≤ room) : l.length ≤ room := by
  cases h with
  | record record hreply v =>
    have hsound := record.format_sound
    rw [hsound.lawful.length, hsound.layout_width, Opcode.reply?_width hreply]
    exact hroom
  | @vouchers c v hcount hfew =>
    have hlead : Vouchers.countWidth ≤ room := (Nat.le_add_right _ _).trans hroom
    have hfit : c.count.toNat * Voucher.layout.width ≤ room - Vouchers.countWidth :=
      (Nat.mul_le_mul_right _ (hfew.trans (Nat.min_le_right _ _))).trans
        (Nat.div_mul_le_self _ Voucher.layout.width)
    simp only [Vouchers.codec, List.length_append, length_littleEndian,
      Voucher.layout_exact.length_flatMap, hcount]
    omega

namespace Device

variable {d : Device} {approve : SpendPrompt → Bool} {room capacity : Nat} {s : State}
  {request : List UInt8} {r : Request}

theorem length_batch (viewer : Viewer) (sk : Scalar) (count : Nat) (nonce : Bytes 32) :
    (Voucher.batch viewer sk count nonce).length = count := by
  induction count generalizing nonce with
  | zero => rfl
  | succ count ih => rw [Voucher.batch, List.length_cons, ih]

theorem createVouchers_replied {c : CreateVouchers} {v : Vouchers}
    (h : d.createVouchers ((room - Vouchers.countWidth) / Voucher.layout.width) c = .ok v) :
    Request.Replied room (.createVouchers c) (Vouchers.codec.encode v) := by
  unfold createVouchers at h
  split at h
  · cases h
  · next hfew =>
    cases h
    exact .vouchers (length_batch _ _ _ _) (Nat.not_lt.mp hfew)

/-- Every success is answered with the reply that its request asks for. -/
theorem answer_replied {reply : Reply} (h : (d.answer approve room r s).result = .ok reply) :
    r.Replied room reply.toList := by
  cases r with
  | version =>
    cases h
    exact .record .version rfl Version.current
  | slotCount =>
    cases h
    exact .record .slotCount rfl (⟨d.policy.slots⟩ : SlotCount)
  | exportKey r =>
    cases h
    exact .record .exportedKey rfl (d.exportKey r)
  | keyImage r =>
    obtain ⟨a, _, rfl⟩ := Act.wrap_result h
    exact .record .keyImages rfl a
  | createOutput r =>
    obtain ⟨a, _, rfl⟩ := Act.wrap_result h
    exact .record .createdOutput rfl a
  | addCoins r =>
    obtain ⟨a, _, rfl⟩ := Act.wrap_result (g := fun _ => Reply.done) h
    exact .record .empty rfl ()
  | split r =>
    obtain ⟨a, _, rfl⟩ := Act.wrap_result h
    exact .record .signedKernel rfl a
  | receive r =>
    simp only [answer] at h
    cases hb : s.session with
    | none =>
      rw [Act.bind_error _ (Act.ledger_run_none hb)] at h
      cases h
    | some b =>
      rw [Act.bind_quiet _ (Act.ledger_run hb)] at h
      obtain ⟨a, _, rfl⟩ := Act.wrap_result h
      exact .record .received rfl a
  | openSend r =>
    obtain ⟨a, _, rfl⟩ := Act.wrap_result h
    exact .record .openedSend rfl a
  | closeSend r =>
    obtain ⟨a, _, rfl⟩ := Act.wrap_result h
    exact .record .closedSend rfl a
  | sendShielded r =>
    obtain ⟨a, _, rfl⟩ := Act.wrap_result h
    exact .record .signedKernel rfl a
  | showAddress r =>
    cases h
    exact .record .empty rfl ()
  | createVouchers r =>
    obtain ⟨v, hv, rfl⟩ := Act.wrap_result h
    exact createVouchers_replied hv
  | spendShielded r =>
    obtain ⟨a, _, rfl⟩ := Act.wrap_result h
    exact .record .spentShielded rfl a

/-- A reply has room wherever the shortest reply to its request has. -/
theorem answer_length {reply : Reply} (h : (d.answer approve room r s).result = .ok reply)
    (hroom : r.opcode.answerWidth ≤ room) : reply.toList.length ≤ room :=
  (answer_replied h).length_le hroom

/-- A request that is refused on its bytes does nothing else. -/
theorem dispatch_refused {e : DeviceError} (h : Request.admission request capacity = .error e) :
    d.dispatch approve request capacity s = ⟨.error e, [], s⟩ := by
  unfold dispatch
  unfold Request.admission at h
  cases request with
  | nil =>
    cases h
    rfl
  | cons byte payload =>
    simp only at h ⊢
    cases hop : Opcode.ofByte? byte with
    | none =>
      simp only [hop] at h ⊢
      cases h
      rfl
    | some op =>
      simp only [hop] at h ⊢
      split at h
      · next hshort =>
        rw [if_pos hshort]
        cases h
        rfl
      · next hshort =>
        rw [if_neg hshort, h]
        exact Act.bind_error _ (Act.ofExcept_run _ s)

theorem invoke_ok {bytes : List UInt8}
    (h : (d.dispatch approve request capacity s).result = .ok bytes) :
    (d.invoke approve request capacity s).bytes = 0 :: bytes := by
  simp only [invoke, h]
  rfl

theorem invoke_error {e : DeviceError}
    (h : (d.dispatch approve request capacity s).result = .error e) :
    (d.invoke approve request capacity s).bytes = e.status.toList.take capacity := by
  simp only [invoke, h]

theorem invoke_refused {e : DeviceError} (h : Request.admission request capacity = .error e) :
    d.invoke approve request capacity s = ⟨e.status.toList.take capacity, [], s⟩ := by
  unfold invoke
  simp only [dispatch_refused h]

def answerBytes (capacity : Nat) : Except DeviceError Reply → List UInt8
  | .ok reply => StatusMajor.ok.toByte :: reply.toList
  | .error e => e.status.toList.take capacity

/-- A status fits wherever there are two bytes for it. -/
theorem answerBytes_error {capacity : Nat} (e : DeviceError) (h : 2 ≤ capacity) :
    answerBytes capacity (.error e) = e.status.toList :=
  List.take_of_length_le h

theorem dispatch_admitted (h : Request.admission request capacity = .ok r) :
    d.dispatch approve request capacity s =
      (d.answer approve (capacity - 1) r >>= fun reply =>
        Act.ofExcept (encodeReply (capacity - 1) reply)) s := by
  unfold dispatch
  unfold Request.admission at h
  cases request with
  | nil => cases h
  | cons byte payload =>
    simp only at h ⊢
    cases hop : Opcode.ofByte? byte with
    | none =>
      simp only [hop] at h
      cases h
    | some op =>
      simp only [hop] at h ⊢
      split at h
      · cases h
      · next hshort =>
        rw [if_neg hshort, h, Act.bind_quiet _ (Act.ofExcept_run _ s)]

/-- Where the shortest reply to a request has room, its reply is written in full. -/
theorem encodeReply_answer {reply : Reply} (h : (d.answer approve room r s).result = .ok reply)
    (hroom : r.opcode.answerWidth ≤ room) : encodeReply room reply = .ok reply.toList := by
  rw [encodeReply, if_neg (Nat.not_lt.mpr (answer_length h hroom))]

theorem dispatch_answered (h : Request.admission request capacity = .ok r)
    {y : Except DeviceError Reply} {events : List Event} {t : State}
    (hanswer : d.answer approve (capacity - 1) r s = ⟨y, events, t⟩) :
    d.dispatch approve request capacity s = ⟨y.map Reply.toList, events, t⟩ := by
  rw [dispatch_admitted h]
  cases y with
  | error e => exact Act.bind_error _ hanswer
  | ok reply =>
    have hroom : r.opcode.answerWidth ≤ capacity - 1 := by
      have := (Request.admission_ok h).2
      omega
    have hencode := encodeReply_answer (congrArg Turn.result hanswer) hroom
    rw [Act.bind_run hanswer (Act.ofExcept_run _ t), hencode, List.append_nil]
    rfl

theorem dispatch_result (h : Request.admission request capacity = .ok r) :
    (d.dispatch approve request capacity s).result =
      (d.answer approve (capacity - 1) r s).result.map Reply.toList :=
  congrArg Turn.result (dispatch_answered h rfl)

theorem invoke_admitted (h : Request.admission request capacity = .ok r)
    {y : Except DeviceError Reply} {events : List Event} {t : State}
    (hanswer : d.answer approve (capacity - 1) r s = ⟨y, events, t⟩) :
    d.invoke approve request capacity s = ⟨answerBytes capacity y, events, t⟩ := by
  unfold invoke
  rw [dispatch_answered h hanswer]
  cases y <;> rfl

/-- Whether an answer opens with the status of success. -/
def accepted (bytes : List UInt8) : Bool := bytes.head? == some StatusMajor.ok.toByte

theorem accepted_cons {bytes l : List UInt8} (h : bytes = StatusMajor.ok.toByte :: l) :
    accepted bytes = true := by
  rw [h]
  rfl

theorem accepted_error (capacity : Nat) (e : DeviceError) :
    accepted (answerBytes capacity (.error e)) = false := by
  cases capacity with
  | zero => rfl
  | succ capacity =>
    have hmajor : e.status.major.toByte ≠ StatusMajor.ok.toByte := by
      cases e <;> nofun
    simpa [accepted, answerBytes, Status.toList] using hmajor

theorem accepted_answerBytes (capacity : Nat) (y : Except DeviceError Reply) :
    accepted (answerBytes capacity y) = true ↔ ∃ reply, y = .ok reply := by
  cases y with
  | ok reply => exact ⟨fun _ => ⟨reply, rfl⟩, fun _ => rfl⟩
  | error e =>
    rw [accepted_error]
    exact ⟨nofun, nofun⟩

/-- What was answered with success was admitted, and its handler succeeded. -/
theorem accepted_answer (h : accepted (d.invoke approve request capacity s).bytes = true) :
    ∃ r reply events t, Request.ofList? request = some r ∧
      d.answer approve (capacity - 1) r s = ⟨.ok reply, events, t⟩ ∧
      d.invoke approve request capacity s =
        ⟨StatusMajor.ok.toByte :: reply.toList, events, t⟩ := by
  cases hadmission : Request.admission request capacity with
  | error e =>
    rw [invoke_refused hadmission] at h
    exact absurd h (Bool.eq_false_iff.mp (accepted_error capacity e))
  | ok r =>
    obtain ⟨y, events, t, hanswer⟩ : ∃ y events t,
        d.answer approve (capacity - 1) r s = ⟨y, events, t⟩ := ⟨_, _, _, rfl⟩
    have hinvoke := invoke_admitted hadmission hanswer
    rw [hinvoke] at h
    obtain ⟨reply, rfl⟩ := (accepted_answerBytes capacity y).mp h
    exact ⟨r, reply, events, t, (Request.admission_ok hadmission).1, hanswer, hinvoke⟩

/-- An accepted answer is the reply of an admitted request. -/
theorem accepted_effect (h : accepted (d.invoke approve request capacity s).bytes = true) :
    ∃ r reply events u, Request.ofList? request = some r ∧
      Effect d approve s r ⟨.ok reply, events, u⟩ ∧
      d.invoke approve request capacity s =
        ⟨StatusMajor.ok.toByte :: reply.toList, events, u⟩ := by
  obtain ⟨r, reply, events, u, hr, hanswer, hinvoke⟩ := accepted_answer h
  have heffect := answer_effect d approve (capacity - 1) r s
  rw [hanswer] at heffect
  exact ⟨r, reply, events, u, hr, heffect, hinvoke⟩

/-- Every answer is that of a request refused on its bytes, or of an admitted one. -/
theorem invoke_cases (d : Device) (approve : SpendPrompt → Bool) (request : List UInt8)
    (capacity : Nat) (s : State) :
    (∃ e, d.invoke approve request capacity s = ⟨answerBytes capacity (.error e), [], s⟩) ∨
    ∃ r t, Request.ofList? request = some r ∧ Effect d approve s r t ∧
      d.invoke approve request capacity s = ⟨answerBytes capacity t.result, t.events, t.state⟩ := by
  cases h : Request.admission request capacity with
  | error e => exact Or.inl ⟨e, invoke_refused h⟩
  | ok r =>
    exact Or.inr ⟨r, _, (Request.admission_ok h).1, answer_effect d approve (capacity - 1) r s,
      invoke_admitted h rfl⟩

end Device

end ColdWallet
