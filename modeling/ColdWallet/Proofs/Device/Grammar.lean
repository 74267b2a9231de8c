import ColdWallet.Proofs.Device.Failures
import ColdWallet.Proofs.Device.Invoke
import ColdWallet.Proofs.Wire.Payload

namespace ColdWallet

namespace Request

variable {op : Opcode} {l request : List UInt8} {room capacity : Nat} {r : Request}

/-- What is wrong with the form of a payload that has the bytes of fixed width: it is not as long as
its bytes say, or asks for more vouchers than there may be. -/
def payloadError? (room : Nat) (op : Opcode) (l : List UInt8) : Option DeviceError :=
  if l.length ≠ op.wholeWidth l then some .sizeMismatch
  else if op = .createVouchers ∧ min 16 ((room - 4) / 227) < numberAt l 40 4 then
    some .outputOverflow
  else none

theorem payloadError?_mismatch (h : l.length ≠ op.wholeWidth l) :
    payloadError? room op l = some .sizeMismatch := if_pos h

theorem payloadError?_whole (h : l.length = op.wholeWidth l) (hop : op ≠ .createVouchers) :
    payloadError? room op l = none := by
  unfold payloadError?
  rw [if_neg (not_not.mpr h), if_neg (fun hmany => hop hmany.1)]

/-- Where all that is checked is the length, it is that of the bytes. -/
theorem payloadError?_checked {p : Prop} [Decidable p] (hop : op ≠ .createVouchers)
    (hwhole : p ↔ l.length = op.wholeWidth l) :
    (if ¬p then some DeviceError.sizeMismatch else none) = payloadError? room op l := by
  by_cases hl : l.length = op.wholeWidth l
  · rw [payloadError?_whole hl hop, if_neg (not_not.mpr (hwhole.mpr hl))]
  · rw [payloadError?_mismatch hl, if_pos (fun hp => hl (hwhole.mp hp))]

/-- The handler of a request finds wrong with its form what its payload tells. -/
theorem formError?_payload (room : Nat) (hwidth : op.payloadWidth ≤ l.length)
    (h : ofPayload op l = .ok r) : r.formError? room = payloadError? room op l := by
  cases op with
  | version | slotCount | exportKey | keyImage | createOutput | split | receive | openSend
  | closeSend | sendShielded | showAddress =>
    obtain ⟨hlength, rfl⟩ := map_exact_ok h
    exact Eq.symm (payloadError?_whole hlength nofun)
  | createVouchers =>
    obtain ⟨hlength, rfl⟩ := map_exact_ok h
    have hwhole : l.length = Opcode.createVouchers.wholeWidth l := hlength
    unfold payloadError?
    rw [if_neg (not_not.mpr hwhole)]
    show (if min 16 ((room - 4) / 227) < (CreateVouchers.layout.read l).count.toNat then _
      else _) = _
    rw [CreateVouchers.count_read hlength]
    simp only [true_and]
  | addCoins =>
    obtain ⟨c, hc, hwhole⟩ := ofPayload_addCoins hwidth
    cases hc.symm.trans h
    exact payloadError?_checked nofun hwhole
  | spendShielded =>
    obtain ⟨c, hc, hwhole⟩ := ofPayload_spendShielded hwidth
    cases hc.symm.trans h
    exact payloadError?_checked nofun hwhole

/-- Bytes of fixed width that are no request are too many. -/
theorem ofPayload_error {e : DeviceError} (hwidth : op.payloadWidth ≤ l.length)
    (h : ofPayload op l = .error e) : e = .sizeMismatch ∧ l.length ≠ op.wholeWidth l := by
  cases htailed : op.tailed with
  | false =>
    rw [Opcode.wholeWidth_fixed htailed]
    rcases hwidth.eq_or_lt with hfits | hlong
    · obtain ⟨r, hr⟩ := ofPayload_fits htailed hfits.symm
      cases hr.symm.trans h
    · cases (ofPayload_long htailed hlong).symm.trans h
      exact ⟨rfl, hlong.ne'⟩
  | true =>
    cases op with
    | addCoins =>
      obtain ⟨c, hc, _⟩ := ofPayload_addCoins hwidth
      cases hc.symm.trans h
    | spendShielded =>
      obtain ⟨c, hc, _⟩ := ofPayload_spendShielded hwidth
      cases hc.symm.trans h
    | version | slotCount | exportKey | keyImage | createOutput | split | receive | openSend
    | closeSend | sendShielded | showAddress | createVouchers => cases htailed

/-- What is wrong with the form of a request, given the room for its answer, by the minor status it
is refused with. -/
def fault? (request : List UInt8) (capacity : Nat) : Option UInt8 :=
  match request with
  | [] => some 0xfd
  | byte :: payload =>
    match Opcode.ofByte? byte with
    | none => some 0xff
    | some op =>
      if capacity < 1 + op.answerWidth ∨ payload.length < op.payloadWidth then some 0xfe
      else if payload.length ≠ op.wholeWidth payload then some 0
      else if op = .createVouchers ∧ min 16 ((capacity - 5) / 227) < numberAt payload 40 4 then
        some 1
      else none

example : fault? [Opcode.addCoins.toByte, 0, 1, 0, 0] 1 = some 0 := by decide

theorem formError?_status {e : DeviceError} (h : r.formError? room = some e) :
    e.status.major = .protoError := by
  cases r with
  | version | slotCount | exportKey | keyImage | createOutput | split | receive | openSend
  | closeSend | sendShielded | showAddress => cases h
  | addCoins | createVouchers | spendShielded =>
    obtain ⟨_, he⟩ := Option.ite_none_right_eq_some.mp h
    cases he
    rfl

theorem payloadError?_minor (capacity : Nat) (op : Opcode) (l : List UInt8) :
    (payloadError? (capacity - 1) op l).map (·.status.minor) =
      if l.length ≠ op.wholeWidth l then some 0
      else if op = .createVouchers ∧ min 16 ((capacity - 5) / 227) < numberAt l 40 4 then some 1
      else none := by
  unfold payloadError?
  rw [Nat.sub_sub]
  split
  · rfl
  · split <;> rfl

/-- A fault is found before a request is read, or by what the request says about itself. -/
theorem fault?_cases (request : List UInt8) (capacity : Nat) :
    (∃ e minor, admission request capacity = .error e ∧ e.status = ⟨.protoError, minor⟩ ∧
      fault? request capacity = some minor) ∨
    ∃ r, admission request capacity = .ok r ∧
      fault? request capacity = (r.formError? (capacity - 1)).map (·.status.minor) := by
  cases request with
  | nil => exact Or.inl ⟨_, _, rfl, rfl, rfl⟩
  | cons byte payload =>
    cases hop : Opcode.ofByte? byte with
    | none =>
      refine Or.inl ⟨.unknownOpcode byte, 0xff, ?_, rfl, ?_⟩
      · simp only [admission, hop]
      · simp only [fault?, hop]
    | some op =>
      simp only [admission, fault?, hop]
      by_cases hroom : capacity < 1 + op.answerWidth
      · rw [if_pos hroom, if_pos (Or.inl hroom)]
        exact Or.inl ⟨_, _, rfl, rfl, rfl⟩
      · rw [if_neg hroom]
        rcases lt_or_ge payload.length op.payloadWidth with hshort | hwidth
        · rw [if_pos (Or.inr hshort), ofPayload_short hshort]
          exact Or.inl ⟨_, _, rfl, rfl, rfl⟩
        · rw [if_neg (not_or.mpr ⟨hroom, hwidth.not_gt⟩), ← payloadError?_minor]
          cases hpayload : ofPayload op payload with
          | ok r =>
            rw [← formError?_payload (capacity - 1) hwidth hpayload]
            exact Or.inr ⟨r, rfl, rfl⟩
          | error e =>
            obtain ⟨rfl, hlength⟩ := ofPayload_error hwidth hpayload
            rw [payloadError?_mismatch hlength]
            exact Or.inl ⟨_, _, rfl, rfl, rfl⟩

end Request

namespace Device

def status (d : Device) (approve : SpendPrompt → Bool) (request : List UInt8) (capacity : Nat)
    (s : State) : Status :=
  match (d.dispatch approve request capacity s).result with
  | .ok _ => .success
  | .error e => e.status

section Status

variable {d : Device} {approve : SpendPrompt → Bool} {request : List UInt8} {capacity : Nat}
  {s : State}

theorem status_error {e : DeviceError}
    (h : (d.dispatch approve request capacity s).result = .error e) :
    d.status approve request capacity s = e.status := by
  simp only [status, h]

theorem status_ok {bytes : List UInt8}
    (h : (d.dispatch approve request capacity s).result = .ok bytes) :
    d.status approve request capacity s = .success := by
  simp only [status, h]

/-- The status of a failure is what is sent back, as much of it as fits. -/
theorem status_bytes (h : d.status approve request capacity s ≠ .success) :
    (d.invoke approve request capacity s).bytes =
      (d.status approve request capacity s).toList.take capacity := by
  cases hresult : (d.dispatch approve request capacity s).result with
  | ok bytes => exact absurd (status_ok hresult) h
  | error e => rw [invoke_error hresult, status_error hresult]

theorem status_own {r : Request} (hadmission : Request.admission request capacity = .ok r)
    (hown : (d.answer approve (capacity - 1) r).Own) :
    (d.status approve request capacity s).major ≠ .protoError := by
  cases hanswer : (d.answer approve (capacity - 1) r s).result with
  | ok reply =>
    have hok : (d.dispatch approve request capacity s).result = .ok reply.toList := by
      rw [dispatch_result hadmission, hanswer]
      rfl
    rw [status_ok hok]
    nofun
  | error e =>
    have herror : (d.dispatch approve request capacity s).result = .error e := by
      rw [dispatch_result hadmission, hanswer]
      rfl
    rw [status_error herror]
    exact hown s e hanswer

/-- A fault of form is what the request fails for, and without one it is answered. -/
theorem dispatch_cases (d : Device) (approve : SpendPrompt → Bool) (request : List UInt8)
    (capacity : Nat) (s : State) :
    (∃ e minor, (d.dispatch approve request capacity s).result = .error e ∧
      e.status = ⟨.protoError, minor⟩ ∧ Request.fault? request capacity = some minor) ∨
    ∃ r, Request.admission request capacity = .ok r ∧ Request.fault? request capacity = none ∧
      (d.answer approve (capacity - 1) r).Own := by
  rcases Request.fault?_cases request capacity with
    ⟨e, minor, hrefused, hstatus, hfault⟩ | ⟨r, hadmission, hfault⟩
  · exact Or.inl ⟨e, minor, congrArg Turn.result (dispatch_refused hrefused), hstatus, hfault⟩
  · cases hform : r.formError? (capacity - 1) with
    | none =>
      rw [hform] at hfault
      exact Or.inr ⟨r, hadmission, hfault, answer_formed hform⟩
    | some e =>
      have hstatus : e.status = ⟨.protoError, e.status.minor⟩ := by
        rw [← Request.formError?_status hform]
      have hresult : (d.dispatch approve request capacity s).result = .error e := by
        rw [dispatch_result hadmission, answer_misformed hform]
        rfl
      rw [hform] at hfault
      exact Or.inl ⟨e, _, hresult, hstatus, hfault⟩

/-- The form of a request decides alone on whether, and with which minor status, it is refused with
a protocol error. Every other request is answered with what its handler makes of it, which is no
protocol error. -/
theorem invoke_recognises (d : Device) (approve : SpendPrompt → Bool) (request : List UInt8)
    (capacity : Nat) (s : State) :
    let status := d.status approve request capacity s
    let response := d.invoke approve request capacity s
    (∀ minor, status = ⟨.protoError, minor⟩ ↔ Request.fault? request capacity = some minor) ∧
      (status ≠ .success → response.bytes = status.toList.take capacity) ∧
      (Request.fault? request capacity = none →
        ∃ r, Request.ofList? request = some r ∧
          let t := d.answer approve (capacity - 1) r s
          status.major ≠ .protoError ∧
            response = ⟨answerBytes capacity t.result, t.events, t.state⟩) := by
  intro status response
  refine ⟨?_, status_bytes, ?_⟩
  · intro minor
    rcases dispatch_cases d approve request capacity s with
      ⟨e, minor', hresult, hstatus, hfault⟩ | ⟨r, hadmission, hfault, hown⟩
    · have hminor : status = ⟨.protoError, minor'⟩ := (status_error hresult).trans hstatus
      rw [hminor, hfault, Status.mk.injEq, Option.some.injEq]
      exact ⟨fun h => h.2, fun h => ⟨rfl, h⟩⟩
    · rw [hfault]
      refine ⟨fun hstatus => ?_, nofun⟩
      exact absurd (congrArg Status.major hstatus) (status_own hadmission hown)
  · intro hnone
    rcases dispatch_cases d approve request capacity s with
      ⟨e, minor, _, _, hfault⟩ | ⟨r, hadmission, _, hown⟩
    · rw [hnone] at hfault
      cases hfault
    · exact ⟨r, (Request.admission_ok hadmission).1, status_own hadmission hown,
        invoke_admitted hadmission rfl⟩

end Status

end Device

end ColdWallet
