import ColdWallet.Proofs.Device.Ledger

namespace ColdWallet

def Opcode.ofKeys : Opcode → Bool
  | exportKey => true
  | keyImage => true
  | createOutput => true
  | createVouchers => true
  | spendShielded => true
  | _ => false

/-- A fee was counted, up to the largest there is, and nothing else of the balance changed. -/
def Ledger.Counts (b : Ledger) (fee : UInt64) (b' : Ledger) : Prop :=
  b'.totalFees.toNat = min (2 ^ 64 - 1) (b.totalFees.toNat + fee.toNat) ∧
    b' = { b with totalFees := b'.totalFees }

theorem Ledger.counts_settle (b : Ledger) (fee : UInt64) : b.Counts fee (b.settle fee) :=
  ⟨saturatingAdd_toNat b.totalFees fee, rfl⟩

/-- What an accepted request makes of the state. Only coins change the sums of the balance, and only
a closed send writes a slot, its own, with 32 random bytes. -/
def Request.Moves (d : Device) (s u : State) : Request → Prop
  | addCoins r => ∃ b, (Device.opening r s).addCoins d.master d.policy r = .ok b ∧
      u = { s with session := some b }
  | split r => ∃ b b', s.session = some b ∧ b.Counts r.kernel.fee b' ∧
      u = { s with session := some b' }
  | sendShielded r => ∃ b b', s.session = some b ∧ b.Counts r.kernel.fee b' ∧
      u = { s with session := some b' }
  | closeSend r => ∃ b b', s.session = some b ∧ b.Counts r.kernel.fee b' ∧
      u = {
        session := some b'
        slots := fun i => if i = r.slot then d.draw s.drawn else s.slots i
        drawn := s.drawn + 32 }
  | _ => u = s

namespace Opcode

theorem toByte_of_ofByte? {byte : UInt8} {op : Opcode} (h : ofByte? byte = some op) :
    op.toByte = byte := by
  have hfound := List.find?_some h
  exact of_decide_eq_true hfound

theorem toByte_injective : Function.Injective toByte := by
  intro op op' h
  have hfound := ofByte?_toByte op
  rw [h, ofByte?_toByte] at hfound
  exact (Option.some.inj hfound).symm

end Opcode

namespace Request

theorem head?_of_ofList? {request : List UInt8} {r : Request} (h : ofList? request = some r) :
    request.head? = some r.opcode.toByte := by
  cases request with
  | nil => cases h
  | cons byte payload =>
    obtain ⟨op, hop, hpayload⟩ := Option.bind_eq_some_iff.mp h
    cases hr : ofPayload op payload with
    | error e =>
      rw [hr] at hpayload
      cases hpayload
    | ok r' =>
      rw [hr] at hpayload
      cases hpayload
      rw [opcode_of_ofPayload hr, Opcode.toByte_of_ofByte? hop, List.head?_cons]

theorem tailed_addCoins (l : List UInt8) :
    (AddCoins.headerWidth ≤ l.length ∧ ∃ r, tailed AddCoins.codec l = .ok r) ∨
      (l.length < AddCoins.headerWidth ∧ tailed AddCoins.codec l = .error .tooShort) := by
  match l with
  | reset :: inputs :: outputs :: shielded :: payload =>
    exact Or.inl ⟨Nat.le_add_left 4 payload.length, _, rfl⟩
  | [] => exact Or.inr ⟨by decide, rfl⟩
  | [_] => exact Or.inr ⟨by show 1 < 4; decide, rfl⟩
  | [_, _] => exact Or.inr ⟨by show 2 < 4; decide, rfl⟩
  | [_, _, _] => exact Or.inr ⟨by show 3 < 4; decide, rfl⟩

/-- Coins are admitted with a whole header and room for a status. -/
theorem admission_addCoins (payload : List UInt8) (capacity : Nat) :
    if AddCoins.headerWidth ≤ payload.length ∧ 1 ≤ capacity then
      ∃ r, admission (Opcode.addCoins.toByte :: payload) capacity = .ok (.addCoins r)
    else ∃ e, admission (Opcode.addCoins.toByte :: payload) capacity = .error e := by
  have hwidth : 1 + Opcode.addCoins.answerWidth = 1 := rfl
  simp only [admission, Opcode.ofByte?_toByte, ofPayload]
  rcases tailed_addCoins payload with ⟨hlength, r, hr⟩ | ⟨hlength, hr⟩
  · by_cases hcapacity : 1 ≤ capacity
    · rw [if_pos ⟨hlength, hcapacity⟩, if_neg (by omega), hr]
      exact ⟨r, rfl⟩
    · rw [if_neg (fun h => hcapacity h.2), if_pos (by omega)]
      exact ⟨_, rfl⟩
  · rw [if_neg (fun h => Nat.not_le.mpr hlength h.1), hr]
    split
    · exact ⟨_, rfl⟩
    · exact ⟨_, rfl⟩

end Request

theorem Act.wrap_ofExcept {α β : Type} (y : Except DeviceError α) (g : α → β) (s : State) :
    (ofExcept y >>= fun a => (pure (g a) : Act β)) s = ⟨y.map g, [], s⟩ := by
  cases y with
  | error e => rfl
  | ok a => rfl

namespace Device

variable {d : Device} {approve : SpendPrompt → Bool} {s : State} {r : Request} {t : Turn Reply}

theorem Effect.error_state (h : Effect d approve s r t) (hadd : ∀ coins, r ≠ .addCoins coins)
    {e : DeviceError} (he : t.result = .error e) : t.state = s := by
  cases h with
  | dropped _ => exact absurd rfl (hadd _)
  | still _ _ _ => rfl
  | _ => cases he

theorem Effect.moves (h : Effect d approve s r t) {reply : Reply} (hreply : t.result = .ok reply) :
    r.Moves d s t.state := by
  cases h with
  | added hb => exact ⟨_, hb, rfl⟩
  | dropped _ => cases hreply
  | split hb _ _ => exact ⟨_, _, hb, Ledger.counts_settle _ _, rfl⟩
  | shielded hb _ _ => exact ⟨_, _, hb, Ledger.counts_settle _ _, rfl⟩
  | closed hb _ _ => exact ⟨_, _, hb, Ledger.counts_settle _ _, rfl⟩
  | still hadd hsettled _ =>
    have hnone := hsettled _ hreply
    cases r with
    | addCoins coins => exact absurd rfl (hadd coins)
    | split r => cases hnone
    | closeSend r => cases hnone
    | sendShielded r => cases hnone
    | _ => rfl

theorem Effect.slotWrite (h : Effect d approve s r t) {slot : UInt32} {value : Bytes 32}
    (hevent : .slotWrite slot value ∈ t.events) :
    ∃ reply close, t.result = .ok reply ∧ r = .closeSend close ∧ slot = close.slot ∧
      value = d.draw s.drawn := by
  cases h with
  | @closed r b net asset _ _ _ =>
    simp only [List.mem_cons, List.not_mem_nil, or_false, reduceCtorEq, false_or] at hevent
    obtain ⟨rfl, rfl⟩ := Event.slotWrite.inj hevent
    exact ⟨_, r, rfl, rfl, rfl, rfl⟩
  | still _ _ hobserves => exact absurd (hobserves _ hevent) id
  | _ => simp at hevent

/-- Coins that are refused after they were admitted cost the balance. -/
theorem Effect.dropped_state {coins : AddCoins} (h : Effect d approve s (.addCoins coins) t)
    {e : DeviceError} (he : t.result = .error e) : t.state = { s with session := none } := by
  cases h with
  | added _ => cases he
  | dropped _ => rfl
  | still hadd _ _ => exact absurd rfl (hadd coins)

/-- An equation of functions, so that checking it does not look into the range proof. -/
theorem createOutput_eq : createOutput = fun d r =>
    match RangeProof.part? d.master r.coin r.t r.extra? r.generator.ifPresent with
    | some part => .ok ⟨part.t, part.tauX.toBytes⟩
    | none => .error .rangeProof := rfl

/-- The answer to a request that looks at the keys is that of any device with these keys. -/
theorem answer_ofKeys (h : r.opcode.ofKeys = true) {d' : Device} (hmaster : d'.master = d.master)
    (approve approve' : SpendPrompt → Bool) (room : Nat) (s s' : State) :
    ∃ y, d.answer approve room r s = ⟨y, [], s⟩ ∧ d'.answer approve' room r s' = ⟨y, [], s'⟩ := by
  cases r with
  | exportKey r =>
    have hsame : d'.exportKey r = d.exportKey r := by rw [exportKey, exportKey, hmaster]
    refine ⟨_, rfl, ?_⟩
    rw [answer, hsame]
    rfl
  | keyImage r =>
    have hsame : d'.keyImages r = d.keyImages r := by rw [keyImages, keyImages, hmaster]
    refine ⟨_, Act.wrap_ofExcept (d.keyImages r) _ s, ?_⟩
    rw [← hsame]
    exact Act.wrap_ofExcept _ _ s'
  | createOutput r =>
    have hsame : d'.createOutput r = d.createOutput r := by
      rw [createOutput_eq]
      simp only [hmaster]
    refine ⟨_, Act.wrap_ofExcept (d.createOutput r) _ s, ?_⟩
    rw [← hsame]
    exact Act.wrap_ofExcept _ _ s'
  | createVouchers r =>
    have hsame : ∀ fit, d'.createVouchers fit r = d.createVouchers fit r := by
      intro fit
      rw [createVouchers, createVouchers, hmaster]
    refine ⟨_, Act.wrap_ofExcept (d.createVouchers _ r) _ s, ?_⟩
    rw [← hsame]
    exact Act.wrap_ofExcept _ _ s'
  | spendShielded r =>
    have hsame : d'.spendShielded r = d.spendShielded r := by
      rw [spendShielded, spendShielded, hmaster]
    refine ⟨_, Act.wrap_ofExcept (d.spendShielded r) _ s, ?_⟩
    rw [← hsame]
    exact Act.wrap_ofExcept _ _ s'
  | _ => cases h

theorem not_accepted {capacity : Nat} {y : Except DeviceError Reply}
    (h : accepted (answerBytes capacity y) = false) : ∃ e, y = .error e := by
  cases y with
  | error e => exact ⟨e, rfl⟩
  | ok reply =>
    rw [(accepted_answerBytes capacity (.ok reply)).mpr ⟨reply, rfl⟩] at h
    cases h

section Invoked

variable {request : List UInt8} {capacity : Nat}

theorem admitted_effect (approve : SpendPrompt → Bool) (s : State)
    (h : Request.admission request capacity = .ok r) :
    ∃ t, Effect d approve s r t ∧
      d.invoke approve request capacity s = ⟨answerBytes capacity t.result, t.events, t.state⟩ :=
  ⟨_, answer_effect d approve (capacity - 1) r s, invoke_admitted h rfl⟩

theorem refused_state (h : accepted (d.invoke approve request capacity s).bytes = false)
    (hother : request.head? ≠ some Opcode.addCoins.toByte) :
    (d.invoke approve request capacity s).state = s := by
  rcases invoke_cases d approve request capacity s with ⟨e, hinvoke⟩ | ⟨r, t, hr, heffect, hinvoke⟩
  · rw [hinvoke]
  · rw [hinvoke] at h ⊢
    obtain ⟨e, he⟩ := not_accepted h
    refine heffect.error_state ?_ he
    rintro coins rfl
    exact hother (Request.head?_of_ofList? hr)

/-- The balance is lost as soon as the header of a list of coins was read and a status fits. -/
theorem refused_addCoins_state {payload : List UInt8}
    (h : accepted (d.invoke approve (Opcode.addCoins.toByte :: payload) capacity s).bytes = false) :
    (d.invoke approve (Opcode.addCoins.toByte :: payload) capacity s).state =
      if AddCoins.headerWidth ≤ payload.length ∧ 1 ≤ capacity then { s with session := none }
      else s := by
  have hadmission := Request.admission_addCoins payload capacity
  split at hadmission
  · next hread =>
    obtain ⟨coins, hcoins⟩ := hadmission
    obtain ⟨t, heffect, hinvoke⟩ := admitted_effect (d := d) approve s hcoins
    rw [hinvoke] at h ⊢
    obtain ⟨e, he⟩ := not_accepted h
    rw [if_pos hread]
    exact heffect.dropped_state he
  · next hread =>
    obtain ⟨e, he⟩ := hadmission
    rw [if_neg hread, invoke_refused he]

theorem accepted_moves (h : accepted (d.invoke approve request capacity s).bytes = true) :
    ∃ r, Request.ofList? request = some r ∧
      r.Moves d s (d.invoke approve request capacity s).state := by
  obtain ⟨r, reply, events, u, hr, heffect, hinvoke⟩ := accepted_effect h
  rw [hinvoke]
  exact ⟨r, hr, heffect.moves rfl⟩

theorem slotWrite_accepted {slot : UInt32} {value : Bytes 32}
    (h : .slotWrite slot value ∈ (d.invoke approve request capacity s).events) :
    accepted (d.invoke approve request capacity s).bytes = true ∧ value = d.draw s.drawn ∧
      ∃ r, Request.ofList? request = some (.closeSend r) ∧ slot = r.slot := by
  rcases invoke_cases d approve request capacity s with ⟨e, hinvoke⟩ | ⟨r, t, hr, heffect, hinvoke⟩
  · rw [hinvoke] at h
    cases h
  · rw [hinvoke] at h ⊢
    obtain ⟨reply, close, hreply, rfl, hslot, hvalue⟩ := heffect.slotWrite h
    exact ⟨(accepted_answerBytes capacity _).mpr ⟨reply, hreply⟩, hvalue, close, hr, hslot⟩

theorem bytes_ofKeys {op : Opcode} {payload : List UInt8} (hop : op.ofKeys = true) {d' : Device}
    (hmaster : d'.master = d.master) (approve approve' : SpendPrompt → Bool) (s s' : State) :
    (d'.invoke approve' (op.toByte :: payload) capacity s').bytes =
      (d.invoke approve (op.toByte :: payload) capacity s).bytes := by
  cases h : Request.admission (op.toByte :: payload) capacity with
  | error e => rw [invoke_refused h, invoke_refused h]
  | ok r =>
    have hhead := Request.head?_of_ofList? (Request.admission_ok h).1
    obtain rfl : op = r.opcode := Opcode.toByte_injective (Option.some.inj hhead)
    obtain ⟨y, hanswer, hanswer'⟩ :=
      answer_ofKeys hop hmaster approve approve' (capacity - 1) s s'
    rw [invoke_admitted h hanswer, invoke_admitted h hanswer']

end Invoked

/-- Whatever the state, the request and the room for its answer. A refused request leaves the state
as it was, but coins whose header was read leave no balance. An accepted one makes its own move and
no other, and writes a slot only to close a send. Requests that look at the keys are answered from
these alone. -/
theorem invoke_frame (d : Device) (approve : SpendPrompt → Bool) (request : List UInt8)
    (capacity : Nat) (s : State) :
    let response := d.invoke approve request capacity s
    (accepted response.bytes = false → request.head? ≠ some Opcode.addCoins.toByte →
      response.state = s) ∧
    (∀ payload, request = Opcode.addCoins.toByte :: payload → accepted response.bytes = false →
      response.state =
        if 4 ≤ payload.length ∧ 1 ≤ capacity then { s with session := none } else s) ∧
    (accepted response.bytes = true →
      ∃ r, Request.ofList? request = some r ∧ r.Moves d s response.state) ∧
    (∀ slot value, .slotWrite slot value ∈ response.events →
      accepted response.bytes = true ∧ value = d.draw s.drawn ∧
        ∃ r, Request.ofList? request = some (.closeSend r) ∧ slot = r.slot) ∧
    ∀ (op : Opcode) (payload : List UInt8), request = op.toByte :: payload → op.ofKeys = true →
      ∀ (d' : Device) (approve' : SpendPrompt → Bool) (s' : State), d'.master = d.master →
        (d'.invoke approve' request capacity s').bytes = response.bytes := by
  intro response
  refine ⟨refused_state, ?_, accepted_moves, fun _ _ => slotWrite_accepted, ?_⟩
  · rintro payload rfl
    exact refused_addCoins_state
  · rintro op payload rfl hop d' approve' s' hmaster
    exact bytes_ofKeys hop hmaster approve approve' s s'

/-- A split with nothing to pay its fee from, coins with a stray byte, a coin listed, and a key
exported by a device in another state. -/
theorem invoke_frame_sample :
    let d := Sample.device (.zero 32)
    let s : State := ⟨some {}, fun _ => .zero 32, 0⟩
    let send := fun request => d.invoke (fun _ => true) request 131 s
    let coins := Request.addCoins ⟨0, 1, 0, 0, CoinId.layout.write (Sample.coin 1 1000 0)⟩
    (send (Request.split ⟨⟨20, 1, 100⟩⟩).toList).state = s ∧
      (send [0x20, 0, 0, 0, 0, 7]).state = { s with session := none } ∧
      coins.Moves d s (send coins.toList).state ∧
      ({ d with policy := { slots := 1 } }.invoke (fun _ => false)
        (Request.exportKey ⟨1⟩).toList 131 (.fresh s.slots)).bytes =
          (send (Request.exportKey ⟨1⟩).toList).bytes := by
  intro d s send coins
  refine ⟨?_, ?_, ?_, ?_⟩
  · exact (invoke_frame d (fun _ => true) _ 131 s).1 rfl (by decide)
  · exact (invoke_frame d (fun _ => true) _ 131 s).2.1 _ rfl rfl
  · obtain ⟨r, hr, hmoves⟩ := (invoke_frame d (fun _ => true) coins.toList 131 s).2.2.1 rfl
    rw [Request.ofList?_toList] at hr
    cases hr
    exact hmoves
  · exact (invoke_frame d (fun _ => true) _ 131 s).2.2.2.2 .exportKey _ rfl rfl _ _ _ rfl

end Device

end ColdWallet
