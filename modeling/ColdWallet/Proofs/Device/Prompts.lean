import ColdWallet.Proofs.Device.Frame

namespace ColdWallet

/-- What an event asks of the user, if it does. -/
def Event.prompt? : Event → Option SpendPrompt
  | prompted prompt => some prompt
  | _ => none

def Opcode.asks : Opcode → Bool
  | split | openSend | sendShielded => true
  | _ => false

/-- What asks has an answer, so that a refusal has room for its two bytes. -/
theorem Opcode.answerWidth_pos {op : Opcode} (h : op.asks = true) : 0 < op.answerWidth := by
  cases op with
  | split | openSend | sendShielded => decide
  | _ => cases h

/-- The public points of a kernel's keys, joined with those of the peer if there is one. -/
def KernelKeys.commitments (k : KernelKeys) (peer : Option KernelPoints) :
    Except DeviceError KernelPoints :=
  match peer with
  | none => .ok k.points
  | some peer =>
    match k.joint? peer with
    | some points => .ok points
    | none => .error .peerCommitments

/-- Signs a kernel on the balance there is by then, and counts its fee. -/
def Act.signKernel (k : KernelKeys) (further : Scalar) (noncePub : CompactPoint)
    (kernelId : Bytes 32) (fee : UInt64) : Act KernelSignature := do
  let b ← Act.ledger
  Act.settle fee
  return Device.signature b k further noncePub kernelId

namespace Device.Stepwise

/-- A split, with each step that could fail in its place. -/
def split (approve : SpendPrompt → Bool) (r : Split) : Act SignedKernel := do
  let b ← Act.ledger
  let (net, _) ← Act.ofExcept (b.net (some r.kernel.fee))
  if net ≠ 0 then Act.fail .netAmount
  let keys := r.keys b
  let points ← Act.ofExcept (keys.commitments none)
  let id := r.kernel.id points []
  Act.confirm approve
    { amount := 0, asset := 0, peer := none, kernel := r.kernel, kernelId := some id }
  return ⟨points, ← Act.signKernel keys 0 points.noncePub id r.kernel.fee⟩

def openSend (d : Device) (approve : SpendPrompt → Bool) (r : OpenSend) : Act OpenedSend := do
  let t ← d.sendTerms r.kernel r.parties r.slot
  Act.confirm approve (sendPrompt t r.kernel)
  return ⟨t.agreement, ← Act.ofExcept (t.keys.commitments none)⟩

/-- The balance is read a second time for the keys, and a third time for the signature. -/
def sendShielded (d : Device) (approve : SpendPrompt → Bool) (r : SendShielded) :
    Act SignedKernel := do
  let (net, asset) ← Act.ofExcept ((← Act.ledger).net (some r.kernel.fee))
  if net = 0 then Act.fail .netAmount
  if allZero r.parties.peer.toList then Act.fail .missingPeer
  match r.verifyOutput? d.master net asset with
  | none => Act.fail .shieldedOutput
  | some (outputBlinding, nested) =>
    let keys := r.keys (← Act.ledger) nested
    let points ← Act.ofExcept (keys.commitments none)
    let id := r.kernel.id points [nested]
    Act.confirm approve (r.prompt net asset id)
    return ⟨points, ← Act.signKernel keys outputBlinding points.noncePub id r.kernel.fee⟩

/-- Answers a request as the device does, but for the order of the steps in these three. -/
def answer (d : Device) (approve : SpendPrompt → Bool) (room : Nat) : Request → Act Reply
  | .split r => return .signedKernel (← Stepwise.split approve r)
  | .openSend r => return .openedSend (← Stepwise.openSend d approve r)
  | .sendShielded r => return .signedKernel (← Stepwise.sendShielded d approve r)
  | r => d.answer approve room r

end Device.Stepwise

namespace Act

variable {α β : Type} {s : State}

theorem signKernel_run {b : Ledger} (k : KernelKeys) (further : Scalar) (noncePub : CompactPoint)
    (kernelId : Bytes 32) (fee : UInt64) (h : s.session = some b) :
    signKernel k further noncePub kernelId fee s =
      ⟨.ok (Device.signature b k further noncePub kernelId), [],
        { s with session := some (b.settle fee) }⟩ := by
  unfold signKernel
  rw [bind_quiet _ (ledger_run h)]
  exact wrap_ok _ (settle_run fee h)

def Silent (x : Act α) : Prop := ∀ s, ∀ event ∈ (x s).events, event.prompt? = none

namespace Silent

theorem pure (a : α) : (pure a : Act α).Silent := fun _ => nofun

theorem ofExcept (y : Except DeviceError α) : (Act.ofExcept y).Silent := fun _ => nofun

theorem fail (e : DeviceError) : (Act.fail e : Act α).Silent := .ofExcept _

theorem bind {x : Act α} {f : α → Act β} (hx : x.Silent) (hf : ∀ a, (f a).Silent) :
    (x >>= f).Silent := by
  intro s
  obtain ⟨result, events, t, h⟩ : ∃ result events t, x s = ⟨result, events, t⟩ := ⟨_, _, _, rfl⟩
  have hevents : ∀ event ∈ events, event.prompt? = none := by
    have := hx s
    rwa [h] at this
  cases result with
  | error e =>
    rw [bind_error f h]
    exact hevents
  | ok a =>
    rw [bind_run h (rfl : f a t = ⟨(f a t).result, (f a t).events, (f a t).state⟩)]
    exact List.forall_mem_append.mpr ⟨hevents, hf a t⟩

theorem ite {c : Prop} [Decidable c] {x y : Act α} (hx : x.Silent) (hy : y.Silent) :
    (if c then x else y).Silent := by
  split
  · exact hx
  · exact hy

theorem notify {event : Event} (h : event.prompt? = none) : (Act.notify event).Silent := by
  intro s other hother
  rw [List.mem_singleton.mp hother]
  exact h

theorem ledger : Act.ledger.Silent := by
  refine .bind (fun _ => nofun) fun s => ?_
  cases s.session with
  | none => exact .fail _
  | some b => exact .pure b

theorem settle (fee : UInt64) : (Act.settle fee).Silent := .bind .ledger fun _ _ => nofun

theorem readSlot (slot : UInt32) : (Act.readSlot slot).Silent :=
  .bind (.notify rfl) fun _ => .bind (fun _ => nofun) fun _ => .pure _

end Silent

/-- An action that fails whoever answers, without asking. -/
structure FailsUnasked (x : (SpendPrompt → Bool) → Act α) (s : State) (e : DeviceError)
    (events : List Event) (t : State) : Prop where
  run : ∀ approve, x approve s = ⟨.error e, events, t⟩
  silent : ∀ event ∈ events, event.prompt? = none

/-- An action that asks at its end: the answer decides between its result, with the state it makes,
and a refusal that leaves the state as it was found. -/
structure Asks (x : (SpendPrompt → Bool) → Act α) (s : State) (prompt : SpendPrompt)
    (before : List Event) (a : α) (t : State) : Prop where
  run : ∀ approve, x approve s =
    ⟨if approve prompt then .ok a else .error .declined, before ++ [.prompted prompt],
      if approve prompt then t else s⟩
  silent : ∀ event ∈ before, event.prompt? = none

/-- An action that does not succeed without asking, and asks nothing before all else is settled. -/
def AsksLast (x : (SpendPrompt → Bool) → Act α) (s : State) : Prop :=
  (∃ e events t, FailsUnasked x s e events t) ∨ ∃ prompt before a t, Asks x s prompt before a t

theorem AsksLast.wrap {x : (SpendPrompt → Bool) → Act α} (g : α → β) (h : AsksLast x s) :
    AsksLast (fun approve => x approve >>= fun a => pure (g a)) s := by
  rcases h with ⟨e, events, t, h⟩ | ⟨prompt, before, a, t, h⟩
  · exact Or.inl ⟨e, events, t, fun approve => bind_error _ (h.run approve), h.silent⟩
  · refine Or.inr ⟨prompt, before, g a, t, fun approve => ?_, h.silent⟩
    have hrun := h.run approve
    cases hagreed : approve prompt with
    | true =>
      rw [hagreed] at hrun
      exact wrap_ok g hrun
    | false =>
      rw [hagreed] at hrun
      exact bind_error _ hrun

end Act

namespace Device

variable {d : Device} {s : State}

section Stepwise

variable {b : Ledger}

/-- With the balance open, what is planned is what is signed after the prompt. -/
theorem Stepwise.confirmed_eq {plan : Ledger → Except DeviceError (SpendPrompt × SignedKernel)}
    {prompt : SpendPrompt} {k : KernelKeys} {further : Scalar} {id : Bytes 32}
    (approve : SpendPrompt → Bool) (fee : UInt64) (h : s.session = some b)
    (hplan : plan b = .ok (prompt, ⟨k.points, signature b k further k.points.noncePub id⟩)) :
    (do
      Act.confirm approve prompt
      return ⟨k.points, ← Act.signKernel k further k.points.noncePub id fee⟩ :
        Act SignedKernel) s = signPlanned approve plan fee s := by
  have hconfirm := Act.confirm_run approve prompt s
  cases hagreed : approve prompt with
  | false =>
    rw [hagreed, if_neg Bool.false_ne_true] at hconfirm
    rw [signPlanned_declined h hplan hagreed, Act.bind_error _ hconfirm]
  | true =>
    rw [hagreed, if_pos rfl] at hconfirm
    rw [signPlanned_ok h hplan hagreed]
    exact Act.bind_run hconfirm (Act.wrap_ok _ (Act.signKernel_run k further _ id fee h))

theorem Stepwise.split_eq (approve : SpendPrompt → Bool) (r : Split) :
    Stepwise.split approve r = Device.split approve r := by
  funext s
  rw [Device.split_eq]
  unfold Stepwise.split
  cases h : s.session with
  | none => rw [Act.bind_error _ (Act.ledger_run_none h), signPlanned_none h]
  | some b =>
    rw [Act.bind_quiet _ (Act.ledger_run h)]
    cases hnet : b.net (some r.kernel.fee) with
    | error e =>
      have hplan : planSplit b r = .error e := by
        unfold planSplit
        rw [hnet]
        rfl
      rw [signPlanned_error h hplan, Act.bind_error _ (Act.ofExcept_run _ s)]
    | ok v =>
      obtain ⟨net, asset⟩ := v
      have hplan := planSplit_of_amount hnet
      rw [Act.bind_quiet _ (Act.ofExcept_run _ s)]
      by_cases hleft : net ≠ 0
      · rw [if_pos hleft] at hplan
        rw [signPlanned_error h hplan]
        simp only [if_pos hleft]
        rfl
      rw [if_neg hleft] at hplan
      rw [← Stepwise.confirmed_eq approve r.kernel.fee h hplan]
      simp only [if_neg hleft]
      exact Act.bind_quiet _ (Act.ofExcept_run (.ok (r.keys b).points) s)

theorem Stepwise.openSend_eq (d : Device) (approve : SpendPrompt → Bool) (r : OpenSend) :
    Stepwise.openSend d approve r = d.openSend approve r := rfl

theorem Stepwise.sendShielded_eq (d : Device) (approve : SpendPrompt → Bool) (r : SendShielded) :
    Stepwise.sendShielded d approve r = d.sendShielded approve r := by
  funext s
  rw [Device.sendShielded_eq]
  unfold Stepwise.sendShielded
  cases h : s.session with
  | none => rw [Act.bind_error _ (Act.ledger_run_none h), signPlanned_none h]
  | some b =>
    rw [Act.bind_quiet _ (Act.ledger_run h)]
    cases hnet : b.net (some r.kernel.fee) with
    | error e =>
      have hplan : d.planSendShielded b r = .error e := by
        unfold planSendShielded
        rw [hnet]
        rfl
      rw [signPlanned_error h hplan, Act.bind_error _ (Act.ofExcept_run _ s)]
    | ok v =>
      obtain ⟨net, asset⟩ := v
      have hplan := planSendShielded_of_amount (d := d) hnet
      rw [Act.bind_quiet _ (Act.ofExcept_run _ s)]
      by_cases hzero : net = 0
      · rw [if_pos hzero] at hplan
        rw [signPlanned_error h hplan]
        simp only [if_pos hzero]
        rfl
      rw [if_neg hzero] at hplan
      simp only [if_neg hzero]
      by_cases hpeer : allZero r.parties.peer.toList = true
      · rw [if_pos hpeer] at hplan
        rw [signPlanned_error h hplan]
        simp only [if_pos hpeer]
        rfl
      rw [if_neg hpeer] at hplan
      simp only [if_neg hpeer]
      cases hverify : r.verifyOutput? d.master net asset with
      | none =>
        rw [hverify] at hplan
        rw [signPlanned_error h hplan]
        rfl
      | some output =>
        rw [hverify] at hplan
        rw [← Stepwise.confirmed_eq approve r.kernel.fee h hplan]
        exact Act.bind_quiet _ (Act.ledger_run h)

theorem Stepwise.answer_eq (d : Device) (approve : SpendPrompt → Bool) (room : Nat) (r : Request) :
    Stepwise.answer d approve room r = d.answer approve room r := by
  cases r with
  | split r =>
    simp only [Stepwise.answer, Stepwise.split_eq]
    rfl
  | openSend r =>
    simp only [Stepwise.answer, Stepwise.openSend_eq]
    rfl
  | sendShielded r =>
    simp only [Stepwise.answer, Stepwise.sendShielded_eq]
    rfl
  | _ => rfl

end Stepwise

section Asking

/-- An own kernel is refused without a prompt, or waits for the answer to one. -/
theorem signPlanned_asksLast (plan : Ledger → Except DeviceError (SpendPrompt × SignedKernel))
    (fee : UInt64) (s : State) :
    Act.AsksLast (fun approve => signPlanned approve plan fee) s := by
  cases h : s.session with
  | none => exact Or.inl ⟨_, _, _, fun _ => signPlanned_none h, nofun⟩
  | some b =>
    cases hplan : plan b with
    | error e => exact Or.inl ⟨_, _, _, fun _ => signPlanned_error h hplan, nofun⟩
    | ok v =>
      refine Or.inr ⟨v.1, [], v.2, { s with session := some (b.settle fee) }, fun approve => ?_,
        nofun⟩
      cases hagreed : approve v.1 with
      | true => exact signPlanned_ok h hplan hagreed
      | false => exact signPlanned_declined h hplan hagreed

/-- So does the opening of a send, once its slot was read. -/
theorem openSend_asksLast (d : Device) (r : OpenSend) (s : State) :
    Act.AsksLast (fun approve => d.openSend approve r) s := by
  rcases d.sendTerms_cases r.kernel r.parties r.slot s with ⟨e, h⟩ | ⟨b, net, asset, _, _, h⟩
  · exact Or.inl ⟨e, _, _, fun _ => Act.bind_error _ h, nofun⟩
  · generalize d.termsOf b r.kernel r.parties net asset (s.slots r.slot) = t at h
    refine Or.inr ⟨sendPrompt t r.kernel, [.slotRead r.slot], ⟨t.agreement, t.keys.points⟩, s,
      fun approve => ?_, ?_⟩
    · rw [ite_self]
      exact openSend_run h
    · intro event hevent
      rw [List.mem_singleton.mp hevent]
      rfl

theorem sendTerms_silent (d : Device) (kernel : KernelParams) (parties : Parties) (slot : UInt32) :
    (d.sendTerms kernel parties slot).Silent :=
  .bind .ledger fun _ => .bind (.ofExcept _) fun _ => .bind (.readSlot slot) fun _ => .pure _

theorem closeSend_silent (d : Device) (r : CloseSend) : (d.closeSend r).Silent := by
  have hchecked : (d.authorizeSend r).Silent :=
    .bind (d.sendTerms_silent _ _ _) fun _ =>
      .ite (.bind (.fail _) fun _ => .ite (.bind (.fail _) fun _ => .pure _) (.pure _))
        (.ite (.bind (.fail _) fun _ => .pure _) (.pure _))
  have hrenewed : (d.renewSlot r.slot).Silent := by
    intro s event hevent
    rw [List.mem_singleton.mp hevent]
    rfl
  rw [closeSend_eq]
  refine .bind hchecked fun t => .bind hrenewed fun _ => ?_
  exact .bind .ledger fun b => .bind (.settle _) fun _ => .pure _

theorem addCoins_silent (d : Device) (r : AddCoins) : (d.addCoins r).Silent := by
  intro s
  cases h : (opening r s).addCoins d.master d.policy r with
  | ok b =>
    rw [addCoins_ok h]
    exact nofun
  | error e =>
    rw [addCoins_error h]
    exact nofun

/-- Other kinds of request ask nothing. -/
theorem answer_silent (d : Device) (approve : SpendPrompt → Bool) (room : Nat) {r : Request}
    (h : r.opcode.asks = false) : (d.answer approve room r).Silent := by
  cases r with
  | split | openSend | sendShielded => cases h
  | version | slotCount | exportKey => exact .pure _
  | keyImage | createOutput | createVouchers | spendShielded =>
    exact .bind (.ofExcept _) fun _ => .pure _
  | addCoins r => exact .bind (d.addCoins_silent r) fun _ => .pure _
  | receive r => exact .bind .ledger fun _ => .bind (.ofExcept _) fun _ => .pure _
  | closeSend r => exact .bind (d.closeSend_silent r) fun _ => .pure _
  | showAddress r => exact .bind (.notify rfl) fun _ => .pure _

theorem answer_asksLast (d : Device) (room : Nat) {r : Request} (h : r.opcode.asks = true)
    (s : State) : Act.AsksLast (fun approve => d.answer approve room r) s := by
  cases r with
  | split r => exact (signPlanned_asksLast (fun b => planSplit b r) _ s).wrap Reply.signedKernel
  | openSend r => exact (d.openSend_asksLast r s).wrap Reply.openedSend
  | sendShielded r =>
    exact (signPlanned_asksLast (fun b => d.planSendShielded b r) _ s).wrap Reply.signedKernel
  | _ => cases h

end Asking

def prompts (events : List Event) : List SpendPrompt := events.filterMap Event.prompt?

theorem prompts_silent {events : List Event} (h : ∀ event ∈ events, event.prompt? = none) :
    prompts events = [] := List.filterMap_eq_nil_iff.mpr h

/-- How a request asks, whoever answers: at most once, and as the last thing that it does. -/
structure Asking (d : Device) (request : List UInt8) (capacity : Nat) (s : State)
    (asked : Option SpendPrompt) : Prop where
  /-- What is asked does not depend on the answer. -/
  prompts : ∀ approve, prompts (d.invoke approve request capacity s).events = asked.toList
  /-- Only the three kinds of request ask. -/
  kind : ∀ prompt, asked = some prompt →
    ∃ (op : Opcode) (payload : List UInt8), op.asks = true ∧ request = op.toByte :: payload
  /-- Nothing happens after the prompt, and nothing else decides how the request ends. -/
  decides : ∀ prompt, asked = some prompt → ∀ approve,
    let response := d.invoke approve request capacity s
    response.events.getLast? = some (.prompted prompt) ∧
      if approve prompt then accepted response.bytes = true
      else response.bytes = [StatusMajor.userAbort.toByte, 0] ∧ response.state = s
  /-- None of the three kinds succeeds without approval. -/
  needed : ∀ (op : Opcode) (payload : List UInt8) approve, op.asks = true →
    request = op.toByte :: payload →
    accepted (d.invoke approve request capacity s).bytes = true →
    ∃ prompt, asked = some prompt ∧ approve prompt = true

section Invoke

variable {request : List UInt8} {capacity : Nat} {r : Request}

theorem asking_refused
    (hprompts : ∀ approve, prompts (d.invoke approve request capacity s).events = [])
    (hrefused : ∀ approve, accepted (d.invoke approve request capacity s).bytes = false) :
    d.Asking request capacity s none where
  prompts := hprompts
  kind := nofun
  decides := nofun
  needed op payload approve _ _ haccepted := by
    rw [hrefused approve] at haccepted
    cases haccepted

theorem asking_silent (h : Request.admission request capacity = .ok r)
    (hother : r.opcode.asks = false) : d.Asking request capacity s none where
  prompts approve := by
    rw [invoke_admitted h rfl]
    exact prompts_silent (d.answer_silent approve _ hother s)
  kind := nofun
  decides := nofun
  needed op payload approve hop hrequest _ := by
    have hhead : request.head? = some r.opcode.toByte :=
      Request.head?_of_ofList? (Request.admission_ok h).1
    rw [hrequest] at hhead
    rw [Opcode.toByte_injective (Option.some.inj hhead), hother] at hop
    cases hop

theorem invoke_asks (h : Request.admission request capacity = .ok r) (hop : r.opcode.asks = true)
    {prompt : SpendPrompt} {before : List Event} {reply : Reply} {t : State}
    (hasks : Act.Asks (fun approve => d.answer approve (capacity - 1) r) s prompt before reply t)
    (approve : SpendPrompt → Bool) :
    d.invoke approve request capacity s =
      ⟨if approve prompt then StatusMajor.ok.toByte :: reply.toList
        else [StatusMajor.userAbort.toByte, 0], before ++ [.prompted prompt],
        if approve prompt then t else s⟩ := by
  have hcapacity := (Request.admission_ok h).2
  have hwidth := Opcode.answerWidth_pos hop
  rw [invoke_admitted h (hasks.run approve)]
  cases approve prompt with
  | true => rfl
  | false =>
    congr 1
    exact answerBytes_error .declined (by omega)

theorem asking_asked (h : Request.admission request capacity = .ok r) (hop : r.opcode.asks = true)
    {prompt : SpendPrompt} {before : List Event} {reply : Reply} {t : State}
    (hasks : Act.Asks (fun approve => d.answer approve (capacity - 1) r) s prompt before reply t) :
    d.Asking request capacity s (some prompt) where
  prompts approve := by
    have hbefore : prompts before = [] := prompts_silent hasks.silent
    rw [invoke_asks h hop hasks]
    show prompts (before ++ [.prompted prompt]) = [prompt]
    rw [prompts, List.filterMap_append, ← prompts, hbefore]
    rfl
  kind _ _ := by
    have hhead : request.head? = some r.opcode.toByte :=
      Request.head?_of_ofList? (Request.admission_ok h).1
    exact ⟨r.opcode, request.tail, hop, (List.cons_head?_tail hhead).symm⟩
  decides asked hasked approve := by
    obtain rfl : prompt = asked := Option.some.inj hasked
    rw [invoke_asks h hop hasks]
    refine ⟨List.getLast?_concat, ?_⟩
    cases approve prompt with
    | true => rfl
    | false => exact ⟨rfl, rfl⟩
  needed _ _ approve _ _ haccepted := by
    refine ⟨prompt, rfl, ?_⟩
    rw [invoke_asks h hop hasks] at haccepted
    cases hagreed : approve prompt with
    | true => rfl
    | false =>
      rw [hagreed] at haccepted
      cases haccepted

end Invoke

/-- Whatever the request and the state, the user is asked at most once, and only for a split, the
opening of a send or a send to a voucher. Approval is then answered with success, and a refusal with
the user's abort, as nothing that comes after the prompt can fail; and none of the three kinds
succeeds without a prompt. All of this is so with every step that could fail in its place. -/
theorem prompts_come_last (d : Device) (request : List UInt8) (capacity : Nat) (s : State) :
    (∃ asked, d.Asking request capacity s asked) ∧
      ∀ approve room r, Stepwise.answer d approve room r = d.answer approve room r := by
  refine ⟨?_, Stepwise.answer_eq d⟩
  cases h : Request.admission request capacity with
  | error e =>
    refine ⟨none, asking_refused (fun approve => ?_) fun approve => ?_⟩
    · rw [invoke_refused h]
      rfl
    · rw [invoke_refused h]
      exact accepted_error capacity e
  | ok r =>
    cases hop : r.opcode.asks with
    | false => exact ⟨none, asking_silent h hop⟩
    | true =>
      rcases d.answer_asksLast (capacity - 1) hop s with
        ⟨e, events, t, hfails⟩ | ⟨prompt, before, reply, t, hasks⟩
      · refine ⟨none, asking_refused (fun approve => ?_) fun approve => ?_⟩
        · rw [invoke_admitted h (hfails.run approve)]
          exact prompts_silent hfails.silent
        · rw [invoke_admitted h (hfails.run approve)]
          exact accepted_error capacity e
      · exact ⟨some prompt, asking_asked h hop hasks⟩

/-- On a balance that owes 1000, a split for a fee of 1000 asks once: it is signed if the user
agrees, and aborted if not. -/
theorem prompts_come_last_split :
    let d := Sample.device (.zero 32)
    let s : State := ⟨some { native := -1000 }, fun _ => .zero 32, 0⟩
    let request := (Request.split ⟨⟨1000, 1, 100⟩⟩).toList
    ∃ prompt, (∀ approve, prompts (d.invoke approve request 131 s).events = [prompt]) ∧
      accepted (d.invoke (fun _ => true) request 131 s).bytes = true ∧
      (d.invoke (fun _ => false) request 131 s).bytes = [2, 0] := by
  intro d s request
  obtain ⟨b, hb, hnet⟩ : ∃ b : Ledger, s.session = some b ∧ b.net (some 1000) = .ok (0, 0) :=
    ⟨_, rfl, rfl⟩
  have hplan := planSplit_of_amount (r := ⟨⟨1000, 1, 100⟩⟩) hnet
  have hanswer : d.answer (fun _ => true) 130 (.split ⟨⟨1000, 1, 100⟩⟩) s = _ :=
    Act.wrap_ok Reply.signedKernel (signPlanned_ok hb hplan rfl)
  have hinvoke : d.invoke (fun _ => true) request 131 s = _ :=
    invoke_admitted (Request.admission_toList (by decide)) hanswer
  have haccepted : accepted (d.invoke (fun _ => true) request 131 s).bytes = true :=
    accepted_cons (congrArg Response.bytes hinvoke)
  obtain ⟨⟨asked, hasking⟩, _⟩ := prompts_come_last d request 131 s
  obtain ⟨prompt, hprompt, _⟩ := hasking.needed .split _ (fun _ => true) rfl rfl haccepted
  refine ⟨prompt, fun approve => ?_, haccepted, ?_⟩
  · rw [hasking.prompts approve, hprompt]
    rfl
  · exact (hasking.decides prompt hprompt fun _ => false).2.1

end Device

end ColdWallet
