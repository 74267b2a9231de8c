import ColdWallet.Device.Invoke
import ColdWallet.Proofs.Device.Transfer

namespace ColdWallet

/-- An event that reads a slot there is, or asks or tells the user something. -/
def Event.Observes (policy : Policy) : Event → Prop
  | slotRead slot => slot < policy.slots
  | slotWrite _ _ => False
  | addressShown _ _ => True
  | prompted _ => True

/-- The kernel fee that a request counts when it succeeds. -/
def Request.settled : Request → Option UInt64
  | split r => some r.kernel.fee
  | closeSend r => some r.kernel.fee
  | sendShielded r => some r.kernel.fee
  | _ => none

namespace Device

variable {approve : SpendPrompt → Bool} {s : State}

/-- All that a request can do to the device: only coins, signed kernels and nothing else change the
balance, and only a closed send changes a slot. -/
inductive Effect (d : Device) (approve : SpendPrompt → Bool) (s : State) :
    Request → Turn Reply → Prop
  | added {r : AddCoins} {b : Ledger} :
      (opening r s).addCoins d.master d.policy r = .ok b →
      Effect d approve s (.addCoins r) ⟨.ok .done, [], { s with session := some b }⟩
  | dropped {r : AddCoins} {e : DeviceError} :
      (opening r s).addCoins d.master d.policy r = .error e →
      Effect d approve s (.addCoins r) ⟨.error e, [], { s with session := none }⟩
  | split {r : Split} {b : Ledger} {prompt : SpendPrompt} {reply : SignedKernel} :
      s.session = some b → planSplit b r = .ok (prompt, reply) → approve prompt = true →
      Effect d approve s (.split r) ⟨.ok (.signedKernel reply), [.prompted prompt],
        { s with session := some (b.settle r.kernel.fee) }⟩
  | shielded {r : SendShielded} {b : Ledger} {prompt : SpendPrompt} {reply : SignedKernel} :
      s.session = some b → d.planSendShielded b r = .ok (prompt, reply) → approve prompt = true →
      Effect d approve s (.sendShielded r) ⟨.ok (.signedKernel reply), [.prompted prompt],
        { s with session := some (b.settle r.kernel.fee) }⟩
  | closed {r : CloseSend} {b : Ledger} {net : UInt64} {asset : UInt32} :
      s.session = some b → d.checkSend b r.kernel r.parties r.slot = .ok (net, asset) →
      SendAgreed r (d.termsOf b r.kernel r.parties net asset (s.slots r.slot)) →
      Effect d approve s (.closeSend r)
        ⟨.ok (.closedSend ⟨signature b
            (d.termsOf b r.kernel r.parties net asset (s.slots r.slot)).keys 0
            r.points.noncePub (r.kernel.id r.points [])⟩),
          [.slotRead r.slot, .slotWrite r.slot (d.draw s.drawn)],
          { d.renewed r.slot s with session := some (b.settle r.kernel.fee) }⟩
  | still {r : Request} {y : Except DeviceError Reply} {events : List Event} :
      (∀ coins, r ≠ .addCoins coins) → (∀ reply, y = .ok reply → r.settled = none) →
      (∀ event ∈ events, event.Observes d.policy) → Effect d approve s r ⟨y, events, s⟩

section Answer

variable {d : Device}

theorem signPlanned_cases (approve : SpendPrompt → Bool)
    (plan : Ledger → Except DeviceError (SpendPrompt × SignedKernel)) (fee : UInt64) (s : State) :
    (∃ b prompt reply, s.session = some b ∧ plan b = .ok (prompt, reply) ∧ approve prompt = true ∧
      signPlanned approve plan fee s =
        ⟨.ok reply, [.prompted prompt], { s with session := some (b.settle fee) }⟩) ∨
    ∃ e events, signPlanned approve plan fee s = ⟨.error e, events, s⟩ ∧
      ∀ event ∈ events, ∃ prompt, event = .prompted prompt := by
  cases h : s.session with
  | none => exact Or.inr ⟨_, _, signPlanned_none h, nofun⟩
  | some b =>
    cases hplan : plan b with
    | error e => exact Or.inr ⟨_, _, signPlanned_error h hplan, nofun⟩
    | ok v =>
      obtain ⟨prompt, reply⟩ := v
      cases hagreed : approve prompt with
      | true => exact Or.inl ⟨_, _, _, rfl, hplan, hagreed, signPlanned_ok h hplan hagreed⟩
      | false =>
        refine Or.inr ⟨_, _, signPlanned_declined h hplan hagreed, ?_⟩
        intro event hevent
        exact ⟨prompt, List.mem_singleton.mp hevent⟩

theorem still_error {r : Request} {e : DeviceError} {events : List Event}
    (hadd : ∀ coins, r ≠ .addCoins coins) (hevents : ∀ event ∈ events, event.Observes d.policy) :
    Effect d approve s r ⟨.error e, events, s⟩ :=
  .still hadd nofun hevents

theorem still_run {α : Type} {r : Request} {x : Act α} {y : Except DeviceError α}
    {events : List Event} (g : α → Reply) (hadd : ∀ coins, r ≠ .addCoins coins)
    (hsettled : r.settled = none) (hrun : x s = ⟨y, events, s⟩)
    (hevents : ∀ event ∈ events, event.Observes d.policy) :
    Effect d approve s r ((x >>= fun a => (pure (g a) : Act Reply)) s) := by
  cases y with
  | error e =>
    rw [Act.bind_error _ hrun]
    exact still_error hadd hevents
  | ok a =>
    rw [Act.wrap_ok g hrun]
    exact .still hadd (fun _ _ => hsettled) hevents

theorem openSend_effect (approve : SpendPrompt → Bool) (r : OpenSend) (s : State) :
    Effect d approve s (.openSend r)
      ((d.openSend approve r >>= fun x => (pure (.openedSend x) : Act Reply)) s) := by
  rcases d.sendTerms_cases r.kernel r.parties r.slot s with ⟨e, h⟩ | ⟨b, net, asset, _, hcheck, h⟩
  · exact still_run _ nofun rfl (Act.bind_error _ h) nofun
  · have hslot := (checkSend_ok_iff.mp hcheck).2.2.2
    refine still_run _ nofun rfl (openSend_run h) ?_
    intro event hevent
    rcases List.mem_cons.mp hevent with rfl | hevent
    · exact hslot
    · cases List.mem_singleton.mp hevent
      trivial

theorem closeSend_effect (approve : SpendPrompt → Bool) (r : CloseSend) (s : State) :
    Effect d approve s (.closeSend r)
      ((d.closeSend r >>= fun x => (pure (.closedSend x) : Act Reply)) s) := by
  rcases d.sendTerms_cases r.kernel r.parties r.slot s with ⟨e, h⟩ | ⟨b, net, asset, hb, hcheck, h⟩
  · have hrun : d.closeSend r s = ⟨.error e, [], s⟩ := by
      rw [closeSend_eq]
      exact Act.bind_error _ (Act.bind_error _ h)
    rw [Act.bind_error _ hrun]
    exact still_error nofun nofun
  · by_cases hagreed : SendAgreed r (d.termsOf b r.kernel r.parties net asset (s.slots r.slot))
    · rw [Act.wrap_ok _ (closeSend_ok hb hcheck hagreed)]
      exact .closed hb hcheck hagreed
    · obtain ⟨e, hrefused⟩ := authorizeSend_refused h hagreed
      have hrun : d.closeSend r s = ⟨.error e, [.slotRead r.slot], s⟩ := by
        rw [closeSend_eq]
        exact Act.bind_error _ hrefused
      rw [Act.bind_error _ hrun]
      refine still_error nofun ?_
      intro event hevent
      cases List.mem_singleton.mp hevent
      exact (checkSend_ok_iff.mp hcheck).2.2.2

theorem addCoins_effect (approve : SpendPrompt → Bool) (r : AddCoins) (s : State) :
    Effect d approve s (.addCoins r)
      ((d.addCoins r >>= fun _ => (pure .done : Act Reply)) s) := by
  cases h : (opening r s).addCoins d.master d.policy r with
  | error e =>
    rw [Act.bind_error _ (addCoins_error h)]
    exact .dropped h
  | ok b =>
    rw [Act.wrap_ok _ (addCoins_ok h)]
    exact .added h

/-- Both own kernels are signed in one way, and differ in what was planned. -/
theorem signPlanned_effect {r : Request}
    {plan : Ledger → Except DeviceError (SpendPrompt × SignedKernel)} {fee : UInt64}
    (hadd : ∀ coins, r ≠ .addCoins coins)
    (hsigned : ∀ b prompt reply, s.session = some b → plan b = .ok (prompt, reply) →
      approve prompt = true → Effect d approve s r
        ⟨.ok (.signedKernel reply), [.prompted prompt],
          { s with session := some (b.settle fee) }⟩) :
    Effect d approve s r
      ((signPlanned approve plan fee >>= fun x => (pure (.signedKernel x) : Act Reply)) s) := by
  rcases signPlanned_cases approve plan fee s with
    ⟨b, prompt, reply, hb, hplan, hagreed, hrun⟩ | ⟨e, events, hrun, hevents⟩
  · rw [Act.wrap_ok _ hrun]
    exact hsigned b prompt reply hb hplan hagreed
  · rw [Act.bind_error _ hrun]
    refine still_error hadd fun event hevent => ?_
    obtain ⟨prompt, rfl⟩ := hevents event hevent
    trivial

theorem split_effect (d : Device) (approve : SpendPrompt → Bool) (r : Split) (s : State) :
    Effect d approve s (.split r)
      ((split approve r >>= fun x => (pure (.signedKernel x) : Act Reply)) s) := by
  rw [split_eq]
  exact signPlanned_effect nofun fun _ _ _ => .split

theorem sendShielded_effect (d : Device) (approve : SpendPrompt → Bool) (r : SendShielded)
    (s : State) :
    Effect d approve s (.sendShielded r)
      ((d.sendShielded approve r >>= fun x => (pure (.signedKernel x) : Act Reply)) s) := by
  rw [sendShielded_eq]
  exact signPlanned_effect nofun fun _ _ _ => .shielded

theorem receive_effect (approve : SpendPrompt → Bool) (r : Receive) (s : State) :
    Effect d approve s (.receive r)
      ((do return .received (← Act.ofExcept (d.receive (← Act.ledger) r)) : Act Reply) s) := by
  cases h : s.session with
  | none =>
    rw [Act.bind_error _ (Act.ledger_run_none h)]
    exact still_error nofun nofun
  | some b =>
    rw [Act.bind_quiet _ (Act.ledger_run h)]
    exact still_run _ nofun rfl (Act.ofExcept_run _ s) nofun

/-- Every request has one of the effects. -/
theorem answer_effect (d : Device) (approve : SpendPrompt → Bool) (room : Nat) (r : Request)
    (s : State) : Effect d approve s r (d.answer approve room r s) := by
  cases r with
  | version => exact .still nofun (fun _ _ => rfl) nofun
  | slotCount => exact .still nofun (fun _ _ => rfl) nofun
  | exportKey r => exact .still nofun (fun _ _ => rfl) nofun
  | keyImage r => exact still_run _ nofun rfl (Act.ofExcept_run _ s) nofun
  | createOutput r => exact still_run _ nofun rfl (Act.ofExcept_run _ s) nofun
  | addCoins r => exact addCoins_effect approve r s
  | split r => exact split_effect d approve r s
  | receive r => exact receive_effect approve r s
  | openSend r => exact openSend_effect approve r s
  | closeSend r => exact closeSend_effect approve r s
  | sendShielded r => exact sendShielded_effect d approve r s
  | showAddress r =>
    refine .still nofun (fun _ _ => rfl) fun event hevent => ?_
    cases List.mem_singleton.mp hevent
    trivial
  | createVouchers r => exact still_run _ nofun rfl (Act.ofExcept_run _ s) nofun
  | spendShielded r => exact still_run _ nofun rfl (Act.ofExcept_run _ s) nofun

end Answer

end Device

end ColdWallet
