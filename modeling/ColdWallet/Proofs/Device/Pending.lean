import ColdWallet.Proofs.Device.Consent

namespace ColdWallet

/-- What ends the pending sends of a slot: a reset, coins, or a send closed with the slot. -/
def Passage.Ends (slot : UInt32) (p : Passage) : Prop :=
  p.step = .reset ∨
    (∃ request capacity approve coins, p.step = .invoke request capacity approve ∧
      Request.ofList? request = some (.addCoins coins)) ∨
    ∃ c, p.closed? = some c ∧ c.slot = slot

theorem accepted?_ofList? {s : State} {request : List UInt8} {capacity : Nat}
    {approve : SpendPrompt → Bool} {response : Device.Response} {r : Request}
    (h : Passage.accepted? ⟨s, .invoke request capacity approve, response⟩ = some r) :
    Request.ofList? request = some r :=
  (Option.ite_none_right_eq_some.mp h).2

/-- Only coins and closed sends end what is pending, among all requests. -/
theorem not_ends {s : State} {request : List UInt8} {capacity : Nat}
    {approve : SpendPrompt → Bool} {response : Device.Response} {r : Request}
    (hr : Request.ofList? request = some r) (hadd : ∀ coins, r ≠ .addCoins coins)
    (hclose : ∀ close, r ≠ .closeSend close) (slot : UInt32) :
    ¬Passage.Ends slot ⟨s, .invoke request capacity approve, response⟩ := by
  rintro (hreset | ⟨_, _, _, coins, hstep, hcoins⟩ | ⟨close, hclosed, _⟩)
  · cases hreset
  · cases hstep
    cases hr.symm.trans hcoins
    exact hadd coins rfl
  · have hother : ∀ close, Passage.accepted? ⟨s, .invoke request capacity approve, response⟩ ≠
        some (.closeSend close) := by
      intro close haccepted
      cases hr.symm.trans (accepted?_ofList? haccepted)
      exact hclose close rfl
    rw [closed?_other hother] at hclosed
    cases hclosed

namespace Device

/-- The balance of a pending send is open, with other fees counted on it at most, and its slot has
its value. -/
structure Pending (b : Ledger) (slot : UInt32) (value : Bytes 32) (s : State) : Prop where
  session : ∃ fees, s.session = some { b with totalFees := fees }
  slot : s.slots slot = value

section Steps

variable {d : Device} {b : Ledger} {slot : UInt32} {value : Bytes 32} {s : State}

theorem Pending.settle (h : Pending b slot value s) {b' : Ledger} (hb : s.session = some b')
    (fee : UInt64) : Pending b slot value { s with session := some (b'.settle fee) } where
  session := by
    obtain ⟨fees, hfees⟩ := h.session
    cases hb.symm.trans hfees
    exact ⟨_, rfl⟩
  slot := h.slot

/-- One step that does not end the sends of a slot keeps them pending. -/
theorem Passes.pending {p : Passage} (hp : Passes d p) (hends : ¬p.Ends slot)
    (h : Pending b slot value p.before) : Pending b slot value p.response.state := by
  cases hp with
  | reset => exact absurd (Or.inl rfl) hends
  | refused e => exact h
  | @admitted s request capacity approve r t hr heffect =>
    cases heffect with
    | added _ => exact absurd (Or.inr (Or.inl ⟨_, _, _, _, rfl, hr⟩)) hends
    | dropped _ => exact absurd (Or.inr (Or.inl ⟨_, _, _, _, rfl, hr⟩)) hends
    | split hb _ _ => exact h.settle hb _
    | shielded hb _ _ => exact h.settle hb _
    | @closed c b' _ _ hb _ _ =>
      have hother : c.slot ≠ slot := fun hslot =>
        hends (Or.inr (Or.inr ⟨c, closed?_ok hr _ _ _, hslot⟩))
      have hsettled := h.settle hb c.kernel.fee
      exact {
        session := hsettled.session
        slot := (if_neg hother.symm).trans h.slot }
    | still _ _ _ => exact h

theorem Pending.after (h : Pending b slot value s) (steps : List Step)
    (hsteps : ∀ p ∈ d.trace s steps, ¬p.Ends slot) :
    Pending b slot value (d.after s steps) := by
  induction steps generalizing s with
  | nil => exact h
  | cons step steps ih =>
    have hfirst : ¬Passage.Ends slot ⟨s, step, d.perform s step⟩ :=
      hsteps _ List.mem_cons_self
    have hkept : Pending b slot value (d.perform s step).state :=
      (perform_passes d s step).pending hfirst h
    exact ih hkept fun p hp => hsteps p (List.mem_cons_of_mem _ hp)

end Steps

section Answers

variable {d : Device} {b : Ledger} {s : State} {t : SendTerms} {request : List UInt8}
  {capacity : Nat}

/-- On the terms of the moment a send is opened if the user agrees, and declined if not. -/
theorem invoke_openSend {r : OpenSend} (approve : SpendPrompt → Bool)
    (hr : Request.ofList? request = some (.openSend r))
    (hcapacity : 1 + Opcode.openSend.answerWidth ≤ capacity)
    (hterms : d.sendTerms r.kernel r.parties r.slot s = ⟨.ok t, [.slotRead r.slot], s⟩) :
    d.invoke approve request capacity s =
      ⟨if approve (sendPrompt t r.kernel) then
          StatusMajor.ok.toByte :: OpenedSend.layout.write ⟨t.agreement, t.keys.points⟩
        else DeviceError.declined.status.toList,
        [.slotRead r.slot, .prompted (sendPrompt t r.kernel)], s⟩ := by
  have hadmission := Request.admission_of_ofList? hr hcapacity
  have hrun : d.openSend approve r s = _ := openSend_run hterms
  cases hagreed : approve (sendPrompt t r.kernel) with
  | true =>
    rw [hagreed, if_pos rfl] at hrun
    have hanswer : d.answer approve (capacity - 1) (.openSend r) s = _ :=
      Act.wrap_ok Reply.openedSend hrun
    rw [if_pos rfl]
    exact invoke_admitted hadmission hanswer
  | false =>
    rw [hagreed, if_neg Bool.false_ne_true] at hrun
    have hanswer : d.answer approve (capacity - 1) (.openSend r) s = _ :=
      Act.bind_error _ hrun
    have hroom : 1 + 98 ≤ capacity := hcapacity
    rw [if_neg Bool.false_ne_true, invoke_admitted hadmission hanswer,
      answerBytes_error _ (by omega)]

/-- Under the token of the moment a send is closed if the peer confirmed the payment, and refused
for the missing confirmation if not. -/
theorem invoke_closeSend {r : CloseSend} (approve : SpendPrompt → Bool)
    (hr : Request.ofList? request = some (.closeSend r))
    (hcapacity : 1 + Opcode.closeSend.answerWidth ≤ capacity) (hb : s.session = some b)
    (hterms : d.sendTerms r.kernel r.parties r.slot s = ⟨.ok t, [.slotRead r.slot], s⟩)
    (hagreement : r.agreement = t.agreement) :
    (d.invoke approve request capacity s).bytes =
      if r.paymentProof.verifyX
          (paymentConfirmation t.ownId (r.kernel.id r.points []) t.net t.asset)
          r.parties.peer then
        StatusMajor.ok.toByte :: ClosedSend.layout.write
          ⟨signature b t.keys 0 r.points.noncePub (r.kernel.id r.points [])⟩
      else DeviceError.paymentProof.status.toList := by
  have hadmission := Request.admission_of_ofList? hr hcapacity
  cases hproof : r.paymentProof.verifyX
      (paymentConfirmation t.ownId (r.kernel.id r.points []) t.net t.asset) r.parties.peer with
  | true =>
    have hanswer : d.answer approve (capacity - 1) (.closeSend r) s = _ :=
      Act.wrap_ok Reply.closedSend (closeSend_run hb hterms ⟨hagreement, hproof⟩)
    rw [if_pos rfl, invoke_admitted hadmission hanswer]
    rfl
  | false =>
    have hrun : d.closeSend r s = ⟨.error .paymentProof, [.slotRead r.slot], s⟩ := by
      rw [closeSend_eq]
      exact Act.bind_error _ (authorizeSend_unconfirmed hterms hagreement hproof)
    have hanswer : d.answer approve (capacity - 1) (.closeSend r) s = _ :=
      Act.bind_error _ hrun
    have hroom : 1 + 64 ≤ capacity := hcapacity
    rw [if_neg Bool.false_ne_true, invoke_admitted hadmission hanswer,
      answerBytes_error _ (by omega)]

end Answers

section Pending

variable {d : Device} {b : Ledger} {s : State}

/-- A pending send still has the terms it was checked with, for whatever heights. -/
theorem Pending.sendTerms {kernel kernel' : KernelParams} {parties : Parties} {slot : UInt32}
    {value : Bytes 32} {net : UInt64} {asset : UInt32} (h : Pending b slot value s)
    (hcheck : d.checkSend b kernel parties slot = .ok (net, asset))
    (hfee : kernel'.fee = kernel.fee) :
    d.sendTerms kernel' parties slot s =
      ⟨.ok (d.termsOf b kernel parties net asset value), [.slotRead slot], s⟩ := by
  obtain ⟨fees, hsession⟩ := h.session
  have hcheck' : d.checkSend { b with totalFees := fees } kernel' parties slot =
      .ok (net, asset) := by
    rw [← hcheck]
    unfold checkSend
    rw [hfee]
    rfl
  rw [sendTerms_ok hsession hcheck', h.slot]
  simp only [termsOf, hfee]

/-- An opened send has terms, which stay those of the moment as long as it is pending. -/
theorem openSend_pending {approve : SpendPrompt → Bool} {request : List UInt8} {capacity : Nat}
    {r : OpenSend} {opened : OpenedSend} (hr : Request.ofList? request = some (.openSend r))
    (hopened : (d.perform s (.invoke request capacity approve)).bytes =
      StatusMajor.ok.toByte :: OpenedSend.layout.write opened) :
    ∃ b t, d.TermsAt s r.kernel r.parties r.slot b t ∧ opened = ⟨t.agreement, t.keys.points⟩ ∧
      (d.perform s (.invoke request capacity approve)).state = s ∧
      ∀ u kernel, Pending b r.slot (s.slots r.slot) u → kernel.fee = r.kernel.fee →
        d.sendTerms kernel r.parties r.slot u = ⟨.ok t, [.slotRead r.slot], u⟩ := by
  obtain ⟨b, t, hterms, hcheck, _, hinvoke⟩ := openSend_accepted hr (accepted_cons hopened)
  refine ⟨b, t, hterms, ?_, congrArg Response.state hinvoke, ?_⟩
  · rw [perform, hinvoke] at hopened
    exact (OpenedSend.layout_exact.injective (List.cons.inj hopened).2).symm
  · intro u kernel hpending hfee
    have hchecked := termsAt_of_check hterms.session hcheck
    rw [hpending.sendTerms hcheck hfee, hchecked.unique hterms]

theorem signature_fees (b : Ledger) (fees : UInt64) :
    signature { b with totalFees := fees } = signature b := rfl

/-- What a send was opened with it keeps through every run that neither resets, nor adds coins, nor
closes a send with its slot. Opened again, for whatever heights, it is shown on the same terms and
given the same token and points. Closed under this token, for whatever heights and points, it is
signed with the keys it was opened with, unless the peer did not confirm the payment. -/
theorem pending_send_closes (d : Device) (s : State) {request : List UInt8} {capacity : Nat}
    {approve : SpendPrompt → Bool} {r : OpenSend} {opened : OpenedSend} (between : List Step)
    (hr : Request.ofList? request = some (.openSend r))
    (hopened : (d.perform s (.invoke request capacity approve)).bytes =
      StatusMajor.ok.toByte :: OpenedSend.layout.write opened)
    (hbetween : ∀ p ∈ d.trace (d.perform s (.invoke request capacity approve)).state between,
      ¬p.Ends r.slot) :
    let u := d.after s (.invoke request capacity approve :: between)
    ∃ b t, d.TermsAt s r.kernel r.parties r.slot b t ∧ opened = ⟨t.agreement, t.keys.points⟩ ∧
      (∀ again kernel room approve', kernel.fee = r.kernel.fee →
        Request.ofList? again = some (.openSend ⟨kernel, r.parties, r.slot⟩) →
        1 + Opcode.openSend.answerWidth ≤ room →
        d.perform u (.invoke again room approve') =
          ⟨if approve' (sendPrompt t kernel) then
              StatusMajor.ok.toByte :: OpenedSend.layout.write opened
            else DeviceError.declined.status.toList,
            [.slotRead r.slot, .prompted (sendPrompt t kernel)], u⟩) ∧
      ∀ closing c room approve', c.kernel.fee = r.kernel.fee → c.parties = r.parties →
        c.slot = r.slot → c.agreement = opened.agreement →
        Request.ofList? closing = some (.closeSend c) →
        1 + Opcode.closeSend.answerWidth ≤ room →
        let id := c.kernel.id c.points []
        (d.perform u (.invoke closing room approve')).bytes =
          if c.paymentProof.verifyX (paymentConfirmation t.ownId id t.net t.asset)
              c.parties.peer then
            StatusMajor.ok.toByte ::
              ClosedSend.layout.write ⟨signature b t.keys 0 c.points.noncePub id⟩
          else DeviceError.paymentProof.status.toList := by
  intro u
  obtain ⟨b, t, hterms, htoken, hstate, hsend⟩ := openSend_pending hr hopened
  have hstart : Pending b r.slot (s.slots r.slot)
      (d.perform s (.invoke request capacity approve)).state := by
    rw [hstate]
    exact ⟨⟨b.totalFees, hterms.session⟩, rfl⟩
  have hpending : Pending b r.slot (s.slots r.slot) u := hstart.after between hbetween
  refine ⟨b, t, hterms, htoken, ?_, ?_⟩
  · intro again kernel room approve' hfee hagain hroom
    rw [htoken]
    exact invoke_openSend approve' hagain hroom (hsend u kernel hpending hfee)
  · intro closing c room approve' hfee hparties hslot hagreement hclosing hroom
    obtain ⟨fees, hb⟩ := hpending.session
    have hclose := hsend u c.kernel hpending hfee
    rw [← hparties, ← hslot] at hclose
    have htoken' : c.agreement = t.agreement := by rw [hagreement, htoken]
    have hclosed := invoke_closeSend approve' hclosing hroom hb hclose htoken'
    rwa [signature_fees] at hclosed

/-- On a balance that owes 1000, a send of 980 is opened and a split signed. Then the send is opened
again for other heights, with the same answer, and closed. -/
theorem pending_send_closes_split :
    let d := Sample.device (.zero 32)
    let s : State := ⟨some { native := -1000 }, fun _ => .zero 32, 0⟩
    ∃ opening splitting reopening closing : Step,
      opening ≠ reopening ∧ accepted (d.perform s opening).bytes = true ∧
      accepted (d.perform s splitting).bytes = true ∧
      (d.perform (d.after s [opening, splitting]) reopening).bytes =
        (d.perform s opening).bytes ∧
      accepted (d.perform (d.after s [opening, splitting]) closing).bytes = true := by
  intro d s
  obtain ⟨b, hb, hnet, hnet'⟩ : ∃ b : Ledger, s.session = some b ∧
      b.net (some 20) = .ok (980, 0) ∧ b.net (some 1000) = .ok (0, 0) := ⟨_, rfl, rfl, rfl⟩
  obtain ⟨peer, hpeer⟩ : ∃ peer, peer = ((KeyNode.ofSeed (.zero 32)).address 1).2 := ⟨_, rfl⟩
  have hthere : allZero peer.toList = false := by
    rw [hpeer]
    exact KeyNode.address_ne_zero _ 1
  have hcheck : d.checkSend b ⟨20, 1, 100⟩ ⟨peer, 0⟩ 3 = .ok (980, 0) :=
    checkSend_ok_iff.mpr ⟨hnet, by decide, hthere, by decide⟩
  let opening (kernel : KernelParams) : Step :=
    .invoke (Request.openSend ⟨kernel, ⟨peer, 0⟩, 3⟩).toList 99 fun _ => true
  let splitting : Step := .invoke (Request.split ⟨⟨1000, 1, 100⟩⟩).toList 131 fun _ => true
  have hperform : d.perform s (opening ⟨20, 1, 100⟩) = _ :=
    perform_openSend (by decide) hb hcheck rfl
  obtain ⟨opened, hopen⟩ : ∃ opened, (d.perform s (opening ⟨20, 1, 100⟩)).bytes =
      StatusMajor.ok.toByte :: OpenedSend.layout.write opened :=
    ⟨_, congrArg Response.bytes hperform⟩
  obtain ⟨shown, reply, hplan⟩ := planSplit_of_net (r := ⟨⟨1000, 1, 100⟩⟩) hnet'
  have hsplit : d.perform s splitting = _ := perform_split d (by decide) hb hplan rfl
  obtain ⟨_, t, _, hopened, hagain, hclose⟩ := pending_send_closes d s [splitting]
    (Request.ofList?_toList (.openSend ⟨⟨20, 1, 100⟩, ⟨peer, 0⟩, 3⟩)) hopen (by
      intro p hp
      cases List.mem_singleton.mp hp
      exact not_ends (Request.ofList?_toList (.split ⟨⟨1000, 1, 100⟩⟩)) nofun nofun 3)
  obtain ⟨c, hkernel, hparties, hslot, hagreed⟩ :=
    exists_agreed t ⟨20, 1, 100⟩ 3 (show (⟨peer, 0⟩ : Parties).peer = _ from hpeer)
  have hagain' := hagain _ ⟨20, 5, 500⟩ 99 (fun _ => true) rfl
    (Request.ofList?_toList (.openSend ⟨⟨20, 5, 500⟩, ⟨peer, 0⟩, 3⟩)) (by decide)
  have htoken : c.agreement = opened.agreement := by rw [hagreed.1, hopened]
  have hclose' := hclose _ c 65 (fun _ => true) (congrArg KernelParams.fee hkernel) hparties hslot
    htoken (Request.ofList?_toList (.closeSend c)) (by decide)
  simp only [hagreed.2, if_true] at hclose'
  refine ⟨opening ⟨20, 1, 100⟩, splitting, opening ⟨20, 5, 500⟩,
    .invoke (Request.closeSend c).toList 65 fun _ => true, ?_, ?_, ?_, ?_, ?_⟩
  · intro h
    have hbytes := congrArg Request.ofList? (Step.invoke.inj h).1
    rw [Request.ofList?_toList, Request.ofList?_toList] at hbytes
    have hkernels : (⟨20, 1, 100⟩ : KernelParams) = ⟨20, 5, 500⟩ :=
      congrArg OpenSend.kernel (Request.openSend.inj (Option.some.inj hbytes))
    exact absurd hkernels (by decide)
  · exact accepted_cons hopen
  · exact accepted_cons (congrArg Response.bytes hsplit)
  · rw [hopen]
    exact congrArg Response.bytes hagain'
  · exact accepted_cons hclose'

end Pending

end Device

end ColdWallet
