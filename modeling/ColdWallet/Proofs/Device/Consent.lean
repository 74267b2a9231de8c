import ColdWallet.Proofs.Device.Exchange
import ColdWallet.Proofs.Device.Frame
import ColdWallet.Proofs.Device.OwnKernel
import ColdWallet.Proofs.Device.Slots
import ColdWallet.Proofs.Transcript

namespace ColdWallet

def Step.approves : Step → SpendPrompt → Bool
  | invoke _ _ approve => approve
  | reset => fun _ => false

/-- All that the terms of a send depend on can be read off the bytes hashed for its key. -/
theorem SendTerms.preimage_injective : Function.Injective SendTerms.preimage := by
  intro t u h
  simp only [preimage, List.append_assoc] at h
  obtain ⟨hfee, h⟩ := Write.num_prefixFree h
  obtain ⟨hpeer, h⟩ := Write.bytes_prefixFree 32 h
  obtain ⟨hownId, h⟩ := Write.bytes_prefixFree 32 h
  obtain ⟨_, h⟩ := List.append_inj h rfl
  obtain ⟨hblinding, h⟩ := Write.scalar_prefixFree h
  obtain ⟨hnet, h⟩ := Write.num_prefixFree h
  obtain ⟨hasset, h⟩ := Write.num32_prefixFree h
  have hnonce := (Write.scalar_prefixFree (s := []) (t := []) (by simpa using h)).1
  cases t
  cases u
  cases hfee
  cases hpeer
  cases hownId
  cases hblinding
  cases hnet
  cases hasset
  cases hnonce
  rfl

theorem Ledger.net_settle (b : Ledger) (fee : UInt64) (kernelFee : Option UInt64) :
    (b.settle fee).net kernelFee = b.net kernelFee := rfl

namespace Device

/-- The terms of a send as they stand in a state: what the open balance leaves after the fee, the
own address, the balance's blinding factor, and the nonce of the slot. -/
structure TermsAt (d : Device) (s : State) (kernel : KernelParams) (parties : Parties)
    (slot : UInt32) (b : Ledger) (t : SendTerms) : Prop where
  session : s.session = some b
  net : b.net (some kernel.fee) = .ok (t.net, t.asset)
  fee : t.fee = kernel.fee
  peer : t.peer = parties.peer
  ownId : t.ownId = (d.master.address parties.ownAddress).2
  blinding : t.blinding = b.blinding
  nonce : t.nonce = d.master.key (s.slots slot)

/-- What a prompt shows of the amount: nothing leaves the wallet with a split or towards an own
address, and else the net amount goes to the peer. -/
def Shows (d : Device) (b : Ledger) (prompt : SpendPrompt) : Request → Prop
  | .split _ => prompt.amount = 0 ∧ prompt.asset = 0 ∧ prompt.peer = none
  | .sendShielded r =>
    if r.parties.ownAddress = 0 then
      b.net (some r.kernel.fee) = .ok (prompt.amount, prompt.asset) ∧
        prompt.peer = some r.parties.peer
    else
      (d.master.address r.parties.ownAddress).2 = r.parties.peer ∧
        prompt.amount = 0 ∧ prompt.asset = 0 ∧ prompt.peer = none
  | _ => False

/-- A prompt for an own kernel shows the amount, the kernel's parameters, and the identifier that
the signature is for. -/
structure Shown (d : Device) (b : Ledger) (r : Request) (kernel : KernelParams)
    (prompt : SpendPrompt) (reply : SignedKernel) : Prop where
  params : prompt.kernel = kernel
  amount : d.Shows b prompt r
  signed : ∃ nested outputs, Carries d b r nested outputs ∧
    prompt.kernelId = some (kernel.id reply.points nested) ∧
    Signature.verify ⟨reply.points.noncePub, reply.signature.response⟩
      (kernel.id reply.points nested) reply.points.commitment = true

section Own

variable {d : Device} {b : Ledger} {prompt : SpendPrompt} {reply : SignedKernel}

theorem signature_verifies (b : Ledger) (keys : KernelKeys) (further : Scalar) (id : Bytes 32) :
    Signature.verify ⟨keys.points.noncePub,
      (signature b keys further keys.points.noncePub id).response⟩ id keys.points.commitment =
        true :=
  KernelKeys.sign_verifies _ keys.points_commitment keys.points_noncePub

theorem planSplit_shown {r : Split} (h : planSplit b r = .ok (prompt, reply)) :
    Shown d b (.split r) r.kernel prompt reply := by
  obtain ⟨_, _, rfl, rfl⟩ := planSplit_ok h
  exact {
    params := rfl
    amount := ⟨rfl, rfl, rfl⟩
    signed := ⟨[], [], .split r, rfl, signature_verifies b _ 0 _⟩ }

theorem peer_of_verifyOutput {r : SendShielded} {net : UInt64} {asset : UInt32}
    {output : Scalar × Bytes 32} (h : r.verifyOutput? d.master net asset = some output)
    (hown : r.parties.ownAddress ≠ 0) :
    (d.master.address r.parties.ownAddress).2 = r.parties.peer := by
  unfold SendShielded.verifyOutput? at h
  obtain ⟨hhonest, _⟩ := Option.ite_none_right_eq_some.mp h
  have hpeer := (Bool.and_eq_true_iff.mp hhonest).1
  have haddress := (Bool.and_eq_true_iff.mp hpeer).2
  rcases Bool.or_eq_true_iff.mp haddress with hzero | hsame
  · exact absurd (beq_iff_eq.mp hzero) hown
  · exact beq_iff_eq.mp hsame

theorem planSendShielded_shown {r : SendShielded}
    (h : d.planSendShielded b r = .ok (prompt, reply)) :
    Shown d b (.sendShielded r) r.kernel prompt reply := by
  obtain ⟨net, asset, blinding, nested, hnet, _, _, hverify, rfl, rfl⟩ := planSendShielded_ok h
  by_cases hown : r.parties.ownAddress = 0
  · simp only [SendShielded.prompt, if_pos hown]
    exact {
      params := rfl
      amount := by
        rw [Shows, if_pos hown]
        exact ⟨hnet, rfl⟩
      signed := ⟨[nested], _, .shielded hnet hverify, rfl, signature_verifies b _ _ _⟩ }
  · simp only [SendShielded.prompt, if_neg hown]
    exact {
      params := rfl
      amount := by
        rw [Shows, if_neg hown]
        exact ⟨peer_of_verifyOutput hverify hown, rfl, rfl, rfl⟩
      signed := ⟨[nested], _, .shielded hnet hverify, rfl, signature_verifies b _ _ _⟩ }

end Own

section Sending

variable {d : Device} {approve : SpendPrompt → Bool} {s : State} {b : Ledger}
  {request : List UInt8} {capacity : Nat}

theorem termsAt_of_check {kernel : KernelParams} {parties : Parties} {slot : UInt32}
    {net : UInt64} {asset : UInt32} (h : s.session = some b)
    (hcheck : d.checkSend b kernel parties slot = .ok (net, asset)) :
    d.TermsAt s kernel parties slot b
      (d.termsOf b kernel parties net asset (s.slots slot)) := by
  -- Named first, so that checking the fields does not work them out.
  obtain ⟨ownId, hownId⟩ : ∃ id, id = (d.master.address parties.ownAddress).2 := ⟨_, rfl⟩
  obtain ⟨nonce, hnonce⟩ : ∃ k, k = d.master.key (s.slots slot) := ⟨_, rfl⟩
  have hterms : d.termsOf b kernel parties net asset (s.slots slot) =
      ⟨kernel.fee, parties.peer, ownId, b.blinding, net, asset, nonce⟩ := by
    rw [hownId, hnonce]
    rfl
  rw [hterms]
  exact {
    session := h
    net := (checkSend_ok_iff.mp hcheck).1
    fee := rfl
    peer := rfl
    ownId := hownId
    blinding := rfl
    nonce := hnonce }

/-- A send is opened on the terms of the moment, once the user agreed to them, or not at all. -/
theorem openSend_cases (d : Device) (approve : SpendPrompt → Bool) (r : OpenSend) (s : State) :
    (∃ e events, d.openSend approve r s = ⟨.error e, events, s⟩) ∨
      ∃ b t, d.TermsAt s r.kernel r.parties r.slot b t ∧
        d.checkSend b r.kernel r.parties r.slot = .ok (t.net, t.asset) ∧
        approve (sendPrompt t r.kernel) = true ∧
        d.openSend approve r s = ⟨.ok ⟨t.agreement, t.keys.points⟩,
          [.slotRead r.slot, .prompted (sendPrompt t r.kernel)], s⟩ := by
  rcases d.sendTerms_cases r.kernel r.parties r.slot s with ⟨e, h⟩ | ⟨b, net, asset, hb, hcheck, h⟩
  · exact Or.inl ⟨e, _, Act.bind_error _ h⟩
  · have hrun : d.openSend approve r s = _ := openSend_run h
    cases hagreed : approve (sendPrompt _ r.kernel) with
    | false =>
      rw [hagreed, if_neg Bool.false_ne_true] at hrun
      exact Or.inl ⟨_, _, hrun⟩
    | true =>
      rw [hagreed, if_pos rfl] at hrun
      exact Or.inr ⟨b, _, termsAt_of_check hb hcheck, hcheck, hagreed, hrun⟩

theorem openSend_accepted {r : OpenSend} (hr : Request.ofList? request = some (.openSend r))
    (h : accepted (d.invoke approve request capacity s).bytes = true) :
    ∃ b t, d.TermsAt s r.kernel r.parties r.slot b t ∧
      d.checkSend b r.kernel r.parties r.slot = .ok (t.net, t.asset) ∧
      approve (sendPrompt t r.kernel) = true ∧
      d.invoke approve request capacity s =
        ⟨StatusMajor.ok.toByte :: OpenedSend.layout.write ⟨t.agreement, t.keys.points⟩,
          [.slotRead r.slot, .prompted (sendPrompt t r.kernel)], s⟩ := by
  obtain ⟨r', reply, events, u, hr', hanswer, hinvoke⟩ := accepted_answer h
  rw [hr] at hr'
  cases hr'
  rcases d.openSend_cases approve r s with
    ⟨e, refused, hrun⟩ | ⟨b, t, hterms, hcheck, hagreed, hrun⟩
  · have hrefused : d.answer approve (capacity - 1) (.openSend r) s = _ := Act.bind_error _ hrun
    cases hanswer.symm.trans hrefused
  · have hopened : d.answer approve (capacity - 1) (.openSend r) s = _ :=
      Act.wrap_ok Reply.openedSend hrun
    cases hanswer.symm.trans hopened
    exact ⟨b, t, hterms, hcheck, hagreed, hinvoke⟩

theorem closeSend_accepted {r : CloseSend} (hr : Request.ofList? request = some (.closeSend r))
    (h : accepted (d.invoke approve request capacity s).bytes = true) :
    ∃ b t, d.TermsAt s r.kernel r.parties r.slot b t ∧ SendAgreed r t ∧
      (d.invoke approve request capacity s).bytes =
        StatusMajor.ok.toByte :: ClosedSend.layout.write
          ⟨signature b t.keys 0 r.points.noncePub (r.kernel.id r.points [])⟩ := by
  obtain ⟨r', reply, events, u, hr', heffect, hinvoke⟩ := accepted_effect h
  rw [hr] at hr'
  cases hr'
  rw [hinvoke]
  cases heffect with
  | closed hb hcheck hagreed => exact ⟨_, _, termsAt_of_check hb hcheck, hagreed, rfl⟩
  | still _ hsettled _ => cases hsettled _ rfl

/-- A token that the terms of the moment do not give is refused, and nothing happens. -/
theorem closeSend_refused {r : CloseSend} (hr : Request.ofList? request = some (.closeSend r))
    (hother : ∀ b t, d.TermsAt s r.kernel r.parties r.slot b t → r.agreement ≠ t.agreement) :
    accepted (d.invoke approve request capacity s).bytes = false ∧
      (d.invoke approve request capacity s).state = s := by
  have hrefused : accepted (d.invoke approve request capacity s).bytes = false := by
    rw [Bool.eq_false_iff]
    intro h
    obtain ⟨b, t, hterms, hagreed, _⟩ := closeSend_accepted hr h
    exact hother b t hterms hagreed.1
  refine ⟨hrefused, refused_state hrefused ?_⟩
  rw [Request.head?_of_ofList? hr]
  show some Opcode.closeSend.toByte ≠ some Opcode.addCoins.toByte
  decide

end Sending

section Passed

variable {d : Device} {p q : Passage}

theorem mem_trace {s t : State} {before : List Step} (h : d.after s before = t) (step : Step)
    (rest : List Step) : ⟨t, step, d.perform t step⟩ ∈ d.trace s (before ++ step :: rest) := by
  induction before generalizing s with
  | nil =>
    cases h
    exact List.mem_cons_self
  | cons first before ih => exact List.mem_cons_of_mem _ (ih h)

theorem accepted?_invoke (hp : p.response = d.perform p.before p.step) {r : Request}
    (h : p.accepted? = some r) :
    ∃ request capacity approve, p.step = .invoke request capacity approve ∧
      Request.ofList? request = some r ∧
      accepted (d.invoke approve request capacity p.before).bytes = true ∧
      p.response = d.invoke approve request capacity p.before := by
  obtain ⟨s, step, response⟩ := p
  cases step with
  | reset => cases h
  | invoke request capacity approve =>
    obtain rfl : response = d.invoke approve request capacity s := hp
    obtain ⟨haccepted, hr⟩ := Option.ite_none_right_eq_some.mp h
    exact ⟨request, capacity, approve, rfl, hr, haccepted, rfl⟩

theorem ownKernel_shown (hp : p.response = d.perform p.before p.step) {r : Request}
    {kernel : KernelParams} (h : p.accepted? = some r) (hkernel : r.ownKernel? = some kernel) :
    ∃ b prompt reply, p.before.session = some b ∧ p.step.approves prompt = true ∧
      p.response.events = [.prompted prompt] ∧
      p.response.bytes = StatusMajor.ok.toByte :: SignedKernel.layout.write reply ∧
      Shown d b r kernel prompt reply := by
  obtain ⟨request, capacity, approve, hstep, hr, haccepted, hresponse⟩ := accepted?_invoke hp h
  obtain ⟨r', reply, events, u, hr', heffect, hinvoke⟩ := accepted_effect haccepted
  rw [hr] at hr'
  cases hr'
  rw [hresponse, hinvoke, hstep]
  cases heffect with
  | split hb hplan hagreed =>
    cases hkernel
    exact ⟨_, _, _, hb, hagreed, rfl, rfl, planSplit_shown hplan⟩
  | shielded hb hplan hagreed =>
    cases hkernel
    exact ⟨_, _, _, hb, hagreed, rfl, rfl, planSendShielded_shown hplan⟩
  | still _ hsettled _ =>
    have hnone := hsettled _ rfl
    rw [settled_ownKernel hkernel] at hnone
    cases hnone
  | _ => cases hkernel

/-- A send closed under the token of another step has the terms of that step, provided the hashes
tell the terms of the two apart. -/
theorem send_shown (hp : p.response = d.perform p.before p.step)
    (hq : q.response = d.perform q.before q.step) {r : OpenSend} {opened : OpenedSend}
    {c : CloseSend} (hopen : p.accepted? = some (.openSend r))
    (hopened : p.response.bytes = StatusMajor.ok.toByte :: OpenedSend.layout.write opened)
    (hclose : q.accepted? = some (.closeSend c)) (hagreement : c.agreement = opened.agreement)
    (hhash : ∀ b t b' t', d.TermsAt p.before r.kernel r.parties r.slot b t →
      d.TermsAt q.before c.kernel c.parties c.slot b' t' →
      t.agreement = t'.agreement → t.preimage = t'.preimage) :
    ∃ b b' t, d.TermsAt p.before r.kernel r.parties r.slot b t ∧
      d.TermsAt q.before c.kernel c.parties c.slot b' t ∧
      p.step.approves (sendPrompt t r.kernel) = true ∧
      p.response.events = [.slotRead r.slot, .prompted (sendPrompt t r.kernel)] ∧
      SendAgreed c t ∧
      q.response.bytes = StatusMajor.ok.toByte :: ClosedSend.layout.write
        ⟨signature b' t.keys 0 c.points.noncePub (c.kernel.id c.points [])⟩ := by
  obtain ⟨request, capacity, approve, hstep, hr, haccepted, hresponse⟩ := accepted?_invoke hp hopen
  obtain ⟨b, t, hterms, _, hagreed, hinvoke⟩ := openSend_accepted hr haccepted
  obtain ⟨_, _, _, _, hc, haccepted', hresponse'⟩ := accepted?_invoke hq hclose
  obtain ⟨b', t', hterms', hagreed', hbytes⟩ := closeSend_accepted hc haccepted'
  rw [hresponse, hinvoke] at hopened
  have htoken : opened = ⟨t.agreement, t.keys.points⟩ :=
    (OpenedSend.layout_exact.injective (List.cons.inj hopened).2).symm
  have hsame : t.agreement = t'.agreement := by
    rw [← hagreed'.1, hagreement, htoken]
  obtain rfl : t = t' := SendTerms.preimage_injective (hhash b t b' t' hterms hterms' hsame)
  rw [hresponse, hinvoke, hresponse', hstep]
  exact ⟨b, b', t, hterms, hterms', hagreed, rfl, hagreed', hbytes⟩

end Passed

/-- Through every run, from whatever state. An own kernel leaves only with one prompt, which the
user approved, for the very identifier that its signature is for. A send closed under a token handed
out at any step has the terms that the user approved at that step, as long as the hashes tell the
terms of the two steps apart; and no other token than that of the terms of the moment closes it. -/
theorem spends_consented (d : Device) (s : State) (steps : List Step) :
    (∀ p ∈ d.trace s steps, ∀ r kernel, p.accepted? = some r → r.ownKernel? = some kernel →
      ∃ b prompt reply, p.before.session = some b ∧ p.step.approves prompt = true ∧
        p.response.events = [.prompted prompt] ∧
        p.response.bytes = StatusMajor.ok.toByte :: SignedKernel.layout.write reply ∧
        Shown d b r kernel prompt reply) ∧
    (∀ p ∈ d.trace s steps, ∀ q ∈ d.trace s steps, ∀ r opened c,
      p.accepted? = some (.openSend r) →
      p.response.bytes = StatusMajor.ok.toByte :: OpenedSend.layout.write opened →
      q.accepted? = some (.closeSend c) → c.agreement = opened.agreement →
      (∀ b t b' t', d.TermsAt p.before r.kernel r.parties r.slot b t →
        d.TermsAt q.before c.kernel c.parties c.slot b' t' →
        t.agreement = t'.agreement → t.preimage = t'.preimage) →
      ∃ b b' t prompt, d.TermsAt p.before r.kernel r.parties r.slot b t ∧
        d.TermsAt q.before c.kernel c.parties c.slot b' t ∧
        prompt = { amount := t.net, asset := t.asset, peer := some t.peer, kernel := r.kernel,
                   kernelId := none } ∧
        p.step.approves prompt = true ∧
        p.response.events = [.slotRead r.slot, .prompted prompt] ∧
        SendAgreed c t ∧
        q.response.bytes = StatusMajor.ok.toByte :: ClosedSend.layout.write
          ⟨signature b' t.keys 0 c.points.noncePub (c.kernel.id c.points [])⟩) ∧
    ∀ p ∈ d.trace s steps, ∀ request capacity approve c,
      p.step = .invoke request capacity approve → Request.ofList? request = some (.closeSend c) →
      (∀ b t, d.TermsAt p.before c.kernel c.parties c.slot b t → c.agreement ≠ t.agreement) →
      accepted p.response.bytes = false ∧ p.response.state = p.before := by
  have hperformed := trace_performed d s steps
  refine ⟨?_, ?_, ?_⟩
  · intro p hp r kernel haccepted hkernel
    exact ownKernel_shown (hperformed p hp) haccepted hkernel
  · intro p hp q hq r opened c hopen hopened hclose hagreement hhash
    obtain ⟨b, b', t, hterms, hterms', hagreed, hevents, hsend, hbytes⟩ :=
      send_shown (hperformed p hp) (hperformed q hq) hopen hopened hclose hagreement hhash
    exact ⟨b, b', t, _, hterms, hterms', rfl, hagreed, hevents, hsend, hbytes⟩
  · intro p hp request capacity approve c hstep hc hother
    rw [hperformed p hp, hstep]
    exact closeSend_refused hc hother

theorem perform_split (d : Device) {approve : SpendPrompt → Bool} {capacity : Nat} {s : State}
    {b : Ledger} {r : Split} {prompt : SpendPrompt} {reply : SignedKernel}
    (hcapacity : 1 + Opcode.split.answerWidth ≤ capacity) (hb : s.session = some b)
    (hplan : planSplit b r = .ok (prompt, reply)) (hagreed : approve prompt = true) :
    d.perform s (.invoke (Request.split r).toList capacity approve) =
      ⟨StatusMajor.ok.toByte :: SignedKernel.layout.write reply, [.prompted prompt],
        { s with session := some (b.settle r.kernel.fee) }⟩ := by
  have hanswer : d.answer approve (capacity - 1) (.split r) s = _ :=
    Act.wrap_ok Reply.signedKernel (signPlanned_ok hb hplan hagreed)
  exact perform_ok hcapacity hanswer

theorem TermsAt.unique {d : Device} {s : State} {kernel : KernelParams} {parties : Parties}
    {slot : UInt32} {b b' : Ledger} {t t' : SendTerms}
    (h : d.TermsAt s kernel parties slot b t) (h' : d.TermsAt s kernel parties slot b' t') :
    t = t' := by
  obtain rfl : b = b' := Option.some.inj (h.session.symm.trans h'.session)
  obtain ⟨hnet, hasset⟩ := Prod.mk.inj (Except.ok.inj (h.net.symm.trans h'.net))
  cases t
  cases t'
  simp only [SendTerms.mk.injEq]
  exact ⟨h.fee.trans h'.fee.symm, h.peer.trans h'.peer.symm, h.ownId.trans h'.ownId.symm,
    h.blinding.trans h'.blinding.symm, hnet, hasset, h.nonce.trans h'.nonce.symm⟩

/-- Signing another kernel in between leaves the terms of a send as they are. -/
theorem TermsAt.settle {d : Device} {s : State} {kernel : KernelParams} {parties : Parties}
    {slot : UInt32} {b : Ledger} {t : SendTerms} (h : d.TermsAt s kernel parties slot b t)
    (fee : UInt64) :
    d.TermsAt { s with session := some (b.settle fee) } kernel parties slot (b.settle fee) t :=
  { h with
    session := rfl
    net := (Ledger.net_settle b fee _).trans h.net }

/-- On a balance that owes 1000, a send of 980 is opened, a split signed, and the send closed. With
another token it is not. -/
theorem spends_consented_closing :
    let d := Sample.device (.zero 32)
    let s : State := ⟨some { native := -1000 }, fun _ => .zero 32, 0⟩
    ∃ (opening splitting : Step) (closing : Bytes 32 → Step) (token : Bytes 32)
      (shown prompt : SpendPrompt),
      (d.perform s opening).events = [.slotRead 3, .prompted prompt] ∧ prompt.amount = 980 ∧
      (d.perform s splitting).events = [.prompted shown] ∧ shown.kernel = ⟨1000, 1, 100⟩ ∧
      accepted (d.perform (d.after s [opening, splitting]) (closing token)).bytes = true ∧
      ∀ other, token ≠ other →
        accepted (d.perform (d.after s [opening, splitting]) (closing other)).bytes = false := by
  intro d s
  obtain ⟨b, hb, hnet, hnet'⟩ : ∃ b : Ledger, s.session = some b ∧
      b.net (some 20) = .ok (980, 0) ∧ b.net (some 1000) = .ok (0, 0) := ⟨_, rfl, rfl, rfl⟩
  obtain ⟨peer, hpeer⟩ : ∃ peer, peer = ((KeyNode.ofSeed (.zero 32)).address 1).2 := ⟨_, rfl⟩
  have hthere : allZero peer.toList = false := by
    rw [hpeer]
    exact KeyNode.address_ne_zero _ 1
  have hcheck : ∀ b' : Ledger, b'.net (some 20) = .ok (980, 0) →
      d.checkSend b' ⟨20, 1, 100⟩ ⟨peer, 0⟩ 3 = .ok (980, 0) := by
    intro b' hnet
    exact checkSend_ok_iff.mpr ⟨hnet, by decide, hthere, by decide⟩
  have hcheck' := hcheck (b.settle 1000) ((Ledger.net_settle b 1000 _).trans hnet)
  obtain ⟨t, ht⟩ : ∃ t, t = d.termsOf b ⟨20, 1, 100⟩ ⟨peer, 0⟩ 980 0 (s.slots 3) := ⟨_, rfl⟩
  have hterms : d.TermsAt s ⟨20, 1, 100⟩ ⟨peer, 0⟩ 3 b t := by
    rw [ht]
    exact termsAt_of_check hb (hcheck b hnet)
  obtain ⟨⟨_, _, _, proof, token, points⟩, rfl, rfl, rfl, hagreed⟩ :=
    exists_agreed t ⟨20, 1, 100⟩ 3 (show (⟨peer, 0⟩ : Parties).peer = _ from hpeer)
  let opening : Step :=
    .invoke (Request.openSend ⟨⟨20, 1, 100⟩, ⟨peer, 0⟩, 3⟩).toList 99 fun _ => true
  let splitting : Step := .invoke (Request.split ⟨⟨1000, 1, 100⟩⟩).toList 131 fun _ => true
  let closing (token : Bytes 32) : Step := .invoke
    (Request.closeSend ⟨⟨20, 1, 100⟩, ⟨peer, 0⟩, 3, proof, token, points⟩).toList 65 fun _ => true
  have hopen : d.perform s opening = _ :=
    perform_openSend (by decide) hb (hcheck b hnet) rfl
  rw [← ht] at hopen
  obtain ⟨shown, reply, hplan⟩ := planSplit_of_net (r := ⟨⟨1000, 1, 100⟩⟩) hnet'
  have hsplit : d.perform s splitting = _ :=
    perform_split d (by decide) hb hplan rfl
  have hbefore : d.after s [opening] = s := congrArg Response.state hopen
  obtain ⟨w, hw, hafter⟩ : ∃ w : State, w = { s with session := some (b.settle 1000) } ∧
      d.after s [opening, splitting] = w := by
    refine ⟨_, rfl, ?_⟩
    show (d.perform (d.after s [opening]) splitting).state = _
    rw [hbefore, hsplit]
  have hterms' : d.TermsAt w ⟨20, 1, 100⟩ ⟨peer, 0⟩ 3 (b.settle 1000) t := by
    rw [hw]
    exact hterms.settle 1000
  have hclose : d.perform w (closing token) = _ :=
    perform_closeSend (fun _ => true) (by decide) hterms'.session hcheck' (by
      rw [(termsAt_of_check hterms'.session hcheck').unique hterms']
      exact hagreed)
  obtain ⟨howns, hsends, _⟩ := spends_consented d s [opening, splitting, closing token]
  obtain ⟨_, shown', _, _, _, hevents', _, hshown⟩ := howns ⟨s, splitting, d.perform s splitting⟩
    (mem_trace hbefore splitting [closing token])
    (.split ⟨⟨1000, 1, 100⟩⟩) ⟨1000, 1, 100⟩
    (by
      rw [hsplit]
      exact accepted?_ok (Request.ofList?_toList _) (.signedKernel reply) _ _) rfl
  obtain ⟨_, _, t', prompt, hopened, _, rfl, _, hevents, _⟩ :=
    hsends ⟨s, opening, d.perform s opening⟩ (mem_trace (rfl : d.after s [] = s) opening _)
      ⟨w, closing token, d.perform w (closing token)⟩
      (mem_trace hafter (closing token) [])
      ⟨⟨20, 1, 100⟩, ⟨peer, 0⟩, 3⟩ ⟨t.agreement, t.keys.points⟩
      ⟨⟨20, 1, 100⟩, ⟨peer, 0⟩, 3, proof, token, points⟩
      (by
        rw [hopen]
        exact accepted?_ok (Request.ofList?_toList _) (.openedSend _) _ _)
      (congrArg Response.bytes hopen)
      (by
        rw [hclose]
        exact accepted?_ok (Request.ofList?_toList _) (.closedSend _) _ _)
      hagreed.1
      (fun _ _ _ _ h h' _ => by rw [h.unique hterms, h'.unique hterms'])
  refine ⟨opening, splitting, closing, token, shown', _, hevents, ?_, hevents', hshown.params, ?_,
    fun other hother => ?_⟩
  · rw [hopened.unique hterms, ht]
    rfl
  · rw [hafter, hclose]
    rfl
  · rw [hafter]
    have hrefuses := (spends_consented d s [opening, splitting, closing other]).2.2
    refine (hrefuses ⟨w, closing other, d.perform w (closing other)⟩
      (mem_trace hafter (closing other) [])
      _ _ _ _ rfl (Request.ofList?_toList _) fun _ _ h => ?_).1
    rw [h.unique hterms', ← hagreed.1]
    exact hother.symm

end Device

end ColdWallet
