import ColdWallet.Device.Transfer
import ColdWallet.Proofs.Device.Turn
import ColdWallet.Proofs.Signature

namespace ColdWallet

/-- An own kernel signed on the balance, once the user has agreed to it. -/
def Device.signPlanned (approve : SpendPrompt → Bool)
    (plan : Ledger → Except DeviceError (SpendPrompt × SignedKernel)) (fee : UInt64) :
    Act SignedKernel := do
  let (prompt, reply) ← Act.ofExcept (plan (← Act.ledger))
  Act.confirm approve prompt
  Act.settle fee
  return reply

/-- What the user is asked before a send to a voucher. A send to an own address takes nothing out of
the wallet. -/
def SendShielded.prompt (r : SendShielded) (net : UInt64) (asset : UInt32) (id : Bytes 32) :
    SpendPrompt :=
  if r.parties.ownAddress = 0 then
    { amount := net, asset, peer := some r.parties.peer, kernel := r.kernel, kernelId := some id }
  else { amount := 0, asset := 0, peer := none, kernel := r.kernel, kernelId := some id }

namespace Device

variable {approve : SpendPrompt → Bool} {s : State} {b : Ledger}

section Planned

variable {plan : Ledger → Except DeviceError (SpendPrompt × SignedKernel)} {fee : UInt64}

theorem signPlanned_none (h : s.session = none) :
    signPlanned approve plan fee s = ⟨.error .noBalance, [], s⟩ := by
  unfold signPlanned
  exact Act.bind_error _ (Act.ledger_run_none h)

theorem signPlanned_error {e : DeviceError} (h : s.session = some b) (hplan : plan b = .error e) :
    signPlanned approve plan fee s = ⟨.error e, [], s⟩ := by
  unfold signPlanned
  rw [Act.bind_quiet _ (Act.ledger_run h), hplan]
  exact Act.bind_error _ (Act.ofExcept_run _ s)

theorem signPlanned_declined {prompt : SpendPrompt} {reply : SignedKernel}
    (h : s.session = some b) (hplan : plan b = .ok (prompt, reply))
    (hagreed : approve prompt = false) :
    signPlanned approve plan fee s = ⟨.error .declined, [.prompted prompt], s⟩ := by
  have hconfirm := Act.confirm_run approve prompt s
  rw [hagreed, if_neg Bool.false_ne_true] at hconfirm
  unfold signPlanned
  rw [Act.bind_quiet _ (Act.ledger_run h), hplan, Act.bind_quiet _ (Act.ofExcept_run _ s)]
  exact Act.bind_error _ hconfirm

theorem signPlanned_ok {prompt : SpendPrompt} {reply : SignedKernel} (h : s.session = some b)
    (hplan : plan b = .ok (prompt, reply)) (hagreed : approve prompt = true) :
    signPlanned approve plan fee s =
      ⟨.ok reply, [.prompted prompt], { s with session := some (b.settle fee) }⟩ := by
  have hconfirm := Act.confirm_run approve prompt s
  rw [hagreed, if_pos rfl] at hconfirm
  unfold signPlanned
  rw [Act.bind_quiet _ (Act.ledger_run h), hplan, Act.bind_quiet _ (Act.ofExcept_run _ s)]
  exact Act.bind_run hconfirm (Act.wrap_ok _ (Act.settle_run fee h))

end Planned

theorem split_eq (r : Split) :
    split approve r = signPlanned approve (fun b => planSplit b r) r.kernel.fee := rfl

theorem sendShielded_eq (d : Device) (r : SendShielded) :
    d.sendShielded approve r =
      signPlanned approve (fun b => d.planSendShielded b r) r.kernel.fee := rfl

section Plans

variable {d : Device} {prompt : SpendPrompt} {reply : SignedKernel} {net : UInt64} {asset : UInt32}

/-- A split whose amount is known is refused for it, or planned. -/
theorem planSplit_of_amount {r : Split}
    (hnet : b.net (some r.kernel.fee) = .ok (net, asset)) :
    planSplit b r =
      if net ≠ 0 then .error .netAmount
      else
        let keys := r.keys b
        let id := r.kernel.id keys.points []
        .ok ({ amount := 0, asset := 0, peer := none, kernel := r.kernel, kernelId := some id },
          ⟨keys.points, signature b keys 0 keys.points.noncePub id⟩) := by
  unfold planSplit
  rw [hnet]
  rfl

/-- What was planned for a split: nothing leaves the wallet, and the prompt says so. -/
theorem planSplit_ok {r : Split} (h : planSplit b r = .ok (prompt, reply)) :
    ∃ asset, b.net (some r.kernel.fee) = .ok (0, asset) ∧
      prompt =
        { amount := 0, asset := 0, peer := none, kernel := r.kernel
          kernelId := some (r.kernel.id (r.keys b).points []) } ∧
      reply = ⟨(r.keys b).points, signature b (r.keys b) 0 (r.keys b).points.noncePub
        (r.kernel.id (r.keys b).points [])⟩ := by
  simp only [planSplit, except_bind_ok, except_guard_ok, except_pure_ok] at h
  obtain ⟨⟨net, asset⟩, hnet, hzero, h⟩ := h
  obtain rfl : net = 0 := by_contra hzero
  cases h
  exact ⟨asset, hnet, rfl, rfl⟩

/-- The checks of a send to a voucher whose amount is known, in their order. -/
theorem planSendShielded_of_amount {r : SendShielded}
    (hnet : b.net (some r.kernel.fee) = .ok (net, asset)) :
    d.planSendShielded b r =
      if net = 0 then .error .netAmount
      else if allZero r.parties.peer.toList then .error .missingPeer
      else match r.verifyOutput? d.master net asset with
        | none => .error .shieldedOutput
        | some (outputBlinding, nested) =>
          let keys := r.keys b nested
          let id := r.kernel.id keys.points [nested]
          .ok (r.prompt net asset id,
            ⟨keys.points, signature b keys outputBlinding keys.points.noncePub id⟩) := by
  unfold planSendShielded
  rw [hnet]
  show (if net = 0 then _ else _) = _
  congr 1
  show (if _ then _ else _) = _
  congr 1
  cases r.verifyOutput? d.master net asset with
  | none => rfl
  | some output => rfl

/-- What was planned for a send to a voucher: there is something to send and somebody to send it to,
and the output was checked for that amount. -/
theorem planSendShielded_ok {r : SendShielded} (h : d.planSendShielded b r = .ok (prompt, reply)) :
    ∃ (net : UInt64) (asset : UInt32) (blinding : Scalar) (nested : Bytes 32),
      b.net (some r.kernel.fee) = .ok (net, asset) ∧ net ≠ 0 ∧
      allZero r.parties.peer.toList = false ∧
      r.verifyOutput? d.master net asset = some (blinding, nested) ∧
      prompt = r.prompt net asset (r.kernel.id (r.keys b nested).points [nested]) ∧
      reply = ⟨(r.keys b nested).points,
        signature b (r.keys b nested) blinding (r.keys b nested).points.noncePub
          (r.kernel.id (r.keys b nested).points [nested])⟩ := by
  simp only [planSendShielded, except_bind_ok, except_guard_ok, Bool.not_eq_true] at h
  obtain ⟨⟨net, asset⟩, hnet, hmoves, hpeer, h⟩ := h
  cases hverify : r.verifyOutput? d.master net asset with
  | none =>
    simp only [hverify] at h
    cases h
  | some output =>
    simp only [hverify] at h
    cases h
    exact ⟨net, asset, output.1, output.2, hnet, hmoves, hpeer, hverify, rfl, rfl⟩

end Plans

section Sending

variable {d : Device} {kernel : KernelParams} {parties : Parties} {slot : UInt32}
  {net : UInt64} {asset : UInt32}

/-- The terms of a send whose slot holds this value. -/
def termsOf (d : Device) (b : Ledger) (kernel : KernelParams) (parties : Parties) (net : UInt64)
    (asset : UInt32) (value : Bytes 32) : SendTerms where
  fee := kernel.fee
  peer := parties.peer
  ownId := (d.master.address parties.ownAddress).2
  blinding := b.blinding
  net
  asset
  nonce := d.master.key value

theorem sendTerms_none (h : s.session = none) :
    d.sendTerms kernel parties slot s = ⟨.error .noBalance, [], s⟩ := by
  unfold sendTerms
  exact Act.bind_error _ (Act.ledger_run_none h)

theorem sendTerms_error {e : DeviceError} (h : s.session = some b)
    (hcheck : d.checkSend b kernel parties slot = .error e) :
    d.sendTerms kernel parties slot s = ⟨.error e, [], s⟩ := by
  unfold sendTerms
  rw [Act.bind_quiet _ (Act.ledger_run h), hcheck]
  exact Act.bind_error _ (Act.ofExcept_run _ s)

theorem sendTerms_ok (h : s.session = some b)
    (hcheck : d.checkSend b kernel parties slot = .ok (net, asset)) :
    d.sendTerms kernel parties slot s =
      ⟨.ok (d.termsOf b kernel parties net asset (s.slots slot)), [.slotRead slot], s⟩ := by
  unfold sendTerms
  rw [Act.bind_quiet _ (Act.ledger_run h), hcheck, Act.bind_quiet _ (Act.ofExcept_run _ s)]
  exact Act.wrap_ok _ (Act.readSlot_run slot s)

theorem checkSend_ok_iff :
    d.checkSend b kernel parties slot = .ok (net, asset) ↔
      b.net (some kernel.fee) = .ok (net, asset) ∧ net ≠ 0 ∧
        allZero parties.peer.toList = false ∧ slot < d.policy.slots := by
  simp only [checkSend, except_bind_ok, except_guard_ok, except_pure_ok, UInt32.not_le,
    Bool.not_eq_true]
  constructor
  · rintro ⟨⟨n, a⟩, h, hn, hp, hs, he⟩
    cases he
    exact ⟨h, hn, hp, hs⟩
  · rintro ⟨h, hn, hp, hs⟩
    exact ⟨_, h, hn, hp, hs, rfl⟩

def sendPrompt (t : SendTerms) (kernel : KernelParams) : SpendPrompt where
  amount := t.net
  asset := t.asset
  peer := some t.peer
  kernel
  kernelId := none

theorem openSend_run {r : OpenSend} {t : SendTerms}
    (h : d.sendTerms r.kernel r.parties r.slot s = ⟨.ok t, [.slotRead r.slot], s⟩) :
    d.openSend approve r s =
      ⟨if approve (sendPrompt t r.kernel) then .ok ⟨t.agreement, t.keys.points⟩
        else .error .declined, [.slotRead r.slot, .prompted (sendPrompt t r.kernel)], s⟩ := by
  have hconfirm := Act.confirm_run approve (sendPrompt t r.kernel) s
  unfold openSend
  cases hagreed : approve (sendPrompt t r.kernel) with
  | false =>
    rw [hagreed, if_neg Bool.false_ne_true] at hconfirm
    exact Act.bind_run h (Act.bind_error _ hconfirm)
  | true =>
    rw [hagreed, if_pos rfl] at hconfirm
    exact Act.bind_run h (Act.wrap_ok _ hconfirm)

/-- The part of closing a send that comes before anything is changed. -/
def authorizeSend (d : Device) (r : CloseSend) : Act SendTerms := do
  let t ← d.sendTerms r.kernel r.parties r.slot
  if r.agreement ≠ t.agreement then Act.fail .userAgreement
  let message := paymentConfirmation t.ownId (r.kernel.id r.points []) t.net t.asset
  if !r.paymentProof.verifyX message r.parties.peer then Act.fail .paymentProof
  return t

def signSend (r : CloseSend) (t : SendTerms) : Act ClosedSend := do
  let b ← Act.ledger
  Act.settle r.kernel.fee
  return ⟨signature b t.keys 0 r.points.noncePub (r.kernel.id r.points [])⟩

/-- The bytes drawn from a position of the device's entropy on. -/
def draw (d : Device) (position : Nat) : Bytes 32 :=
  Vector.ofFn fun i : Fin 32 => d.entropy (position + i.val)

def renewed (d : Device) (slot : UInt32) (s : State) : State where
  session := s.session
  slots i := if i = slot then d.draw s.drawn else s.slots i
  drawn := s.drawn + 32

theorem renewSlot_run (d : Device) (slot : UInt32) (s : State) :
    d.renewSlot slot s = ⟨.ok (), [.slotWrite slot (d.draw s.drawn)], d.renewed slot s⟩ := rfl

theorem signSend_run {r : CloseSend} {t : SendTerms} (h : s.session = some b) :
    signSend r t s =
      ⟨.ok ⟨signature b t.keys 0 r.points.noncePub (r.kernel.id r.points [])⟩, [],
        { s with session := some (b.settle r.kernel.fee) }⟩ := by
  unfold signSend
  rw [Act.bind_quiet _ (Act.ledger_run h)]
  exact Act.wrap_ok _ (Act.settle_run r.kernel.fee h)

theorem sendTerms_cases (d : Device) (kernel : KernelParams) (parties : Parties) (slot : UInt32)
    (s : State) :
    (∃ e, d.sendTerms kernel parties slot s = ⟨.error e, [], s⟩) ∨
      ∃ b net asset, s.session = some b ∧
        d.checkSend b kernel parties slot = .ok (net, asset) ∧
        d.sendTerms kernel parties slot s =
          ⟨.ok (d.termsOf b kernel parties net asset (s.slots slot)), [.slotRead slot], s⟩ := by
  cases h : s.session with
  | none => exact Or.inl ⟨_, sendTerms_none h⟩
  | some b =>
    cases hcheck : d.checkSend b kernel parties slot with
    | error e => exact Or.inl ⟨e, sendTerms_error h hcheck⟩
    | ok v => exact Or.inr ⟨b, v.1, v.2, rfl, hcheck, sendTerms_ok h hcheck⟩

/-- The checks that follow the slot's reading. -/
def SendAgreed (r : CloseSend) (t : SendTerms) : Prop :=
  r.agreement = t.agreement ∧
    r.paymentProof.verifyX (paymentConfirmation t.ownId (r.kernel.id r.points []) t.net t.asset)
      r.parties.peer = true

/-- A peer who signed the payment with the key of one of its addresses confirmed it. -/
theorem sendAgreed_of_signed {r : CloseSend} {t : SendTerms} (peer : KeyNode) (number : UInt64)
    (hagreement : r.agreement = t.agreement) (hpeer : r.parties.peer = (peer.address number).2)
    (hproof : r.paymentProof =
      .sign (paymentConfirmation t.ownId (r.kernel.id r.points []) t.net t.asset)
        (peer.address number).1) :
    SendAgreed r t := by
  refine ⟨hagreement, ?_⟩
  rw [hpeer, hproof]
  exact Signature.sign_verifiesX _ _

theorem authorizeSend_ok {r : CloseSend} {t : SendTerms}
    (h : d.sendTerms r.kernel r.parties r.slot s = ⟨.ok t, [.slotRead r.slot], s⟩)
    (hagreed : SendAgreed r t) :
    d.authorizeSend r s = ⟨.ok t, [.slotRead r.slot], s⟩ := by
  obtain ⟨hagreement, hproof⟩ := hagreed
  refine Act.bind_run h ?_
  rw [if_neg (fun h => h hagreement)]
  simp only [hproof]
  rfl

theorem authorizeSend_unconfirmed {r : CloseSend} {t : SendTerms}
    (h : d.sendTerms r.kernel r.parties r.slot s = ⟨.ok t, [.slotRead r.slot], s⟩)
    (hagreement : r.agreement = t.agreement)
    (hproof : r.paymentProof.verifyX
      (paymentConfirmation t.ownId (r.kernel.id r.points []) t.net t.asset)
      r.parties.peer = false) :
    d.authorizeSend r s = ⟨.error .paymentProof, [.slotRead r.slot], s⟩ := by
  refine Act.bind_run h ?_
  rw [if_neg (fun h => h hagreement)]
  simp only [hproof]
  rfl

theorem authorizeSend_disagreed {r : CloseSend} {t : SendTerms}
    (h : d.sendTerms r.kernel r.parties r.slot s = ⟨.ok t, [.slotRead r.slot], s⟩)
    (hagreement : r.agreement ≠ t.agreement) :
    d.authorizeSend r s = ⟨.error .userAgreement, [.slotRead r.slot], s⟩ := by
  refine Act.bind_run h ?_
  rw [if_pos hagreement]
  rfl

theorem authorizeSend_refused {r : CloseSend} {t : SendTerms}
    (h : d.sendTerms r.kernel r.parties r.slot s = ⟨.ok t, [.slotRead r.slot], s⟩)
    (hrefused : ¬SendAgreed r t) :
    ∃ e, d.authorizeSend r s = ⟨.error e, [.slotRead r.slot], s⟩ := by
  by_cases hagreement : r.agreement = t.agreement
  · have hproof : r.paymentProof.verifyX
        (paymentConfirmation t.ownId (r.kernel.id r.points []) t.net t.asset)
        r.parties.peer = false := by
      rw [Bool.eq_false_iff]
      exact fun hproof => hrefused ⟨hagreement, hproof⟩
    exact ⟨_, authorizeSend_unconfirmed h hagreement hproof⟩
  · exact ⟨_, authorizeSend_disagreed h hagreement⟩

/-- Closing a send is checking it, renewing the slot, and only then signing. -/
theorem closeSend_eq (d : Device) (r : CloseSend) :
    d.closeSend r =
      d.authorizeSend r >>= fun t => d.renewSlot r.slot >>= fun _ => signSend r t := by
  unfold closeSend authorizeSend
  rw [Act.bind_assoc]
  congr 1
  funext t
  by_cases hagreement : r.agreement = t.agreement
  · have hsame : ¬r.agreement ≠ t.agreement := fun h => h hagreement
    simp only [if_neg hsame]
    cases r.paymentProof.verifyX
        (paymentConfirmation t.ownId (r.kernel.id r.points []) t.net t.asset) r.parties.peer with
    | true => rfl
    | false => rfl
  · simp only [if_pos (show r.agreement ≠ t.agreement from hagreement)]
    rfl

/-- Once it is authorized, a send is closed. -/
theorem closeSend_run {r : CloseSend} {t : SendTerms} (h : s.session = some b)
    (hterms : d.sendTerms r.kernel r.parties r.slot s = ⟨.ok t, [.slotRead r.slot], s⟩)
    (hagreed : SendAgreed r t) :
    d.closeSend r s =
      ⟨.ok ⟨signature b t.keys 0 r.points.noncePub (r.kernel.id r.points [])⟩,
        [.slotRead r.slot, .slotWrite r.slot (d.draw s.drawn)],
        { d.renewed r.slot s with session := some (b.settle r.kernel.fee) }⟩ := by
  rw [closeSend_eq]
  exact Act.bind_run (authorizeSend_ok hterms hagreed)
    (Act.bind_run (renewSlot_run d r.slot s) (signSend_run (s := d.renewed r.slot s) h))

theorem closeSend_ok {r : CloseSend} (h : s.session = some b)
    (hcheck : d.checkSend b r.kernel r.parties r.slot = .ok (net, asset))
    (hagreed : SendAgreed r (d.termsOf b r.kernel r.parties net asset (s.slots r.slot))) :
    d.closeSend r s =
      ⟨.ok ⟨signature b (d.termsOf b r.kernel r.parties net asset (s.slots r.slot)).keys 0
          r.points.noncePub (r.kernel.id r.points [])⟩,
        [.slotRead r.slot, .slotWrite r.slot (d.draw s.drawn)],
        { d.renewed r.slot s with session := some (b.settle r.kernel.fee) }⟩ :=
  closeSend_run h (sendTerms_ok h hcheck) hagreed

end Sending

def opening (r : AddCoins) (s : State) : Ledger :=
  (if r.reset != 0 then none else s.session).getD {}

section Adding

variable {d : Device} {r : AddCoins}

theorem addCoins_ok (h : (opening r s).addCoins d.master d.policy r = .ok b) :
    d.addCoins r s = ⟨.ok (), [], { s with session := some b }⟩ := by
  unfold addCoins
  rw [Act.bind_quiet _ (rfl : Act.look s = ⟨.ok s, [], s⟩)]
  unfold opening at h
  simp only [h]
  rfl

theorem addCoins_error {e : DeviceError}
    (h : (opening r s).addCoins d.master d.policy r = .error e) :
    d.addCoins r s = ⟨.error e, [], { s with session := none }⟩ := by
  unfold addCoins
  rw [Act.bind_quiet _ (rfl : Act.look s = ⟨.ok s, [], s⟩)]
  unfold opening at h
  simp only [h]
  rfl

end Adding

end Device

end ColdWallet
