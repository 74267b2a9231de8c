import ColdWallet.Proofs.Device.Prompts

namespace ColdWallet

def Request.sending? : Request → Option (KernelParams × Parties)
  | openSend r => some (r.kernel, r.parties)
  | closeSend r => some (r.kernel, r.parties)
  | sendShielded r => some (r.kernel, r.parties)
  | _ => none

theorem Request.sending?_answerWidth {r : Request} {terms : KernelParams × Parties}
    (h : r.sending? = some terms) : 1 ≤ r.opcode.answerWidth := by
  cases r with
  | openSend r => exact (by decide : 1 ≤ Opcode.openSend.answerWidth)
  | closeSend r => exact (by decide : 1 ≤ Opcode.closeSend.answerWidth)
  | sendShielded r => exact (by decide : 1 ≤ Opcode.sendShielded.answerWidth)
  | _ => cases h

namespace Ledger

/-- Whether the balance has something to send besides this fee. -/
def Sends (b : Ledger) (fee : UInt64) : Prop :=
  ∃ net asset, b.net (some fee) = .ok (net, asset) ∧ net ≠ 0

theorem checked_missingPeer (v : Int) : checked v ≠ .error .missingPeer := by
  unfold checked
  split_ifs
  · nofun
  · nofun

/-- The amount of a send does not depend on its peer. -/
theorem net_missingPeer (b : Ledger) (fee : UInt64) :
    b.net (some fee) ≠ .error .missingPeer := by
  intro h
  obtain h | ⟨native, -, h⟩ := except_bind_error.mp h
  · exact checked_missingPeer _ h
  · simp only [except_guard_error, except_throw_error, except_pure_error, reduceCtorEq, and_false,
      or_false] at h

end Ledger

theorem Act.wrap_error {α β : Type} {x : Act α} {g : α → β} {s : State} {e : DeviceError} :
    ((x >>= fun a => (pure (g a) : Act β)) s).result = .error e ↔ (x s).result = .error e := by
  cases hx : x s with
  | mk result events t =>
    cases result with
    | error e' =>
      rw [bind_error _ hx]
      simp only [Except.error.injEq]
    | ok a =>
      rw [wrap_ok g hx]
      exact ⟨nofun, nofun⟩

namespace Device

variable {d : Device} {approve : SpendPrompt → Bool} {s : State} {b : Ledger}
  {kernel : KernelParams} {parties : Parties}

theorem checkSend_missingPeer (slot : UInt32) :
    d.checkSend b kernel parties slot = .error .missingPeer ↔
      b.Sends kernel.fee ∧ parties.peer = .zero 32 := by
  simp only [checkSend, except_bind_error, except_guard_error, except_pure_error, allZero_iff,
    b.net_missingPeer, reduceCtorEq, and_false, false_or, or_false, and_true]
  constructor
  · rintro ⟨⟨net, asset⟩, hnet, hmoves, hpeer⟩
    exact ⟨⟨net, asset, hnet, hmoves⟩, hpeer⟩
  · rintro ⟨⟨net, asset, hnet, hmoves⟩, hpeer⟩
    exact ⟨⟨net, asset⟩, hnet, hmoves, hpeer⟩

theorem planSendShielded_missingPeer {r : SendShielded} :
    d.planSendShielded b r = .error .missingPeer ↔
      b.Sends r.kernel.fee ∧ r.parties.peer = .zero 32 := by
  simp only [planSendShielded, except_bind_error, except_guard_error, allZero_iff,
    b.net_missingPeer, reduceCtorEq, and_false, false_or, and_true]
  constructor
  · rintro ⟨⟨net, asset⟩, hnet, hmoves, hpeer | ⟨-, houtput⟩⟩
    · exact ⟨⟨net, asset, hnet, hmoves⟩, hpeer⟩
    · split at houtput <;> cases houtput
  · rintro ⟨⟨net, asset, hnet, hmoves⟩, hpeer⟩
    exact ⟨⟨net, asset⟩, hnet, hmoves, .inl hpeer⟩

/-- The terms of a send are refused for want of a peer where there is something to send and the peer is
all zero. -/
theorem sendTerms_missingPeer (slot : UInt32) :
    (d.sendTerms kernel parties slot s).result = .error .missingPeer ↔
      ∃ b, s.session = some b ∧ b.Sends kernel.fee ∧ parties.peer = .zero 32 := by
  cases hb : s.session with
  | none =>
    rw [sendTerms_none hb]
    exact ⟨nofun, fun ⟨_, h, _⟩ => nomatch h⟩
  | some b =>
    simp only [Option.some.injEq, exists_eq_left', ← checkSend_missingPeer (d := d) slot]
    cases hcheck : d.checkSend b kernel parties slot with
    | error e =>
      rw [sendTerms_error hb hcheck]
      simp only [Except.error.injEq]
    | ok v =>
      rw [sendTerms_ok hb hcheck]
      exact ⟨nofun, nofun⟩

theorem openSend_missingPeer {r : OpenSend} :
    (d.openSend approve r s).result = .error .missingPeer ↔
      ∃ b, s.session = some b ∧ b.Sends r.kernel.fee ∧ r.parties.peer = .zero 32 := by
  rw [← sendTerms_missingPeer (d := d) r.slot]
  rcases d.sendTerms_cases r.kernel r.parties r.slot s with ⟨e, h⟩ | ⟨b, net, asset, -, -, h⟩
  · have hrun : d.openSend approve r s = ⟨.error e, [], s⟩ := Act.bind_error _ h
    rw [hrun, h]
    simp only [Except.error.injEq]
  · rw [openSend_run h, h]
    split <;> exact ⟨nofun, nofun⟩

theorem closeSend_missingPeer {r : CloseSend} :
    (d.closeSend r s).result = .error .missingPeer ↔
      ∃ b, s.session = some b ∧ b.Sends r.kernel.fee ∧ r.parties.peer = .zero 32 := by
  rw [← sendTerms_missingPeer (d := d) r.slot, closeSend_eq]
  rcases d.sendTerms_cases r.kernel r.parties r.slot s with ⟨e, h⟩ | ⟨b, net, asset, hb, -, h⟩
  · have hrun : d.authorizeSend r s = ⟨.error e, [], s⟩ := Act.bind_error _ h
    rw [Act.bind_error _ hrun, h]
    simp only [Except.error.injEq]
  · obtain ⟨t, ht⟩ : ∃ t, d.termsOf b r.kernel r.parties net asset (s.slots r.slot) = t := ⟨_, rfl⟩
    rw [ht] at h
    rw [h]
    by_cases hagreement : r.agreement = t.agreement
    · cases hproof : r.paymentProof.verifyX
          (paymentConfirmation t.ownId (r.kernel.id r.points []) t.net t.asset) r.parties.peer with
      | false =>
        rw [Act.bind_error _ (authorizeSend_unconfirmed h hagreement hproof)]
        exact ⟨nofun, nofun⟩
      | true =>
        rw [← closeSend_eq, closeSend_run hb h ⟨hagreement, hproof⟩]
        exact ⟨nofun, nofun⟩
    · rw [Act.bind_error _ (authorizeSend_disagreed h hagreement)]
      exact ⟨nofun, nofun⟩

theorem sendShielded_missingPeer {r : SendShielded} :
    (d.sendShielded approve r s).result = .error .missingPeer ↔
      ∃ b, s.session = some b ∧ b.Sends r.kernel.fee ∧ r.parties.peer = .zero 32 := by
  rw [sendShielded_eq]
  cases hb : s.session with
  | none =>
    rw [signPlanned_none hb]
    exact ⟨nofun, fun ⟨_, h, _⟩ => nomatch h⟩
  | some b =>
    simp only [Option.some.injEq, exists_eq_left', ← planSendShielded_missingPeer (d := d)]
    cases hplan : d.planSendShielded b r with
    | error e =>
      rw [signPlanned_error hb hplan]
      simp only [Except.error.injEq]
    | ok v =>
      obtain ⟨prompt, reply⟩ := v
      cases hagreed : approve prompt with
      | true =>
        rw [signPlanned_ok hb hplan hagreed]
        exact ⟨nofun, nofun⟩
      | false =>
        rw [signPlanned_declined hb hplan hagreed]
        exact ⟨nofun, nofun⟩

theorem answer_missingPeer {room : Nat} {r : Request} (h : r.sending? = some (kernel, parties)) :
    (d.answer approve room r s).result = .error .missingPeer ↔
      ∃ b, s.session = some b ∧ b.Sends kernel.fee ∧ parties.peer = .zero 32 := by
  cases r with
  | openSend r =>
    cases h
    exact Act.wrap_error.trans openSend_missingPeer
  | closeSend r =>
    cases h
    exact Act.wrap_error.trans closeSend_missingPeer
  | sendShielded r =>
    cases h
    exact Act.wrap_error.trans sendShielded_missingPeer
  | _ => cases h

/-- The status of a missing peer stands for no other failure. -/
theorem answerBytes_missingPeer {capacity : Nat} {y : Except DeviceError Reply} (h : 2 ≤ capacity) :
    answerBytes capacity y = DeviceError.missingPeer.status.toList ↔ y = .error .missingPeer := by
  cases y with
  | ok reply =>
    refine ⟨fun hbytes => ?_, nofun⟩
    exact absurd (List.cons.inj hbytes).1 (by decide)
  | error e =>
    rw [answerBytes_error e h, Except.error.injEq]
    refine ⟨fun hbytes => ?_, fun he => by rw [he]⟩
    cases e with
    | missingPeer => rfl
    | unknownOpcode byte =>
      have hmajor : (DeviceError.unknownOpcode byte).status.major.toByte =
          StatusMajor.protoError.toByte := rfl
      exact absurd ((List.cons.inj hbytes).1.symm.trans hmajor) (by decide)
    | _ => exact absurd hbytes (by decide)

/-- When the answer to a request that sends says that the peer is missing. -/
theorem invoke_missingPeer {request : List UInt8} {r : Request} (capacity : Nat)
    (hr : Request.ofList? request = some r) (h : r.sending? = some (kernel, parties)) :
    (d.invoke approve request capacity s).bytes = DeviceError.missingPeer.status.toList ↔
      1 + r.opcode.answerWidth ≤ capacity ∧
        ∃ b, s.session = some b ∧ b.Sends kernel.fee ∧ parties.peer = .zero 32 := by
  by_cases hroom : 1 + r.opcode.answerWidth ≤ capacity
  · have hcapacity : 2 ≤ capacity :=
      (Nat.add_le_add_left (Request.sending?_answerWidth h) 1).trans hroom
    obtain ⟨y, events, t, hanswer⟩ : ∃ y events t,
        d.answer approve (capacity - 1) r s = ⟨y, events, t⟩ := ⟨_, _, _, rfl⟩
    rw [invoke_admitted (Request.admission_of_ofList? hr hroom) hanswer,
      answerBytes_missingPeer hcapacity, and_iff_right hroom, ← answer_missingPeer h, hanswer]
  · have hadmission := Request.admission_eq hr capacity
    rw [if_pos (Nat.not_le.mp hroom)] at hadmission
    rw [invoke_refused hadmission]
    refine ⟨fun hbytes => ?_, fun hsends => absurd hsends.1 hroom⟩
    cases capacity with
    | zero => cases hbytes
    | succ capacity => exact absurd (List.cons.inj hbytes).1 (by decide)

/-- The key of an address is one of two opposite keys, the one whose public point is even, and stands
for both: it signs what the address verifies. Neither the key nor the identity of an address is
zero, so no send to an address is refused for want of a peer. -/
theorem addresses_recognised (sk : Scalar) (seed : Bytes 32) (number : UInt64) :
    ((evenKey sk).1 = sk ∨ (evenKey sk).1 = -sk) ∧
    (mulG (evenKey sk).1).compact = ⟨(evenKey sk).2, 0⟩ ∧
    evenKey (evenKey sk).1 = evenKey sk ∧ evenKey (-sk) = evenKey sk ∧
    (sk ≠ 0 → (evenKey sk).1 ≠ 0 ∧ (evenKey sk).2 ≠ .zero 32) ∧
    (∀ message, (Signature.sign message (evenKey sk).1).verifyX message (evenKey sk).2 = true ∧
      ∀ nonce, (⟨(mulG nonce).compact, (signShare (challenge (mulG nonce).compact message)
        (evenKey sk).1 nonce).toBytes⟩ : Signature).verifyX message (evenKey sk).2 = true) ∧
    ((KeyNode.ofSeed seed).address number).1 ≠ 0 ∧
    ((KeyNode.ofSeed seed).address number).2 ≠ .zero 32 ∧
    ∀ (d : Device) (approve : SpendPrompt → Bool) (request : List UInt8) (capacity : Nat)
      (s : State) (r : Request) (kernel : KernelParams) (parties : Parties),
      Request.ofList? request = some r → r.sending? = some (kernel, parties) →
      parties.peer = ((KeyNode.ofSeed seed).address number).2 →
      (d.invoke approve request capacity s).bytes ≠ DeviceError.missingPeer.status.toList := by
  refine ⟨evenKey_sign sk, evenKey_compact sk, evenKey_idem sk, evenKey_neg sk, ?_, ?_,
    KeyNode.address_key_ne_zero seed number, KeyNode.address_id_ne_zero seed number, ?_⟩
  · intro hsk
    exact ⟨evenKey_ne_zero hsk, fun hzero => hsk (evenKey_zero hzero)⟩
  · intro message
    exact ⟨Signature.sign_verifiesX message sk, Signature.share_verifiesX message sk⟩
  · intro d approve request capacity s r kernel parties hr hsending hpeer hbytes
    obtain ⟨-, b, -, -, hmissing⟩ := (invoke_missingPeer capacity hr hsending).mp hbytes
    exact KeyNode.address_id_ne_zero seed number (hpeer.symm.trans hmissing)

/-- A send of 980 is refused without a peer, and for no want of one where it goes to an address. -/
theorem addresses_recognised_send :
    let d := Sample.device (.zero 32)
    let s : State := ⟨some { native := -1000 }, fun _ => .zero 32, 0⟩
    let sendTo (peer : Bytes 32) := (Request.openSend ⟨⟨20, 1, 100⟩, ⟨peer, 0⟩, 3⟩).toList
    (evenKey 1).1 ≠ 0 ∧ (evenKey 1).2 ≠ .zero 32 ∧
    ∀ approve,
      (d.invoke approve (sendTo (.zero 32)) 99 s).bytes = DeviceError.missingPeer.status.toList ∧
      (d.invoke approve (sendTo ((KeyNode.ofSeed (.zero 32)).address 1).2) 99 s).bytes ≠
        DeviceError.missingPeer.status.toList := by
  intro d s sendTo
  obtain ⟨-, -, -, -, hkey, -, -, -, hsend⟩ := addresses_recognised 1 (.zero 32) 1
  obtain ⟨peer, hpeer⟩ : ∃ peer, ((KeyNode.ofSeed (.zero 32)).address 1).2 = peer := ⟨_, rfl⟩
  rw [hpeer] at hsend ⊢
  refine ⟨(hkey (by decide)).1, (hkey (by decide)).2, fun approve => ⟨?_, ?_⟩⟩
  · refine (invoke_missingPeer 99 (Request.ofList?_toList _) rfl).mpr ⟨by decide, _, rfl, ?_, rfl⟩
    exact ⟨980, 0, rfl, by decide⟩
  · exact hsend d approve _ 99 s _ _ _ (Request.ofList?_toList _) rfl rfl

end Device

end ColdWallet
