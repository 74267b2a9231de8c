import ColdWallet.Proofs.Device.Commitments

namespace ColdWallet

/-- The points a receiver answers with are those of the keys of both. -/
theorem KernelKeys.joint?_points (k l : KernelKeys) :
    ∃ points, l.joint? k.points = some points ∧
      points.commitment.toPoint? = some (.ofCurve ((k.join l).blinding.residue • curveG)) ∧
      points.noncePub.toPoint? = some (.ofCurve ((k.join l).nonce.residue • curveG)) := by
  have hadd : ∀ x y : Scalar, mulG y + Point.ofCurve (x.residue • curveG) =
      .ofCurve ((x + y).residue • curveG) := by
    intro x y
    rw [mulG_eq, ← Point.ofCurve_add, Scalar.residue_add, add_smul, add_comm]
  refine ⟨⟨(Point.ofCurve ((k.join l).blinding.residue • curveG)).compact,
    (Point.ofCurve ((k.join l).nonce.residue • curveG)).compact⟩, ?_, ?_, ?_⟩
  · unfold joint?
    rw [points_commitment, points_noncePub]
    simp only [Option.bind_eq_bind, Option.bind_some, hadd]
    rfl
  · exact CompactPoint.toPoint?_ofCurve _
  · exact CompactPoint.toPoint?_ofCurve _

namespace Device

section Answers

variable {d : Device} {s : State} {b : Ledger} {capacity : Nat} {net : UInt64} {asset : UInt32}

/-- An agreed opening hands out the token and the sender's points, and changes nothing. -/
theorem perform_openSend {approve : SpendPrompt → Bool} {r : OpenSend}
    (hcapacity : 1 + Opcode.openSend.answerWidth ≤ capacity) (hb : s.session = some b)
    (hcheck : d.checkSend b r.kernel r.parties r.slot = .ok (net, asset))
    (happrove : approve (sendPrompt
      (d.termsOf b r.kernel r.parties net asset (s.slots r.slot)) r.kernel) = true) :
    d.perform s (.invoke (Request.openSend r).toList capacity approve) =
      ⟨StatusMajor.ok.toByte :: OpenedSend.layout.write
          ⟨(d.termsOf b r.kernel r.parties net asset (s.slots r.slot)).agreement,
            (d.termsOf b r.kernel r.parties net asset (s.slots r.slot)).keys.points⟩,
        [.slotRead r.slot, .prompted (sendPrompt
          (d.termsOf b r.kernel r.parties net asset (s.slots r.slot)) r.kernel)], s⟩ := by
  have hrun : d.openSend approve r s = _ := openSend_run (sendTerms_ok hb hcheck)
  rw [happrove, if_pos rfl] at hrun
  have hanswer : d.answer approve (capacity - 1) (.openSend r) s = _ :=
    Act.wrap_ok Reply.openedSend hrun
  exact perform_ok hcapacity hanswer

theorem perform_receive (approve : SpendPrompt → Bool) {r : Receive} {received : Received}
    (hcapacity : 1 + Opcode.receive.answerWidth ≤ capacity) (hb : s.session = some b)
    (h : d.receive b r = .ok received) :
    d.perform s (.invoke (Request.receive r).toList capacity approve) =
      ⟨StatusMajor.ok.toByte :: Received.layout.write received, [], s⟩ := by
  have hanswer : d.answer approve (capacity - 1) (.receive r) s =
      ⟨.ok (.received received), [], s⟩ := by
    simp only [answer]
    rw [Act.bind_quiet _ (Act.ledger_run hb), h]
    exact Act.wrap_ok Reply.received (Act.ofExcept_run _ s)
  exact perform_ok hcapacity hanswer

/-- A receiver signs under the joint points, and confirms the payment from an own address. -/
theorem receive_ok {r : Receive} (hnet : b.net none = .ok (net, asset))
    (haddress : r.parties.ownAddress ≠ 0) (k : KernelKeys) (hpoints : r.points = k.points) :
    ∃ keys points, d.receive b r = .ok ⟨points,
        signature b keys 0 points.noncePub (r.kernel.id points []),
        .sign (paymentConfirmation r.parties.peer (r.kernel.id points []) net asset)
          (d.master.address r.parties.ownAddress).1⟩ ∧
      points.commitment.toPoint? = some (.ofCurve ((k.join keys).blinding.residue • curveG)) ∧
      points.noncePub.toPoint? = some (.ofCurve ((k.join keys).nonce.residue • curveG)) := by
  obtain ⟨keys, hkeys⟩ : ∃ keys, r.keys b net asset = keys := ⟨_, rfl⟩
  obtain ⟨points, hjoint, hcommitment, hnonce⟩ := k.joint?_points keys
  refine ⟨keys, points, ?_, hcommitment, hnonce⟩
  unfold receive
  refine except_bind_ok.mpr ⟨(net, asset), hnet, ?_⟩
  simp only [hkeys, hpoints, hjoint, if_neg haddress]
  rfl

end Answers

/-- What one wallet sends the other receives, so with the joint kernel, both offsets and all fees
their coins leave nothing. -/
theorem joint_balances {sender receiver : KeyNode} {policy policy' : Policy}
    {entries entries' : List Entry} {fees fees' : List UInt64} {b b' : Ledger} {fee net : UInt64}
    {asset : UInt32} (hsender : Ledger.Accounts sender policy entries fees b)
    (hreceiver : Ledger.Accounts receiver policy' entries' fees' b')
    (hsends : b.net (some fee) = .ok (net, asset)) (hreceives : b'.net none = .ok (net, asset))
    (k l : KernelKeys) {commitment : CompactPoint}
    (hcommitment : commitment.toPoint? =
      some (.ofCurve ((k.join l).blinding.residue • curveG)))
    (noncePub : CompactPoint) (id : Bytes 32) :
    total? (entries.map (Entry.commitment? sender) ++ entries'.map (Entry.commitment? receiver) ++
      [commitment.toPoint?,
        some (commitScalar (Scalar.reduce (signature b k 0 noncePub id).offset +
            Scalar.reduce (signature b' l 0 noncePub id).offset)
          (.ofNat (fee.toNat + b.shieldedFees.toNat + b'.shieldedFees.toNat)) none)]) =
      some .infinity := by
  have hpoints := hsender.sum_point (hsender.nets hsends)
  have hpoints' := hreceiver.sum_point (hreceiver.nets hreceives)
  rw [Option.getD_some, Ledger.signed] at hpoints
  rw [Option.getD_none, Ledger.signed, UInt64.toNat_zero, Nat.zero_add] at hpoints'
  refine total?_infinity (entries.map (Entry.point sender) ++ entries'.map (Entry.point receiver) ++
    [(k.join l).blinding.residue • curveG,
      (Scalar.reduce (b.offset (k.blinding + 0)) +
          Scalar.reduce (b'.offset (l.blinding + 0))).residue • curveG +
        (fee.toNat + b.shieldedFees.toNat + b'.shieldedFees.toNat) • curveH]) ?_ ?_
  · simp only [List.map_append, List.map_cons, List.map_nil, List.map_map, Function.comp_def,
      Entry.commitment?_eq, hcommitment, commitNative_eq, signature]
  · simp only [List.sum_append, List.sum_cons, List.sum_nil, KernelKeys.join, Scalar.residue_add,
      reduce_offset, Scalar.residue_zero]
    calc _ = ((entries.map (Entry.point sender)).sum +
          (fee.toNat + b.shieldedFees.toNat) • curveH) +
          ((entries'.map (Entry.point receiver)).sum + b'.shieldedFees.toNat • curveH) -
          (b.blinding.residue + b'.blinding.residue) • curveG := by module
      _ = 0 := by
        rw [hpoints, hpoints']
        module

/-- The messages of a transfer, one after the other, from any states whose balances meet: there are
terms of the sender and keys of the receiver under whose joint points both have signed. -/
theorem exchange_answered {sender receiver : Device} {seed : Bytes 32}
    (hseed : receiver.master = .ofSeed seed) {u w : State} {kernel : KernelParams} {slot : UInt32}
    {toReceiver toSender : Parties} {approve : SpendPrompt → Bool}
    (approve' : SpendPrompt → Bool) {capacity : Opcode → Nat} {bS bR : Ledger} {net : UInt64}
    {asset : UInt32} (hsender : u.session = some bS) (hreceiver : w.session = some bR)
    (hsends : bS.net (some kernel.fee) = .ok (net, asset)) (hpositive : 0 < net)
    (hreceives : bR.net none = .ok (net, asset))
    (hpeer : toReceiver.peer = (receiver.master.address toSender.ownAddress).2)
    (hpeer' : toSender.peer = (sender.master.address toReceiver.ownAddress).2)
    (haddress : toSender.ownAddress ≠ 0) (hslot : slot < sender.policy.slots)
    (happrove : approve ⟨net, asset, some toReceiver.peer, kernel, none⟩ = true)
    (hcapacity : ∀ op : Opcode, 1 + op.answerWidth ≤ capacity op) :
    ∃ (t : SendTerms) (keys : KernelKeys) (points : KernelPoints) (proof : Signature),
      let first := sender.perform u (.invoke
        (Request.openSend ⟨kernel, toReceiver, slot⟩).toList (capacity .openSend) approve)
      let second := receiver.perform w (.invoke
        (Request.receive ⟨kernel, toSender, t.keys.points⟩).toList (capacity .receive) approve')
      let third := sender.perform first.state (.invoke
        (Request.closeSend ⟨kernel, toReceiver, slot, proof, t.agreement, points⟩).toList
        (capacity .closeSend) approve)
      first.bytes = StatusMajor.ok.toByte ::
        OpenedSend.layout.write ⟨t.agreement, t.keys.points⟩ ∧
      second.bytes = StatusMajor.ok.toByte :: Received.layout.write ⟨points,
        signature bR keys 0 points.noncePub (kernel.id points []), proof⟩ ∧
      third.bytes = StatusMajor.ok.toByte :: ClosedSend.layout.write
        ⟨signature bS t.keys 0 points.noncePub (kernel.id points [])⟩ ∧
      points.commitment.toPoint? = some (.ofCurve ((t.keys.join keys).blinding.residue • curveG)) ∧
      points.noncePub.toPoint? = some (.ofCurve ((t.keys.join keys).nonce.residue • curveG)) := by
  have hthere : allZero toReceiver.peer.toList = false := by
    rw [hpeer, hseed]
    exact KeyNode.address_ne_zero seed _
  have hnet : net ≠ 0 := by
    rintro rfl
    exact absurd hpositive (UInt64.lt_irrefl 0)
  have hcheck : sender.checkSend bS kernel toReceiver slot = .ok (net, asset) :=
    checkSend_ok_iff.mpr ⟨hsends, hnet, hthere, hslot⟩
  have hfirst := perform_openSend (r := ⟨kernel, toReceiver, slot⟩) (hcapacity .openSend) hsender
    hcheck happrove
  obtain ⟨own, hown⟩ : ∃ own, sender.master.address toReceiver.ownAddress = own := ⟨_, rfl⟩
  rw [hown] at hpeer'
  obtain ⟨t, ht, hownId, hsent, hasset⟩ : ∃ t,
      sender.termsOf bS kernel toReceiver net asset (u.slots slot) = t ∧
        t.ownId = toSender.peer ∧ t.net = net ∧ t.asset = asset := by
    refine ⟨_, rfl, ?_, rfl, rfl⟩
    rw [hpeer', termsOf, hown]
  rw [ht] at hfirst
  obtain ⟨keys, points, hreceived, hcommitment, hnonce⟩ := receive_ok (d := receiver)
    (r := ⟨kernel, toSender, t.keys.points⟩) hreceives haddress t.keys rfl
  obtain ⟨proof, hproof⟩ : ∃ proof, proof = Signature.sign
      (paymentConfirmation toSender.peer (kernel.id points []) net asset)
      (receiver.master.address toSender.ownAddress).1 := ⟨_, rfl⟩
  rw [← hproof] at hreceived
  have hsecond := perform_receive approve' (hcapacity .receive) hreceiver hreceived
  have hagreed : SendAgreed ⟨kernel, toReceiver, slot, proof, t.agreement, points⟩ t := by
    refine sendAgreed_of_signed receiver.master toSender.ownAddress rfl hpeer ?_
    rw [hownId, hsent, hasset]
    exact hproof
  have hthird := perform_closeSend approve (hcapacity .closeSend)
    (r := ⟨kernel, toReceiver, slot, proof, t.agreement, points⟩) hsender hcheck
    (by rw [ht]; exact hagreed)
  rw [ht] at hthird
  refine ⟨t, keys, points, proof, congrArg Response.bytes hfirst,
    congrArg Response.bytes hsecond, ?_, hcommitment, hnonce⟩
  rw [hfirst]
  exact congrArg Response.bytes hthird

/-- Between a sender and a receiver whose balances meet, on any coins, every message of a transfer
is answered. The shares of both sign the kernel under the joint points. The commitments of all their
coins, the kernel's, both offsets and all fees sum up to nothing. -/
theorem exchange_completes (sender receiver : Device) (seed : Bytes 32)
    (hseed : receiver.master = .ofSeed seed) (senderSlots receiverSlots : UInt32 → Bytes 32)
    (senderSteps receiverSteps : List Step) (kernel : KernelParams) (slot : UInt32)
    (toReceiver toSender : Parties) (approve approve' : SpendPrompt → Bool)
    (capacity : Opcode → Nat) {bS bR : Ledger} {net : UInt64} {asset : UInt32}
    (hsender : (sender.after (.fresh senderSlots) senderSteps).session = some bS)
    (hreceiver : (receiver.after (.fresh receiverSlots) receiverSteps).session = some bR)
    (hsends : bS.net (some kernel.fee) = .ok (net, asset)) (hpositive : 0 < net)
    (hreceives : bR.net none = .ok (net, asset))
    (hpeer : toReceiver.peer = (receiver.master.address toSender.ownAddress).2)
    (hpeer' : toSender.peer = (sender.master.address toReceiver.ownAddress).2)
    (haddress : toSender.ownAddress ≠ 0) (hslot : slot < sender.policy.slots)
    (happrove : approve ⟨net, asset, some toReceiver.peer, kernel, none⟩ = true)
    (hcapacity : ∀ op : Opcode, 1 + op.answerWidth ≤ capacity op) :
    let u := sender.after (.fresh senderSlots) senderSteps
    let w := receiver.after (.fresh receiverSlots) receiverSteps
    ∃ (opened : OpenedSend) (received : Received) (closed : ClosedSend),
      let first := sender.perform u (.invoke
        (Request.openSend ⟨kernel, toReceiver, slot⟩).toList (capacity .openSend) approve)
      let second := receiver.perform w (.invoke
        (Request.receive ⟨kernel, toSender, opened.points⟩).toList (capacity .receive) approve')
      let third := sender.perform first.state (.invoke
        (Request.closeSend ⟨kernel, toReceiver, slot, received.paymentProof, opened.agreement,
          received.points⟩).toList (capacity .closeSend) approve)
      first.bytes = StatusMajor.ok.toByte :: OpenedSend.layout.write opened ∧
      second.bytes = StatusMajor.ok.toByte :: Received.layout.write received ∧
      third.bytes = StatusMajor.ok.toByte :: ClosedSend.layout.write closed ∧
      kernel.signedBy received.points (Scalar.reduce closed.signature.response +
        Scalar.reduce received.signature.response).toBytes = true ∧
      total? ((sender.tally (.fresh senderSlots) senderSteps).entries.map
          (Entry.commitment? sender.master) ++
        (receiver.tally (.fresh receiverSlots) receiverSteps).entries.map
          (Entry.commitment? receiver.master) ++
        [received.points.commitment.toPoint?,
          some (commitScalar (Scalar.reduce closed.signature.offset +
              Scalar.reduce received.signature.offset)
            (.ofNat (kernel.fee.toNat + bS.shieldedFees.toNat + bR.shieldedFees.toNat))
            none)]) = some .infinity := by
  intro u w
  obtain ⟨t, keys, points, proof, hopened, hreceived, hclosed, hcommitment, hnonce⟩ :=
    exchange_answered hseed approve' hsender hreceiver hsends hpositive hreceives hpeer hpeer'
      haddress hslot happrove hcapacity
  refine ⟨⟨t.agreement, t.keys.points⟩,
    ⟨points, signature bR keys 0 points.noncePub (kernel.id points []), proof⟩,
    ⟨signature bS t.keys 0 points.noncePub (kernel.id points [])⟩,
    hopened, hreceived, hclosed, ?_, ?_⟩
  · unfold KernelParams.signedBy
    show Signature.verify ⟨points.noncePub, (Scalar.reduce (t.keys.sign points.noncePub _) +
      Scalar.reduce (keys.sign points.noncePub _)).toBytes⟩ _ points.commitment = true
    rw [KernelKeys.sign_add]
    exact KernelKeys.sign_verifies _ hcommitment hnonce
  · exact joint_balances (after_kept senderSteps (kept_none rfl) bS hsender)
      (after_kept receiverSteps (kept_none rfl) bR hreceiver) hsends hreceives t.keys keys
      hcommitment points.noncePub (kernel.id points [])

/-- A coin of 1000 sent as 980 to another wallet, with a fee of 20. -/
theorem exchange_completes_between :
    let sender := Sample.device (.zero 32)
    let receiver := Sample.device (Vector.replicate 32 1)
    let fresh := State.fresh fun _ => .zero 32
    let u := sender.after fresh [Sample.listing 1 [Sample.coin 1 1000 0] []]
    let w := receiver.after fresh [Sample.listing 1 [] [Sample.coin 1 980 0]]
    let kernel : KernelParams := ⟨20, 1, 100⟩
    ∃ (toReceiver toSender : Parties) (opened : OpenedSend) (received : Received)
      (closed : ClosedSend),
      (sender.perform u (.invoke (Request.openSend ⟨kernel, toReceiver, 3⟩).toList
        (1 + Opcode.openSend.answerWidth) fun _ => true)).bytes =
          0 :: OpenedSend.layout.write opened ∧
      (receiver.perform w (.invoke (Request.receive ⟨kernel, toSender, opened.points⟩).toList
        (1 + Opcode.receive.answerWidth) fun _ => true)).bytes =
          0 :: Received.layout.write received ∧
      kernel.signedBy received.points (Scalar.reduce closed.signature.response +
        Scalar.reduce received.signature.response).toBytes = true := by
  intro sender receiver fresh u w kernel
  obtain ⟨bS, hsender, hsends⟩ : ∃ b : Ledger, u.session = some b ∧
      b.net (some 20) = .ok (980, 0) := ⟨_, rfl, rfl⟩
  obtain ⟨bR, hreceiver, hreceives⟩ : ∃ b : Ledger, w.session = some b ∧
      b.net none = .ok (980, 0) := ⟨_, rfl, rfl⟩
  obtain ⟨toReceiver, hown, hpeer⟩ : ∃ parties : Parties, parties.ownAddress = 1 ∧
      parties.peer = (receiver.master.address 1).2 := ⟨⟨_, 1⟩, rfl, rfl⟩
  obtain ⟨toSender, hown', hpeer'⟩ : ∃ parties : Parties, parties.ownAddress = 1 ∧
      parties.peer = (sender.master.address 1).2 := ⟨⟨_, 1⟩, rfl, rfl⟩
  obtain ⟨opened, received, closed, hopened, hreceived, _, hsigned, _⟩ :=
    exchange_completes sender receiver (Vector.replicate 32 1) rfl (fun _ => .zero 32)
      (fun _ => .zero 32) [Sample.listing 1 [Sample.coin 1 1000 0] []]
      [Sample.listing 1 [] [Sample.coin 1 980 0]] kernel 3 toReceiver toSender (fun _ => true)
      (fun _ => true) (fun op => 1 + op.answerWidth) hsender hreceiver hsends (by decide) hreceives
      (by rw [hown']; exact hpeer) (by rw [hown]; exact hpeer') (by rw [hown']; decide) (by decide)
      rfl (fun _ => Nat.le_refl _)
  exact ⟨toReceiver, toSender, opened, received, closed, hopened, hreceived, hsigned⟩

end Device

end ColdWallet
