import ColdWallet.Proofs.Device.Consent
import ColdWallet.Proofs.Kernel

namespace ColdWallet

/-- The kinds of request that draw the keys of a kernel from a hash of what is signed. -/
def Opcode.drawsKeys : Opcode → Bool
  | split => true
  | receive => true
  | sendShielded => true
  | _ => false

/-- What the signature of a kernel is made from. -/
structure Signing where
  salt : List UInt8
  material : List UInt8
  kernel : KernelParams
  /-- The points of the other signer, if there is one. -/
  peer : Option KernelPoints
  nested : List (Bytes 32)
  points : KernelPoints
deriving DecidableEq

namespace Signing

def keys (x : Signing) : KernelKeys := .ofHash x.salt (sha256 x.material)

def id (x : Signing) : Bytes 32 := x.kernel.id x.points x.nested

def challenge (x : Signing) : Scalar := ColdWallet.challenge x.points.noncePub x.id

def response (x : Signing) : Bytes 32 := x.keys.sign x.points.noncePub x.id

/-- Whether this is a success that opens with the points and the response. -/
def Answers (x : Signing) (bytes : List UInt8) : Prop :=
  ∃ rest, bytes =
    StatusMajor.ok.toByte :: (KernelPoints.layout.write x.points ++ (x.response.toList ++ rest))

end Signing

namespace Device

/-- What the kernel of a request is signed from on a balance. -/
def signing? (d : Device) (b : Ledger) : Request → Option Signing
  | .split r => some {
      salt := label "hw-wlt-split"
      material := r.keyPreimage b
      kernel := r.kernel
      peer := none
      nested := []
      points := (r.keys b).points }
  | .receive r => do
    let (net, asset) ← (b.net none).toOption
    let points ← (r.keys b net asset).joint? r.points
    return {
      salt := label "hw-wlt-rcv"
      material := r.keyPreimage b net asset
      kernel := r.kernel
      peer := some r.points
      nested := []
      points }
  | .sendShielded r => do
    let (net, asset) ← (b.net (some r.kernel.fee)).toOption
    let (_, nested) ← r.verifyOutput? d.master net asset
    return {
      salt := label "hw-wlt-snd-sh"
      material := r.keyPreimage b nested
      kernel := r.kernel
      peer := none
      nested := [nested]
      points := (r.keys b nested).points }
  | _ => none

end Device

section Determined

theorem KernelParams.terms_prefixFree : Write.PrefixFree KernelParams.terms := by
  intro k k' s t h
  simp only [terms, List.append_assoc] at h
  obtain ⟨hmin, h⟩ := Write.num_prefixFree h
  obtain ⟨hmax, h⟩ := Write.num_prefixFree h
  obtain ⟨hfee, h⟩ := Write.num_prefixFree h
  exact ⟨KernelParams.ext hfee hmin hmax, h⟩

theorem Split.keyPreimage_kernel {r r' : Split} {b b' : Ledger}
    (h : r.keyPreimage b = r'.keyPreimage b') : r.kernel = r'.kernel :=
  (KernelParams.terms_prefixFree h).1

theorem SendShielded.keyPreimage_kernel {r r' : SendShielded} {b b' : Ledger}
    {nested nested' : Bytes 32} (h : r.keyPreimage b nested = r'.keyPreimage b' nested') :
    r.kernel = r'.kernel ∧ nested = nested' := by
  simp only [keyPreimage, List.append_assoc] at h
  obtain ⟨hnested, h⟩ := Write.bytes_prefixFree 32 h
  exact ⟨(KernelParams.terms_prefixFree h).1, hnested⟩

/-- The peer's public nonce stands in the bytes as it came. Its commitment and the parameters are
only in the identifier there, so they are read off what that is the hash of. -/
theorem Receive.keyPreimage_kernel {r r' : Receive} {b b' : Ledger} {net net' : UInt64}
    {asset asset' : UInt32} (h : r.keyPreimage b net asset = r'.keyPreimage b' net' asset')
    (hpreimage : r.kernel.idPreimage r.points [] = r'.kernel.idPreimage r'.points []) :
    r.kernel = r'.kernel ∧ r.points = r'.points := by
  simp only [keyPreimage, List.append_assoc] at h
  obtain ⟨_, h⟩ := Write.bytes_prefixFree 32 h
  obtain ⟨hnonce, _⟩ := Write.point_prefixFree h
  obtain ⟨hkernel, hcommitment, _⟩ := KernelParams.idPreimage_injective hpreimage
  exact ⟨hkernel, KernelPoints.ext hcommitment hnonce⟩

end Determined

namespace Device

section Inversion

variable {d : Device} {b : Ledger} {x : Signing}

theorem signing?_receive {r : Receive} (h : d.signing? b (.receive r) = some x) :
    ∃ net asset points, (r.keys b net asset).joint? r.points = some points ∧
      x = ⟨label "hw-wlt-rcv", r.keyPreimage b net asset, r.kernel, some r.points, [], points⟩ := by
  obtain ⟨⟨net, asset⟩, _, h⟩ := Option.bind_eq_some_iff.mp h
  obtain ⟨points, hjoint, h⟩ := Option.bind_eq_some_iff.mp h
  exact ⟨net, asset, points, hjoint, (Option.some.inj h).symm⟩

theorem signing?_sendShielded {r : SendShielded} (h : d.signing? b (.sendShielded r) = some x) :
    ∃ nested, x = ⟨label "hw-wlt-snd-sh", r.keyPreimage b nested, r.kernel, none, [nested],
      (r.keys b nested).points⟩ := by
  obtain ⟨⟨net, asset⟩, _, h⟩ := Option.bind_eq_some_iff.mp h
  obtain ⟨⟨blinding, nested⟩, _, h⟩ := Option.bind_eq_some_iff.mp h
  exact ⟨nested, (Option.some.inj h).symm⟩

end Inversion

/-- Where the bytes hashed for the keys are the same, everything is that is signed. -/
theorem signing?_determined {d d' : Device} {b b' : Ledger} {r r' : Request} {x x' : Signing}
    (hx : d.signing? b r = some x) (hx' : d'.signing? b' r' = some x')
    (hsame : r.opcode = r'.opcode) (hmaterial : x.material = x'.material)
    (hpreimage : ∀ k k', r = .receive k → r' = .receive k' →
      k.kernel.idPreimage k.points [] = k'.kernel.idPreimage k'.points []) : x = x' := by
  cases r with
  | split k =>
    cases r' with
    | split k' =>
      cases hx
      cases hx'
      have hbytes : k.keyPreimage b = k'.keyPreimage b' := hmaterial
      have hkeys : k.keys b = k'.keys b' := by
        unfold Split.keys
        rw [hbytes]
      rw [hbytes, hkeys, Split.keyPreimage_kernel hbytes]
    | _ => cases hsame
  | receive k =>
    cases r' with
    | receive k' =>
      obtain ⟨net, asset, points, hjoint, rfl⟩ := signing?_receive hx
      obtain ⟨net', asset', points', hjoint', rfl⟩ := signing?_receive hx'
      have hbytes : k.keyPreimage b net asset = k'.keyPreimage b' net' asset' := hmaterial
      have hkeys : k.keys b net asset = k'.keys b' net' asset' := by
        unfold Receive.keys
        rw [hbytes]
      obtain ⟨hkernel, hpoints⟩ := Receive.keyPreimage_kernel hbytes (hpreimage k k' rfl rfl)
      rw [hkeys, hpoints, hjoint'] at hjoint
      rw [hbytes, hkernel, hpoints, Option.some.inj hjoint]
    | _ => cases hsame
  | sendShielded k =>
    cases r' with
    | sendShielded k' =>
      obtain ⟨nested, rfl⟩ := signing?_sendShielded hx
      obtain ⟨nested', rfl⟩ := signing?_sendShielded hx'
      have hbytes : k.keyPreimage b nested = k'.keyPreimage b' nested' := hmaterial
      have hkeys : k.keys b nested = k'.keys b' nested' := by
        unfold SendShielded.keys
        rw [hbytes]
      obtain ⟨hkernel, hnested⟩ := SendShielded.keyPreimage_kernel hbytes
      rw [hbytes, hkeys, hkernel, hnested]
    | _ => cases hsame
  | _ => cases hx

section Answered

variable {d : Device} {approve : SpendPrompt → Bool} {b : Ledger} {s : State} {room : Nat}

theorem signPlanned_result {plan : Ledger → Except DeviceError (SpendPrompt × SignedKernel)}
    {fee : UInt64} {signed : SignedKernel}
    (h : (signPlanned approve plan fee s).result = .ok signed) :
    ∃ b prompt, s.session = some b ∧ plan b = .ok (prompt, signed) := by
  rcases signPlanned_cases approve plan fee s with
    ⟨b, prompt, reply, hb, hplan, _, hrun⟩ | ⟨e, events, hrun, _⟩
  · rw [hrun] at h
    cases h
    exact ⟨b, prompt, hb, hplan⟩
  · rw [hrun] at h
    cases h

theorem planSplit_signing {r : Split} {prompt : SpendPrompt} {signed : SignedKernel}
    (h : planSplit b r = .ok (prompt, signed)) :
    ∃ x, d.signing? b (.split r) = some x ∧ signed.points = x.points ∧
      signed.signature.response = x.response := by
  obtain ⟨_, _, _, rfl⟩ := planSplit_ok h
  exact ⟨_, rfl, rfl, rfl⟩

theorem planSendShielded_signing {r : SendShielded} {prompt : SpendPrompt}
    {signed : SignedKernel} (h : d.planSendShielded b r = .ok (prompt, signed)) :
    ∃ x, d.signing? b (.sendShielded r) = some x ∧ signed.points = x.points ∧
      signed.signature.response = x.response := by
  obtain ⟨net, asset, blinding, nested, hnet, _, _, hverify, _, rfl⟩ := planSendShielded_ok h
  simp only [signing?, hnet, hverify, Except.toOption, Option.bind_eq_bind, Option.bind_some]
  exact ⟨_, rfl, rfl, rfl⟩

theorem receive_signing {r : Receive} {received : Received}
    (h : d.receive b r = .ok received) :
    ∃ x, d.signing? b (.receive r) = some x ∧ received.points = x.points ∧
      received.signature.response = x.response := by
  obtain ⟨⟨net, asset⟩, hnet, h⟩ := except_bind_ok.mp h
  cases hjoint : (r.keys b net asset).joint? r.points with
  | none =>
    simp only [hjoint] at h
    cases h
  | some points =>
    simp only [hjoint] at h
    cases h
    simp only [signing?, hnet, hjoint, Except.toOption, Option.bind_eq_bind, Option.bind_some]
    exact ⟨_, rfl, rfl, rfl⟩

/-- A success of one of these kinds gives out the points and the response of its signing. -/
theorem answer_signing {r : Request} {reply : Reply}
    (hkind : r.opcode.drawsKeys = true)
    (h : (d.answer approve room r s).result = .ok reply) :
    ∃ b x, s.session = some b ∧ d.signing? b r = some x ∧
      x.Answers (StatusMajor.ok.toByte :: reply.toList) := by
  cases r with
  | split r =>
    obtain ⟨signed, hsigned, rfl⟩ := Act.wrap_result h
    obtain ⟨b, prompt, hb, hplan⟩ := signPlanned_result hsigned
    obtain ⟨x, hx, hpoints, hresponse⟩ := planSplit_signing hplan
    refine ⟨b, x, hb, hx, signed.signature.offset.toList, ?_⟩
    rw [← hpoints, ← hresponse]
    rfl
  | sendShielded r =>
    obtain ⟨signed, hsigned, rfl⟩ := Act.wrap_result h
    obtain ⟨b, prompt, hb, hplan⟩ := signPlanned_result hsigned
    obtain ⟨x, hx, hpoints, hresponse⟩ := planSendShielded_signing hplan
    refine ⟨b, x, hb, hx, signed.signature.offset.toList, ?_⟩
    rw [← hpoints, ← hresponse]
    rfl
  | receive r =>
    simp only [answer] at h
    cases hb : s.session with
    | none =>
      rw [Act.bind_error _ (Act.ledger_run_none hb)] at h
      cases h
    | some b =>
      rw [Act.bind_quiet _ (Act.ledger_run hb)] at h
      obtain ⟨received, hreceived, rfl⟩ := Act.wrap_result h
      obtain ⟨x, hx, hpoints, hresponse⟩ := receive_signing hreceived
      refine ⟨b, x, rfl, hx,
        received.signature.offset.toList ++ Signature.layout.write received.paymentProof, ?_⟩
      rw [← hpoints, ← hresponse]
      show _ :: (_ ++ ((_ ++ _) ++ _)) = _
      rw [List.append_assoc]
      rfl
  | _ => cases hkind

theorem accepted_signing {request : List UInt8} {capacity : Nat} {r : Request}
    (hr : Request.ofList? request = some r)
    (hkind : r.opcode.drawsKeys = true)
    (h : accepted (d.invoke approve request capacity s).bytes = true) :
    ∃ b x, s.session = some b ∧ d.signing? b r = some x ∧
      x.Answers (d.invoke approve request capacity s).bytes := by
  obtain ⟨r', reply, events, t, hr', hanswer, hinvoke⟩ := accepted_answer h
  cases hr.symm.trans hr'
  rw [hinvoke]
  exact answer_signing hkind (congrArg Turn.result hanswer)

end Answered

/-- No kernel nonce answers two challenges. Two requests of one kind among splits, receivers and
sends to a voucher, accepted by any devices in any states: where the bytes hashed for their keys are
the same, so is everything that is signed, down to the raw points of the peer, and with it the
challenge and the response. For receivers these bytes hold an identifier, which has to be that of
the same bytes. -/
theorem nonce_determines_challenge (d d' : Device) (s s' : State) {request request' : List UInt8}
    {capacity capacity' : Nat} {approve approve' : SpendPrompt → Bool} {r r' : Request}
    (hr : Request.ofList? request = some r) (hr' : Request.ofList? request' = some r')
    (hkind : r.opcode.drawsKeys = true) (hsame : r.opcode = r'.opcode)
    (haccepted : accepted (d.perform s (.invoke request capacity approve)).bytes = true)
    (haccepted' : accepted (d'.perform s' (.invoke request' capacity' approve')).bytes = true) :
    ∃ b b' x x', s.session = some b ∧ s'.session = some b' ∧
      d.signing? b r = some x ∧ d'.signing? b' r' = some x' ∧
      x.Answers (d.perform s (.invoke request capacity approve)).bytes ∧
      x'.Answers (d'.perform s' (.invoke request' capacity' approve')).bytes ∧
      (x.material = x'.material →
        (∀ k k', r = .receive k → r' = .receive k' →
          k.kernel.idPreimage k.points [] = k'.kernel.idPreimage k'.points []) →
        x.keys = x'.keys ∧ x.kernel = x'.kernel ∧ x.peer = x'.peer ∧ x.nested = x'.nested ∧
          x.points = x'.points ∧ x.id = x'.id ∧ x.challenge = x'.challenge ∧
          x.response = x'.response) := by
  have hkind' : r'.opcode.drawsKeys = true := hsame ▸ hkind
  obtain ⟨b, x, hb, hx, hanswers⟩ := accepted_signing hr hkind haccepted
  obtain ⟨b', x', hb', hx', hanswers'⟩ := accepted_signing hr' hkind' haccepted'
  refine ⟨b, b', x, x', hb, hb', hx, hx', hanswers, hanswers', ?_⟩
  intro hmaterial hpreimage
  obtain rfl : x = x' := signing?_determined hx hx' hsame hmaterial hpreimage
  exact ⟨rfl, rfl, rfl, rfl, rfl, rfl, rfl, rfl⟩

/-- A split that is signed again, after its fee was counted: the same response to the same
challenge. -/
theorem nonce_determines_challenge_split :
    let d := Sample.device (.zero 32)
    let s : State := ⟨some { native := -20 }, fun _ => .zero 32, 0⟩
    let step := Step.invoke (Request.split ⟨⟨20, 1, 100⟩⟩).toList 131 fun _ => true
    ∃ x x' : Signing, (d.after s [step]).session ≠ s.session ∧
      x.Answers (d.perform s step).bytes ∧
      x'.Answers (d.perform (d.after s [step]) step).bytes ∧
      x.challenge = x'.challenge ∧ x.response = x'.response := by
  intro d s step
  obtain ⟨b, hb, hnet, hfees⟩ : ∃ b : Ledger, s.session = some b ∧
      b.net (some 20) = .ok (0, 0) ∧ b.settle 20 ≠ b := ⟨_, rfl, rfl, by decide⟩
  obtain ⟨shown, signed, hplan⟩ := planSplit_of_net (r := ⟨⟨20, 1, 100⟩⟩) hnet
  obtain ⟨shown', signed', hplan'⟩ := planSplit_of_net (b := b.settle 20) (r := ⟨⟨20, 1, 100⟩⟩)
    ((Ledger.net_settle b 20 _).trans hnet)
  have hsplit : d.perform s step = _ := perform_split d (by decide) hb hplan rfl
  obtain ⟨u, hu, hafter⟩ : ∃ u : State, u.session = some (b.settle 20) ∧ d.after s [step] = u :=
    ⟨_, rfl, congrArg Response.state hsplit⟩
  have hagain : d.perform u step = _ := perform_split d (by decide) hu hplan' rfl
  have hrequest := Request.ofList?_toList (.split ⟨⟨20, 1, 100⟩⟩)
  obtain ⟨b₁, b₂, x, x', hb₁, hb₂, hx, hx', hanswers, hanswers', hsame⟩ :=
    nonce_determines_challenge d d s u hrequest hrequest rfl rfl
      (accepted_cons (congrArg Response.bytes hsplit))
      (accepted_cons (congrArg Response.bytes hagain))
  have hmaterial : x.material = x'.material := by
    cases hb.symm.trans hb₁
    cases hu.symm.trans hb₂
    cases hx
    cases hx'
    rfl
  obtain ⟨_, _, _, _, _, _, hchallenge, hresponse⟩ := hsame hmaterial nofun
  rw [hafter, hu, hb]
  exact ⟨x, x', fun h => hfees (Option.some.inj h), hanswers, hanswers', hchallenge, hresponse⟩

end Device

end ColdWallet
