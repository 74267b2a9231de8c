import ColdWallet.Device.Invoke
import ColdWallet.Proofs.Device.Transfer
import ColdWallet.Proofs.Wire.Coins

namespace ColdWallet

section OwnFailures

variable {α β : Type}

/-- A computation that fails, if at all, for what is asked for and not for the form it has. -/
def OwnFailures (x : Except DeviceError α) : Prop :=
  ∀ e, x = .error e → e.status.major ≠ .protoError

namespace OwnFailures

variable {x : Except DeviceError α}

theorem ok (a : α) : OwnFailures (.ok a) := nofun

theorem pure (a : α) : OwnFailures (pure a : Except DeviceError α) := nofun

theorem error {e : DeviceError} (h : e.status.major ≠ .protoError) :
    OwnFailures (.error e : Except DeviceError α) := by
  rintro _ ⟨⟩
  exact h

theorem throw {e : DeviceError} (h : e.status.major ≠ .protoError) :
    OwnFailures (throw e : Except DeviceError α) := error h

theorem bind {f : α → Except DeviceError β} (hx : OwnFailures x) (hf : ∀ a, OwnFailures (f a)) :
    OwnFailures (x >>= f) := by
  cases x with
  | ok a => exact hf a
  | error e => exact error (hx e rfl)

theorem ite {c : Prop} [Decidable c] {y : Except DeviceError α} (hx : OwnFailures x)
    (hy : OwnFailures y) : OwnFailures (if c then x else y) := by
  split
  · exact hx
  · exact hy

theorem guard {c : Prop} [Decidable c] {e : DeviceError} {f : PUnit → Except DeviceError α}
    (h : e.status.major ≠ .protoError) (hx : OwnFailures x) :
    OwnFailures (if c then MonadExcept.throw e >>= f else x) :=
  ite (error h) hx

end OwnFailures

end OwnFailures

namespace Ledger

variable (b : Ledger) (master : KeyNode) (policy : Policy)

theorem checked_own (v : Int) : OwnFailures (checked v) :=
  .ite (.ok v) (.error nofun)

theorem addAmount_own (amount : Int) (asset : UInt32) : OwnFailures (b.addAmount amount asset) := by
  have hadd (f : Int → Ledger) (v : Int) : OwnFailures (do return f (← checked v)) :=
    .bind (checked_own v) fun _ => .pure _
  exact .ite (hadd _ _) (.ite (.error nofun) (hadd _ _))

theorem addInput_own (c : CoinId) : OwnFailures (b.addInput master policy c) := by
  refine .guard nofun ?_
  exact .bind (addAmount_own _ _ _) fun _ => .pure _

theorem addOutput_own (c : CoinId) : OwnFailures (b.addOutput master c) := by
  refine .guard nofun (.guard nofun ?_)
  exact .bind (addAmount_own _ _ _) fun _ => .pure _

theorem addShieldedFee_own (fee : UInt64) : OwnFailures (b.addShieldedFee policy fee) := by
  refine .ite (.pure _) (.guard nofun (.guard nofun ?_))
  exact addAmount_own _ _ _

theorem addShielded_own (s : ShieldedInput) : OwnFailures (b.addShielded master policy s) := by
  refine .bind (addAmount_own _ _ _) fun b => ?_
  exact .bind (b.addShieldedFee_own policy _) fun _ => .pure _

theorem net_own (fee : Option UInt64) : OwnFailures (b.net fee) := by
  cases fee with
  | some fee =>
    exact .bind (checked_own _) fun _ => .guard nofun (.ite (.throw nofun) (.pure _))
  | none => exact .bind (.ok _) fun _ => .guard nofun (.ite (.throw nofun) (.pure _))

/-- Entries that are there in full are added, or refused for what they are. -/
theorem addAll_own {α : Type} {add : Ledger → α → Except DeviceError Ledger}
    (hadd : ∀ b v, OwnFailures (add b v)) (entries : List α) :
    OwnFailures (addAll add b (entries.map .ok)) := by
  induction entries generalizing b with
  | nil => exact .pure b
  | cons v entries ih =>
    have hcons : addAll add b ((v :: entries).map .ok) =
        add b v >>= fun b => addAll add b (entries.map .ok) := List.foldlM_cons
    rw [hcons]
    exact .bind (hadd b v) ih

end Ledger

/-- A list of coins as long as its header says is refused for its coins only. -/
theorem Ledger.addCoins_own (b : Ledger) (master : KeyNode) (policy : Policy) {r : AddCoins}
    (h : r.payload.length = r.payloadLength) : OwnFailures (b.addCoins master policy r) := by
  obtain ⟨inputs, outputs, shielded, hlists, -⟩ := AddCoins.exists_lists h
  unfold addCoins
  rw [if_neg (not_not.mpr h), hlists.inputs, hlists.outputs, hlists.shielded]
  refine .bind (addAll_own _ (fun b => b.addInput_own master policy) _) fun b => ?_
  refine .bind (b.addAll_own (fun b => b.addOutput_own master) _) fun b => ?_
  exact b.addAll_own (fun b => b.addShielded_own master policy) _

section Actions

variable {α β : Type}

/-- An action that fails, if at all, for what is asked for. -/
def Act.Own (x : Act α) : Prop := ∀ s, OwnFailures (x s).result

namespace Act.Own

theorem pure (a : α) : (pure a : Act α).Own := fun _ => .ok a

theorem ofExcept {x : Except DeviceError α} (h : OwnFailures x) : (Act.ofExcept x).Own :=
  fun _ => h

theorem fail {e : DeviceError} (h : e.status.major ≠ .protoError) : (Act.fail e : Act α).Own :=
  fun _ => .error h

theorem bind {x : Act α} {f : α → Act β} (hx : x.Own) (hf : ∀ a, (f a).Own) :
    (x >>= f).Own := by
  intro s
  cases h : x s with
  | mk result events t =>
    cases result with
    | error e =>
      rw [Act.bind_error f h]
      exact .error (hx s e (congrArg Turn.result h))
    | ok a =>
      rw [Act.bind_run h (rfl : f a t = ⟨(f a t).result, (f a t).events, (f a t).state⟩)]
      exact hf a t

theorem ite {c : Prop} [Decidable c] {x y : Act α} (hx : x.Own) (hy : y.Own) :
    (if c then x else y).Own := by
  split
  · exact hx
  · exact hy

theorem check {c : Prop} [Decidable c] {e : DeviceError} {f : PUnit → Act α} {x : Act α}
    (h : e.status.major ≠ .protoError) (hx : x.Own) :
    (if c then Act.fail e >>= f else x).Own := by
  refine ite (fun s => ?_) hx
  have hfail : (Act.fail e : Act PUnit) s = ⟨.error e, [], s⟩ := rfl
  rw [Act.bind_error f hfail]
  exact .error h

theorem ledger : Act.ledger.Own := by
  intro s
  cases h : s.session with
  | none =>
    rw [Act.ledger_run_none h]
    exact .error nofun
  | some b =>
    rw [Act.ledger_run h]
    exact .ok b

theorem confirm (approve : SpendPrompt → Bool) (prompt : SpendPrompt) :
    (Act.confirm approve prompt).Own :=
  .bind (fun _ => .ok ()) fun _ => .ite (.pure ()) (.fail nofun)

theorem settle (fee : UInt64) : (Act.settle fee).Own := .bind .ledger fun _ _ => .ok ()

theorem readSlot (slot : UInt32) : (Act.readSlot slot).Own := by
  intro s
  rw [Act.readSlot_run]
  exact .ok _

end Act.Own

end Actions

namespace Device

variable (d : Device) (approve : SpendPrompt → Bool) (b : Ledger)

theorem keyImages_own (r : KeyImage) : OwnFailures (d.keyImages r) := .ite (.ok _) (.error nofun)

theorem createOutput_own (r : CreateOutput) : OwnFailures (d.createOutput r) := by
  unfold createOutput
  split
  · exact .ok _
  · exact .error nofun

theorem planSplit_own (r : Split) : OwnFailures (planSplit b r) := by
  refine .bind (Ledger.net_own _ _) fun _ => ?_
  exact .guard nofun (.pure _)

theorem signPlanned_own {plan : Ledger → Except DeviceError (SpendPrompt × SignedKernel)}
    (hplan : ∀ b, OwnFailures (plan b)) (fee : UInt64) : (signPlanned approve plan fee).Own := by
  refine .bind .ledger fun b => ?_
  refine .bind (.ofExcept (hplan b)) fun _ => ?_
  refine .bind (.confirm approve _) fun _ => ?_
  exact .bind (.settle fee) fun _ => .pure _

theorem receive_own (r : Receive) : OwnFailures (d.receive b r) := by
  refine .bind (Ledger.net_own _ _) fun (net, asset) => ?_
  dsimp only
  cases (r.keys b net asset).joint? r.points with
  | none => exact .throw nofun
  | some points => exact .pure _

theorem checkSend_own (kernel : KernelParams) (parties : Parties) (slot : UInt32) :
    OwnFailures (d.checkSend b kernel parties slot) := by
  refine .bind (Ledger.net_own _ _) fun _ => ?_
  exact .guard nofun (.guard nofun (.guard nofun (.pure _)))

theorem sendTerms_own (kernel : KernelParams) (parties : Parties) (slot : UInt32) :
    (d.sendTerms kernel parties slot).Own := by
  refine .bind .ledger fun b => ?_
  refine .bind (.ofExcept (d.checkSend_own b kernel parties slot)) fun _ => ?_
  exact .bind (.readSlot slot) fun _ => .pure _

theorem openSend_own (r : OpenSend) : (d.openSend approve r).Own := by
  refine .bind (d.sendTerms_own _ _ _) fun _ => ?_
  exact .bind (.confirm approve _) fun _ => .pure _

theorem authorizeSend_own (r : CloseSend) : (d.authorizeSend r).Own := by
  refine .bind (d.sendTerms_own _ _ _) fun _ => ?_
  exact .check nofun (.check nofun (.pure _))

theorem renewSlot_own (slot : UInt32) : (d.renewSlot slot).Own := by
  intro s
  rw [renewSlot_run]
  exact .ok ()

theorem closeSend_own (r : CloseSend) : (d.closeSend r).Own := by
  rw [closeSend_eq]
  refine .bind (d.authorizeSend_own r) fun t => ?_
  refine .bind (d.renewSlot_own r.slot) fun _ => ?_
  refine .bind .ledger fun b => ?_
  exact .bind (.settle r.kernel.fee) fun _ => .pure _

theorem planSendShielded_own (r : SendShielded) : OwnFailures (d.planSendShielded b r) := by
  refine .bind (Ledger.net_own _ _) fun (net, asset) => .guard nofun (.guard nofun ?_)
  dsimp only
  cases r.verifyOutput? d.master net asset with
  | none => exact .throw nofun
  | some output => exact .pure _

theorem addCoins_own {r : AddCoins} (h : r.payload.length = r.payloadLength) :
    (d.addCoins r).Own := by
  intro s
  have hcoins := (opening r s).addCoins_own d.master d.policy h
  cases hb : (opening r s).addCoins d.master d.policy r with
  | ok b =>
    rw [addCoins_ok hb]
    exact .ok ()
  | error e =>
    rw [addCoins_error hb]
    exact .error (hcoins e hb)

theorem spendShielded_own {r : SpendShielded}
    (h : r.decoyCount? = some r.window.sigmaM.toNat) : OwnFailures (d.spendShielded r) := by
  unfold spendShielded
  rw [if_neg (not_not.mpr h)]
  cases r.prove d.master with
  | ok spent => exact .ok _
  | error e => cases e <;> exact .error nofun

end Device

/-- What the handler of a request finds wrong with its form. -/
def Request.formError? (room : Nat) : Request → Option DeviceError
  | addCoins r => if r.payload.length ≠ r.payloadLength then some .sizeMismatch else none
  | createVouchers r =>
    if min maxVouchers ((room - Vouchers.countWidth) / Voucher.layout.width) < r.count.toNat then
      some .outputOverflow
    else none
  | spendShielded r =>
    if r.decoyCount? ≠ some r.window.sigmaM.toNat then some .sizeMismatch else none
  | _ => none

namespace Device

variable {d : Device} {approve : SpendPrompt → Bool} {room : Nat} {r : Request} {s : State}

theorem answer_misformed {e : DeviceError} (h : r.formError? room = some e) :
    (d.answer approve room r s).result = .error e := by
  cases r with
  | version | slotCount | exportKey | keyImage | createOutput | split | receive | openSend
  | closeSend | sendShielded | showAddress => cases h
  | addCoins c =>
    obtain ⟨hlength, he⟩ := Option.ite_none_right_eq_some.mp h
    cases he
    have hcoins : (opening c s).addCoins d.master d.policy c = .error .sizeMismatch := by
      unfold Ledger.addCoins
      rw [if_pos hlength]
      rfl
    exact congrArg Turn.result (Act.bind_error _ (addCoins_error hcoins))
  | createVouchers c =>
    obtain ⟨hmany, he⟩ := Option.ite_none_right_eq_some.mp h
    cases he
    have hresult : d.createVouchers ((room - Vouchers.countWidth) / Voucher.layout.width) c =
        .error .outputOverflow := if_pos hmany
    exact congrArg Turn.result (Act.bind_error _ (congrFun (congrArg Act.ofExcept hresult) s))
  | spendShielded c =>
    obtain ⟨hdecoys, he⟩ := Option.ite_none_right_eq_some.mp h
    cases he
    have hresult : d.spendShielded c = .error .sizeMismatch := if_pos hdecoys
    exact congrArg Turn.result (Act.bind_error _ (congrFun (congrArg Act.ofExcept hresult) s))

theorem answer_formed (h : r.formError? room = none) : (d.answer approve room r).Own := by
  cases r with
  | version | slotCount | exportKey => exact .pure _
  | keyImage r => exact .bind (.ofExcept (d.keyImages_own r)) fun _ => .pure _
  | createOutput r => exact .bind (.ofExcept (d.createOutput_own r)) fun _ => .pure _
  | addCoins r =>
    have hlength : r.payload.length = r.payloadLength :=
      of_not_not fun hne => nomatch ite_eq_right_iff.mp h hne
    exact .bind (d.addCoins_own hlength) fun _ => .pure _
  | split r => exact .bind (signPlanned_own approve (planSplit_own · r) _) fun _ => .pure _
  | receive r =>
    exact .bind .ledger fun b => .bind (.ofExcept (d.receive_own b r)) fun _ => .pure _
  | openSend r => exact .bind (d.openSend_own approve r) fun _ => .pure _
  | closeSend r => exact .bind (d.closeSend_own r) fun _ => .pure _
  | sendShielded r =>
    exact .bind (signPlanned_own approve (d.planSendShielded_own · r) _) fun _ => .pure _
  | showAddress r => exact .bind (fun _ => .ok ()) fun _ => .pure _
  | createVouchers r =>
    have hfew : ¬min maxVouchers ((room - Vouchers.countWidth) / Voucher.layout.width) <
        r.count.toNat := fun hmany => nomatch ite_eq_right_iff.mp h hmany
    have hvouchers : OwnFailures
        (d.createVouchers ((room - Vouchers.countWidth) / Voucher.layout.width) r) := by
      unfold createVouchers
      rw [if_neg hfew]
      exact .ok _
    exact .bind (.ofExcept hvouchers) fun _ => .pure _
  | spendShielded r =>
    have hdecoys : r.decoyCount? = some r.window.sigmaM.toNat :=
      of_not_not fun hne => nomatch ite_eq_right_iff.mp h hne
    exact .bind (.ofExcept (d.spendShielded_own hdecoys)) fun _ => .pure _

end Device

end ColdWallet
