import ColdWallet.Proofs.Device.Frame
import ColdWallet.Proofs.Shielded.Voucher

namespace ColdWallet

namespace Vouchers

/-- The vouchers in an answer of success that holds a batch and nothing else. -/
def ofAnswer? (bytes : List UInt8) : Option (List Voucher) :=
  match bytes with
  | [] => none
  | status :: reply =>
    if status = StatusMajor.ok.toByte then
      match codec.decode reply with
      | .ok (v, []) => some v.list
      | _ => none
    else none

theorem ofAnswer?_encode {v : Vouchers} (h : v.list.length ≤ maxVouchers) :
    ofAnswer? (StatusMajor.ok.toByte :: codec.encode v) = some v.list := by
  have hdecode : codec.decode (codec.encode v) = .ok (v, []) :=
    decode_iff.mpr ⟨h, (List.append_nil _).symm⟩
  simp only [ofAnswer?, hdecode, if_true]

/-- So many vouchers are no more than one answer may hold, and fit behind their number. -/
def Fit (room count : ℕ) : Prop := count ≤ 16 ∧ 4 + 227 * count ≤ room

instance (room count : ℕ) : Decidable (Fit room count) := inferInstanceAs (Decidable (_ ∧ _))

/-- The two limits that are checked, once there is room for the number. -/
theorem fit_iff {room count : ℕ} (hroom : 4 ≤ room) :
    ¬min maxVouchers ((room - countWidth) / Voucher.layout.width) < count ↔ Fit room count := by
  have hmax : maxVouchers = 16 := rfl
  have hlead : countWidth = 4 := rfl
  have hwidth : Voucher.layout.width = 227 := rfl
  rw [hmax, hlead, hwidth, Fit]
  omega

end Vouchers

namespace Device

variable {room : ℕ}

def batch (d : Device) (address : UInt64) (count : ℕ) (nonce : Bytes 32) : List Voucher :=
  Voucher.batch (.ofMaster d.master 0) (d.master.address address).1 count nonce

theorem createVouchers_fit (d : Device) {r : CreateVouchers} (hroom : 4 ≤ room)
    (h : Vouchers.Fit room r.count.toNat) :
    d.createVouchers ((room - Vouchers.countWidth) / Voucher.layout.width) r =
      .ok ⟨d.batch r.address r.count.toNat r.nonce⟩ :=
  if_neg ((Vouchers.fit_iff hroom).mpr h)

theorem createVouchers_overflow (d : Device) {r : CreateVouchers} (hroom : 4 ≤ room)
    (h : ¬Vouchers.Fit room r.count.toNat) :
    d.createVouchers ((room - Vouchers.countWidth) / Voucher.layout.width) r =
      .error .outputOverflow :=
  if_pos (not_not.mp ((Vouchers.fit_iff hroom).not.mpr h))

/-- Once there is room for a number, the answer is what is made of the vouchers. -/
theorem invoke_createVouchers (d : Device) (approve : SpendPrompt → Bool) (r : CreateVouchers)
    (s : State) (hroom : 4 ≤ room) :
    (d.invoke approve (Request.createVouchers r).toList (1 + room) s).bytes =
      answerBytes (1 + room)
        ((d.createVouchers ((room - Vouchers.countWidth) / Voucher.layout.width) r).map
          Reply.vouchers) := by
  have hwidth : (Request.createVouchers r).opcode.answerWidth = 4 := rfl
  have hadmission : Request.admission (Request.createVouchers r).toList (1 + room) =
      .ok (.createVouchers r) := Request.admission_toList (by omega)
  have hback : 1 + room - 1 = room := Nat.add_sub_cancel_left 1 room
  have hanswer : d.answer approve (1 + room - 1) (.createVouchers r) s =
      ⟨(d.createVouchers ((room - Vouchers.countWidth) / Voucher.layout.width) r).map
        Reply.vouchers, [], s⟩ := by
    rw [hback]
    exact Act.wrap_ofExcept _ Reply.vouchers s
  rw [invoke_admitted hadmission hanswer]

theorem ofAnswer?_fit (d : Device) (approve : SpendPrompt → Bool) (r : CreateVouchers) (s : State)
    (h : Vouchers.Fit room r.count.toNat) :
    Vouchers.ofAnswer?
        (d.invoke approve (Request.createVouchers r).toList (1 + room) s).bytes =
      some (d.batch r.address r.count.toNat r.nonce) := by
  have hroom : 4 ≤ room := (Nat.le_add_right 4 _).trans h.2
  have hmax : (d.batch r.address r.count.toNat r.nonce).length ≤ maxVouchers :=
    (length_batch ..).trans_le h.1
  rw [d.invoke_createVouchers approve r s hroom, d.createVouchers_fit hroom h]
  exact Vouchers.ofAnswer?_encode hmax

theorem answer_overflow (d : Device) (approve : SpendPrompt → Bool) (r : CreateVouchers) (s : State)
    (hroom : 4 ≤ room) (h : ¬Vouchers.Fit room r.count.toNat) :
    (d.invoke approve (Request.createVouchers r).toList (1 + room) s).bytes =
      [StatusMajor.protoError.toByte, 1] := by
  rw [d.invoke_createVouchers approve r s hroom, d.createVouchers_overflow hroom h]
  exact answerBytes_error .outputOverflow (by omega)

theorem batch_getElem (d : Device) (address : UInt64) {count k : ℕ} {nonce : Bytes 32}
    (hk : k < (d.batch address count nonce).length) :
    (d.batch address count nonce)[k] =
      (Voucher.ofNonce (.ofMaster d.master 0) (nextVoucherNonce^[k] nonce)).signed
        (d.master.address address).1 := by
  simp only [batch, Voucher.batch_eq_map, List.getElem_map, List.getElem_iterate]

theorem batch_verifies (d : Device) (address : UInt64) {count : ℕ} {nonce : Bytes 32} {v : Voucher}
    (h : v ∈ d.batch address count nonce) :
    v.signature.verifyX v.hash (d.master.address address).2 = true := by
  rw [batch, Voucher.batch_eq_map] at h
  obtain ⟨nonce', _, rfl⟩ := List.mem_map.mp h
  exact Voucher.signed_verifies _ _

theorem fit_add {a b : UInt32} (h : Vouchers.Fit room (a.toNat + b.toNat)) :
    (a + b).toNat = a.toNat + b.toNat := by
  have hfew := h.1
  rw [UInt32.toNat_add]
  omega

/-- Vouchers are answered in full or refused, and batches compose. With room for their number, as many
vouchers as are asked for come back if one answer may hold them and they fit, each made from the nonce
so many steps along the chain and signed for the address; otherwise the request is refused as too large
for its answer. What is asked for from where a batch stopped goes on with it. -/
theorem vouchers_compose (d : Device) (approve : SpendPrompt → Bool) (address : UInt64) :
    let ask (s : State) (room : ℕ) (count : UInt32) (nonce : Bytes 32) :=
      (d.invoke approve (Request.createVouchers ⟨address, nonce, count⟩).toList (1 + room) s).bytes
    (∀ (s : State) (room : ℕ) (count : UInt32) (nonce : Bytes 32), 4 ≤ room →
      (Vouchers.Fit room count.toNat →
        ∃ vs, Vouchers.ofAnswer? (ask s room count nonce) = some vs ∧ vs.length = count.toNat ∧
          ∀ (k : ℕ) (hk : k < vs.length),
            vs[k] = (Voucher.ofNonce (.ofMaster d.master 0) (nextVoucherNonce^[k] nonce)).signed
                (d.master.address address).1 ∧
              vs[k].signature.verifyX vs[k].hash (d.master.address address).2 = true) ∧
      (¬Vouchers.Fit room count.toNat →
        ask s room count nonce = [StatusMajor.protoError.toByte, 1])) ∧
    ∀ (s s₁ s₂ : State) (room room₁ room₂ : ℕ) (a b : UInt32) (nonce : Bytes 32),
      Vouchers.Fit room (a.toNat + b.toNat) → Vouchers.Fit room₁ a.toNat →
      Vouchers.Fit room₂ b.toNat →
      ∃ as bs, Vouchers.ofAnswer? (ask s₁ room₁ a nonce) = some as ∧
        Vouchers.ofAnswer? (ask s₂ room₂ b (nextVoucherNonce^[a.toNat] nonce)) = some bs ∧
        Vouchers.ofAnswer? (ask s room (a + b) nonce) = some (as ++ bs) := by
  intro ask
  refine ⟨fun s room count nonce hroom => ⟨fun hfit => ?_, ?_⟩, ?_⟩
  · refine ⟨_, d.ofAnswer?_fit approve ⟨address, nonce, count⟩ s hfit, length_batch .., ?_⟩
    intro k hk
    exact ⟨d.batch_getElem address hk, d.batch_verifies address (List.getElem_mem hk)⟩
  · exact d.answer_overflow approve ⟨address, nonce, count⟩ s hroom
  · intro s s₁ s₂ room room₁ room₂ a b nonce hfit hfit₁ hfit₂
    refine ⟨_, _, d.ofAnswer?_fit approve ⟨address, nonce, a⟩ s₁ hfit₁,
      d.ofAnswer?_fit approve ⟨address, nextVoucherNonce^[a.toNat] nonce, b⟩ s₂ hfit₂, ?_⟩
    have hsum := fit_add hfit
    have hwhole := d.ofAnswer?_fit approve ⟨address, nonce, a + b⟩ s (hsum ▸ hfit)
    simp only [hsum] at hwhole
    rw [hwhole, batch, Voucher.batch_append]
    rfl

/-- Three vouchers are one and two, where the answer has room for no fourth. -/
theorem vouchers_compose_three :
    let d := Sample.device (.zero 32)
    let s : State := ⟨none, fun _ => .zero 32, 0⟩
    let ask (room : ℕ) (count : UInt32) (nonce : Bytes 32) :=
      (d.invoke (fun _ => false) (Request.createVouchers ⟨11, nonce, count⟩).toList (1 + room)
        s).bytes
    (∃ as bs, as.length = 1 ∧ bs.length = 2 ∧
      Vouchers.ofAnswer? (ask 231 1 (.zero 32)) = some as ∧
      Vouchers.ofAnswer? (ask 458 2 (nextVoucherNonce (.zero 32))) = some bs ∧
      Vouchers.ofAnswer? (ask 685 3 (.zero 32)) = some (as ++ bs)) ∧
    ask 911 4 (.zero 32) = [3, 1] := by
  intro d s ask
  obtain ⟨hanswered, hcompose⟩ := vouchers_compose d (fun _ => false) 11
  obtain ⟨as, bs, has, hbs, hwhole⟩ := hcompose s s s 685 231 458 1 2 (.zero 32) (by decide)
    (by decide) (by decide)
  obtain ⟨as', has', hone, _⟩ := (hanswered s 231 1 (.zero 32) (by decide)).1 (by decide)
  obtain ⟨bs', hbs', htwo, _⟩ :=
    (hanswered s 458 2 (nextVoucherNonce (.zero 32)) (by decide)).1 (by decide)
  obtain rfl : as' = as := Option.some.inj (has'.symm.trans has)
  obtain rfl : bs' = bs := Option.some.inj (hbs'.symm.trans hbs)
  exact ⟨⟨as', bs', hone, htwo, has, hbs, hwhole⟩,
    (hanswered s 911 4 (.zero 32) (by decide)).2 (by decide)⟩

end Device

end ColdWallet
