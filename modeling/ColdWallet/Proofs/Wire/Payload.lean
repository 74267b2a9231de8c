import ColdWallet.Proofs.Wire.Message

namespace ColdWallet

/-- The number in so many bytes from a place on, least significant first. -/
def numberAt (l : List UInt8) (place width : Nat) : Nat :=
  ofLittleEndian ((l.drop place).take width)

namespace Opcode

def payloadWidth : Opcode → Nat
  | version => 0
  | slotCount => 0
  | exportKey => 1
  | keyImage => 37
  | createOutput => 191
  | addCoins => 4
  | split => 24
  | receive => 130
  | openSend => 68
  | closeSend => 231
  | sendShielded => 1095
  | showAddress => 8
  | createVouchers => 44
  | spendShielded => 350

def tailed : Opcode → Bool
  | addCoins => true
  | spendShielded => true
  | _ => false

/-- The width of a request with what follows: inputs, outputs and shielded inputs as many as its
header counts, or a decoy for every column of its proof. -/
def wholeWidth (op : Opcode) (payload : List UInt8) : Nat :=
  match op with
  | addCoins =>
    4 + 28 * (numberAt payload 1 1 + numberAt payload 2 1) + 57 * numberAt payload 3 1
  | spendShielded => 350 + 33 * numberAt payload 85 4
  | op => op.payloadWidth

theorem wholeWidth_fixed {op : Opcode} {payload : List UInt8} (h : op.tailed = false) :
    op.wholeWidth payload = op.payloadWidth := by
  cases op with
  | addCoins | spendShielded => cases h
  | version | slotCount | exportKey | keyImage | createOutput | split | receive | openSend
  | closeSend | sendShielded | showAddress | createVouchers => rfl

end Opcode

theorem Layout.u32_read_toNat {l : List UInt8} (h : l.length ≤ 4) :
    (Layout.u32.read l).toNat = ofLittleEndian l := by
  have hlt : ofLittleEndian l < 2 ^ 32 :=
    (ofLittleEndian_lt l).trans_le (Nat.pow_le_pow_right (by decide) h)
  show (UInt32.ofNat (ofLittleEndian l)).toNat = _
  rw [UInt32.toNat_ofNat', Nat.mod_eq_of_lt hlt]

/-- The count of a voucher request is its last field. -/
theorem CreateVouchers.count_read {l : List UInt8} (h : l.length = CreateVouchers.layout.width) :
    (CreateVouchers.layout.read l).count.toNat = numberAt l 40 4 := by
  have hwidth : l.length = 44 := h
  have hread : (CreateVouchers.layout.read l).count = Layout.u32.read ((l.drop 8).drop 32) := rfl
  rw [hread, List.drop_drop, Layout.u32_read_toNat (by rw [List.length_drop]; omega), numberAt,
    List.take_of_length_le (by rw [List.length_drop]; omega)]

/-- The number of columns of a spend's proof stands last in its window of heights. -/
theorem SpendFields.sigmaM_read (l : List UInt8) :
    (SpendFields.layout.read (l.take SpendFields.layout.width)).window.sigmaM.toNat =
      numberAt l 85 4 := by
  have hread : (SpendFields.layout.read (l.take SpendFields.layout.width)).window.sigmaM =
      Layout.u32.read
        (((((((l.take 350).drop 57).take 32).drop 8).drop 8).drop 8).drop 4) := rfl
  have hplace : ((((((l.take 350).drop 57).take 32).drop 8).drop 8).drop 8).drop 4 =
      (l.drop 85).take 4 := by
    simp only [List.drop_take, List.drop_drop, List.take_take]
    rfl
  rw [hread, hplace, Layout.u32_read_toNat (List.length_take_le 4 _), numberAt]

namespace Request

section Exact

variable {α : Type} {a : Layout α} {l : List UInt8}

theorem exact_short (h : l.length < a.width) : exact a l = .error .tooShort := if_pos h

theorem exact_long (h : a.width < l.length) : exact a l = .error .sizeMismatch := by
  unfold exact
  rw [if_neg (Nat.not_lt.mpr h.le), if_pos h]

theorem exact_fits (h : l.length = a.width) : exact a l = .ok (a.read l) := by
  unfold exact
  rw [if_neg h.not_lt, if_neg h.not_gt]

theorem map_exact_ok {f : α → Request} {r : Request} (h : (exact a l).map f = .ok r) :
    l.length = a.width ∧ f (a.read l) = r := by
  rcases lt_trichotomy l.length a.width with hshort | hfits | hlong
  · rw [exact_short hshort] at h
    cases h
  · rw [exact_fits hfits] at h
    exact ⟨hfits, Except.ok.inj h⟩
  · rw [exact_long hlong] at h
    cases h

end Exact

variable {op : Opcode} {l : List UInt8} {r : Request}

theorem map_exact_short {α : Type} {a : Layout α} (f : α → Request) (h : l.length < a.width) :
    (exact a l).map f = .error .tooShort := by
  rw [exact_short h]
  rfl

theorem map_exact_long {α : Type} {a : Layout α} (f : α → Request) (h : a.width < l.length) :
    (exact a l).map f = .error .sizeMismatch := by
  rw [exact_long h]
  rfl

theorem map_exact_fits {α : Type} {a : Layout α} (f : α → Request) (h : l.length = a.width) :
    ∃ r, (exact a l).map f = .ok r := by
  rw [exact_fits h]
  exact ⟨_, rfl⟩

theorem ofPayload_short (h : l.length < op.payloadWidth) : ofPayload op l = .error .tooShort := by
  cases op with
  | version | slotCount => exact absurd h (Nat.not_lt_zero _)
  | exportKey | keyImage | createOutput | split | receive | openSend | closeSend | sendShielded
  | showAddress | createVouchers => exact map_exact_short _ h
  | addCoins =>
    match l, h with
    | [], _ => rfl
    | [_], _ => rfl
    | [_, _], _ => rfl
    | [_, _, _], _ => rfl
  | spendShielded =>
    have hdecode : SpendFields.layout.decode l = .error .invalidLength :=
      Layout.decode_short h
    simp only [ofPayload, tailed, SpendShielded.codec, hdecode]
    rfl

theorem ofPayload_long (hop : op.tailed = false) (h : op.payloadWidth < l.length) :
    ofPayload op l = .error .sizeMismatch := by
  cases op with
  | addCoins | spendShielded => cases hop
  | version | slotCount | exportKey | keyImage | createOutput | split | receive | openSend
  | closeSend | sendShielded | showAddress | createVouchers => exact map_exact_long _ h

theorem ofPayload_addCoins (h : 4 ≤ l.length) :
    ∃ c : AddCoins, ofPayload .addCoins l = .ok (addCoins c) ∧
      (c.payload.length = c.payloadLength ↔ l.length = Opcode.addCoins.wholeWidth l) := by
  match l, h with
  | reset :: inputs :: outputs :: shielded :: payload, _ =>
    refine ⟨⟨reset, inputs, outputs, shielded, payload⟩, rfl, ?_⟩
    show payload.length = (inputs.toNat + outputs.toNat) * 28 + shielded.toNat * 57 ↔
      payload.length + 4 = 4 + 28 * (inputs.toNat + outputs.toNat) + 57 * shielded.toNat
    omega

theorem ofPayload_spendShielded (h : 350 ≤ l.length) :
    ∃ c : SpendShielded, ofPayload .spendShielded l = .ok (spendShielded c) ∧
      (c.decoyCount? = some c.window.sigmaM.toNat ↔
        l.length = Opcode.spendShielded.wholeWidth l) := by
  have hdecode : SpendFields.layout.decode l = .ok (SpendFields.layout.read (l.take 350),
      l.drop 350) := Layout.decode_whole h
  refine ⟨⟨SpendFields.layout.read (l.take 350), l.drop 350⟩, ?_, ?_⟩
  · simp only [ofPayload, tailed, SpendShielded.codec, hdecode]
    rfl
  · have hcolumns : (SpendFields.layout.read (l.take 350)).window.sigmaM.toNat =
        numberAt l 85 4 := SpendFields.sigmaM_read l
    show (if (l.drop 350).length % 33 = 0 then some ((l.drop 350).length / 33) else none) =
        some (SpendFields.layout.read (l.take 350)).window.sigmaM.toNat ↔
      l.length = 350 + 33 * numberAt l 85 4
    rw [hcolumns, List.length_drop]
    split
    · rw [Option.some.injEq]
      omega
    · constructor
      · intro hnone
        cases hnone
      · omega

/-- Apart from requests with a tail, exactly the bytes of the fixed width are a request. -/
theorem ofPayload_fits (hop : op.tailed = false) (h : l.length = op.payloadWidth) :
    ∃ r, ofPayload op l = .ok r := by
  cases op with
  | addCoins | spendShielded => cases hop
  | version | slotCount | exportKey | keyImage | createOutput | split | receive | openSend
  | closeSend | sendShielded | showAddress | createVouchers => exact map_exact_fits _ h

end Request

end ColdWallet
