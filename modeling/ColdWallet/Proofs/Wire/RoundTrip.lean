import ColdWallet.Proofs.Wire.Layout
import ColdWallet.Wire.Status

namespace ColdWallet

namespace Codec

variable {α : Type}

/-- A value is written whole in as many bytes as its width says, and not at all where there is room
for fewer. -/
def Fills (c : Codec α) (width : α → ℕ) : Prop :=
  ∀ v, (c.encode v).length = width v ∧
    ∀ capacity, c.encodeWithin capacity v =
      if width v ≤ capacity then .ok (c.encode v) else .error .invalidLength

/-- Some value is read from the front of these bytes. -/
def Accepts (c : Codec α) (l : List UInt8) : Prop := ∃ v rest, c.decode l = .ok (v, rest)

theorem fills_of_length {c : Codec α} {width : α → ℕ}
    (h : ∀ v, (c.encode v).length = width v) : c.Fills width := by
  intro v
  refine ⟨h v, fun capacity => ?_⟩
  unfold encodeWithin
  by_cases hfits : width v ≤ capacity
  · rw [if_pos hfits, if_neg (by rw [h]; omega)]
  · rw [if_neg hfits, if_pos (by rw [h]; omega)]

end Codec

/-- How a kind of value with a fixed width is laid out: the width it is given, and the place of its
flags if it has any. -/
structure Format where
  {Value : Type}
  layout : Layout Value
  width : ℕ
  flagsAt? : Option ℕ := none

namespace Format

def kept (f : Format) (l : List UInt8) : List UInt8 :=
  match f.flagsAt? with
  | none => l
  | some i => l.modify i ImageFlags.kept

/-- The width is the layout's, and every byte comes back, or every byte but the flags. -/
inductive Sound : Format → Prop where
  | whole {α : Type} {a : Layout α} (ha : a.Exact) : Sound { layout := a, width := a.width }
  | flags {α : Type} {a : Layout α} {i : ℕ} (ha : a.ExactBut i ImageFlags.kept) :
      Sound { layout := a, width := a.width, flagsAt? := some i }

variable {f : Format}

theorem Sound.lawful (h : f.Sound) : f.layout.Lawful := by
  cases h with
  | whole ha => exact ha.toLawful
  | flags ha => exact ha.toLawful

theorem Sound.layout_width (h : f.Sound) : f.layout.width = f.width := by
  cases h <;> rfl

theorem Sound.decode_iff (h : f.Sound) {l rest : List UInt8} {v : f.Value} :
    f.layout.decode l = .ok (v, rest) ↔ f.layout.write v ++ rest = f.kept l := by
  cases h with
  | whole ha => exact ha.decode_iff.trans eq_comm
  | flags ha => exact ha.decode_iff

theorem Sound.accepts_iff (h : f.Sound) (l : List UInt8) :
    f.layout.codec.Accepts l ↔ f.width ≤ l.length := by
  rw [← h.layout_width]
  constructor
  · rintro ⟨v, rest, hdecode⟩
    exact (Layout.decode_ok.mp hdecode).1
  · intro hlength
    exact ⟨_, _, Layout.decode_ok.mpr ⟨hlength, rfl, rfl⟩⟩

end Format

/-- The kinds of value with a fixed width. -/
inductive Record where
  | compactPoint
  | coinId
  | publicNode
  | kernelParams
  | kernelPoints
  | parties
  | kernelSignature
  | signature
  | voucher
  | shieldedSecret
  | shieldedTerms
  | spendWindow
  | outputNote
  | foldRound
  | rangeProof
  | empty
  | version
  | slotCount
  | exportKey
  | exportedKey
  | imageFlags
  | keyImage
  | keyImages
  | showAddress
  | createOutput
  | createdOutput
  | split
  | signedKernel
  | receive
  | received
  | openSend
  | openedSend
  | closeSend
  | closedSend
  | sendShielded
  | createVouchers
  | spentShielded
deriving DecidableEq, Repr

namespace Record

def format : Record → Format
  | compactPoint => { layout := CompactPoint.layout, width := 33 }
  | coinId => { layout := CoinId.layout, width := 28 }
  | publicNode => { layout := PublicNode.layout, width := 98 }
  | kernelParams => { layout := KernelParams.layout, width := 24 }
  | kernelPoints => { layout := KernelPoints.layout, width := 66 }
  | parties => { layout := Parties.layout, width := 40 }
  | kernelSignature => { layout := KernelSignature.layout, width := 64 }
  | signature => { layout := Signature.layout, width := 65 }
  | voucher => { layout := Voucher.layout, width := 227 }
  | shieldedSecret => { layout := ShieldedSecret.layout, width := 33 }
  | shieldedTerms => { layout := ShieldedTerms.layout, width := 24 }
  | spendWindow => { layout := SpendWindow.layout, width := 32 }
  | outputNote => { layout := OutputNote.layout, width := 96 }
  | foldRound => { layout := FoldRound.layout, width := 64 }
  | rangeProof => { layout := RangeProof.layout, width := 674 }
  | empty => { layout := Layout.empty, width := 0 }
  | version => { layout := Version.layout, width := 8 }
  | slotCount => { layout := SlotCount.layout, width := 4 }
  | exportKey => { layout := ExportKey.layout, width := 1 }
  | exportedKey => { layout := ExportedKey.layout, width := 98 }
  | imageFlags => { layout := ImageFlags.layout, width := 1, flagsAt? := some 0 }
  | keyImage => { layout := KeyImage.layout, width := 37, flagsAt? := some 36 }
  | keyImages => { layout := KeyImages.layout, width := 66 }
  | showAddress => { layout := ShowAddress.layout, width := 8 }
  | createOutput => { layout := CreateOutput.layout, width := 191 }
  | createdOutput => { layout := CreatedOutput.layout, width := 98 }
  | split => { layout := Split.layout, width := 24 }
  | signedKernel => { layout := SignedKernel.layout, width := 130 }
  | receive => { layout := Receive.layout, width := 130 }
  | received => { layout := Received.layout, width := 195 }
  | openSend => { layout := OpenSend.layout, width := 68 }
  | openedSend => { layout := OpenedSend.layout, width := 98 }
  | closeSend => { layout := CloseSend.layout, width := 231 }
  | closedSend => { layout := ClosedSend.layout, width := 64 }
  | sendShielded => { layout := SendShielded.layout, width := 1095 }
  | createVouchers => { layout := CreateVouchers.layout, width := 44 }
  | spentShielded => { layout := SpentShielded.layout, width := 162 }

theorem format_sound (r : Record) : r.format.Sound := by
  cases r with
  | compactPoint => exact .whole CompactPoint.layout_exact
  | coinId => exact .whole CoinId.layout_exact
  | publicNode => exact .whole PublicNode.layout_exact
  | kernelParams => exact .whole KernelParams.layout_exact
  | kernelPoints => exact .whole KernelPoints.layout_exact
  | parties => exact .whole Parties.layout_exact
  | kernelSignature => exact .whole KernelSignature.layout_exact
  | signature => exact .whole Signature.layout_exact
  | voucher => exact .whole Voucher.layout_exact
  | shieldedSecret => exact .whole ShieldedSecret.layout_exact
  | shieldedTerms => exact .whole ShieldedTerms.layout_exact
  | spendWindow => exact .whole SpendWindow.layout_exact
  | outputNote => exact .whole OutputNote.layout_exact
  | foldRound => exact .whole FoldRound.layout_exact
  | rangeProof => exact .whole RangeProof.layout_exact
  | empty => exact .whole Layout.empty_exact
  | version => exact .whole Version.layout_exact
  | slotCount => exact .whole SlotCount.layout_exact
  | exportKey => exact .whole ExportKey.layout_exact
  | exportedKey => exact .whole ExportedKey.layout_exact
  | imageFlags => exact .flags ImageFlags.layout_exactBut
  | keyImage => exact .flags KeyImage.layout_exactBut
  | keyImages => exact .whole KeyImages.layout_exact
  | showAddress => exact .whole ShowAddress.layout_exact
  | createOutput => exact .whole CreateOutput.layout_exact
  | createdOutput => exact .whole CreatedOutput.layout_exact
  | split => exact .whole Split.layout_exact
  | signedKernel => exact .whole SignedKernel.layout_exact
  | receive => exact .whole Receive.layout_exact
  | received => exact .whole Received.layout_exact
  | openSend => exact .whole OpenSend.layout_exact
  | openedSend => exact .whole OpenedSend.layout_exact
  | closeSend => exact .whole CloseSend.layout_exact
  | closedSend => exact .whole ClosedSend.layout_exact
  | sendShielded => exact .whole SendShielded.layout_exact
  | createVouchers => exact .whole CreateVouchers.layout_exact
  | spentShielded => exact .whole SpentShielded.layout_exact

end Record

namespace AddCoins

theorem length_encode (r : AddCoins) : (codec.encode r).length = 4 + r.payload.length :=
  Nat.add_comm r.payload.length 4

theorem decode_iff {l rest : List UInt8} {r : AddCoins} :
    codec.decode l = .ok (r, rest) ↔ l = codec.encode r ∧ rest = [] := by
  constructor
  · intro h
    match l, h with
    | _ :: _ :: _ :: _ :: _, rfl => exact ⟨rfl, rfl⟩
  · rintro ⟨rfl, rfl⟩
    rfl

theorem accepts_iff (l : List UInt8) : codec.Accepts l ↔ 4 ≤ l.length := by
  constructor
  · rintro ⟨r, rest, h⟩
    rw [(decode_iff.mp h).1, length_encode]
    exact Nat.le_add_right 4 _
  · intro h
    match l, h with
    | _ :: _ :: _ :: _ :: _, _ => exact ⟨_, _, rfl⟩

end AddCoins

namespace SpendShielded

theorem length_encode (r : SpendShielded) :
    (codec.encode r).length = 350 + r.decoyBytes.length := by
  show (SpendFields.layout.write r.toSpendFields ++ r.decoyBytes).length = _
  rw [List.length_append, SpendFields.layout_exact.length]
  rfl

theorem decode_iff {l rest : List UInt8} {r : SpendShielded} :
    codec.decode l = .ok (r, rest) ↔ l = codec.encode r ∧ rest = [] := by
  constructor
  · intro h
    change (SpendFields.layout.decode l).map _ = _ at h
    cases hfields : SpendFields.layout.decode l with
    | error e =>
      rw [hfields] at h
      cases h
    | ok p =>
      rw [hfields] at h
      cases h
      exact ⟨SpendFields.layout_exact.decode_iff.mp hfields, rfl⟩
  · rintro ⟨rfl, rfl⟩
    show (SpendFields.layout.decode (SpendFields.layout.write _ ++ _)).map _ = _
    rw [SpendFields.layout_exact.decode_append]
    rfl

theorem accepts_iff (l : List UInt8) : codec.Accepts l ↔ 350 ≤ l.length := by
  constructor
  · rintro ⟨r, rest, h⟩
    rw [(decode_iff.mp h).1, length_encode]
    exact Nat.le_add_right 350 _
  · intro h
    have hwidth : SpendFields.layout.width ≤ l.length := h
    have hfields := Layout.decode_ok.mpr ⟨hwidth, rfl, rfl⟩
    refine ⟨⟨SpendFields.layout.read (l.take 350), l.drop 350⟩, [], ?_⟩
    show (SpendFields.layout.decode l).map _ = _
    rw [hfields]
    rfl

end SpendShielded

namespace Vouchers

theorem length_encode (v : Vouchers) : (codec.encode v).length = 4 + v.list.length * 227 := by
  show (littleEndian countWidth _ ++ v.list.flatMap Voucher.layout.write).length = _
  rw [List.length_append, length_littleEndian, Voucher.layout_exact.length_flatMap]
  rfl

def countIn (l : List UInt8) : ℕ := ofLittleEndian (l.take countWidth)

theorem countIn_append (count : UInt32) (l : List UInt8) :
    countIn (Layout.u32.write count ++ l) = count.toNat := by
  have hlead : (Layout.u32.write count ++ l).take countWidth =
      littleEndian countWidth count.toNat :=
    List.take_left' (length_littleEndian ..)
  rw [countIn, hlead, ofLittleEndian_littleEndian]
  exact Nat.mod_eq_of_lt count.toNat_lt

/-- Bytes that hold a number are that number and what follows it. -/
theorem eq_count_append {l : List UInt8} (h : countWidth ≤ l.length) :
    ∃ count rest, l = Layout.u32.write count ++ rest :=
  ⟨_, _, Layout.u32_exact.decode_iff.mp (Layout.decode_ok.mpr ⟨h, rfl, rfl⟩)⟩

theorem countWidth_le_length {l rest : List UInt8} {v : Vouchers}
    (h : codec.decode l = .ok (v, rest)) : countWidth ≤ l.length := by
  by_contra hshort
  have hcount := Layout.decode_short (show l.length < Layout.u32.width from Nat.not_le.mp hshort)
  change (Layout.u32.decode l >>= _) = _ at h
  rw [hcount] at h
  cases h

/-- A batch is read behind a number that is small enough and that the bytes have room for. -/
theorem decode_append_ok {count : UInt32} {l rest : List UInt8} {v : Vouchers} :
    codec.decode (Layout.u32.write count ++ l) = .ok (v, rest) ↔
      (count.toNat ≤ maxVouchers ∧ count.toNat * Voucher.layout.width ≤ l.length) ∧
        ⟨Voucher.layout.readMany count.toNat l⟩ = v ∧
        l.drop (count.toNat * Voucher.layout.width) = rest := by
  have hdecode : codec.decode (Layout.u32.write count ++ l) =
      if maxVouchers < count.toNat then .error .invalidLength
      else if l.length < count.toNat * Voucher.layout.width then .error .invalidLength
      else .ok (⟨Voucher.layout.readMany count.toNat l⟩,
        l.drop (count.toNat * Voucher.layout.width)) := by
    show (Layout.u32.decode (Layout.u32.write count ++ l) >>= _) = _
    rw [Layout.u32_exact.decode_append]
    rfl
  rw [hdecode]
  split
  · next hmany => exact ⟨nofun, fun hl => absurd hl.1.1 (Nat.not_le.mpr hmany)⟩
  · next hfew =>
    split
    · next hshort => exact ⟨nofun, fun hl => absurd hl.1.2 (Nat.not_le.mpr hshort)⟩
    · next hwhole =>
      rw [Except.ok.injEq, Prod.mk.injEq]
      exact ⟨fun hl => ⟨⟨Nat.not_lt.mp hfew, Nat.not_lt.mp hwhole⟩, hl⟩, fun hl => hl.2⟩

theorem decode_iff {l rest : List UInt8} {v : Vouchers} :
    codec.decode l = .ok (v, rest) ↔
      v.list.length ≤ maxVouchers ∧ l = codec.encode v ++ rest := by
  constructor
  · intro h
    obtain ⟨count, l, rfl⟩ := eq_count_append (countWidth_le_length h)
    obtain ⟨⟨hfew, hwhole⟩, rfl, rfl⟩ := decode_append_ok.mp h
    have hlength := Layout.length_readMany Voucher.layout count.toNat l
    refine ⟨hlength.le.trans hfew, ?_⟩
    show littleEndian 4 count.toNat ++ l = littleEndian 4 (List.length _) ++ List.flatMap _ _ ++ _
    rw [hlength, Voucher.layout_exact.flatMap_readMany hwhole, List.append_assoc,
      List.take_append_drop]
  · rintro ⟨hfew, rfl⟩
    have hcount : (UInt32.ofNat v.list.length).toNat = v.list.length :=
      UInt32.toNat_ofNat_of_lt' (hfew.trans_lt (by decide))
    have hencode : codec.encode v ++ rest = Layout.u32.write (UInt32.ofNat v.list.length) ++
        (v.list.flatMap Voucher.layout.write ++ rest) := by
      show littleEndian 4 _ ++ _ ++ rest = littleEndian 4 (UInt32.toNat _) ++ _
      rw [hcount, List.append_assoc]
    have hlength := Voucher.layout_exact.length_flatMap v.list
    rw [hencode, decode_append_ok, hcount, ← hlength, Voucher.layout_exact.readMany,
      List.drop_left, List.length_append]
    exact ⟨⟨hfew, Nat.le_add_right ..⟩, rfl, rfl⟩

theorem accepts_iff (l : List UInt8) :
    codec.Accepts l ↔
      4 ≤ l.length ∧ countIn l ≤ maxVouchers ∧ 4 + countIn l * 227 ≤ l.length := by
  by_cases hlead : 4 ≤ l.length
  · obtain ⟨count, l, rfl⟩ := eq_count_append hlead
    have hlength : (Layout.u32.write count ++ l).length = 4 + l.length := by
      rw [List.length_append, Layout.u32_exact.length]
      rfl
    rw [countIn_append, hlength, Nat.add_le_add_iff_left]
    constructor
    · rintro ⟨v, rest, h⟩
      exact ⟨Nat.le_add_right .., (decode_append_ok.mp h).1⟩
    · intro h
      exact ⟨_, _, decode_append_ok.mpr ⟨h.2, rfl, rfl⟩⟩
  · exact ⟨fun ⟨_, _, h⟩ => absurd (countWidth_le_length h) hlead, fun h => absurd h.1 hlead⟩

end Vouchers

theorem StatusMajor.ofByte?_eq_some {b : UInt8} {major : StatusMajor} :
    ofByte? b = some major ↔ b = major.toByte := by
  constructor
  · intro h
    unfold ofByte? at h
    split_ifs at h with h0 h1 h2 h3 <;> cases h <;> assumption
  · rintro rfl
    cases major <;> rfl

namespace Status

theorem length_encode (s : Status) : (codec.encode s).length = 2 := rfl

/-- A failure is its two bytes. A success is one byte, whatever minor code was written after it. -/
theorem decode_iff {l rest : List UInt8} {s : Status} :
    codec.decode l = .ok (s, rest) ↔
      s.major ≠ .ok ∧ l = codec.encode s ++ rest ∨ s = success ∧ l = 0 :: rest := by
  constructor
  · intro h
    cases l with
    | nil => cases h
    | cons b l =>
      simp only [codec] at h
      split at h
      · cases h
      · next hb =>
        cases h
        exact .inr ⟨rfl, by rw [StatusMajor.ofByte?_eq_some.mp hb]; rfl⟩
      · next major minor l hfailed hb =>
        cases h
        exact .inl ⟨hfailed, by rw [StatusMajor.ofByte?_eq_some.mp hb]; rfl⟩
      · cases h
  · rintro (⟨hfailed, rfl⟩ | ⟨rfl, rfl⟩)
    · obtain ⟨major, minor⟩ := s
      cases major with
      | ok => exact absurd rfl hfailed
      | unspecified => rfl
      | userAbort => rfl
      | protoError => rfl
    · rfl

end Status

/-- Every kind of value on the wire fills its width, is read back from what it was written as, and
is written as what it was read from. Of a record's flags the two low bits come back, and a success
is read from one byte and written as two. Requests with a tail take all bytes there are. -/
theorem wire_round_trip :
    (∀ r : Record,
      r.format.layout.codec.Fills (fun _ => r.format.width) ∧
      (∀ v rest, r.format.layout.codec.decode (r.format.layout.codec.encode v ++ rest) =
        .ok (v, rest)) ∧
      (∀ l v rest, r.format.layout.codec.decode l = .ok (v, rest) ↔
        r.format.layout.codec.encode v ++ rest = r.format.kept l) ∧
      ∀ l, r.format.layout.codec.Accepts l ↔ r.format.width ≤ l.length) ∧
    (AddCoins.codec.Fills (fun r => 4 + r.payload.length) ∧
      (∀ l r rest, AddCoins.codec.decode l = .ok (r, rest) ↔
        l = AddCoins.codec.encode r ∧ rest = []) ∧
      ∀ l, AddCoins.codec.Accepts l ↔ 4 ≤ l.length) ∧
    (SpendShielded.codec.Fills (fun r => 350 + r.decoyBytes.length) ∧
      (∀ l r rest, SpendShielded.codec.decode l = .ok (r, rest) ↔
        l = SpendShielded.codec.encode r ∧ rest = []) ∧
      ∀ l, SpendShielded.codec.Accepts l ↔ 350 ≤ l.length) ∧
    (Vouchers.codec.Fills (fun v => 4 + v.list.length * 227) ∧
      (∀ l v rest, Vouchers.codec.decode l = .ok (v, rest) ↔
        v.list.length ≤ 16 ∧ l = Vouchers.codec.encode v ++ rest) ∧
      ∀ l, Vouchers.codec.Accepts l ↔
        4 ≤ l.length ∧ Vouchers.countIn l ≤ 16 ∧ 4 + Vouchers.countIn l * 227 ≤ l.length) ∧
    Status.codec.Fills (fun _ => 2) ∧
      ∀ l s rest, Status.codec.decode l = .ok (s, rest) ↔
        s.major ≠ .ok ∧ l = Status.codec.encode s ++ rest ∨ s = .success ∧ l = 0 :: rest := by
  refine ⟨fun r => ?_, ⟨?_, ?_, ?_⟩, ⟨?_, ?_, ?_⟩, ⟨?_, ?_, ?_⟩, ?_, ?_⟩
  · have hsound := r.format_sound
    have hlawful := hsound.lawful
    refine ⟨Codec.fills_of_length fun v => ?_, hlawful.decode_append, ?_, hsound.accepts_iff⟩
    · exact (hlawful.length v).trans hsound.layout_width
    · exact fun l v rest => hsound.decode_iff
  · exact Codec.fills_of_length AddCoins.length_encode
  · exact fun l r rest => AddCoins.decode_iff
  · exact AddCoins.accepts_iff
  · exact Codec.fills_of_length SpendShielded.length_encode
  · exact fun l r rest => SpendShielded.decode_iff
  · exact SpendShielded.accepts_iff
  · exact Codec.fills_of_length Vouchers.length_encode
  · exact fun l v rest => Vouchers.decode_iff
  · exact Vouchers.accepts_iff
  · exact Codec.fills_of_length Status.length_encode
  · exact fun l s rest => Status.decode_iff

example :
    (ImageFlags.layout.codec.decode [0xff]).map (fun p => ImageFlags.layout.codec.encode p.1) =
      .ok [3] := rfl

example : Status.codec.decode [0, 7] = .ok (.success, [7]) := rfl

end ColdWallet
