import ColdWallet.Proofs.Device.Commitments

namespace ColdWallet

namespace Ledger

variable {b : Ledger} {fee v : UInt64} {a : UInt32}

theorem inRange_iff {v : Int} : inRange v = true ↔ -2 ^ 63 ≤ v ∧ v < 2 ^ 63 := by
  have hmin : Int64.minValue.toInt = -2 ^ 63 := rfl
  have hmax : Int64.maxValue.toInt = 2 ^ 63 - 1 := rfl
  simp only [inRange, hmin, hmax, Bool.and_eq_true, decide_eq_true_eq]
  omega

/-- A fee only raises a sum, which thus leaves its range at the top alone. -/
theorem inRange_add_fee (h : b.Bounded) (fee : UInt64) :
    inRange (b.native + fee.toNat) = true ↔ ¬2 ^ 63 - 1 < b.native + fee.toNat := by
  have hnative := inRange_iff.mp h.1
  rw [inRange_iff]
  omega

theorem checked_of_inRange {v : Int} (h : inRange v = true) : checked v = .ok v := if_pos h

theorem checked_overflow {v : Int} (h : ¬inRange v = true) : checked v = .error .amountOverflow :=
  if_neg h

/-- What is moved, and in which asset, once the native sum is known. -/
def moved (b : Ledger) (native : Int) : Int × UInt32 :=
  if b.foreign = 0 then (native, 0) else (b.foreign, b.asset)

theorem moved_native (h : b.foreign = 0) (native : Int) : b.moved native = (native, 0) := if_pos h

theorem moved_foreign (h : b.foreign ≠ 0) (native : Int) :
    b.moved native = (b.foreign, b.asset) := if_neg h

/-- What is moved is in range, as the sums of both assets are. -/
theorem moved_inRange (h : b.Bounded) {native : Int} (hnative : inRange native = true) :
    inRange (b.moved native).1 = true := by
  unfold moved
  split
  · exact hnative
  · exact h.2

theorem net_some (h : b.Bounded) (fee : UInt64) :
    b.net (some fee) =
      if 2 ^ 63 - 1 < b.native + fee.toNat then throw .amountOverflow
      else if b.foreign ≠ 0 ∧ b.native + fee.toNat ≠ 0 then throw .mixedAssets
      else if 0 < (b.moved (b.native + fee.toNat)).1 then throw .notSending
      else pure (UInt64.ofNat (b.moved (b.native + fee.toNat)).1.natAbs,
        (b.moved (b.native + fee.toNat)).2) := by
  have hrange := inRange_add_fee h fee
  unfold net
  by_cases htop : (2 ^ 63 - 1 : Int) < b.native + fee.toNat
  · rw [if_pos htop]
    simp only [checked_overflow fun hin => hrange.mp hin htop]
    rfl
  · rw [if_neg htop]
    simp only [checked_of_inRange (hrange.mpr htop)]
    rfl

theorem net_none (b : Ledger) :
    b.net none =
      if b.foreign ≠ 0 ∧ b.native ≠ 0 then throw .mixedAssets
      else if (b.moved b.native).1 ≤ 0 then throw .notReceiving
      else pure (UInt64.ofNat (b.moved b.native).1.natAbs, (b.moved b.native).2) := rfl

theorem ofNat_natAbs_eq {w : Int} (hmin : -2 ^ 63 ≤ w) (hmax : w < 2 ^ 63) :
    UInt64.ofNat w.natAbs = v ↔ w.natAbs = v.toNat := by
  rw [← UInt64.toNat_inj, natAbs_toNat (inRange_iff.mpr ⟨hmin, hmax⟩)]

theorem net_some_ok (h : b.Bounded) :
    b.net (some fee) = .ok (v, a) ↔
      b.foreign = 0 ∧ a = 0 ∧ b.native + fee.toNat = -v.toNat ∨
      b.foreign = -v.toNat ∧ b.foreign < 0 ∧ a = b.asset ∧ b.native + fee.toNat = 0 := by
  have hnative := inRange_iff.mp h.1
  have hforeign := inRange_iff.mp h.2
  rw [net_some h]
  simp only [except_throw_ok, except_pure_ok, Prod.mk.injEq]
  by_cases hzero : b.foreign = 0
  · rw [moved_native hzero]
    constructor
    · rintro ⟨htop, -, hsign, hv, rfl⟩
      rw [ofNat_natAbs_eq (by omega) (by omega)] at hv
      exact .inl ⟨hzero, rfl, by omega⟩
    · rintro (⟨-, rfl, hv⟩ | ⟨-, hneg, -⟩)
      · refine ⟨by omega, fun hmixed => hmixed.1 hzero, by omega, ?_, rfl⟩
        rw [ofNat_natAbs_eq (by omega) (by omega)]
        omega
      · omega
  · rw [moved_foreign hzero]
    constructor
    · rintro ⟨-, hmixed, hsign, hv, rfl⟩
      rw [ofNat_natAbs_eq hforeign.1 hforeign.2] at hv
      exact .inr ⟨by omega, by omega, rfl, by_contra fun hne => hmixed ⟨hzero, hne⟩⟩
    · rintro (⟨hz, -⟩ | ⟨hv, hneg, rfl, hsum⟩)
      · exact absurd hz hzero
      · refine ⟨by omega, fun hmixed => hmixed.2 hsum, by omega, ?_, rfl⟩
        rw [ofNat_natAbs_eq hforeign.1 hforeign.2]
        omega

theorem net_some_error (h : b.Bounded) {e : DeviceError} :
    b.net (some fee) = .error e ↔
      e = .amountOverflow ∧ 2 ^ 63 - 1 < b.native + fee.toNat ∨
      e = .mixedAssets ∧ b.native + fee.toNat ≤ 2 ^ 63 - 1 ∧
        b.foreign ≠ 0 ∧ b.native + fee.toNat ≠ 0 ∨
      e = .notSending ∧ b.native + fee.toNat ≤ 2 ^ 63 - 1 ∧
        (b.foreign = 0 ∧ 0 < b.native + fee.toNat ∨
          0 < b.foreign ∧ b.native + fee.toNat = 0) := by
  rw [net_some h]
  simp only [except_throw_error, except_pure_error, and_false, or_false, eq_comm (b := e)]
  constructor
  · rintro (⟨htop, he⟩ | ⟨htop, ⟨hmixed, he⟩ | ⟨hmixed, hsign, he⟩⟩)
    · exact .inl ⟨he, htop⟩
    · exact .inr (.inl ⟨he, Int.not_lt.mp htop, hmixed⟩)
    · refine .inr (.inr ⟨he, Int.not_lt.mp htop, ?_⟩)
      by_cases hzero : b.foreign = 0
      · rw [moved_native hzero] at hsign
        exact .inl ⟨hzero, hsign⟩
      · rw [moved_foreign hzero] at hsign
        exact .inr ⟨hsign, by_contra fun hne => hmixed ⟨hzero, hne⟩⟩
  · rintro (⟨he, htop⟩ | ⟨he, htop, hmixed⟩ | ⟨he, htop, ⟨hzero, hsign⟩ | ⟨hsign, hsum⟩⟩)
    · exact .inl ⟨htop, he⟩
    · exact .inr ⟨Int.not_lt.mpr htop, .inl ⟨hmixed, he⟩⟩
    · refine .inr ⟨Int.not_lt.mpr htop, .inr ⟨fun hmixed => hmixed.1 hzero, ?_, he⟩⟩
      rwa [moved_native hzero]
    · refine .inr ⟨Int.not_lt.mpr htop, .inr ⟨fun hmixed => hmixed.2 hsum, ?_, he⟩⟩
      rwa [moved_foreign hsign.ne']

theorem net_none_ok (h : b.Bounded) :
    b.net none = .ok (v, a) ↔
      b.foreign = 0 ∧ a = 0 ∧ b.native = v.toNat ∧ 0 < b.native ∨
      b.foreign = v.toNat ∧ 0 < b.foreign ∧ a = b.asset ∧ b.native = 0 := by
  have hnative := inRange_iff.mp h.1
  have hforeign := inRange_iff.mp h.2
  rw [net_none]
  simp only [except_throw_ok, except_pure_ok, Prod.mk.injEq]
  by_cases hzero : b.foreign = 0
  · rw [moved_native hzero]
    simp only [ofNat_natAbs_eq hnative.1 hnative.2]
    constructor
    · rintro ⟨-, hsign, hv, rfl⟩
      exact .inl ⟨hzero, rfl, by omega, by omega⟩
    · rintro (⟨-, rfl, hv, hsign⟩ | ⟨-, hsign, -⟩)
      · exact ⟨fun hmixed => hmixed.1 hzero, by omega, by omega, rfl⟩
      · omega
  · rw [moved_foreign hzero]
    simp only [ofNat_natAbs_eq hforeign.1 hforeign.2]
    constructor
    · rintro ⟨hmixed, hsign, hv, rfl⟩
      exact .inr ⟨by omega, by omega, rfl, by_contra fun hne => hmixed ⟨hzero, hne⟩⟩
    · rintro (⟨hz, -⟩ | ⟨hv, hsign, rfl, hsum⟩)
      · exact absurd hz hzero
      · exact ⟨fun hmixed => hmixed.2 hsum, by omega, by omega, rfl⟩

theorem net_none_error {e : DeviceError} :
    b.net none = .error e ↔
      e = .mixedAssets ∧ b.foreign ≠ 0 ∧ b.native ≠ 0 ∨
      e = .notReceiving ∧ (b.foreign = 0 ∧ b.native ≤ 0 ∨ b.foreign < 0 ∧ b.native = 0) := by
  rw [net_none]
  simp only [except_throw_error, except_pure_error, and_false, or_false, eq_comm (b := e)]
  constructor
  · rintro (⟨hmixed, he⟩ | ⟨hmixed, hsign, he⟩)
    · exact .inl ⟨he, hmixed⟩
    · refine .inr ⟨he, ?_⟩
      by_cases hzero : b.foreign = 0
      · rw [moved_native hzero] at hsign
        exact .inl ⟨hzero, hsign⟩
      · rw [moved_foreign hzero] at hsign
        have hsum : b.native = 0 := by_contra fun hne => hmixed ⟨hzero, hne⟩
        exact .inr ⟨lt_of_le_of_ne hsign hzero, hsum⟩
  · rintro (⟨he, hmixed⟩ | ⟨he, ⟨hzero, hsign⟩ | ⟨hsign, hsum⟩⟩)
    · exact .inl ⟨hmixed, he⟩
    · refine .inr ⟨fun hmixed => hmixed.1 hzero, ?_, he⟩
      rwa [moved_native hzero]
    · refine .inr ⟨fun hmixed => hmixed.2 hsum, ?_, he⟩
      rw [moved_foreign hsign.ne]
      exact hsign.le

/-- A coin is refused for its asset or for its sum, and for nothing else. -/
theorem addAmount_error {amount : Int} {asset : UInt32} {e : DeviceError} :
    b.addAmount amount asset = .error e ↔
      e = .amountOverflow ∧ (asset ≠ 0 ∧ b.asset ≠ 0 ∧ b.asset ≠ asset ∨
        ¬inRange ((if asset = 0 then b.native else b.foreign) + amount) = true) := by
  have hsum (w : Int) (f : Int → Ledger) : (do return f (← checked w)) = .error e ↔
      e = .amountOverflow ∧ ¬inRange w = true := by
    by_cases hw : inRange w = true
    · rw [checked_of_inRange hw]
      exact ⟨nofun, fun h => absurd hw h.2⟩
    · rw [checked_overflow hw]
      exact ⟨fun h => ⟨(Except.error.inj h).symm, hw⟩, fun h => congrArg _ h.1.symm⟩
  unfold addAmount
  by_cases hnative : asset = 0
  · rw [if_pos hnative, if_pos hnative, hsum]
    exact and_congr_right fun _ => ⟨.inr, fun h => h.resolve_left fun h => h.1 hnative⟩
  · rw [if_neg hnative, if_neg hnative]
    by_cases hconflict : b.asset ≠ 0 ∧ b.asset ≠ asset
    · rw [if_pos hconflict]
      exact ⟨fun h => ⟨(Except.error.inj h).symm, .inl ⟨hnative, hconflict⟩⟩,
        fun h => congrArg _ h.1.symm⟩
    · rw [if_neg hconflict, hsum]
      exact and_congr_right fun _ => ⟨.inr, fun h => h.resolve_left fun h => hconflict h.2⟩

section Words

/-- An amount added to a sum in a word with a sign. The word wraps below where it was if the sum
passes its top. -/
def wordAdd? (w : Int64) (v : UInt64) : Option Int64 :=
  if w + v.toInt64 < w then none else some (w + v.toInt64)

/-- An amount taken from a sum in a word, which wraps above where it was if the sum passes its
bottom. -/
def wordSub? (w : Int64) (v : UInt64) : Option Int64 :=
  if w < w - v.toInt64 then none else some (w - v.toInt64)

/-- The magnitude of a word. The lowest word is its own negation, and its magnitude as it stands. -/
def wordAbs (w : Int64) : UInt64 := (if w < 0 then -w else w).toUInt64

/-- As `moved`, over sums in words. -/
def movedWord (native foreign : Int64) (asset : UInt32) : Int64 × UInt32 :=
  if foreign = 0 then (native, 0) else (foreign, asset)

/-- As `net`, over sums in words. -/
def netOfWords (native foreign : Int64) (asset : UInt32) :
    Option UInt64 → Except DeviceError (UInt64 × UInt32)
  | some fee =>
    match wordAdd? native fee with
    | none => throw .amountOverflow
    | some native =>
      if foreign ≠ 0 ∧ native ≠ 0 then throw .mixedAssets
      else if 0 < (movedWord native foreign asset).1 then throw .notSending
      else pure (wordAbs (movedWord native foreign asset).1,
        (movedWord native foreign asset).2)
  | none =>
    if foreign ≠ 0 ∧ native ≠ 0 then throw .mixedAssets
    else if (movedWord native foreign asset).1 ≤ 0 then throw .notReceiving
    else pure ((movedWord native foreign asset).1.toUInt64, (movedWord native foreign asset).2)

variable {w : Int}

theorem toInt_ofInt (h : inRange w = true) : (Int64.ofInt w).toInt = w := by
  obtain ⟨hmin, hmax⟩ := inRange_iff.mp h
  exact Int64.toInt_ofInt_of_le hmin hmax

/-- The residue of an integer that a word holds is the integer moved by whole turns of the word. -/
theorem bmod_eq_sub_turns (x : Int) : ∃ k : Int, x.bmod (2 ^ 64) = x - 2 ^ 64 * k ∧
    -2 ^ 63 ≤ x.bmod (2 ^ 64) ∧ x.bmod (2 ^ 64) < 2 ^ 63 := by
  have hmin := Int.le_bmod (x := x) (m := 2 ^ 64) (by decide)
  have hmax := Int.bmod_lt (x := x) (m := 2 ^ 64) (by decide)
  refine ⟨Int.bdiv x (2 ^ 64), ?_, by omega, by omega⟩
  have h := Int.bmod_add_bdiv x (2 ^ 64)
  omega

theorem toInt_toInt64 (v : UInt64) : v.toInt64.toInt = (v.toNat : Int).bmod (2 ^ 64) :=
  BitVec.toInt_eq_toNat_bmod v.toBitVec

theorem wordAdd?_ofInt (h : inRange w = true) (v : UInt64) :
    (wordAdd? (.ofInt w) v).map Int64.toInt =
      if inRange (w + v.toNat) = true then some (w + v.toNat) else none := by
  have hsum : (Int64.ofInt w + v.toInt64).toInt = (w + v.toNat).bmod (2 ^ 64) := by
    rw [Int64.toInt_add, toInt_ofInt h, toInt_toInt64, Int.add_bmod_bmod]
  have hwrap : Int64.ofInt w + v.toInt64 < Int64.ofInt w ↔ (w + v.toNat).bmod (2 ^ 64) < w := by
    rw [Int64.lt_iff_toInt_lt, toInt_ofInt h, hsum]
  obtain ⟨k, hk, hmin, hmax⟩ := bmod_eq_sub_turns (w + v.toNat)
  have hw := inRange_iff.mp h
  have hv := v.toNat_lt
  unfold wordAdd?
  simp only [hwrap, inRange_iff]
  split_ifs
  · omega
  · rfl
  · rw [Option.map_some, hsum, Option.some.injEq]
    omega
  · omega

theorem wordSub?_ofInt (h : inRange w = true) (v : UInt64) :
    (wordSub? (.ofInt w) v).map Int64.toInt =
      if inRange (w - v.toNat) = true then some (w - v.toNat) else none := by
  have hdiff : (Int64.ofInt w - v.toInt64).toInt = (w - v.toNat).bmod (2 ^ 64) := by
    rw [Int64.toInt_sub, toInt_ofInt h, toInt_toInt64, Int.sub_bmod_bmod]
  have hwrap : Int64.ofInt w < Int64.ofInt w - v.toInt64 ↔ w < (w - v.toNat).bmod (2 ^ 64) := by
    rw [Int64.lt_iff_toInt_lt, toInt_ofInt h, hdiff]
  obtain ⟨k, hk, hmin, hmax⟩ := bmod_eq_sub_turns (w - v.toNat)
  have hw := inRange_iff.mp h
  have hv := v.toNat_lt
  unfold wordSub?
  simp only [hwrap, inRange_iff]
  split_ifs
  · omega
  · rfl
  · rw [Option.map_some, hdiff, Option.some.injEq]
    omega
  · omega

theorem toNat_toUInt64 (x : Int64) : (x.toUInt64.toNat : Int) = x.toInt % 2 ^ 64 := by
  have h : x.toInt = if 2 * x.toUInt64.toNat < 2 ^ 64 then (x.toUInt64.toNat : Int)
      else (x.toUInt64.toNat : Int) - 2 ^ 64 := BitVec.toInt_eq_toNat_cond x.toBitVec
  have hlt := x.toUInt64.toNat_lt
  split at h <;> omega

theorem wordAbs_ofInt (h : inRange w = true) : (wordAbs (.ofInt w)).toNat = w.natAbs := by
  have hw := inRange_iff.mp h
  have hsign : Int64.ofInt w < 0 ↔ w < 0 := by
    rw [Int64.lt_iff_toInt_lt, toInt_ofInt h]
    rfl
  unfold wordAbs
  simp only [hsign]
  split
  · have hneg := toNat_toUInt64 (-Int64.ofInt w)
    obtain ⟨k, hk, hmin, hmax⟩ := bmod_eq_sub_turns (-w)
    rw [Int64.toInt_neg, toInt_ofInt h, hk] at hneg
    omega
  · have hsame := toNat_toUInt64 (.ofInt w)
    rw [toInt_ofInt h] at hsame
    omega

theorem ofInt_eq_zero (h : inRange w = true) : Int64.ofInt w = 0 ↔ w = 0 := by
  rw [← Int64.toInt_inj, toInt_ofInt h]
  rfl

theorem zero_lt_ofInt (h : inRange w = true) : 0 < Int64.ofInt w ↔ 0 < w := by
  rw [Int64.lt_iff_toInt_lt, toInt_ofInt h]
  rfl

theorem ofInt_le_zero (h : inRange w = true) : Int64.ofInt w ≤ 0 ↔ w ≤ 0 := by
  rw [Int64.le_iff_toInt_le, toInt_ofInt h]
  rfl

theorem toUInt64_ofInt (h : inRange w = true) (hpos : 0 < w) :
    (Int64.ofInt w).toUInt64 = UInt64.ofNat w.natAbs := by
  apply UInt64.toNat_inj.mp
  have hsame := toNat_toUInt64 (.ofInt w)
  have hw := inRange_iff.mp h
  rw [toInt_ofInt h] at hsame
  rw [natAbs_toNat h]
  omega

theorem wordAbs_eq (h : inRange w = true) : wordAbs (.ofInt w) = UInt64.ofNat w.natAbs := by
  apply UInt64.toNat_inj.mp
  rw [wordAbs_ofInt h, natAbs_toNat h]

theorem movedWord_ofInt (h : b.Bounded) (native : Int) :
    movedWord (.ofInt native) (.ofInt b.foreign) b.asset =
      (.ofInt (b.moved native).1, (b.moved native).2) := by
  unfold movedWord moved
  simp only [ofInt_eq_zero h.2]
  split <;> rfl

/-- A sum in a word is the one over the integers, as long as that is in range. -/
theorem wordAdd?_eq (h : inRange w = true) (v : UInt64) :
    wordAdd? (.ofInt w) v =
      if inRange (w + v.toNat) = true then some (.ofInt (w + v.toNat)) else none := by
  have hmap := wordAdd?_ofInt h v
  by_cases hfits : inRange (w + v.toNat) = true
  · rw [if_pos hfits] at hmap ⊢
    obtain ⟨x, hx, hxv⟩ := Option.map_eq_some_iff.mp hmap
    rw [hx, ← hxv, Int64.ofInt_toInt]
  · rw [if_neg hfits] at hmap ⊢
    exact Option.map_eq_none_iff.mp hmap

/-- Words carry the same net amount, and fail for the same reasons. -/
theorem netOfWords_eq (h : b.Bounded) (fee : Option UInt64) :
    netOfWords (.ofInt b.native) (.ofInt b.foreign) b.asset fee = b.net fee := by
  cases fee with
  | none =>
    have hmoved := moved_inRange h h.1
    rw [net_none]
    simp only [netOfWords, movedWord_ofInt h, ne_eq, ofInt_eq_zero h.1, ofInt_eq_zero h.2,
      ofInt_le_zero hmoved]
    split_ifs with hmixed hsign
    · rfl
    · rfl
    · rw [toUInt64_ofInt hmoved (Int.not_le.mp hsign)]
  | some fee =>
    have hrange := inRange_add_fee h fee
    rw [net_some h, netOfWords, wordAdd?_eq h.1]
    by_cases htop : (2 ^ 63 - 1 : Int) < b.native + fee.toNat
    · rw [if_pos htop, if_neg fun hin => hrange.mp hin htop]
    · have hmoved := moved_inRange h (hrange.mpr htop)
      rw [if_neg htop, if_pos (hrange.mpr htop)]
      simp only [movedWord_ofInt h, ne_eq, ofInt_eq_zero (hrange.mpr htop), ofInt_eq_zero h.2,
        zero_lt_ofInt hmoved, wordAbs_eq hmoved]

end Words

/-- What a balance moves is the exact sum of one asset while the other is settled, and every refusal
has its own condition. A coin is refused for a second asset or for a sum out of range, and for
nothing else. Sums may be kept in words of 64 bits, whatever the fee and down to the lowest sum.
Every balance that a run opens has its sums in range and names the asset of what is not native. -/
theorem net_exact :
    (∀ (d : Device) slots steps b, (d.after (.fresh slots) steps).session = some b →
      b.Bounded ∧ (b.foreign ≠ 0 → b.asset ≠ 0)) ∧
    ∀ b : Ledger, b.Bounded →
      (∀ fee v a, b.net (some fee) = .ok (v, a) ↔
        b.foreign = 0 ∧ a = 0 ∧ b.native + fee.toNat = -v.toNat ∨
        b.foreign = -v.toNat ∧ b.foreign < 0 ∧ a = b.asset ∧ b.native + fee.toNat = 0) ∧
      (∀ v a, b.net none = .ok (v, a) ↔
        b.foreign = 0 ∧ a = 0 ∧ b.native = v.toNat ∧ 0 < b.native ∨
        b.foreign = v.toNat ∧ 0 < b.foreign ∧ a = b.asset ∧ b.native = 0) ∧
      (∀ fee e, b.net (some fee) = .error e ↔
        e = .amountOverflow ∧ 2 ^ 63 - 1 < b.native + fee.toNat ∨
        e = .mixedAssets ∧ b.native + fee.toNat ≤ 2 ^ 63 - 1 ∧
          b.foreign ≠ 0 ∧ b.native + fee.toNat ≠ 0 ∨
        e = .notSending ∧ b.native + fee.toNat ≤ 2 ^ 63 - 1 ∧
          (b.foreign = 0 ∧ 0 < b.native + fee.toNat ∨
            0 < b.foreign ∧ b.native + fee.toNat = 0)) ∧
      (∀ e, b.net none = .error e ↔
        e = .mixedAssets ∧ b.foreign ≠ 0 ∧ b.native ≠ 0 ∨
        e = .notReceiving ∧ (b.foreign = 0 ∧ b.native ≤ 0 ∨ b.foreign < 0 ∧ b.native = 0)) ∧
      (∀ amount asset e, b.addAmount amount asset = .error e ↔
        e = .amountOverflow ∧ (asset ≠ 0 ∧ b.asset ≠ 0 ∧ b.asset ≠ asset ∨
          ¬inRange ((if asset = 0 then b.native else b.foreign) + amount) = true)) ∧
      (∀ fee, netOfWords (.ofInt b.native) (.ofInt b.foreign) b.asset fee = b.net fee) ∧
      ∀ w ∈ [b.native, b.foreign], ∀ v : UInt64,
        (wordAdd? (.ofInt w) v).map Int64.toInt =
          (if inRange (w + v.toNat) = true then some (w + v.toNat) else none) ∧
        (wordSub? (.ofInt w) v).map Int64.toInt =
          (if inRange (w - v.toNat) = true then some (w - v.toNat) else none) := by
  refine ⟨?_, fun b h => ⟨fun _ _ _ => net_some_ok h, fun _ _ => net_none_ok h,
    fun _ _ => net_some_error h, fun _ => net_none_error, fun _ _ _ => addAmount_error,
    netOfWords_eq h, ?_⟩⟩
  · intro d slots steps b hb
    have hkept : Device.Kept d (.fresh slots) ⟨[], []⟩ := Device.kept_none rfl
    have haccounts := Device.after_kept steps hkept b hb
    exact ⟨haccounts.bounded, haccounts.asset_ne_zero⟩
  · intro w hw v
    have hrange : inRange w = true := by
      rcases List.mem_pair.mp hw with rfl | rfl
      · exact h.1
      · exact h.2
    exact ⟨wordAdd?_ofInt hrange v, wordSub?_ofInt hrange v⟩

/-- A native input and an output of another asset do not go together, and the lowest sum still
leaves the wallet in full. -/
theorem net_exact_extremes :
    let d := Sample.device (.zero 32)
    let steps := [Sample.listing 1 [Sample.coin 1 7 0] [Sample.coin 2 5 3]]
    let lowest : Ledger := { native := -2 ^ 63 }
    (∃ b, (d.after (.fresh fun _ => .zero 32) steps).session = some b ∧
      b.asset ≠ 0 ∧ b.net none = .error .mixedAssets ∧ b.net (some 7) = .error .notSending) ∧
    lowest.net (some 0) = .ok (0x8000000000000000, 0) ∧
      lowest.net (some 0xffffffffffffffff) = .error .notSending ∧
      netOfWords Int64.minValue 0 0 (some 0) = .ok (0x8000000000000000, 0) := by
  intro d steps lowest
  obtain ⟨hreached, hexact⟩ := net_exact
  obtain ⟨hbounded, hasset⟩ := hreached d (fun _ => .zero 32) steps _ rfl
  obtain ⟨-, -, hsend, hreceive, -⟩ := hexact _ hbounded
  obtain ⟨hmoves, -, hrefuses, -, -, hwords, -⟩ := hexact lowest ⟨rfl, rfl⟩
  have hlowest : lowest.net (some 0) = .ok (0x8000000000000000, 0) :=
    (hmoves _ _ _).mpr (.inl ⟨rfl, rfl, rfl⟩)
  refine ⟨⟨_, rfl, hasset (by decide), (hreceive _).mpr (.inl ⟨rfl, by decide, by decide⟩),
    (hsend _ _).mpr (.inr (.inr ⟨rfl, by decide, .inr ⟨by decide, rfl⟩⟩))⟩, hlowest,
    (hrefuses _ _).mpr (.inr (.inr ⟨rfl, by decide, .inl ⟨rfl, by decide⟩⟩)), ?_⟩
  exact (hwords (some 0)).trans hlowest

end Ledger

end ColdWallet
