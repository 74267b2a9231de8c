import ColdWallet.Keys.Address
import ColdWallet.Keys.Coin
import ColdWallet.Proofs.Signature
import ColdWallet.Proofs.Transcript

namespace ColdWallet

namespace CoinId

/-- The coin as its key is made: one of the variant scheme is taken for one of the first. -/
def rewritten (c : CoinId) : CoinId :=
  if c.scheme = schemeBB21 then { c with subIndex := c.subkey ||| schemeV0.toUInt32 <<< subkeyBits } else c

section Scheme

variable (c : CoinId)

theorem scheme_toNat : c.scheme.toNat = c.subIndex.toNat / 2 ^ 24 := by
  have hbound := c.subIndex.toNat_lt
  have hshift : (c.subIndex >>> subkeyBits).toNat = c.subIndex.toNat / 2 ^ 24 := by
    rw [UInt32.toNat_shiftRight, Nat.shiftRight_eq_div_pow]
    rfl
  rw [scheme, UInt32.toNat_toUInt8, hshift]
  omega

theorem subkey_toNat : c.subkey.toNat = c.subIndex.toNat % 2 ^ 24 := by
  rw [subkey, UInt32.toNat_and]
  exact Nat.and_two_pow_sub_one_eq_mod _ 24

theorem isWeak_iff : c.isWeak = true ↔ c.scheme = schemeV0 ∨ c.scheme = schemeBB21 := by
  simp [isWeak]

@[simp] theorem rewritten_index : c.rewritten.index = c.index := by
  unfold rewritten
  split_ifs <;> rfl

@[simp] theorem rewritten_kind : c.rewritten.kind = c.kind := by
  unfold rewritten
  split_ifs <;> rfl

@[simp] theorem rewritten_amount : c.rewritten.amount = c.amount := by
  unfold rewritten
  split_ifs <;> rfl

@[simp] theorem rewritten_asset : c.rewritten.asset = c.asset := by
  unfold rewritten
  split_ifs <;> rfl

/-- A weak coin keeps its subkey alone, so its scheme is the first. -/
theorem rewritten_subIndex {c : CoinId} (h : c.isWeak = true) :
    c.rewritten.subIndex = c.subkey := by
  unfold rewritten
  split_ifs with hvariant
  · exact UInt32.or_zero
  · have hfirst : c.scheme = schemeV0 := (c.isWeak_iff.mp h).resolve_right hvariant
    have hscheme := c.scheme_toNat
    rw [hfirst, show schemeV0.toNat = 0 from rfl] at hscheme
    apply UInt32.toNat_inj.mp
    rw [subkey_toNat]
    omega

theorem rewritten_eq {c : CoinId} (h : c.isWeak = false) : c.rewritten = c := by
  have hscheme : c.scheme ≠ schemeBB21 := by
    intro hvariant
    rw [c.isWeak_iff.mpr (Or.inr hvariant)] at h
    cases h
  rw [rewritten, if_neg hscheme]

/-- A key binds amount and asset just where the coin is not weak. -/
theorem schemeV1_le_rewritten : schemeV1 ≤ c.rewritten.scheme ↔ c.isWeak = false := by
  rw [UInt8.le_iff_toNat_le, show schemeV1.toNat = 2 from rfl]
  cases h : c.isWeak with
  | true =>
    have hsubkey := c.subkey_toNat
    have hscheme := c.rewritten.scheme_toNat
    rw [rewritten_subIndex h] at hscheme
    exact iff_of_false (by omega) nofun
  | false =>
    have hstrong : ¬(c.scheme = schemeV0 ∨ c.scheme = schemeBB21) := by
      rw [← isWeak_iff, h]
      exact Bool.false_ne_true
    rw [← UInt8.toNat_inj, ← UInt8.toNat_inj, show schemeV0.toNat = 0 from rfl,
      show schemeBB21.toNat = 1 from rfl] at hstrong
    rw [rewritten_eq h]
    exact iff_of_true (by omega) rfl

end Scheme

section Preimage

variable {c c' : CoinId}

theorem keyPreimage_of_weak (h : c.isWeak = true) :
    c.keyPreimage = label "kid" ++ Write.num c.index ++ Write.num32 c.kind ++
      Write.num32 c.rewritten.subIndex := by
  rw [keyPreimage, if_pos h, rewritten_subIndex h]

theorem keyPreimage_of_strong (h : c.isWeak = false) :
    c.keyPreimage = label "kidv-1" ++ Write.num c.index ++ Write.num32 c.kind ++
      Write.num32 c.rewritten.subIndex ++ Write.num c.amount ++
        if c.asset = 0 then [] else label "asset" ++ Write.num32 c.asset := by
  rw [keyPreimage, if_neg (Bool.not_eq_true _ ▸ h), rewritten_eq h]

/-- The two labels part where the shorter one ends. -/
theorem label_kid_ne (s t : List UInt8) : label "kid" ++ s ≠ label "kidv-1" ++ t := by
  intro h
  have hfourth : some (0 : UInt8) = some 0x76 := congrArg (fun l : List UInt8 => l[3]?) h
  exact absurd hfourth (by decide)

theorem isWeak_of_keyPreimage_eq (h : c.keyPreimage = c'.keyPreimage) : c.isWeak = c'.isWeak := by
  cases hw : c.isWeak with
  | true =>
    cases hw' : c'.isWeak with
    | true => rfl
    | false =>
      rw [keyPreimage_of_weak hw, keyPreimage_of_strong hw'] at h
      simp only [List.append_assoc] at h
      exact absurd h (label_kid_ne _ _)
  | false =>
    cases hw' : c'.isWeak with
    | true =>
      rw [keyPreimage_of_strong hw, keyPreimage_of_weak hw'] at h
      simp only [List.append_assoc] at h
      exact absurd h.symm (label_kid_ne _ _)
    | false => rfl

/-- Coins share the bytes of their keys just where they agree in all that their scheme binds. -/
theorem keyPreimage_eq_iff : c.keyPreimage = c'.keyPreimage ↔
    c.rewritten.index = c'.rewritten.index ∧ c.rewritten.kind = c'.rewritten.kind ∧
      c.rewritten.subIndex = c'.rewritten.subIndex ∧
      (schemeV1 ≤ c.rewritten.scheme → c.rewritten.amount = c'.rewritten.amount ∧
        c.rewritten.asset = c'.rewritten.asset) := by
  simp only [rewritten_index, rewritten_kind, rewritten_amount, rewritten_asset,
    schemeV1_le_rewritten]
  constructor
  · intro h
    have hscheme := isWeak_of_keyPreimage_eq h
    cases hw : c.isWeak with
    | true =>
      rw [keyPreimage_of_weak hw, keyPreimage_of_weak (hscheme ▸ hw)] at h
      simp only [List.append_assoc] at h
      obtain ⟨hindex, h⟩ := Write.num_prefixFree (List.append_cancel_left h)
      obtain ⟨hkind, h⟩ := Write.num32_prefixFree h
      exact ⟨hindex, hkind, Write.num32_prefixFree.injective h, nofun⟩
    | false =>
      rw [keyPreimage_of_strong hw, keyPreimage_of_strong (hscheme ▸ hw)] at h
      simp only [List.append_assoc] at h
      obtain ⟨hindex, h⟩ := Write.num_prefixFree (List.append_cancel_left h)
      obtain ⟨hkind, h⟩ := Write.num32_prefixFree h
      obtain ⟨hsubIndex, h⟩ := Write.num32_prefixFree h
      obtain ⟨hamount, h⟩ := Write.num_prefixFree h
      exact ⟨hindex, hkind, hsubIndex, fun _ => ⟨hamount, Write.assetSection_inj h⟩⟩
  · rintro ⟨hindex, hkind, hsubIndex, hbound⟩
    have hscheme : schemeV1 ≤ c.rewritten.scheme ↔ schemeV1 ≤ c'.rewritten.scheme := by
      rw [scheme, scheme, hsubIndex]
    rw [schemeV1_le_rewritten, schemeV1_le_rewritten] at hscheme
    cases hw : c.isWeak with
    | true =>
      have hw' : c'.isWeak = true := by
        rwa [← Bool.not_eq_false, ← hscheme, Bool.not_eq_false]
      rw [keyPreimage_of_weak hw, keyPreimage_of_weak hw', hindex, hkind, hsubIndex]
    | false =>
      obtain ⟨hamount, hasset⟩ := hbound hw
      rw [keyPreimage_of_strong hw, keyPreimage_of_strong (hscheme.mp hw), hindex, hkind,
        hsubIndex, hamount, hasset]

def plain (number : UInt64) (kind : UInt32) : CoinId := ⟨number, kind, 0, 0, 0⟩

theorem plain_isWeak (number : UInt64) (kind : UInt32) : (plain number kind).isWeak = true := by
  rw [isWeak_iff]
  exact Or.inl (show ((0 : UInt32) >>> subkeyBits).toUInt8 = schemeV0 by decide)

theorem plain_subIndex (number : UInt64) (kind : UInt32) :
    (plain number kind).rewritten.subIndex = 0 := by
  rw [rewritten_subIndex (plain_isWeak number kind)]
  exact UInt32.zero_and

/-- Keys that are no coin's write what a plain coin does. -/
theorem plain_keyPreimage (number : UInt64) (kind : UInt32) :
    (plain number kind).keyPreimage =
      label "kid" ++ Write.num number ++ Write.num32 kind ++ Write.num 0 := by
  rw [keyPreimage_of_weak (plain_isWeak number kind), plain_subIndex]
  rfl

/-- A coin has the bytes of a plain one just where it is weak and has no subkey. -/
theorem keyPreimage_eq_plain_iff {number : UInt64} {kind : UInt32} :
    c.keyPreimage = (plain number kind).keyPreimage ↔
      (c.scheme = schemeV0 ∨ c.scheme = schemeBB21) ∧ c.subkey = 0 ∧ c.index = number ∧
        c.kind = kind := by
  rw [keyPreimage_eq_iff, ← isWeak_iff, schemeV1_le_rewritten, plain_subIndex]
  simp only [rewritten_index, rewritten_kind]
  cases hw : c.isWeak with
  | true =>
    rw [rewritten_subIndex hw]
    constructor
    · rintro ⟨hindex, hkind, hsubkey, -⟩
      exact ⟨rfl, hsubkey, hindex, hkind⟩
    · rintro ⟨-, hsubkey, hindex, hkind⟩
      exact ⟨hindex, hkind, hsubkey, nofun⟩
  | false =>
    rw [rewritten_eq hw]
    constructor
    · rintro ⟨-, -, hsubIndex, -⟩
      -- The scheme is part of the index: where that is zero, it is the first.
      have hscheme : c.scheme = schemeV0 := by
        rw [scheme, hsubIndex]
        rfl
      rw [c.isWeak_iff.mpr (Or.inl hscheme)] at hw
      cases hw
    · rintro ⟨hweak, -⟩
      cases hweak

end Preimage

section Opening

variable (c : CoinId) (master : KeyNode)

theorem hasChild_iff : c.hasChild = true ↔ c.subkey ≠ 0 ∧ c.scheme ≠ schemeBB21 := by
  simp [hasChild]

theorem rawKey_eq : c.rawKey master =
    (if c.subkey ≠ 0 ∧ c.scheme ≠ schemeBB21 then master.child c.subkey else master).key
      (sha256 c.keyPreimage) := by
  unfold rawKey keyHash
  simp only [hasChild_iff]

/-- The shift is drawn from what the key alone would commit to on either generator. -/
theorem blinding_eq : c.blinding master = c.rawKey master +
    switchShift (.ofCurve ((c.rawKey master).residue • curveG +
        (c.amount.toNat : ℤ) • curveAsset c.asset))
      (.ofCurve ((c.rawKey master).residue • curveJ)) := by
  rw [← commit_eq, ← mulJ_eq]
  rfl

/-- The switch shifts the blinding factor, and the commitment along with it. -/
theorem blindingCommitment_eq :
    c.blindingCommitment master = (c.blinding master,
      (Point.ofCurve ((c.blinding master).residue • curveG +
        (c.amount.toNat : ℤ) • curveAsset c.asset)).compact) := by
  obtain ⟨sk, shift, hswitch⟩ : ∃ sk shift, c.switch master =
      (sk + shift, shift, commit sk c.amount (assetGenerator c.asset)) := ⟨_, _, rfl⟩
  unfold blindingCommitment blinding
  simp only [hswitch]
  rw [commit_eq, mulG_eq, ← Point.ofCurve_add, Scalar.residue_add]
  congr 3
  module

theorem blindingCommitment_fst : (c.blindingCommitment master).1 = c.blinding master := by
  rw [blindingCommitment_eq]

theorem commitment_eq :
    (c.blindingCommitment master).2.toPoint? =
      some (.ofCurve ((c.blinding master).residue • curveG +
        (c.amount.toNat : ℤ) • curveAsset c.asset)) := by
  rw [blindingCommitment_eq, CompactPoint.toPoint?_ofCurve]

end Opening

/-- A commitment opens to the blinding factor that is returned with it, and to the amount on the
generator of the asset; that factor is the key under the hash of the coin's bytes, shifted by the
switch. Addresses and child nodes are made from keys in the same way, each from bytes of its own. Two
coins have the same bytes only if they agree in all that their scheme binds, and a coin has those of
an address or a child node only if it is weak, has no subkey, and takes number and tag for its index
and kind. -/
theorem opens_and_binds :
    (∀ (c : CoinId) (master : KeyNode), ∃ A : CurvePoint,
      Point.ofCurve A = (if c.asset = 0 then Generator.H else (assetPoint c.asset).2) ∧
      c.blindingCommitment master = (c.blinding master,
        (Point.ofCurve ((c.blinding master).residue • curveG + c.amount.toNat • A)).compact) ∧
      c.blinding master = c.rawKey master +
        switchShift (.ofCurve ((c.rawKey master).residue • curveG + c.amount.toNat • A))
          (.ofCurve ((c.rawKey master).residue • curveJ))) ∧
    (∀ (k : KeyNode) (hash : Bytes 32), k.key hash =
      (NonceStream.ofMaterial (label "beam-Key") (k.secret.toList ++ hash.toList)).nextScalar.1 *
        k.cofactor) ∧
    (∀ (c : CoinId) (master : KeyNode), c.rawKey master =
      (if c.subkey ≠ 0 ∧ c.scheme ≠ schemeBB21 then master.child c.subkey else master).key
        (sha256 c.keyPreimage)) ∧
    (∀ (master : KeyNode) (number : UInt64),
      master.address number = evenKey (master.key (sha256 (addressPreimage number)))) ∧
    (∀ (k : KeyNode) (i : UInt32),
      k.child i = .ofSeed (k.key (sha256 (KeyNode.childPreimage i))).toBytes) ∧
    (∀ c c' : CoinId, c.keyPreimage = c'.keyPreimage ↔
      c.rewritten.index = c'.rewritten.index ∧ c.rewritten.kind = c'.rewritten.kind ∧
        c.rewritten.subIndex = c'.rewritten.subIndex ∧
        (schemeV1 ≤ c.rewritten.scheme → c.rewritten.amount = c'.rewritten.amount ∧
          c.rewritten.asset = c'.rewritten.asset)) ∧
    (∀ (c : CoinId) (number : UInt64), c.keyPreimage = addressPreimage number ↔
      (c.scheme = schemeV0 ∨ c.scheme = schemeBB21) ∧ c.subkey = 0 ∧ c.index = number ∧
        c.kind = addressTag) ∧
    (∀ (c : CoinId) (i : UInt32), c.keyPreimage = KeyNode.childPreimage i ↔
      (c.scheme = schemeV0 ∨ c.scheme = schemeBB21) ∧ c.subkey = 0 ∧ c.index = i.toUInt64 ∧
        c.kind = KeyNode.childTag) := by
  refine ⟨fun c master => ⟨curveAsset c.asset, ofCurve_curveAsset c.asset, ?_, ?_⟩,
    KeyNode.key_eq, rawKey_eq, fun _ _ => rfl, fun _ _ => rfl, fun _ _ => keyPreimage_eq_iff,
    fun c number => ?_, fun c i => ?_⟩
  · rw [blindingCommitment_eq, natCast_zsmul]
  · rw [← natCast_zsmul]
    exact c.blinding_eq master
  · rw [addressPreimage, ← plain_keyPreimage]
    exact keyPreimage_eq_plain_iff
  · rw [KeyNode.childPreimage, Write.num32, ← plain_keyPreimage]
    exact keyPreimage_eq_plain_iff

/-- Two weak coins that differ in scheme, amount and asset have the key of one address; later coins
that differ in the asset alone have bytes of their own. -/
theorem opens_and_binds_schemes :
    let master := KeyNode.ofSeed (.zero 32)
    keyPreimage ⟨7, addressTag, 0x01000000, 5, 9⟩ = addressPreimage 7 ∧
      keyPreimage ⟨7, addressTag, 0x01000000, 5, 9⟩ = keyPreimage ⟨7, addressTag, 0, 6, 0⟩ ∧
      evenKey (rawKey ⟨7, addressTag, 0x01000000, 5, 9⟩ master) = master.address 7 ∧
      keyPreimage ⟨7, addressTag, 0x02000000, 5, 9⟩ ≠
        keyPreimage ⟨7, addressTag, 0x02000000, 5, 8⟩ := by
  intro master
  obtain ⟨-, -, hraw, hmade, -, hcoins, haddress, -⟩ := opens_and_binds
  have hsame := (haddress ⟨7, addressTag, 0x01000000, 5, 9⟩ 7).mpr (by decide)
  refine ⟨hsame, (hcoins _ _).mpr (by decide), ?_, fun h => ?_⟩
  · rw [hraw, hmade, hsame, if_neg (by decide)]
  · have hasset := ((hcoins _ _).mp h).2.2.2 (by decide)
    exact absurd hasset (by decide)

end CoinId

end ColdWallet
