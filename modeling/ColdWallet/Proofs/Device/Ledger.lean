import Mathlib.Algebra.BigOperators.Group.List.Basic
import ColdWallet.Proofs.Curve.Fields
import ColdWallet.Proofs.Device.Run

namespace ColdWallet

namespace Ledger

variable {master : KeyNode} {policy : Policy} {b b' : Ledger}

def addEntry (b : Ledger) (master : KeyNode) (policy : Policy) :
    Entry → Except DeviceError Ledger
  | .input c => b.addInput master policy c
  | .output c => b.addOutput master c
  | .shielded s => b.addShielded master policy s

def feeCap : Nat := 2 ^ 64 - 1

theorem saturatingAdd_toNat (a b : UInt64) :
    (saturatingAdd a b).toNat = min feeCap (a.toNat + b.toNat) := by
  unfold saturatingAdd feeCap
  split
  · next h =>
    rw [UInt64.toNat_add, Nat.mod_eq_of_lt h]
    have : UInt64.size = 2 ^ 64 := rfl
    omega
  · next h =>
    have : UInt64.size = 2 ^ 64 := rfl
    show 2 ^ 64 - 1 = _
    omega

def Bounded (b : Ledger) : Prop := inRange b.native = true ∧ inRange b.foreign = true

/-- One entry more on a balance. -/
structure Entered (master : KeyNode) (policy : Policy) (e : Entry) (b b' : Ledger) : Prop where
  admitted : e.Admitted policy
  blinding : b'.blinding = b.blinding + e.blinding master
  native : b'.native = b.native + e.native
  foreign : b'.foreign = b.foreign + e.foreign
  same : e.asset = 0 → b'.asset = b.asset
  joined : e.asset ≠ 0 → b'.asset = e.asset ∧ (b.asset = 0 ∨ b.asset = e.asset)
  shieldedFees : b'.shieldedFees.toNat = b.shieldedFees.toNat + e.fee.toNat
  totalFees : b'.totalFees.toNat = min feeCap (b.totalFees.toNat + e.fee.toNat)
  bounded : b.Bounded → b'.Bounded

theorem checked_ok {v w : Int} (h : checked v = .ok w) : w = v ∧ inRange v = true := by
  unfold checked at h
  split at h
  · next hrange =>
    cases h
    exact ⟨rfl, hrange⟩
  · cases h

/-- An amount added to the sum of its asset, and nothing else changed. -/
structure Moved (v : Int) (asset : UInt32) (b b' : Ledger) : Prop where
  blinding : b'.blinding = b.blinding
  native : b'.native = b.native + if asset = 0 then v else 0
  foreign : b'.foreign = b.foreign + if asset = 0 then 0 else v
  same : asset = 0 → b'.asset = b.asset
  joined : asset ≠ 0 → b'.asset = asset ∧ (b.asset = 0 ∨ b.asset = asset)
  shieldedFees : b'.shieldedFees = b.shieldedFees
  totalFees : b'.totalFees = b.totalFees
  bounded : b.Bounded → b'.Bounded

theorem addAmount_ok {v : Int} {asset : UInt32} (h : b.addAmount v asset = .ok b') :
    Moved v asset b b' := by
  unfold addAmount at h
  by_cases hasset : asset = 0
  · rw [if_pos hasset, except_bind_ok] at h
    obtain ⟨w, hw, h⟩ := h
    obtain ⟨rfl, hrange⟩ := checked_ok hw
    cases h
    refine ⟨rfl, ?_, ?_, fun _ => rfl, fun hne => absurd hasset hne, rfl, rfl, ?_⟩
    · rw [if_pos hasset]
    · rw [if_pos hasset, Int.add_zero]
    · exact fun h => ⟨hrange, h.2⟩
  · rw [if_neg hasset] at h
    by_cases hmixed : b.asset ≠ 0 ∧ b.asset ≠ asset
    · rw [if_pos hmixed] at h
      cases h
    · rw [if_neg hmixed, except_bind_ok] at h
      obtain ⟨w, hw, h⟩ := h
      obtain ⟨rfl, hrange⟩ := checked_ok hw
      cases h
      refine ⟨rfl, ?_, ?_, fun hz => absurd hz hasset, fun _ => ⟨rfl, ?_⟩, rfl, rfl,
        fun h => ⟨h.1, hrange⟩⟩
      · rw [if_neg hasset, Int.add_zero]
      · rw [if_neg hasset]
      · by_cases hz : b.asset = 0
        · exact Or.inl hz
        · exact Or.inr (by_contra fun hne => hmixed ⟨hz, hne⟩)

/-- The fee of a shielded input counted, and nothing else changed. -/
structure Charged (fee : UInt64) (b b' : Ledger) : Prop where
  blinding : b'.blinding = b.blinding
  native : b'.native = b.native + fee.toNat
  foreign : b'.foreign = b.foreign
  asset : b'.asset = b.asset
  shieldedFees : b'.shieldedFees.toNat = b.shieldedFees.toNat + fee.toNat
  totalFees : b'.totalFees.toNat = min feeCap (b.totalFees.toNat + fee.toNat)
  bounded : b.Bounded → b'.Bounded

theorem toNat_le_feeCap (v : UInt64) : v.toNat ≤ feeCap := by
  have h := v.toNat_lt
  unfold feeCap
  omega

theorem charged_zero (b : Ledger) : Charged 0 b b where
  blinding := rfl
  native := (Int.add_zero _).symm
  foreign := rfl
  asset := rfl
  shieldedFees := rfl
  totalFees := (Nat.min_eq_right (toNat_le_feeCap b.totalFees)).symm
  bounded := id

theorem addShieldedFee_ok {fee : UInt64} (h : b.addShieldedFee policy fee = .ok b') :
    fee ≤ policy.maxShieldedFee ∧ Charged fee b b' := by
  unfold addShieldedFee at h
  by_cases hzero : fee = 0
  · rw [if_pos hzero] at h
    cases h
    subst hzero
    exact ⟨UInt64.zero_le, charged_zero b⟩
  · rw [if_neg hzero] at h
    simp only [except_guard_ok] at h
    obtain ⟨hmax, hrange, h⟩ := h
    have hmoved := addAmount_ok h
    refine ⟨UInt64.not_lt.mp hmax, hmoved.blinding, hmoved.native,
      hmoved.foreign.trans (Int.add_zero _), hmoved.same rfl, ?_, ?_, hmoved.bounded⟩
    · rw [hmoved.shieldedFees, UInt64.toNat_add, Nat.mod_eq_of_lt (Nat.not_le.mp hrange)]
    · rw [hmoved.totalFees, saturatingAdd_toNat]

theorem schemeV1_le {c : CoinId} (h : c.isWeak = false) : CoinId.schemeV1 ≤ c.scheme := by
  unfold CoinId.isWeak CoinId.schemeV0 CoinId.schemeBB21 at h
  unfold CoinId.schemeV1
  generalize c.scheme = v at h ⊢
  rw [Bool.or_eq_false_iff, beq_eq_false_iff_ne, beq_eq_false_iff_ne] at h
  obtain ⟨hzero, hone⟩ := h
  rw [UInt8.le_iff_toNat_le]
  have hzero' : v.toNat ≠ 0 := fun he => hzero (UInt8.toNat_inj.mp he)
  have hone' : v.toNat ≠ 1 := fun he => hone (UInt8.toNat_inj.mp he)
  show 2 ≤ v.toNat
  omega

/-- An entry adds its amount, its fee and its blinding factor, in this order. -/
theorem entered_of_moved {e : Entry} {b₁ b₂ : Ledger} (hadmitted : e.Admitted policy)
    (hmoved : Moved e.amount e.asset b b₁) (hcharged : Charged e.fee b₁ b₂) :
    Entered master policy e b { b₂ with blinding := b₂.blinding + e.blinding master } where
  admitted := hadmitted
  blinding := by rw [hcharged.blinding, hmoved.blinding]
  native := by
    show b₂.native = _
    rw [hcharged.native, hmoved.native, Int.add_assoc]
    rfl
  foreign := by
    show b₂.foreign = _
    rw [hcharged.foreign, hmoved.foreign]
    rfl
  same h := hcharged.asset.trans (hmoved.same h)
  joined h := by
    obtain ⟨hjoined, hbefore⟩ := hmoved.joined h
    exact ⟨hcharged.asset.trans hjoined, hbefore⟩
  shieldedFees := by
    show b₂.shieldedFees.toNat = _
    rw [hcharged.shieldedFees, hmoved.shieldedFees]
  totalFees := by
    show b₂.totalFees.toNat = _
    rw [hcharged.totalFees, hmoved.totalFees]
  bounded h := hcharged.bounded (hmoved.bounded h)

theorem sub_blinding (k l : Scalar) : k - l = k + -l := by
  open scoped Fin.CommRing in exact sub_eq_add_neg k l

theorem addInput_entered {c : CoinId} (h : b.addInput master policy c = .ok b') :
    Entered master policy (.input c) b b' := by
  simp only [addInput, except_guard_ok, except_bind_ok, except_pure_ok] at h
  obtain ⟨hweak, b₁, hb₁, rfl⟩ := h
  have hadmitted : (Entry.input c).Admitted policy := by
    cases hallow : policy.allowWeakInputs with
    | true => exact Or.inr hallow
    | false => exact Or.inl (schemeV1_le (by simpa [hallow] using hweak))
  rw [sub_blinding]
  exact entered_of_moved hadmitted (addAmount_ok hb₁) (charged_zero b₁)

theorem addOutput_entered {c : CoinId} (h : b.addOutput master c = .ok b') :
    Entered master policy (.output c) b b' := by
  simp only [addOutput, except_guard_ok, except_bind_ok, except_pure_ok] at h
  obtain ⟨hchild, hweak, b₁, hb₁, rfl⟩ := h
  have hadmitted : (Entry.output c).Admitted policy :=
    ⟨by_contra hchild, schemeV1_le (Bool.eq_false_iff.mpr hweak)⟩
  exact entered_of_moved hadmitted (addAmount_ok hb₁) (charged_zero b₁)

theorem addShielded_entered {s : ShieldedInput} (h : b.addShielded master policy s = .ok b') :
    Entered master policy (.shielded s) b b' := by
  simp only [addShielded, except_bind_ok, except_pure_ok] at h
  obtain ⟨b₁, hb₁, b₂, hb₂, rfl⟩ := h
  obtain ⟨hmax, hcharged⟩ := addShieldedFee_ok hb₂
  rw [sub_blinding]
  exact entered_of_moved hmax (addAmount_ok hb₁) hcharged

theorem addEntry_entered {e : Entry} (h : b.addEntry master policy e = .ok b') :
    Entered master policy e b b' := by
  cases e with
  | input c => exact addInput_entered h
  | output c => exact addOutput_entered h
  | shielded s => exact addShielded_entered h

section Requests

variable {α : Type} {add : Ledger → α → Except DeviceError Ledger}

/-- What is added in full was read whole, and added one by one. -/
theorem addAll_ok {entries : List (Except WireError α)} (h : addAll add b entries = .ok b') :
    (readWhole entries).foldlM add b = .ok b' := by
  induction entries generalizing b with
  | nil => exact h
  | cons entry entries ih =>
    cases entry with
    | error e => cases h
    | ok v =>
      unfold addAll at h
      rw [List.foldlM_cons, except_bind_ok] at h
      obtain ⟨b₁, hb₁, h⟩ := h
      show ((v :: readWhole entries).foldlM add b) = _
      rw [List.foldlM_cons, except_bind_ok]
      exact ⟨b₁, hb₁, ih h⟩

theorem addCoins_ok {r : AddCoins} (h : b.addCoins master policy r = .ok b') :
    r.entries.foldlM (fun b e => b.addEntry master policy e) b = .ok b' := by
  simp only [addCoins, except_guard_ok, except_bind_ok] at h
  obtain ⟨_, b₁, hinputs, b₂, houtputs, hshielded⟩ := h
  unfold AddCoins.entries
  simp only [List.foldlM_append, List.foldlM_map, except_bind_ok]
  exact ⟨b₂, ⟨b₁, addAll_ok hinputs, addAll_ok houtputs⟩, addAll_ok hshielded⟩

end Requests

/-- The balance is the exact account of the coins listed on it and the fees counted on it. -/
structure Accounts (master : KeyNode) (policy : Policy) (entries : List Entry)
    (fees : List UInt64) (b : Ledger) : Prop where
  blinding : b.blinding = (entries.map (Entry.blinding master)).sum
  native : b.native = (entries.map Entry.native).sum
  foreign : b.foreign = (entries.map Entry.foreign).sum
  asset : ∀ e ∈ entries, e.asset ≠ 0 → e.asset = b.asset
  noAsset : b.asset = 0 ↔ ∀ e ∈ entries, e.asset = 0
  shieldedFees : b.shieldedFees.toNat = (entries.map fun e => e.fee.toNat).sum
  totalFees : b.totalFees.toNat =
    min feeCap ((entries.map fun e => e.fee.toNat).sum + (fees.map UInt64.toNat).sum)
  policy : ∀ e ∈ entries, e.Admitted policy
  bounded : b.Bounded

section Accounts

variable {entries : List Entry} {fees : List UInt64}

theorem accounts_empty : Accounts master policy [] [] {} where
  blinding := rfl
  native := rfl
  foreign := rfl
  asset := nofun
  noAsset := ⟨fun _ => nofun, fun _ => rfl⟩
  shieldedFees := rfl
  totalFees := rfl
  policy := nofun
  bounded := ⟨rfl, rfl⟩

theorem sum_concat {α M : Type} [AddMonoid M] (f : α → M) (l : List α) (a : α) :
    ((l ++ [a]).map f).sum = (l.map f).sum + f a := by
  rw [List.map_append, List.sum_append, List.map_singleton, List.sum_singleton]

theorem Accounts.entered {e : Entry} (h : Accounts master policy entries fees b)
    (he : Entered master policy e b b') :
    Accounts master policy (entries ++ [e]) fees b' := by
  have hmem : ∀ {x}, x ∈ entries ++ [e] → x ∈ entries ∨ x = e := fun hx => by simpa using hx
  refine ⟨?_, ?_, ?_, ?_, ?_, ?_, ?_, ?_, he.bounded h.bounded⟩
  · open scoped Fin.CommRing in
    rw [he.blinding, h.blinding]
    exact (sum_concat _ _ _).symm
  · rw [he.native, h.native, sum_concat]
  · rw [he.foreign, h.foreign, sum_concat]
  · intro x hx hne
    rcases hmem hx with hx | rfl
    · have hbefore := h.asset x hx hne
      by_cases hz : e.asset = 0
      · rw [he.same hz, hbefore]
      · obtain ⟨hjoined, hb⟩ := he.joined hz
        rcases hb with hb | hb
        · exact absurd (hbefore.trans hb) hne
        · rw [hjoined, hbefore, hb]
    · exact (he.joined hne).1.symm
  · constructor
    · intro hb x hx
      by_cases hz : e.asset = 0
      · rcases hmem hx with hx | rfl
        · exact h.noAsset.mp ((he.same hz).symm.trans hb) x hx
        · exact hz
      · exact absurd ((he.joined hz).1.symm.trans hb) hz
    · intro hall
      have hz : e.asset = 0 := hall e (by simp)
      rw [he.same hz]
      exact h.noAsset.mpr fun x hx => hall x (by simp [hx])
  · rw [he.shieldedFees, h.shieldedFees, sum_concat]
  · rw [he.totalFees, h.totalFees, sum_concat]
    omega
  · intro x hx
    rcases hmem hx with hx | rfl
    · exact h.policy x hx
    · exact he.admitted

theorem Accounts.listed {more : List Entry} (h : Accounts master policy entries fees b)
    (hadd : more.foldlM (fun b e => b.addEntry master policy e) b = .ok b') :
    Accounts master policy (entries ++ more) fees b' := by
  induction more generalizing entries b with
  | nil =>
    cases hadd
    rwa [List.append_nil]
  | cons e more ih =>
    rw [List.foldlM_cons, except_bind_ok] at hadd
    obtain ⟨b₁, hb₁, hadd⟩ := hadd
    rw [List.append_cons]
    exact ih (h.entered (addEntry_entered hb₁)) hadd

theorem Accounts.settle (h : Accounts master policy entries fees b) (fee : UInt64) :
    Accounts master policy entries (fees ++ [fee]) (b.settle fee) where
  blinding := h.blinding
  native := h.native
  foreign := h.foreign
  asset := h.asset
  noAsset := h.noAsset
  shieldedFees := h.shieldedFees
  totalFees := by
    show (saturatingAdd b.totalFees fee).toNat = _
    rw [saturatingAdd_toNat, h.totalFees, sum_concat]
    omega
  policy := h.policy
  bounded := h.bounded

/-- The account determines the balance, whatever the order of coins and fees. -/
theorem Accounts.unique {entries' : List Entry} {fees' : List UInt64}
    (h : Accounts master policy entries fees b) (h' : Accounts master policy entries' fees' b')
    (hentries : entries.Perm entries') (hfees : fees.Perm fees') : b = b' := by
  have hasset : b.asset = b'.asset := by
    by_cases hz : b.asset = 0
    · have hall := h.noAsset.mp hz
      rw [hz, eq_comm, h'.noAsset]
      exact fun e he => hall e (hentries.mem_iff.mpr he)
    · have hex : ∃ e ∈ entries, e.asset ≠ 0 := by
        by_contra hnone
        refine hz (h.noAsset.mpr fun e he => ?_)
        by_contra hne
        exact hnone ⟨e, he, hne⟩
      obtain ⟨e, he, hne⟩ := hex
      exact (h.asset e he hne).symm.trans (h'.asset e (hentries.mem_iff.mp he) hne)
  have hblinding : b.blinding = b'.blinding := by
    open scoped Fin.CommRing in
    rw [h.blinding, h'.blinding]
    exact (hentries.map _).sum_eq
  have hnative : b.native = b'.native := by
    rw [h.native, h'.native, (hentries.map _).sum_eq]
  have hforeign : b.foreign = b'.foreign := by
    rw [h.foreign, h'.foreign, (hentries.map _).sum_eq]
  have hshielded : b.shieldedFees = b'.shieldedFees := by
    apply UInt64.toNat_inj.mp
    rw [h.shieldedFees, h'.shieldedFees, (hentries.map _).sum_eq]
  have htotal : b.totalFees = b'.totalFees := by
    apply UInt64.toNat_inj.mp
    rw [h.totalFees, h'.totalFees, (hentries.map _).sum_eq, (hfees.map _).sum_eq]
  cases b
  cases b'
  simp only [Ledger.mk.injEq]
  exact ⟨hblinding, hnative, hforeign, hasset, hshielded, htotal⟩

end Accounts

end Ledger

theorem Tally.pass_none {t : Tally} {p : Passage} (h : p.accepted? = none) : t.pass p = t := by
  unfold Tally.pass
  rw [h]

theorem Tally.pass_other {t : Tally} {p : Passage} {r : Request} (h : p.accepted? = some r)
    (hadd : ∀ coins, r ≠ .addCoins coins) :
    t.pass p = { t with fees := t.fees ++ r.settled.toList } := by
  unfold Tally.pass
  rw [h]
  cases r with
  | addCoins coins => exact absurd rfl (hadd coins)
  | _ => rfl

namespace Device

variable {d : Device} {t : Tally}

/-- The balance that is open, if any, accounts for what was listed and counted. -/
def Kept (d : Device) (s : State) (t : Tally) : Prop :=
  ∀ b, s.session = some b → Ledger.Accounts d.master d.policy t.entries t.fees b

theorem kept_none {s : State} (h : s.session = none) : Kept d s t := by
  intro b hb
  rw [h] at hb
  cases hb

theorem kept_settled {s u : State} {b : Ledger} (h : Kept d s t) (hb : s.session = some b)
    {fee : UInt64} (hu : u.session = some (b.settle fee)) :
    Kept d u { t with fees := t.fees ++ [fee] } := by
  intro b' hb'
  rw [hu] at hb'
  cases hb'
  exact (h b hb).settle fee

/-- What an accepted listing of coins opens or continues accounts for the new tally. -/
theorem opening_accounts {s : State} {r : AddCoins} {p : Passage} (h : Kept d s t)
    (hp : p.before = s) (haccepted : p.accepted? = some (.addCoins r)) {b : Ledger}
    (hadd : (opening r s).addCoins d.master d.policy r = .ok b) :
    Ledger.Accounts d.master d.policy (t.pass p).entries (t.pass p).fees b := by
  have hentries := Ledger.addCoins_ok hadd
  unfold Tally.pass
  simp only [haccepted, hp]
  by_cases hnew : r.reset ≠ 0 ∨ s.session = none
  · have hopen : opening r s = {} := by
      unfold opening
      rcases hnew with hr | hs
      · rw [if_pos (by simpa using hr)]
        rfl
      · rw [hs, ite_self]
        rfl
    rw [if_pos hnew]
    rw [hopen] at hentries
    exact Ledger.accounts_empty.listed hentries
  · rw [if_neg hnew]
    rw [not_or, not_not] at hnew
    obtain ⟨hr, hs⟩ := hnew
    obtain ⟨b₀, hb₀⟩ := Option.ne_none_iff_exists'.mp hs
    have hopen : opening r s = b₀ := by
      unfold opening
      rw [hr, hb₀]
      rfl
    rw [hopen] at hentries
    exact (h b₀ hb₀).listed hentries

theorem Passes.kept {p : Passage} (hp : Passes d p) (h : Kept d p.before t) :
    Kept d p.response.state (t.pass p) := by
  cases hp with
  | reset => exact kept_none rfl
  | refused e =>
    rw [Tally.pass_none (accepted?_refused e _ _)]
    exact h
  | admitted hr heffect =>
    cases heffect with
    | added hadd =>
      intro b hb
      cases hb
      exact opening_accounts h rfl (accepted?_ok hr _ _ _) hadd
    | dropped _ => exact kept_none rfl
    | split hb _ _ =>
      rw [Tally.pass_other (accepted?_ok hr _ _ _) nofun]
      exact kept_settled h hb rfl
    | shielded hb _ _ =>
      rw [Tally.pass_other (accepted?_ok hr _ _ _) nofun]
      exact kept_settled h hb rfl
    | closed hb _ _ =>
      rw [Tally.pass_other (accepted?_ok hr _ _ _) nofun]
      exact kept_settled h hb rfl
    | @still _ y _ hadd hsettled _ =>
      cases y with
      | error e =>
        rw [Tally.pass_none (accepted?_refused e _ _)]
        exact h
      | ok reply =>
        rw [Tally.pass_other (accepted?_ok hr _ _ _) hadd, hsettled reply rfl, Option.toList_none,
          List.append_nil]
        exact h

theorem after_kept (steps : List Step) {s : State} (h : Kept d s t) :
    Kept d (d.after s steps) ((d.trace s steps).foldl Tally.pass t) := by
  induction steps generalizing s t with
  | nil => exact h
  | cons step steps ih => exact ih ((perform_passes d s step).kept h)

/-- Whatever a device is asked for and answers from the start on, the balance that is open is the
exact account of the coins listed on it and the fees counted on it. Another run on which the same
coins and fees were counted, in other requests and another order, has the same balance open. -/
theorem balance_accounts (d : Device) (slots : UInt32 → Bytes 32) (steps : List Step)
    {b : Ledger} (h : (d.after (.fresh slots) steps).session = some b) :
    Ledger.Accounts d.master d.policy (d.tally (.fresh slots) steps).entries
        (d.tally (.fresh slots) steps).fees b ∧
      ∀ slots' steps' b', (d.after (.fresh slots') steps').session = some b' →
        (d.tally (.fresh slots) steps).entries.Perm (d.tally (.fresh slots') steps').entries →
        (d.tally (.fresh slots) steps).fees.Perm (d.tally (.fresh slots') steps').fees →
        b = b' := by
  have hkept : ∀ slots steps, Kept d (d.after (.fresh slots) steps)
      (d.tally (.fresh slots) steps) := fun slots steps => after_kept steps (kept_none rfl)
  refine ⟨hkept slots steps b h, ?_⟩
  intro slots' steps' b' h' hentries hfees
  exact (hkept slots steps b h).unique (hkept slots' steps' b' h') hentries hfees

/-- An input and an output of two assets, listed together and apart. -/
theorem balance_accounts_listed :
    let d := Sample.device (.zero 32)
    let s := State.fresh fun _ => .zero 32
    ∃ b, (d.after s [Sample.listing 1 [Sample.coin 1 7 0] [Sample.coin 2 5 3]]).session = some b ∧
      b.native = -7 ∧ b.foreign = 5 ∧ b.asset = 3 ∧
      (d.after s [Sample.listing 0 [] [Sample.coin 2 5 3],
        Sample.listing 0 [Sample.coin 1 7 0] []]).session = some b := by
  intro d s
  obtain ⟨haccounts, hunique⟩ := balance_accounts d (fun _ => .zero 32)
    [Sample.listing 1 [Sample.coin 1 7 0] [Sample.coin 2 5 3]] rfl
  have hsame := hunique (fun _ => .zero 32) [Sample.listing 0 [] [Sample.coin 2 5 3],
    Sample.listing 0 [Sample.coin 1 7 0] []] _ rfl (List.Perm.swap _ _ _) (List.Perm.refl _)
  refine ⟨_, rfl, haccounts.native, haccounts.foreign, rfl, ?_⟩
  exact congrArg some hsame.symm

end Device

end ColdWallet
