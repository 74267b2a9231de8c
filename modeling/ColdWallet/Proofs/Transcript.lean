import ColdWallet.Transcript
import ColdWallet.Proofs.Curve.CompactPoint
import ColdWallet.Proofs.Numbers

namespace ColdWallet

namespace Write

variable {α : Type}

/-- Where two written values open one string, they are equal, and so is what follows them. -/
def PrefixFree (write : α → List UInt8) : Prop :=
  ∀ ⦃v w : α⦄ ⦃s t : List UInt8⦄, write v ++ s = write w ++ t → v = w ∧ s = t

theorem PrefixFree.of_width {write : α → List UInt8} {width : Nat}
    (hwidth : ∀ v, (write v).length = width) (hinjective : Function.Injective write) :
    PrefixFree write := by
  intro v w s t h
  obtain ⟨hvalue, hrest⟩ := List.append_inj h ((hwidth v).trans (hwidth w).symm)
  exact ⟨hinjective hvalue, hrest⟩

theorem PrefixFree.injective {write : α → List UInt8} (hwrite : PrefixFree write) :
    Function.Injective write := by
  intro v w h
  have hend : write v ++ [] = write w ++ [] := by rw [h]
  exact (hwrite hend).1

/-- Lists of one length are told apart from what follows them, entry by entry. -/
theorem PrefixFree.flatMap {write : α → List UInt8} (hwrite : PrefixFree write) {l m : List α}
    {s t : List UInt8} (hlength : l.length = m.length)
    (h : l.flatMap write ++ s = m.flatMap write ++ t) : l = m ∧ s = t := by
  induction l generalizing m with
  | nil =>
    obtain rfl : m = [] := List.length_eq_zero_iff.mp hlength.symm
    exact ⟨rfl, h⟩
  | cons v l ih =>
    cases m with
    | nil => cases hlength
    | cons w m =>
      simp only [List.flatMap_cons, List.append_assoc] at h
      obtain ⟨rfl, hrest⟩ := hwrite h
      obtain ⟨rfl, hst⟩ := ih (Nat.succ.inj hlength) hrest
      exact ⟨rfl, hst⟩

theorem num_prefixFree : PrefixFree num := fun _ _ _ _ h => num_append_inj h

theorem num32_prefixFree : PrefixFree num32 := by
  intro v w s t h
  obtain ⟨hvalue, hrest⟩ := num_prefixFree h
  exact ⟨UInt32.toUInt64_inj.mp hvalue, hrest⟩

theorem bytes_prefixFree (n : Nat) : PrefixFree (Vector.toList : Bytes n → List UInt8) :=
  .of_width (fun _ => Vector.length_toList) fun _ _ => Vector.toList_inj.mp

theorem scalar_prefixFree : PrefixFree scalar := by
  refine .of_width (fun k => (Vector.length_toList : k.toBytes.toList.length = 32)) fun k l h => ?_
  have hbytes : k.toBytes = l.toBytes := Vector.toList_inj.mp h
  rw [← Scalar.reduce_toBytes k, hbytes, Scalar.reduce_toBytes]

/-- A point is written with the parity byte it came with, whatever that is. -/
theorem point_prefixFree : PrefixFree point := by
  intro c d s t h
  unfold point CompactPoint.toList at h
  rw [List.append_assoc, List.append_assoc] at h
  obtain ⟨hx, hrest⟩ := bytes_prefixFree 32 h
  obtain ⟨hy, hst⟩ := List.cons.inj hrest
  cases c
  cases d
  cases hx
  cases hy
  exact ⟨rfl, hst⟩

theorem pointOption_prefixFree : PrefixFree pointOption := by
  intro c d s t h
  cases c with
  | none =>
    cases d with
    | none => exact ⟨rfl, (List.cons.inj h).2⟩
    | some d => cases (List.cons.inj h).1
  | some c =>
    cases d with
    | none => cases (List.cons.inj h).1
    | some d =>
      obtain ⟨rfl, hst⟩ := point_prefixFree (List.cons.inj h).2
      exact ⟨rfl, hst⟩

/-- A closing section that is left out for the native asset names the asset all the same. -/
theorem assetSection_inj {a b : UInt32}
    (h : (if a = 0 then [] else label "asset" ++ num32 a) =
      if b = 0 then [] else label "asset" ++ num32 b) : a = b := by
  have hsome : ∀ c : UInt32, label "asset" ++ num32 c ≠ [] := fun c =>
    List.append_ne_nil_of_left_ne_nil (by decide) _
  by_cases ha : a = 0
  · by_cases hb : b = 0
    · rw [ha, hb]
    · rw [if_pos ha, if_neg hb] at h
      exact absurd h.symm (hsome b)
  · by_cases hb : b = 0
    · rw [if_neg ha, if_pos hb] at h
      exact absurd h (hsome a)
    · rw [if_neg ha, if_neg hb] at h
      exact num32_prefixFree.injective (List.append_cancel_left h)

end Write

namespace Transcript

/-- The transcript whose hash is taken for a challenge. Each hash that is refused joins the transcript,
and if all of them are, no hash is taken. -/
@[irreducible]
def source? : (limit : ℕ) → Transcript → Option Transcript
  | 0, _ => none
  | limit + 1, t =>
    match Scalar.nonzeroOfBytes? (sha256 t) with
    | some _ => some t
    | none => source? limit (t ++ (sha256 t).toList)

/-- A challenge drawn from one transcript and one drawn from another show no collision. A hash is taken
for both, and it is the same only if it is the hash of the same transcript; or there is but one
transcript, which cannot collide with itself. -/
def CollisionFree (t t' : Transcript) : Prop :=
  t = t' ∨ ∃ u u', source? drawLimit t = some u ∧ source? drawLimit t' = some u' ∧
    (sha256 u = sha256 u' → u = u')

/-- What is hashed begins with the transcript, and its hash is the challenge. -/
theorem source?_some {limit : ℕ} {t u : Transcript} (h : source? limit t = some u) :
    ∃ refused, u = t ++ refused ∧ (drawScalar challengeHash limit t).1.toBytes = sha256 u := by
  induction limit generalizing t with
  | zero =>
    rw [source?] at h
    cases h
  | succ limit ih =>
    have hhash : challengeHash t = (sha256 t, t ++ (sha256 t).toList) := rfl
    rw [source?] at h
    rw [drawScalar, hhash]
    cases hk : Scalar.nonzeroOfBytes? (sha256 t) with
    | some k =>
      simp only [hk] at h ⊢
      obtain rfl : t = u := Option.some.inj h
      exact ⟨[], (List.append_nil t).symm, Scalar.toBytes_of_nonzeroOfBytes? hk⟩
    | none =>
      simp only [hk] at h ⊢
      obtain ⟨refused, hu, hbytes⟩ := ih h
      exact ⟨(sha256 t).toList ++ refused, by rw [hu, List.append_assoc], hbytes⟩

/-- Without a collision, one challenge is drawn from transcripts that open one string. -/
theorem CollisionFree.common {t t' : Transcript} (h : CollisionFree t t')
    (hsame : (challenge t).1 = (challenge t').1) : ∃ rest rest', t ++ rest = t' ++ rest' := by
  rcases h with rfl | ⟨u, u', hu, hu', hfree⟩
  · exact ⟨[], [], rfl⟩
  · obtain ⟨rest, hrest, hbytes⟩ := source?_some hu
    obtain ⟨rest', hrest', hbytes'⟩ := source?_some hu'
    unfold challenge at hsame
    rw [hsame, hbytes'] at hbytes
    exact ⟨rest, rest', hrest ▸ hrest' ▸ hfree hbytes.symm⟩

end Transcript

end ColdWallet
