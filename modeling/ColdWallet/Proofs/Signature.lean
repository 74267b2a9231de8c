import ColdWallet.Keys.Address
import ColdWallet.Signature
import ColdWallet.Proofs.Curve.CompactPoint

namespace ColdWallet

theorem curveG_ne_zero : curveG ≠ 0 := by
  intro h
  have hbase := Point.ofCurve_toCurve Point.base_onCurve
  rw [show Point.base.toCurve = 0 from h] at hbase
  cases hbase

theorem mulG_eq_infinity {k : Scalar} (h : mulG k = .infinity) : k = 0 := by
  rw [mulG_eq] at h
  have hzero := Point.ofCurve_injective (h.trans Point.ofCurve_zero.symm)
  rcases smul_eq_zero.mp hzero with hk | hG
  · simpa using hk
  · exact absurd hG curveG_ne_zero

theorem mulG_neg (k : Scalar) : mulG (-k) = -mulG k := by
  rw [mulG_eq, mulG_eq, Scalar.residue_neg, neg_smul, Point.ofCurve_neg]

theorem toPoint?_mulG (k : Scalar) :
    (mulG k).compact.toPoint? = some (.ofCurve (k.residue • curveG)) := by
  rw [mulG_eq, CompactPoint.toPoint?_ofCurve]

/-- Shares of several signers add up, under the sums of their keys and of their nonces. -/
theorem signShare_add (e : Scalar) (k l m n : Scalar) :
    signShare e (k + l) (m + n) = signShare e k m + signShare e l n := by
  apply Scalar.residue.injective
  simp [signShare]
  ring

namespace Signature

/-- A signature verifies where the response, the key and the nonce cancel out. -/
theorem verify_iff {s : Signature} {message : Bytes 32} {pk : CompactPoint} {K N : CurvePoint}
    (hpk : pk.toPoint? = some (.ofCurve K)) (hnonce : s.noncePub.toPoint? = some (.ofCurve N)) :
    s.verify message pk = true ↔
      (Scalar.reduce s.response).residue • curveG +
        (challenge s.noncePub message).residue • K + N = 0 := by
  have hsum : (if Point.ofCurve K = .infinity then mulG (Scalar.reduce s.response)
        else mulGPlus (Scalar.reduce s.response) (challenge s.noncePub message) (.ofCurve K)) =
      .ofCurve ((Scalar.reduce s.response).residue • curveG +
        (challenge s.noncePub message).residue • K) := by
    by_cases hinf : Point.ofCurve K = .infinity
    · rw [if_pos hinf, Point.ofCurve_injective (hinf.trans Point.ofCurve_zero.symm), smul_zero,
        add_zero, mulG_eq]
    · rw [if_neg hinf, mulGPlus_eq _ _ (Point.onCurve_ofCurve K), Point.toCurve_ofCurve]
  unfold verify
  simp only [hpk, hnonce, hsum, ← Point.ofCurve_add]
  rw [decide_eq_true_iff]
  exact ⟨fun h => Point.ofCurve_injective h, fun h => congrArg Point.ofCurve h⟩

/-- A share given under its own challenge verifies under the key and the nonce that it is made of. -/
theorem share_verifies {sk nonce : Scalar} {noncePub pk : CompactPoint} (message : Bytes 32)
    (hpk : pk.toPoint? = some (.ofCurve (sk.residue • curveG)))
    (hnonce : noncePub.toPoint? = some (.ofCurve (nonce.residue • curveG))) :
    (⟨noncePub, (signShare (challenge noncePub message) sk nonce).toBytes⟩ : Signature).verify
      message pk = true := by
  rw [verify_iff hpk hnonce, Scalar.reduce_toBytes]
  simp only [signShare, Scalar.residue_neg, Scalar.residue_add, Scalar.residue_mul]
  module

theorem sign_verifies (message : Bytes 32) (sk : Scalar) :
    (sign message sk).verify message (mulG sk).compact = true :=
  share_verifies message (toPoint?_mulG sk) (toPoint?_mulG _)

end Signature

theorem Point.compact_even {p : Point} (h : p.compact.y ≠ 1) : p.compact = ⟨p.compact.x, 0⟩ := by
  cases p with
  | infinity => rfl
  | affine x y =>
    rw [compact_affine] at h ⊢
    by_cases hy : y.isOdd = true
    · exact absurd (if_pos hy) h
    · rw [if_neg hy]

theorem Point.compact_neg_affine {x y : Fp} (h : (affine x y).OnCurve) :
    (-affine x y).compact = ⟨x.toBytes, if y.isOdd then 0 else 1⟩ := by
  have hneg : -affine x y = affine x (-y) := rfl
  rw [hneg, compact_affine, Fp.isOdd_neg (coordinates_ne_zero h).2]
  cases y.isOdd with
  | false => rfl
  | true => rfl

theorem Point.compact_neg {p : Point} (hp : p.OnCurve) (h : p.compact.y = 1) :
    (-p).compact = ⟨p.compact.x, 0⟩ := by
  cases p with
  | infinity => exact absurd h (by decide)
  | affine x y =>
    rw [compact_affine] at h
    by_cases hy : y.isOdd = true
    · rw [compact_neg_affine hp, if_pos hy, compact_affine]
    · rw [if_neg hy] at h
      cases h

theorem mulG_onCurve (k : Scalar) : (mulG k).OnCurve := by
  rw [mulG_eq]
  exact Point.onCurve_ofCurve _

section EvenKey

open scoped Fin.CommRing

/-- The key taken is the one given or its opposite. -/
theorem evenKey_sign (sk : Scalar) : (evenKey sk).1 = sk ∨ (evenKey sk).1 = -sk := by
  unfold evenKey
  by_cases h : (mulG sk).compact.y = 1
  · right
    simp only [if_pos h]
  · left
    simp only [if_neg h]

/-- The key taken has a public point of even ordinate, known by its abscissa. -/
theorem evenKey_compact (sk : Scalar) : (mulG (evenKey sk).1).compact = ⟨(evenKey sk).2, 0⟩ := by
  unfold evenKey
  by_cases h : (mulG sk).compact.y = 1
  · simp only [if_pos h]
    rw [mulG_neg, Point.compact_neg (mulG_onCurve sk) h]
  · simp only [if_neg h]
    exact Point.compact_even h

theorem evenKey_of_even {sk : Scalar} {x : Bytes 32} (h : (mulG sk).compact = ⟨x, 0⟩) :
    evenKey sk = (sk, x) := by
  unfold evenKey
  simp only [h]
  rfl

/-- Of two opposite keys only one has an even public point, so it is taken for both. -/
theorem evenKey_unique {sk k : Scalar} {x : Bytes 32} (hsign : k = sk ∨ k = -sk)
    (h : (mulG k).compact = ⟨x, 0⟩) : evenKey sk = (k, x) := by
  rcases hsign with rfl | rfl
  · exact evenKey_of_even h
  · have hon := mulG_onCurve sk
    cases hp : mulG sk with
    | infinity =>
      have hzero : sk = 0 := mulG_eq_infinity hp
      rw [hzero, neg_zero] at h ⊢
      exact evenKey_of_even h
    | affine a b =>
      rw [hp] at hon
      rw [mulG_neg, hp, Point.compact_neg_affine hon, CompactPoint.mk.injEq] at h
      obtain ⟨rfl, hodd⟩ := h
      have hb : b.isOdd = true := by
        by_contra hne
        rw [if_neg hne] at hodd
        cases hodd
      unfold evenKey
      simp only [hp, Point.compact_affine, if_pos hb, if_true]

/-- The sign of a key is settled once it is taken. -/
theorem evenKey_idem (sk : Scalar) : evenKey (evenKey sk).1 = evenKey sk :=
  evenKey_unique (.inl rfl) (evenKey_compact sk)

theorem evenKey_neg (sk : Scalar) : evenKey (-sk) = evenKey sk := by
  refine evenKey_unique ?_ (evenKey_compact sk)
  rw [neg_neg]
  exact (evenKey_sign sk).symm

/-- Only the zero key has the all-zero abscissa. -/
theorem evenKey_zero {sk : Scalar} (h : (evenKey sk).2 = .zero 32) : sk = 0 := by
  have hcompact := evenKey_compact sk
  rw [h] at hcompact
  have hback := toPoint?_mulG (evenKey sk).1
  rw [hcompact, ← mulG_eq] at hback
  have hkey := mulG_eq_infinity (Option.some.inj hback).symm
  rcases evenKey_sign sk with hsign | hsign
  · rw [← hsign, hkey]
  · exact neg_eq_zero.mp (hsign.symm.trans hkey)

theorem evenKey_ne_zero {sk : Scalar} (h : sk ≠ 0) : (evenKey sk).1 ≠ 0 := by
  rcases evenKey_sign sk with hsign | hsign
  · rwa [hsign]
  · rw [hsign]
    exact neg_ne_zero.mpr h

end EvenKey

/-- What the key taken signs, with whatever nonce, verifies under its abscissa. -/
theorem Signature.share_verifiesX (message : Bytes 32) (sk nonce : Scalar) :
    (⟨(mulG nonce).compact, (signShare (challenge (mulG nonce).compact message) (evenKey sk).1
      nonce).toBytes⟩ : Signature).verifyX message (evenKey sk).2 = true := by
  unfold verifyX
  rw [← evenKey_compact]
  exact share_verifies message (toPoint?_mulG _) (toPoint?_mulG nonce)

theorem Signature.sign_verifiesX (message : Bytes 32) (sk : Scalar) :
    (sign message (evenKey sk).1).verifyX message (evenKey sk).2 = true :=
  share_verifiesX message sk _

theorem drawScalar_ne_zero {σ : Type} (next : σ → Bytes 32 × σ) (limit : ℕ) (s : σ) :
    (drawScalar next limit s).1 ≠ 0 := by
  induction limit generalizing s with
  | zero =>
    rw [drawScalar]
    show (1 : Scalar) ≠ 0
    decide
  | succ limit ih =>
    rw [drawScalar]
    cases hk : Scalar.nonzeroOfBytes? (next s).1 with
    | none =>
      simp only [hk]
      exact ih _
    | some k =>
      simp only [hk]
      simpa using (Option.filter_eq_some_iff.mp hk).2

theorem NonceStream.nextScalar_ne_zero (s : NonceStream) : s.nextScalar.1 ≠ 0 := by
  unfold nextScalar
  exact drawScalar_ne_zero _ _ _

/-- Stated for the function, as the kernel would run the stream to compare its values. -/
theorem KeyNode.publicHalf_def : publicHalf = fun k hash => (k.stream hash).nextScalar.1 := rfl

theorem KeyNode.publicHalf_eq (k : KeyNode) (hash : Bytes 32) : k.publicHalf hash =
    (NonceStream.ofMaterial (label "beam-Key") (k.secret.toList ++ hash.toList)).nextScalar.1 := by
  have hstream : k.stream hash =
      .ofMaterial (label "beam-Key") (k.secret.toList ++ hash.toList) := rfl
  rw [publicHalf_def]
  beta_reduce
  rw [hstream]

/-- The first scalar of the stream over the secret and the hash, times the cofactor. -/
theorem KeyNode.key_eq (k : KeyNode) (hash : Bytes 32) : k.key hash =
    (NonceStream.ofMaterial (label "beam-Key") (k.secret.toList ++ hash.toList)).nextScalar.1 *
      k.cofactor := by
  rw [key, publicHalf_eq]

theorem KeyNode.key_ne_zero (seed hash : Bytes 32) : (ofSeed seed).key hash ≠ 0 := by
  obtain ⟨secret, cofactor, hseed, hcofactor⟩ : ∃ secret cofactor,
      ofSeed seed = ⟨secret, cofactor⟩ ∧ cofactor ≠ 0 :=
    ⟨_, _, rfl, NonceStream.nextScalar_ne_zero _⟩
  have hhalf : publicHalf ⟨secret, cofactor⟩ hash ≠ 0 := by
    rw [publicHalf_eq]
    exact NonceStream.nextScalar_ne_zero _
  rw [hseed]
  exact Scalar.mul_ne_zero hhalf hcofactor

theorem KeyNode.address_key_ne_zero (seed : Bytes 32) (number : UInt64) :
    ((ofSeed seed).address number).1 ≠ 0 :=
  evenKey_ne_zero (key_ne_zero seed _)

/-- No own address has the all-zero identity that stands for a missing peer. -/
theorem KeyNode.address_id_ne_zero (seed : Bytes 32) (number : UInt64) :
    ((ofSeed seed).address number).2 ≠ .zero 32 :=
  fun h => key_ne_zero seed _ (evenKey_zero h)

theorem KeyNode.address_ne_zero (seed : Bytes 32) (number : UInt64) :
    allZero ((ofSeed seed).address number).2.toList = false := by
  rw [Bool.eq_false_iff]
  exact fun h => address_id_ne_zero seed number ((allZero_iff _).mp h)

end ColdWallet
