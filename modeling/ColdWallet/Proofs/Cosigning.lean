import ColdWallet.Proofs.Signature

namespace ColdWallet

/-- The group has prime order, so that its base point generates it. -/
theorem exists_smul_curveG (P : CurvePoint) : ∃ k : Scalar, k.residue • curveG = P := by
  have hprime : Fact (Nat.card CurvePoint).Prime := ⟨CurvePoint.card_eq ▸ groupOrder_prime⟩
  have hmem : P ∈ AddSubgroup.zmultiples curveG := mem_zmultiples_of_prime_card rfl curveG_ne_zero
  obtain ⟨m, hm⟩ := hmem
  refine ⟨Scalar.residue.symm m, ?_⟩
  rw [RingEquiv.apply_symm_apply, Int.cast_smul_eq_zsmul]
  exact hm

theorem smul_curveG_injective {j k : Scalar} (h : j.residue • curveG = k.residue • curveG) :
    j = k := by
  have hzero : (j.residue - k.residue) • curveG = 0 := by rw [sub_smul, h, sub_self]
  rcases smul_eq_zero.mp hzero with hres | hG
  · exact Scalar.residue.injective (sub_eq_zero.mp hres)
  · exact absurd hG curveG_ne_zero

/-- A scalar is told by the compact form of its multiple of the base point. -/
theorem mulG_compact_injective : Function.Injective fun k => (mulG k).compact := by
  intro j k h
  have hpoint := congrArg CompactPoint.toPoint? h
  simp only [toPoint?_mulG, Option.some.injEq] at hpoint
  exact smul_curveG_injective (Point.ofCurve_injective hpoint)

/-- The key and the nonce of one of several signers. -/
structure Signer where
  key : Scalar
  nonce : Scalar

namespace Signature

def jointKey (signers : List Signer) : CompactPoint :=
  (signers.map fun s => mulG s.key).sum.compact

def jointNoncePub (signers : List Signer) : CompactPoint :=
  (signers.map fun s => mulG s.nonce).sum.compact

/-- What several signers make of the shares that each gives under the common challenge. -/
def jointSign (message : Bytes 32) (signers : List Signer) : Signature where
  noncePub := jointNoncePub signers
  response := (signers.map fun s =>
    signShare (challenge (jointNoncePub signers) message) s.key s.nonce).sum.toBytes

def signNonce (message : Bytes 32) (sk : Scalar) : Scalar :=
  NonceStream.firstScalar (label "beam-Schnorr") (sk.toBytes.toList ++ message.toList)

theorem sum_mulG (ks : List Scalar) : (ks.map mulG).sum = mulG ks.sum := by
  induction ks with
  | nil =>
    rw [mulG_eq, List.sum_nil, Scalar.residue_zero,
      zero_smul (ZMod groupOrder) curveG]
    rfl
  | cons k ks ih =>
    rw [List.map_cons, List.sum_cons, ih, List.sum_cons]
    simp only [mulG_eq, ← Point.ofCurve_add, Scalar.residue_add, add_smul]

theorem sum_signShare (e : Scalar) (signers : List Signer) :
    (signers.map fun s => signShare e s.key s.nonce).sum =
      signShare e (signers.map Signer.key).sum (signers.map Signer.nonce).sum := by
  induction signers with
  | nil =>
    apply Scalar.residue.injective
    simp [signShare]
  | cons s signers ih =>
    simp only [List.map_cons, List.sum_cons, ih, signShare_add]

theorem jointKey_eq (signers : List Signer) :
    jointKey signers = (mulG (signers.map Signer.key).sum).compact := by
  rw [jointKey, ← sum_mulG, List.map_map]
  rfl

theorem jointNoncePub_eq (signers : List Signer) :
    jointNoncePub signers = (mulG (signers.map Signer.nonce).sum).compact := by
  rw [jointNoncePub, ← sum_mulG, List.map_map]
  rfl

/-- Whatever the keys and nonces add up to, the shares add up to a response that is accepted. -/
theorem jointSign_verifies (message : Bytes 32) (signers : List Signer) :
    (jointSign message signers).verify message (jointKey signers) = true := by
  unfold jointSign
  rw [jointKey_eq, jointNoncePub_eq, sum_signShare]
  exact share_verifies message (toPoint?_mulG _) (toPoint?_mulG _)

theorem verify_eq_true_iff (s : Signature) (message : Bytes 32) (pk : CompactPoint) :
    s.verify message pk = true ↔
      ∃ K N, pk.toPoint? = some (.ofCurve K) ∧ s.noncePub.toPoint? = some (.ofCurve N) ∧
        (Scalar.reduce s.response).residue • curveG +
          (challenge s.noncePub message).residue • K + N = 0 := by
  constructor
  · intro h
    cases hpk : pk.toPoint? with
    | none => simp [verify, hpk] at h
    | some p =>
      cases hnonce : s.noncePub.toPoint? with
      | none => simp [verify, hnonce] at h
      | some q =>
        obtain ⟨K, rfl⟩ := CompactPoint.exists_ofCurve hpk
        obtain ⟨N, rfl⟩ := CompactPoint.exists_ofCurve hnonce
        exact ⟨K, N, rfl, rfl, (verify_iff hpk hnonce).mp h⟩
  · intro h
    obtain ⟨K, N, hpk, hnonce, hsum⟩ := h
    exact (verify_iff hpk hnonce).mpr hsum

/-- Between given points, one residue is accepted and no other. -/
theorem exists_unique_response {noncePub pk : CompactPoint} {K N : CurvePoint}
    (hpk : pk.toPoint? = some (.ofCurve K)) (hnonce : noncePub.toPoint? = some (.ofCurve N))
    (message : Bytes 32) :
    ∃! k : Scalar, ∀ response : Bytes 32,
      (⟨noncePub, response⟩ : Signature).verify message pk = true ↔
        Scalar.reduce response = k := by
  obtain ⟨k, hk⟩ := exists_smul_curveG (-((challenge noncePub message).residue • K + N))
  have haccepted : ∀ response : Bytes 32,
      (⟨noncePub, response⟩ : Signature).verify message pk = true ↔
        Scalar.reduce response = k := by
    intro response
    rw [verify_iff hpk hnonce, add_assoc, add_eq_zero_iff_eq_neg, ← hk]
    exact ⟨smul_curveG_injective, fun h => by rw [h]⟩
  refine ⟨k, haccepted, fun j hj => ?_⟩
  have hboth := (hj k.toBytes).symm.trans (haccepted k.toBytes)
  rw [Scalar.reduce_toBytes] at hboth
  exact (hboth.mpr rfl).symm

/-- Stated for any key and nonce, as the kernel would run the hashes of drawn ones. -/
theorem jointSign_one (message : Bytes 32) (s : Signer) :
    jointSign message [s] = ⟨(mulG s.nonce).compact,
      (signShare (challenge (mulG s.nonce).compact message) s.key s.nonce).toBytes⟩ := by
  have hsum : ∀ k : Scalar, [k].sum = k := fun k => Scalar.residue.injective (by simp)
  have hnonce : jointNoncePub [s] = (mulG s.nonce).compact := by
    rw [jointNoncePub_eq, List.map_singleton, hsum]
  rw [jointSign, hnonce, List.map_singleton, hsum]

/-- A signer alone is the one of a list of one. -/
theorem sign_eq (message : Bytes 32) (sk : Scalar) :
    sign message sk = jointSign message [⟨sk, signNonce message sk⟩] :=
  (jointSign_one message ⟨sk, signNonce message sk⟩).symm

/-- Verification, and signing by any number of signers. A signature is accepted exactly where both
points exist and response, key and nonce cancel out; between given points that is one residue; and the
shares of signers add up to it, however their keys and nonces cancel. -/
theorem verify_exact :
    (∀ (s : Signature) (message : Bytes 32) (pk : CompactPoint),
      s.verify message pk = true ↔
        ∃ K N : CurvePoint, pk.toPoint? = some (.ofCurve K) ∧
          s.noncePub.toPoint? = some (.ofCurve N) ∧
          (Scalar.reduce s.response).residue • curveG +
            (challenge s.noncePub message).residue • K + N = 0) ∧
    (∀ (message : Bytes 32) (pk noncePub : CompactPoint),
      pk.toPoint?.isSome → noncePub.toPoint?.isSome →
        ∃! k : Scalar, ∀ response : Bytes 32,
          (⟨noncePub, response⟩ : Signature).verify message pk = true ↔
            Scalar.reduce response = k) ∧
    (∀ (message : Bytes 32) (signers : List Signer),
      (jointSign message signers).verify message (jointKey signers) = true) ∧
    ∀ (message : Bytes 32) (sk : Scalar),
      sign message sk = jointSign message [⟨sk, signNonce message sk⟩] ∧
        (sign message sk).verify message (mulG sk).compact = true := by
  refine ⟨verify_eq_true_iff, ?_, jointSign_verifies, fun message sk =>
    ⟨sign_eq message sk, sign_verifies message sk⟩⟩
  intro message pk noncePub hpk hnonce
  obtain ⟨p, hp⟩ := Option.isSome_iff_exists.mp hpk
  obtain ⟨q, hq⟩ := Option.isSome_iff_exists.mp hnonce
  obtain ⟨K, rfl⟩ := CompactPoint.exists_ofCurve hp
  obtain ⟨N, rfl⟩ := CompactPoint.exists_ofCurve hq
  exact exists_unique_response hp hq message

/-- One residue is accepted under the key at infinity too. -/
theorem verify_exact_infinity :
    ∃! k : Scalar, ∀ response : Bytes 32,
      (⟨Point.base.compact, response⟩ : Signature).verify (.zero 32) Point.infinity.compact = true ↔
        Scalar.reduce response = k := by
  have hbase : Point.base.compact.toPoint?.isSome := by
    rw [Point.toPoint?_compact Point.base_onCurve]
    rfl
  exact verify_exact.2.1 (.zero 32) Point.infinity.compact Point.base.compact rfl hbase

end Signature

end ColdWallet
