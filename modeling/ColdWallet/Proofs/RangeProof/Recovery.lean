import Mathlib.Tactic.LinearCombination
import ColdWallet.RangeProof.Recovery
import ColdWallet.Proofs.Signature

namespace ColdWallet

theorem Transcript.challenge_ne_zero (t : Transcript) : (challenge t).1 ≠ 0 := by
  unfold challenge
  exact drawScalar_ne_zero _ _ _

namespace RangeProof

/-- Thirty-two bytes hold zeros, user bytes and an amount. -/
theorem toBytes_eq_iff {P : Scalar} {user : List UInt8} (hlength : user.length ≤ userWidth)
    (amount : UInt64) :
    P.toBytes.toList =
        List.replicate (userWidth - user.length) 0 ++ user ++ bigEndian 8 amount.toNat ↔
      P.val = ofBigEndian (user ++ bigEndian 8 amount.toNat) := by
  have hzeros : ofBigEndian (List.replicate (userWidth - user.length) 0) = 0 :=
    ofBigEndian_eq_zero.mpr (by simp [allZero])
  have hnumber : ofBigEndian (List.replicate (userWidth - user.length) 0 ++ user ++
      bigEndian 8 amount.toNat) = ofBigEndian (user ++ bigEndian 8 amount.toNat) := by
    rw [List.append_assoc, ofBigEndian_append, hzeros, Nat.zero_mul, Nat.zero_add]
  rw [← hnumber, ← Scalar.ofBigEndian_toBytes]
  constructor
  · exact congrArg ofBigEndian
  · apply ofBigEndian_inj
    rw [Vector.length_toList, List.length_append, List.length_append, List.length_replicate,
      length_bigEndian]
    unfold userWidth at hlength ⊢
    omega

theorem amount_read (P : Scalar) :
    UInt64.ofNat (ofBigEndian (P.toBytes.toList.drop userWidth)) = UInt64.ofNat P.val := by
  rw [ofBigEndian_drop, Vector.length_toList, Scalar.ofBigEndian_toBytes]
  apply UInt64.toNat_inj.mp
  rw [UInt64.toNat_ofNat', UInt64.toNat_ofNat']
  exact Nat.mod_mod _ _

/-- Zeros, user bytes and the amount make up the bytes they are read from. -/
theorem toBytes_split {P : Scalar} {padding : ℕ} (hpadding : padding ≤ userWidth)
    (hzeros : allZero (P.toBytes.toList.take padding) = true) :
    P.toBytes.toList = List.replicate padding 0 ++
      (P.toBytes.toList.take userWidth).drop padding ++
        bigEndian 8 (UInt64.ofNat P.val).toNat := by
  have hlength : P.toBytes.toList.length = 32 := Vector.length_toList
  generalize hbytes : P.toBytes.toList = bytes at hzeros hlength
  have hpad : bytes.take padding = List.replicate padding 0 := by
    apply List.eq_replicate_iff.mpr
    refine ⟨?_, fun b hb => by simpa using List.all_eq_true.mp hzeros b hb⟩
    rw [List.length_take, hlength]
    unfold userWidth at hpadding
    omega
  have hamount : bytes.drop userWidth = bigEndian 8 (UInt64.ofNat P.val).toNat := by
    have hback := bigEndian_ofBigEndian (bytes.drop userWidth)
    rw [List.length_drop, hlength] at hback
    rw [← amount_read, hbytes, UInt64.toNat_ofNat', Nat.mod_eq_of_lt]
    · exact hback.symm
    · have hlt := ofBigEndian_lt (bytes.drop userWidth)
      rwa [List.length_drop, hlength] at hlt
  have hfront : bytes.take userWidth = bytes.take padding ++ (bytes.take userWidth).drop padding := by
    conv_lhs => rw [← List.take_append_drop padding (bytes.take userWidth)]
    rw [List.take_take, Nat.min_eq_left hpadding]
  rw [← hamount, ← hpad, ← hfront, List.take_append_drop]

/-- The blinding factor stands behind `tauX`, with the nonces of its seed. -/
def Blinds (p : RangeProof) (c : Challenges) (keySeed : Bytes 32) (sk : Scalar) : Prop :=
  let tau := tauNonces keySeed
  Scalar.reduce p.tauX = tau.1 * c.x + tau.2 * (c.x * c.x) + sk * (c.z * c.z)

/-- The folded vectors are those rebuilt, with the extra scalars at their weights. -/
def Reading.Carries (r : Reading) (p : RangeProof) (amount : UInt64) (extra : Scalar × Scalar) :
    Prop :=
  ∃ rounds, (roundChallenges p r.transcript).1 = some rounds ∧
    let folded := condense r.stream amount r.challenges rounds
    Scalar.reduce p.condensed.1 =
        folded.1 + extra.1 * extraWeight r.challenges.x (rounds.map Prod.fst) ∧
      Scalar.reduce p.condensed.2 =
        folded.2 + extra.2 * extraWeight r.challenges.x (rounds.map Prod.snd)

theorem recoverBlinding?_solves (p : RangeProof) {c : Challenges} (hz : c.z ≠ 0)
    (keySeed : Bytes 32) :
    ∃ sk, recoverBlinding? p c keySeed = some sk ∧
      ∀ sk', Blinds p c keySeed sk' ↔ sk' = sk := by
  obtain ⟨sk, hsk, hunique⟩ := Scalar.exists_solution (Scalar.mul_ne_zero hz hz)
    (Scalar.reduce p.tauX) (((tauNonces keySeed).2 * c.x + (tauNonces keySeed).1) * c.x)
  refine ⟨sk, hsk, fun sk' => ?_⟩
  rw [← hunique, Blinds]
  have hsum : (tauNonces keySeed).1 * c.x + (tauNonces keySeed).2 * (c.x * c.x) =
      ((tauNonces keySeed).2 * c.x + (tauNonces keySeed).1) * c.x := by
    apply Scalar.residue.injective
    simp only [Scalar.residue_add, Scalar.residue_mul]
    ring
  simp only [hsum]

theorem extraWeight_ne_zero {x : Scalar} (hx : x ≠ 0) {es : List Scalar}
    (hes : ∀ e ∈ es, e ≠ 0) : extraWeight x es ≠ 0 := by
  unfold extraWeight
  induction es generalizing x with
  | nil => exact hx
  | cons e es ih =>
    exact ih (Scalar.mul_ne_zero hx (hes e List.mem_cons_self))
      fun e' he' => hes e' (List.mem_cons_of_mem _ he')

/-- Every challenge has an inverse, so the rounds are exposed to their end. -/
theorem exposeRounds_some (p : RangeProof) (rs : List FoldRound) (c : ℕ) (t : Transcript) :
    ∃ rounds, (exposeRounds p c rs t).1 = some rounds ∧ ∀ e ∈ rounds, e.1 * e.2 = 1 := by
  induction rs generalizing c t with
  | nil => exact ⟨[], rfl, by simp⟩
  | cons round rs ih =>
    have hchallenge := Transcript.challenge_ne_zero t
    obtain ⟨f, hf, hinv⟩ := Scalar.exists_inv? hchallenge
    rw [exposeRounds]
    generalize Transcript.challenge t = drawn at hchallenge hf hinv ⊢
    obtain ⟨rounds, hrounds, hinverse⟩ := ih (c + 1) (drawn.2 ++
      Write.pointParts round.left (p.parity (2 * c)) ++
        Write.pointParts round.right (p.parity (2 * c + 1)))
    refine ⟨(drawn.1, f) :: rounds, by simp only [hf, hrounds, Option.map_some], ?_⟩
    rw [List.forall_mem_cons]
    refine ⟨?_, hinverse⟩
    apply Scalar.residue.injective
    rw [Scalar.residue_mul, hinv, Scalar.residue_one,
      mul_inv_cancel₀ fun h => hchallenge (Scalar.residue_eq_zero.mp h)]

theorem roundChallenges_some (p : RangeProof) (t : Transcript) :
    ∃ rounds, (roundChallenges p t).1 = some rounds ∧ ∀ e ∈ rounds, e.1 * e.2 = 1 :=
  exposeRounds_some p _ 0 _

theorem recoverExtras_solves (p : RangeProof) {r : Reading} (hx : r.challenges.x ≠ 0)
    (amount : UInt64) :
    ∃ extra, (recoverExtras p r.stream amount r.challenges r.transcript).1 = some extra ∧
      ∀ extra', r.Carries p amount extra' ↔ extra' = extra := by
  obtain ⟨rounds, hrounds, hinverse⟩ := roundChallenges_some p r.transcript
  have hfst : ∀ e ∈ rounds.map Prod.fst, e ≠ 0 := by
    rw [List.forall_mem_map]
    exact fun e he => (Scalar.ne_zero_of_mul_eq_one (hinverse e he)).1
  have hsnd : ∀ e ∈ rounds.map Prod.snd, e ≠ 0 := by
    rw [List.forall_mem_map]
    exact fun e he => (Scalar.ne_zero_of_mul_eq_one (hinverse e he)).2
  obtain ⟨first, hfirst, hfirst_iff⟩ := Scalar.exists_solution (extraWeight_ne_zero hx hfst)
    (Scalar.reduce p.condensed.1) (condense r.stream amount r.challenges rounds).1
  obtain ⟨second, hsecond, hsecond_iff⟩ := Scalar.exists_solution (extraWeight_ne_zero hx hsnd)
    (Scalar.reduce p.condensed.2) (condense r.stream amount r.challenges rounds).2
  refine ⟨(first, second), ?_, fun extra' => ?_⟩
  · unfold recoverExtras
    simp only [hrounds, recoverExtra?, Option.bind_eq_bind, Option.bind_some, hfirst, hsecond]
    rfl
  · rw [Prod.ext_iff, ← hfirst_iff, ← hsecond_iff]
    constructor
    · rintro ⟨rounds', hrounds', hboth⟩
      cases hrounds.symm.trans hrounds'
      exact hboth
    · exact fun hboth => ⟨rounds, hrounds, hboth⟩

/-- What is read beside the parameters: where asked for, and then the only solutions. -/
structure Reading.Solves (r : Reading) (p : RangeProof) (keySeed : Option (Bytes 32))
    (wantExtra : Bool) (found : Recovered) : Prop where
  blinding : ∀ key, keySeed = some key → ∃ sk, found.blinding = some sk ∧
    ∀ sk', Blinds p r.challenges key sk' ↔ sk' = sk
  no_blinding : keySeed = none → found.blinding = none
  extra : wantExtra = true → ∃ extra, found.extra = some extra ∧
    ∀ extra', r.Carries p found.amount extra' ↔ extra' = extra
  no_extra : wantExtra = false → found.extra = none

theorem drawChallenges_ne_zero (t : Transcript) (commitments tau : List UInt8) :
    (drawChallenges t commitments tau).1.z ≠ 0 ∧ (drawChallenges t commitments tau).1.x ≠ 0 := by
  unfold drawChallenges
  exact ⟨Transcript.challenge_ne_zero _, Transcript.challenge_ne_zero _⟩

theorem reading_ne_zero (p : RangeProof) (t : Transcript) (seed : Bytes 32) :
    (reading p t seed).challenges.z ≠ 0 ∧ (reading p t seed).challenges.x ≠ 0 := by
  unfold reading exposePoints
  exact drawChallenges_ne_zero _ _ _

/-- Once `A` is seen to open, nothing fails. -/
theorem Reading.complete_solves {r : Reading} (hz : r.challenges.z ≠ 0)
    (hx : r.challenges.x ≠ 0) (p : RangeProof) (user : List UInt8) (amount : UInt64)
    (keySeed : Option (Bytes 32)) (wantExtra : Bool) :
    ∃ found, (r.complete p user amount keySeed wantExtra).result = some found ∧
      (r.complete p user amount keySeed wantExtra).user = user ∧ found.amount = amount ∧
      r.Solves p keySeed wantExtra found := by
  obtain ⟨extra, hextra, hcarries⟩ := recoverExtras_solves p hx amount
  unfold complete
  cases keySeed with
  | none =>
    cases wantExtra with
    | false => exact ⟨_, rfl, rfl, rfl, by simp, by simp, by simp, by simp⟩
    | true =>
      simp only [Option.map_none, hextra]
      exact ⟨_, rfl, rfl, rfl, by simp, by simp, fun _ => ⟨extra, rfl, hcarries⟩, by simp⟩
  | some key =>
    obtain ⟨sk, hsk, hblinds⟩ := recoverBlinding?_solves p hz key
    have hblinding : ∀ key', some key = some key' → ∃ sk', some sk = some sk' ∧
        ∀ sk'', Blinds p r.challenges key' sk'' ↔ sk'' = sk' := by
      rintro key' h
      cases h
      exact ⟨sk, rfl, hblinds⟩
    cases wantExtra with
    | false =>
      simp only [Option.map_some, hsk]
      exact ⟨_, rfl, rfl, rfl, hblinding, by simp, by simp, by simp⟩
    | true =>
      simp only [Option.map_some, hsk, hextra]
      exact ⟨_, rfl, rfl, rfl, hblinding, by simp, fun _ => ⟨extra, rfl, hcarries⟩, by simp⟩

/-- `A` opens to the parameters under a canonical response, and these are padded with zeros. -/
structure Reading.Opens (r : Reading) (p : RangeProof) (padding : ℕ) : Prop where
  canonical : ofBigEndian p.mu.toList < groupOrder
  padded : allZero ((r.params (Scalar.reduce p.mu)).toBytes.toList.take padding) = true
  opened : (aPoint (r.alphaBase + r.params (Scalar.reduce p.mu))
    (UInt64.ofNat (r.params (Scalar.reduce p.mu)).val)).compact = ⟨p.a, p.parity bitA⟩

def userBytes (params : Scalar) (padding : ℕ) : List UInt8 :=
  (params.toBytes.toList.take userWidth).drop padding

section recover
variable (p : RangeProof) (t : Transcript) (seed : Bytes 32) {userLength : ℕ}
  (hlength : userLength ≤ userWidth) (keySeed : Option (Bytes 32)) (wantExtra : Bool)

include hlength in
theorem recover_opened (h : (reading p t seed).Opens p (userWidth - userLength)) :
    let params := (reading p t seed).params (Scalar.reduce p.mu)
    ∃ found, (recover p t seed userLength keySeed wantExtra).result = some found ∧
      (recover p t seed userLength keySeed wantExtra).user =
        userBytes params (userWidth - userLength) ∧
      found.amount = UInt64.ofNat params.val ∧
      (reading p t seed).Solves p keySeed wantExtra found := by
  obtain ⟨hz, hx⟩ := reading_ne_zero p t seed
  obtain ⟨hcanonical, hpadded, hopened⟩ := h
  have hmu := Scalar.ofBytes?_eq_some.mpr ⟨hcanonical, rfl⟩
  unfold recover
  simp only [if_neg (Nat.not_lt.mpr hlength), hmu, hpadded, amount_read, hopened,
    Bool.not_true, Bool.false_eq_true, if_false, ne_eq, not_true_eq_false]
  exact Reading.complete_solves hz hx p _ _ keySeed wantExtra

include hlength in
theorem recover_unopened (h : ¬(reading p t seed).Opens p (userWidth - userLength)) :
    (recover p t seed userLength keySeed wantExtra).result = none := by
  unfold recover
  simp only [if_neg (Nat.not_lt.mpr hlength)]
  cases hmu : Scalar.ofBytes? p.mu with
  | none => rfl
  | some mu =>
    obtain ⟨hcanonical, rfl⟩ := Scalar.ofBytes?_eq_some.mp hmu
    simp only [amount_read]
    by_cases hpadded : allZero (((reading p t seed).params (Scalar.reduce p.mu)).toBytes.toList.take
        (userWidth - userLength)) = true
    · rw [if_neg (by simp [hpadded]), if_pos fun hopened => h ⟨hcanonical, hpadded, hopened⟩]
    · rw [if_pos (by simpa using hpadded)]

include hlength in
theorem recover_isSome_iff : (recover p t seed userLength keySeed wantExtra).result.isSome = true ↔
    (reading p t seed).Opens p (userWidth - userLength) := by
  by_cases h : (reading p t seed).Opens p (userWidth - userLength)
  · obtain ⟨found, hfound, -⟩ := recover_opened p t seed hlength keySeed wantExtra h
    rw [hfound]
    exact iff_of_true rfl h
  · rw [recover_unopened p t seed hlength keySeed wantExtra h]
    exact iff_of_false Bool.false_ne_true h

include hlength in
theorem recover_found {found : Recovered}
    (hfound : (recover p t seed userLength keySeed wantExtra).result = some found) :
    let params := (reading p t seed).params (Scalar.reduce p.mu)
    found.amount = UInt64.ofNat params.val ∧
      (recover p t seed userLength keySeed wantExtra).user =
        userBytes params (userWidth - userLength) ∧
      (reading p t seed).Solves p keySeed wantExtra found := by
  obtain ⟨found', hfound', huser, hamount, hsolves⟩ := recover_opened p t seed hlength keySeed
    wantExtra ((recover_isSome_iff p t seed hlength keySeed wantExtra).mp
      (Option.isSome_iff_exists.mpr ⟨found, hfound⟩))
  cases hfound.symm.trans hfound'
  exact ⟨hamount, huser, hsolves⟩

end recover

theorem Reading.params_eq_iff (r : Reading) {mu P : Scalar} :
    r.params mu = P ↔ mu = r.alphaBase + P + r.rho * r.challenges.x := by
  unfold params
  rw [← Scalar.residue.injective.eq_iff, ← Scalar.residue.injective.eq_iff (a := mu)]
  simp only [Scalar.residue_add, Scalar.residue_mul, Scalar.residue_sub]
  constructor
  · intro h
    linear_combination h
  · intro h
    linear_combination h

/-- A proof whose response holds padded parameters that `A` opens to. -/
theorem Reading.opens_of_response {r : Reading} {p : RangeProof} {P : Scalar} {padding : ℕ}
    (hmu : p.mu = (r.alphaBase + P + r.rho * r.challenges.x).toBytes)
    (hopened : (aPoint (r.alphaBase + P) (UInt64.ofNat P.val)).compact = ⟨p.a, p.parity bitA⟩)
    (hzeros : allZero (P.toBytes.toList.take padding) = true) :
    r.params (Scalar.reduce p.mu) = P ∧ r.Opens p padding := by
  have hparams : r.params (Scalar.reduce p.mu) = P := by
    rw [hmu, Scalar.reduce_toBytes]
    exact r.params_eq_iff.mpr rfl
  refine ⟨hparams, ?_, by simpa only [hparams] using hzeros, by simpa only [hparams] using hopened⟩
  rw [hmu, Scalar.ofBigEndian_toBytes]
  exact Fin.isLt _

theorem read_iff {P : Scalar} {user : List UInt8} (hlength : user.length ≤ userWidth)
    (amount : UInt64) :
    allZero (P.toBytes.toList.take (userWidth - user.length)) = true ∧
        userBytes P (userWidth - user.length) = user ∧ UInt64.ofNat P.val = amount ↔
      P.val = ofBigEndian (user ++ bigEndian 8 amount.toNat) := by
  rw [← toBytes_eq_iff hlength amount]
  constructor
  · rintro ⟨hzeros, huser, rfl⟩
    have hsplit := toBytes_split (Nat.sub_le userWidth user.length) hzeros
    rw [userBytes] at huser
    rwa [huser] at hsplit
  · intro hbytes
    have hfront : (List.replicate (userWidth - user.length) (0 : UInt8) ++ user).length =
        userWidth := by
      rw [List.length_append, List.length_replicate, Nat.sub_add_cancel hlength]
    refine ⟨?_, ?_, ?_⟩
    · rw [hbytes, List.append_assoc, List.take_left' List.length_replicate]
      simp [allZero]
    · rw [userBytes, hbytes, List.take_left' hfront, List.drop_left' List.length_replicate]
    · rw [← amount_read, hbytes, List.drop_left' hfront, uint64_bigEndian]

/-- The proof is made from the seeds over the transcript: its response holds the parameters, `A`
opens to these and the amount, the blinding factor stands behind `tauX` and the extra scalars in the
folded vectors. -/
structure Holds (p : RangeProof) (t : Transcript) (seed : Bytes 32) (params : Scalar)
    (amount : UInt64) (key : Bytes 32) (sk : Scalar) (extra : Scalar × Scalar) : Prop where
  response : p.mu = ((reading p t seed).alphaBase + params +
    (reading p t seed).rho * (reading p t seed).challenges.x).toBytes
  opened : (aPoint ((reading p t seed).alphaBase + params) amount).compact =
    ⟨p.a, p.parity bitA⟩
  blinds : Blinds p (reading p t seed).challenges key sk
  carries : (reading p t seed).Carries p amount extra

/-- Everything given is read back from a proof just where it holds it. -/
theorem recover_eq_iff (p : RangeProof) (t : Transcript) (seed : Bytes 32) {user : List UInt8}
    (hlength : user.length ≤ userWidth) {amount : UInt64} {P : Scalar}
    (hP : P.val = ofBigEndian (user ++ bigEndian 8 amount.toNat)) (key : Bytes 32) (sk : Scalar)
    (extra : Scalar × Scalar) :
    (recover p t seed user.length (some key) true).result =
          some ⟨amount, some sk, some extra⟩ ∧
        (recover p t seed user.length (some key) true).user = user ↔
      p.Holds t seed P amount key sk extra := by
  obtain ⟨hzeros, huser, hamount⟩ := (read_iff hlength amount).mpr hP
  constructor
  · rintro ⟨hresult, hread⟩
    have hopens := (recover_isSome_iff p t seed hlength (some key) true).mp
      (Option.isSome_iff_exists.mpr ⟨_, hresult⟩)
    obtain ⟨hfound_amount, hfound_user, hsolves⟩ :=
      recover_found p t seed hlength (some key) true hresult
    have hparams : (reading p t seed).params (Scalar.reduce p.mu) = P := by
      apply Fin.ext
      rw [hP]
      exact (read_iff hlength amount).mp
        ⟨hopens.padded, hfound_user.symm.trans hread, hfound_amount.symm⟩
    have hopened := hopens.opened
    rw [hparams, hamount] at hopened
    obtain ⟨sk', hsk, hblinds⟩ := hsolves.blinding key rfl
    obtain ⟨extra', hextra, hcarries⟩ := hsolves.extra rfl
    refine ⟨?_, hopened, (hblinds sk).mpr (Option.some.inj hsk),
      (hcarries extra).mpr (Option.some.inj hextra)⟩
    rw [← (reading p t seed).params_eq_iff.mp hparams]
    exact (Scalar.toBytes_reduce hopens.canonical).symm
  · rintro ⟨hmu, hopened, hblinds, hcarries⟩
    rw [← hamount] at hopened
    obtain ⟨hparams, hopens⟩ := Reading.opens_of_response hmu hopened hzeros
    obtain ⟨found, hresult, hfound_user, hfound_amount, hsolves⟩ :=
      recover_opened p t seed hlength (some key) true hopens
    obtain ⟨sk', hsk, hblinds_iff⟩ := hsolves.blinding key rfl
    obtain ⟨extra', hextra, hcarries_iff⟩ := hsolves.extra rfl
    replace hfound_amount : found.amount = amount := by
      rw [hfound_amount, hparams, hamount]
    rw [hfound_amount] at hcarries_iff
    obtain ⟨foundAmount, blinding, extras⟩ := found
    cases hfound_amount
    cases (hblinds_iff sk).mp hblinds
    cases (hcarries_iff extra).mp hcarries
    cases hsk
    cases hextra
    exact ⟨hresult, by rw [hfound_user, hparams, huser]⟩

end RangeProof

end ColdWallet
