import ColdWallet.Proofs.RangeProof.Recovery

namespace ColdWallet.RangeProof

theorem parity_setParity (p : RangeProof) (odd : Bool) :
    (p.setParity bitA odd).parity bitA = if odd then 1 else 0 := by
  have hbyte : ∀ b : Fin 256, (((if odd then UInt8.ofFin b ||| (1 : UInt8) <<< 4
      else UInt8.ofFin b &&& ((1 : UInt8) <<< 4).complement) >>> 4) &&& 1) =
        if odd then 1 else 0 := by
    revert odd
    decide +kernel
  unfold setParity parity
  rw [List.getD_eq_getElem _ _ (by simp [bitA])]
  simpa [bitA] using hbyte (p.parities.toList.getD 1 0).toFin

def withA (p : RangeProof) (a : CompactPoint) : RangeProof :=
  { p.setParity bitA (a.y != 0) with a := a.x }

theorem withA_opens (p : RangeProof) (P : Point) :
    P.compact = ⟨(p.withA P.compact).a, (p.withA P.compact).parity bitA⟩ := by
  have hparity : (p.withA P.compact).parity bitA = P.compact.y := by
    rw [show (p.withA P.compact).parity bitA = _ from parity_setParity p _]
    rcases Point.compact_parity P with h | h
    · rw [h]
      rfl
    · rw [h]
      rfl
  rw [hparity]
  rfl

/-- The responses that hold the parameters, the blinding factor and the extra scalars under what
was read. -/
def respond (q : RangeProof) (r : Reading) (rounds : List (Scalar × Scalar)) (P : Scalar)
    (key : Bytes 32) (sk : Scalar) (extra : Scalar × Scalar) : RangeProof :=
  let c := r.challenges
  let tau := tauNonces key
  let folded := condense r.stream (UInt64.ofNat P.val) c rounds
  { q with
    tauX := (tau.1 * c.x + tau.2 * (c.x * c.x) + sk * (c.z * c.z)).toBytes
    mu := (r.alphaBase + P + r.rho * c.x).toBytes
    condensed := ((folded.1 + extra.1 * extraWeight c.x (rounds.map Prod.fst)).toBytes,
      (folded.2 + extra.2 * extraWeight c.x (rounds.map Prod.snd)).toBytes) }

/-- A proof over `p`'s other points that is made from the seeds and holds what is given. -/
def assemble (p : RangeProof) (t : Transcript) (seed params key : Bytes 32) (sk : Scalar)
    (extra : Scalar × Scalar) : RangeProof :=
  let P := Scalar.reduce params
  let q := p.withA
    (aPoint ((reading p t seed).alphaBase + P) (UInt64.ofNat P.val)).compact
  let r := reading q t seed
  respond q r ((roundChallenges q r.transcript).1.getD []) P key sk extra

section respond
variable (q : RangeProof) (r : Reading) {rounds : List (Scalar × Scalar)} (P : Scalar)
  (key : Bytes 32) (sk : Scalar) (extra : Scalar × Scalar)

theorem roundChallenges_respond (t : Transcript) :
    roundChallenges (q.respond r rounds P key sk extra) t = roundChallenges q t := by
  have h (rs : List FoldRound) (c : ℕ) (t : Transcript) :
      exposeRounds (q.respond r rounds P key sk extra) c rs t = exposeRounds q c rs t := by
    induction rs generalizing c t with
    | nil => rfl
    | cons round rs ih =>
      simp only [exposeRounds, ih]
      rfl
  exact h _ 0 _

theorem reading_respond (t : Transcript) (seed : Bytes 32) :
    reading (q.respond r rounds P key sk extra) t seed = reading q t seed := rfl

theorem respond_holds (hrounds : (roundChallenges q r.transcript).1 = some rounds) :
    let p := q.respond r rounds P key sk extra
    p.mu = (r.alphaBase + P + r.rho * r.challenges.x).toBytes ∧
      Blinds p r.challenges key sk ∧ r.Carries p (UInt64.ofNat P.val) extra := by
  have htauX : (q.respond r rounds P key sk extra).tauX = ((tauNonces key).1 * r.challenges.x +
      (tauNonces key).2 * (r.challenges.x * r.challenges.x) +
        sk * (r.challenges.z * r.challenges.z)).toBytes := rfl
  have hcondensed : (q.respond r rounds P key sk extra).condensed =
      let folded := condense r.stream (UInt64.ofNat P.val) r.challenges rounds
      ((folded.1 + extra.1 * extraWeight r.challenges.x (rounds.map Prod.fst)).toBytes,
        (folded.2 + extra.2 * extraWeight r.challenges.x (rounds.map Prod.snd)).toBytes) := rfl
  refine ⟨rfl, ?_, rounds, ?_, ?_⟩
  · rw [Blinds, htauX, Scalar.reduce_toBytes]
  · rw [roundChallenges_respond, hrounds]
  · simp only [hcondensed, Scalar.reduce_toBytes, and_self]

end respond

/-- The nonces of a seed are the same for every proof. -/
theorem reading_alphaBase (p q : RangeProof) (t : Transcript) (seed : Bytes 32) :
    (reading p t seed).alphaBase = (reading q t seed).alphaBase := rfl

theorem assemble_holds (p : RangeProof) (t : Transcript) (seed params key : Bytes 32)
    (sk : Scalar) (extra : Scalar × Scalar) :
    (p.assemble t seed params key sk extra).Holds t seed (Scalar.reduce params)
      (UInt64.ofNat (Scalar.reduce params).val) key sk extra := by
  obtain ⟨P, hP⟩ : ∃ P, P = Scalar.reduce params := ⟨_, rfl⟩
  obtain ⟨A, hA⟩ : ∃ A, A = aPoint ((reading p t seed).alphaBase + P) (UInt64.ofNat P.val) :=
    ⟨_, rfl⟩
  obtain ⟨q, hq⟩ : ∃ q, q = p.withA A.compact := ⟨_, rfl⟩
  obtain ⟨rounds, hrounds, -⟩ := roundChallenges_some q (reading q t seed).transcript
  have hassemble : p.assemble t seed params key sk extra =
      q.respond (reading q t seed) rounds P key sk extra := by
    unfold assemble
    dsimp only
    rw [← hP, ← hA, ← hq, hrounds, Option.getD_some]
  obtain ⟨hmu, hblinds, hcarries⟩ := respond_holds q _ P key sk extra hrounds
  have hopened := withA_opens p A
  rw [← hq] at hopened
  rw [hassemble, ← hP]
  refine ⟨hmu, ?_, hblinds, hcarries⟩
  rw [reading_respond, reading_alphaBase q p, ← hA]
  exact hopened

/-- What an assembled proof holds is read back from it. -/
theorem recover_assemble (p : RangeProof) (t : Transcript) (seed : Bytes 32) {userLength : ℕ}
    (hlength : userLength ≤ userWidth) {params : Bytes 32}
    (hcanonical : ofBigEndian params.toList < groupOrder)
    (hpadded : allZero (params.toList.take (userWidth - userLength)) = true) (key : Bytes 32)
    (sk : Scalar) (extra : Scalar × Scalar) :
    let recovery := recover (p.assemble t seed params key sk extra) t seed userLength (some key) true
    recovery.result =
        some ⟨UInt64.ofNat (ofBigEndian params.toList), some sk, some extra⟩ ∧
      recovery.user = (params.toList.take userWidth).drop (userWidth - userLength) := by
  have hbytes : (Scalar.reduce params).toBytes = params := Scalar.toBytes_reduce hcanonical
  have hval : (Scalar.reduce params).val = ofBigEndian params.toList := by
    rw [← Scalar.ofBigEndian_toBytes, hbytes]
  have hholds := assemble_holds p t seed params key sk extra
  rw [hval] at hholds
  obtain ⟨user, huser⟩ : ∃ user, user = (params.toList.take userWidth).drop
      (userWidth - userLength) := ⟨_, rfl⟩
  have huserLength : user.length = userLength := by
    rw [huser, List.length_drop, List.length_take, Vector.length_toList]
    unfold userWidth at hlength ⊢
    omega
  have hread : (Scalar.reduce params).val = ofBigEndian (user ++
      bigEndian 8 (UInt64.ofNat (ofBigEndian params.toList)).toNat) := by
    rw [← read_iff (huserLength.trans_le hlength), userBytes, hbytes, huserLength, hval]
    exact ⟨hpadded, huser.symm, rfl⟩
  have hrecovered := (recover_eq_iff _ t seed (huserLength.trans_le hlength) hread key sk
    extra).mpr hholds
  rw [huserLength] at hrecovered
  rw [← huser]
  exact hrecovered

/-- Recovery undoes embedding. It succeeds just where the response is canonical, the parameters under
it are padded with zeros and `A` opens to them; it then gives these parameters and the only blinding
factor and extra scalars that stand in the proof, so that a proof assembled with any of them gives
back exactly those. -/
theorem recover_undoes_embedding (p : RangeProof) (t : Transcript) (seed : Bytes 32)
    {userLength : ℕ} (hlength : userLength ≤ userWidth) (keySeed : Option (Bytes 32))
    (wantExtra : Bool) :
    let r := reading p t seed
    let params := r.params (Scalar.reduce p.mu)
    let padding := userWidth - userLength
    let recovery := recover p t seed userLength keySeed wantExtra
    (recovery.result.isSome = true ↔ ofBigEndian p.mu.toList < groupOrder ∧
        allZero (params.toBytes.toList.take padding) = true ∧
        (aPoint (r.alphaBase + params) (UInt64.ofNat params.val)).compact =
          ⟨p.a, p.parity bitA⟩) ∧
      (∀ found, recovery.result = some found → found.amount = UInt64.ofNat params.val ∧
        recovery.user = (params.toBytes.toList.take userWidth).drop padding ∧
        r.Solves p keySeed wantExtra found) ∧
      ∀ (params key : Bytes 32) (sk : Scalar) (extra : Scalar × Scalar),
        ofBigEndian params.toList < groupOrder →
        allZero (params.toList.take padding) = true →
        let assembled := p.assemble t seed params key sk extra
        let recovery := recover assembled t seed userLength (some key) true
        recovery.result =
            some ⟨UInt64.ofNat (ofBigEndian params.toList), some sk, some extra⟩ ∧
          recovery.user = (params.toList.take userWidth).drop padding := by
  refine ⟨?_, ?_, ?_⟩
  · rw [recover_isSome_iff p t seed hlength]
    exact ⟨fun ⟨hcanonical, hpadded, hopened⟩ => ⟨hcanonical, hpadded, hopened⟩,
      fun ⟨hcanonical, hpadded, hopened⟩ => ⟨hcanonical, hpadded, hopened⟩⟩
  · exact fun found hfound => recover_found p t seed hlength keySeed wantExtra hfound
  · exact fun params key sk extra hcanonical hpadded =>
      recover_assemble p t seed hlength hcanonical hpadded key sk extra

/-- Five user bytes, an amount, a blinding factor and two extra scalars come back. -/
theorem recover_undoes_embedding_five_bytes :
    let zero := Bytes.zero 32
    let p : RangeProof := ⟨zero, zero, zero, zero, zero, zero, zero,
      Vector.replicate foldRounds ⟨zero, zero⟩, (zero, zero), .zero 2⟩
    let params := Bytes.ofList 32 (List.replicate 19 0 ++ [1, 2, 3, 4, 5] ++ bigEndian 8 9)
    let assembled := p.assemble [] zero params zero 3 (5, 7)
    5 ≤ userWidth ∧
      (recover assembled [] zero 5 (some zero) true).result =
        some ⟨9, some 3, some (5, 7)⟩ ∧
      (recover assembled [] zero 5 (some zero) true).user = [1, 2, 3, 4, 5] := by
  intro zero p params assembled
  have hlength : 5 ≤ userWidth := by decide
  have hcanonical : ofBigEndian params.toList < groupOrder := by decide +kernel
  have hpadded : allZero (params.toList.take (userWidth - 5)) = true := by decide +kernel
  have hamount : UInt64.ofNat (ofBigEndian params.toList) = 9 := by decide +kernel
  have huser : (params.toList.take userWidth).drop (userWidth - 5) = [1, 2, 3, 4, 5] := by
    decide +kernel
  rw [← hamount, ← huser]
  exact ⟨hlength, (recover_undoes_embedding p [] zero hlength (some zero) true).2.2 params zero 3
    (5, 7) hcanonical hpadded⟩

end ColdWallet.RangeProof
