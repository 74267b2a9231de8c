import Mathlib.Tactic.LinearCombination
import Mathlib.Tactic.Module
import ColdWallet.RangeProof.Folding
import ColdWallet.Proofs.RangeProof.Commitments

namespace ColdWallet.RangeProof

def amountBit (amount : UInt64) (i : ℕ) : ZMod groupOrder :=
  if amount.toNat.testBit i then 1 else 0

theorem residue_lessBit (c : Challenges) (bit : Bool) :
    (c.lessBit bit).residue = c.z.residue - if bit then 1 else 0 := by
  cases bit with
  | true => exact (Scalar.residue_sub c.z 1).trans (by rw [Scalar.residue_one, if_pos rfl])
  | false => exact (sub_zero _).symm

theorem residue_leftEntries (c : Challenges) (amount : UInt64) {draws : List Scalar} (k : ℕ)
    {i : ℕ} (hi : i < draws.length) :
    ((leftEntries c amount k draws).getD i 0).residue =
      (draws.getD i 0).residue * c.x.residue - c.z.residue + amountBit amount (k + i) := by
  induction draws generalizing k i with
  | nil => exact absurd hi (Nat.not_lt_zero i)
  | cons s draws ih =>
    rw [leftEntries]
    cases i with
    | zero =>
      rw [List.getD_cons_zero, List.getD_cons_zero, Scalar.residue_sub, Scalar.residue_mul,
        residue_lessBit, sub_add, add_zero]
      rfl
    | succ i =>
      rw [List.getD_cons_succ, List.getD_cons_succ, ih (k + 1) (Nat.lt_of_succ_lt_succ hi),
        Nat.succ_add_eq_add_succ]

theorem length_leftEntries (c : Challenges) (amount : UInt64) (k : ℕ) (draws : List Scalar) :
    (leftEntries c amount k draws).length = draws.length := by
  induction draws generalizing k with
  | nil => rfl
  | cons s draws ih => rw [leftEntries, List.length_cons, List.length_cons, ih]

theorem length_rightEntries (c : Challenges) (amount : UInt64) (k : ℕ)
    (yPower doubled : Scalar) (draws : List Scalar) :
    (rightEntries c amount k yPower doubled draws).length = draws.length := by
  induction draws generalizing k yPower doubled with
  | nil => rfl
  | cons s draws ih => rw [rightEntries, List.length_cons, List.length_cons, ih]

/-- The powers that run along are those of the index. -/
theorem residue_rightEntries (c : Challenges) (amount : UInt64) {draws : List Scalar} (k : ℕ)
    (yPower doubled : Scalar) {i : ℕ} (hi : i < draws.length) :
    ((rightEntries c amount k yPower doubled draws).getD i 0).residue =
      yPower.residue * c.y.residue ^ i *
        ((draws.getD i 0).residue * c.x.residue + c.z.residue - 1 + amountBit amount (k + i)) +
      doubled.residue * 2 ^ i := by
  induction draws generalizing k yPower doubled i with
  | nil => exact absurd hi (Nat.not_lt_zero i)
  | cons s draws ih =>
    rw [rightEntries]
    cases i with
    | zero =>
      rw [List.getD_cons_zero, List.getD_cons_zero]
      simp only [Scalar.residue_add, Scalar.residue_mul, residue_lessBit, amountBit, add_zero]
      cases amount.toNat.testBit k with
      | true => simp; ring
      | false => simp; ring
    | succ i =>
      rw [List.getD_cons_succ, List.getD_cons_succ, ih _ _ _ (Nat.lt_of_succ_lt_succ hi),
        Nat.succ_add_eq_add_succ, Scalar.residue_mul, Scalar.residue_mul,
        show (2 : Scalar).residue = 2 from rfl]
      ring

def extraScalars (extra : Option (Bytes 32 × Bytes 32)) : Scalar × Scalar :=
  (extra.map fun k => (Scalar.reduce k.1, Scalar.reduce k.2)).getD (0, 0)

theorem residue_extraAt (extra : Option (Bytes 32 × Bytes 32)) (i : ℕ) :
    (extraAt extra i).residue = (if i = 0 then (extraScalars extra).1.residue else 0) +
      if i = Generator.rangeBits then (extraScalars extra).2.residue else 0 := by
  cases extra with
  | none => simp [extraAt, extraScalars]
  | some k =>
    unfold extraAt extraScalars
    by_cases hlow : i = 0
    · subst hlow
      simp [Generator.rangeBits]
    · by_cases hhigh : i = Generator.rangeBits
      · simp [hhigh, Generator.rangeBits]
      · simp [hlow, hhigh]

/-- The extra scalars enter a sum over the generators at the start of either half. -/
theorem sum_extraAt (extra : Option (Bytes 32 × Bytes 32)) :
    ∑ i ∈ Finset.range (2 * Generator.rangeBits), (extraAt extra i).residue • curveR i =
      (extraScalars extra).1.residue • curveR 0 +
        (extraScalars extra).2.residue • curveR Generator.rangeBits := by
  simp only [residue_extraAt, add_smul, ite_smul, zero_smul, Finset.sum_add_distrib,
    Finset.sum_ite_eq', Finset.mem_range]
  rw [if_pos (by decide), if_pos (by decide)]

/-- What the left vector commits to: the bits of the amount, and `x` times the draws. -/
theorem sum_leftEntries (c : Challenges) (amount : UInt64) {draws : List Scalar} {n : ℕ}
    (hdraws : draws.length = n) (R : ℕ → CurvePoint) :
    ∑ i ∈ Finset.range n,
        (((leftEntries c amount 0 draws).getD i 0).residue + c.z.residue) • R i =
      ∑ i ∈ Finset.range n, amountBit amount i • R i +
        c.x.residue • ∑ i ∈ Finset.range n, (draws.getD i 0).residue • R i := by
  rw [Finset.smul_sum, ← Finset.sum_add_distrib]
  apply Finset.sum_congr rfl
  intro i hi
  rw [residue_leftEntries c amount 0 (hdraws ▸ Finset.mem_range.mp hi), Nat.zero_add]
  module

/-- What the right vector commits to, once its powers are taken out: the bits less one, and `x`
times the draws. -/
theorem sum_rightEntries {c : Challenges} (hy : c.y ≠ 0) (amount : UInt64) {draws : List Scalar}
    {n : ℕ} (hdraws : draws.length = n) (R : ℕ → CurvePoint) :
    ∑ i ∈ Finset.range n, (c.y.residue⁻¹ ^ i *
        (((rightEntries c amount 0 1 (c.z * c.z) draws).getD i 0).residue -
          c.z.residue ^ 2 * 2 ^ i) - c.z.residue) • R i =
      ∑ i ∈ Finset.range n, (amountBit amount i - 1) • R i +
        c.x.residue • ∑ i ∈ Finset.range n, (draws.getD i 0).residue • R i := by
  have hy' : c.y.residue ≠ 0 := fun h => hy (Scalar.residue_eq_zero.mp h)
  rw [Finset.smul_sum, ← Finset.sum_add_distrib]
  apply Finset.sum_congr rfl
  intro i hi
  have hpowers : c.y.residue⁻¹ ^ i * c.y.residue ^ i = 1 := by
    rw [← mul_pow, inv_mul_cancel₀ hy', one_pow]
  have hentry : c.y.residue⁻¹ ^ i *
      (((rightEntries c amount 0 1 (c.z * c.z) draws).getD i 0).residue -
        c.z.residue ^ 2 * 2 ^ i) - c.z.residue =
      (draws.getD i 0).residue * c.x.residue + (amountBit amount i - 1) := by
    rw [residue_rightEntries c amount 0 1 (c.z * c.z) (hdraws ▸ Finset.mem_range.mp hi),
      Nat.zero_add, Scalar.residue_one, Scalar.residue_mul]
    linear_combination
      ((draws.getD i 0).residue * c.x.residue + c.z.residue - 1 + amountBit amount i) * hpowers
  rw [hentry]
  module

/-- The bits that `A` commits to, apart for each vector. -/
theorem sum_bits (amount : UInt64) :
    (∑ i ∈ Finset.range Generator.rangeBits, if amount.toNat.testBit i then curveR i
        else -curveR (Generator.rangeBits + i)) =
      ∑ i ∈ Finset.range Generator.rangeBits, amountBit amount i • curveR i +
        ∑ i ∈ Finset.range Generator.rangeBits,
          (amountBit amount i - 1) • curveR (Generator.rangeBits + i) := by
  rw [← Finset.sum_add_distrib]
  apply Finset.sum_congr rfl
  intro i _
  unfold amountBit
  split_ifs
  · module
  · module

/-- What `S` commits to: its draws, a half for each vector, and the extra scalars. -/
theorem sum_draws (extra : Option (Bytes 32 × Bytes 32)) {left : List Scalar}
    (hleft : left.length = Generator.rangeBits) (right : List Scalar) :
    ∑ i ∈ Finset.range (2 * Generator.rangeBits),
        ((left ++ right).getD i 0 + extraAt extra i).residue • curveR i =
      ∑ i ∈ Finset.range Generator.rangeBits, (left.getD i 0).residue • curveR i +
        ∑ i ∈ Finset.range Generator.rangeBits,
          (right.getD i 0).residue • curveR (Generator.rangeBits + i) +
        ((extraScalars extra).1.residue • curveR 0 +
          (extraScalars extra).2.residue • curveR Generator.rangeBits) := by
  have hlow : ∀ i ∈ Finset.range Generator.rangeBits,
      ((left ++ right).getD i 0).residue • curveR i = (left.getD i 0).residue • curveR i := by
    intro i hi
    rw [List.getD_append _ _ _ _ (hleft.symm ▸ Finset.mem_range.mp hi)]
  have hhigh : ∀ i ∈ Finset.range Generator.rangeBits,
      ((left ++ right).getD (Generator.rangeBits + i) 0).residue •
          curveR (Generator.rangeBits + i) =
        (right.getD i 0).residue • curveR (Generator.rangeBits + i) := by
    intro i _
    rw [List.getD_append_right _ _ _ _ (hleft.symm ▸ Nat.le_add_right _ i), hleft,
      Nat.add_sub_cancel_left]
  simp only [Scalar.residue_add, add_smul, Finset.sum_add_distrib, sum_extraAt]
  rw [two_mul, Finset.sum_range_add, Finset.sum_congr rfl hlow, Finset.sum_congr rfl hhigh]

/-- The draws of the two vectors are those of `S`, the left vector's first. -/
theorem exists_draws (stream : NonceStream) (amount : UInt64) (c : Challenges) :
    ∃ left right : List Scalar, left.length = Generator.rangeBits ∧
      right.length = Generator.rangeBits ∧
      (stream.scalars (2 * Generator.rangeBits)).1 = left ++ right ∧
      vectors stream amount c =
        (leftEntries c amount 0 left, rightEntries c amount 0 1 (c.z * c.z) right) := by
  unfold vectors
  -- The kernel would run the stream to tell the two numbers of draws apart.
  generalize Generator.rangeBits = n
  refine ⟨(stream.scalars n).1, ((stream.scalars n).2.scalars n).1,
    NonceStream.length_scalars n _, NonceStream.length_scalars n _, ?_, rfl⟩
  rw [Nat.two_mul, NonceStream.scalars_add]

/-- For every number of terms swept at once: `A` and `S`, joined by `x`, commit to the vectors that
are folded when a proof is read back, to the blinding `alpha + rho·x`, and to the extra scalars. -/
theorem commitments_open_vectors {window : ℕ} (hwindow : 0 < window) (stream : NonceStream)
    (alpha : Scalar) (amount : UInt64) (extra : Option (Bytes 32 × Bytes 32)) {c : Challenges}
    (hy : c.y ≠ 0) :
    let rho := stream.nextScalar.1
    let left := (vectors stream.nextScalar.2 amount c).1
    let right := (vectors stream.nextScalar.2 amount c).2
    aPoint alpha amount + (sPoint window extra stream).1.mul c.x.val =
        .ofCurve ((alpha + rho * c.x).residue • curveG +
          ∑ i ∈ Finset.range Generator.rangeBits,
            ((left.getD i 0).residue + c.z.residue) • curveR i +
          ∑ i ∈ Finset.range Generator.rangeBits,
            (c.y.residue⁻¹ ^ i * ((right.getD i 0).residue - c.z.residue ^ 2 * 2 ^ i) -
              c.z.residue) • curveR (Generator.rangeBits + i) +
          c.x.residue • ((extraScalars extra).1.residue • curveR 0 +
            (extraScalars extra).2.residue • curveR Generator.rangeBits)) ∧
      left.length = Generator.rangeBits ∧ right.length = Generator.rangeBits ∧
      ∀ rounds, condense stream.nextScalar.2 amount c rounds =
        (foldVector left rounds, foldVector right (rounds.map Prod.swap)) := by
  generalize hdraw : stream.nextScalar = draw
  obtain ⟨rho, rest⟩ := draw
  obtain ⟨left, right, hleft, hright, hdraws, hvectors⟩ := exists_draws rest amount c
  have hS := sPoint_eq hwindow extra hdraw
  rw [hdraws, sum_draws extra hleft] at hS
  have hA := aPoint_eq alpha amount
  rw [sum_bits] at hA
  simp only [hvectors]
  refine ⟨?_, ?_, ?_, ?_⟩
  · rw [hA, hS, Point.mul_ofCurve, ← Point.ofCurve_add, Scalar.val_smul,
      sum_leftEntries c amount hleft curveR,
      sum_rightEntries hy amount hright fun i => curveR (Generator.rangeBits + i),
      Scalar.residue_add, Scalar.residue_mul]
    refine congrArg Point.ofCurve ?_
    module
  · rw [length_leftEntries, hleft]
  · rw [length_rightEntries, hright]
  · intro rounds
    rw [condense, hvectors]

/-- Twenty-two terms a sweep, with the largest amount and two extra scalars. -/
theorem commitments_open_vectors_small_sweeps :
    let c : Challenges := ⟨3, 5, 7⟩
    let amount : UInt64 := 0xffffffffffffffff
    let extra := some (Scalar.toBytes 11, Scalar.toBytes 13)
    let stream : NonceStream := { key := .zero 32 }
    let rho := stream.nextScalar.1
    let left := (vectors stream.nextScalar.2 amount c).1
    let right := (vectors stream.nextScalar.2 amount c).2
    0 < 22 ∧ c.y ≠ 0 ∧ aPoint 2 amount + (sPoint 22 extra stream).1.mul c.x.val =
        .ofCurve (((2 : Scalar) + rho * c.x).residue • curveG +
          ∑ i ∈ Finset.range Generator.rangeBits,
            ((left.getD i 0).residue + c.z.residue) • curveR i +
          ∑ i ∈ Finset.range Generator.rangeBits,
            (c.y.residue⁻¹ ^ i * ((right.getD i 0).residue - c.z.residue ^ 2 * 2 ^ i) -
              c.z.residue) • curveR (Generator.rangeBits + i) +
          c.x.residue • ((extraScalars extra).1.residue • curveR 0 +
            (extraScalars extra).2.residue • curveR Generator.rangeBits)) := by
  intro c amount extra stream rho left right
  have hwindow : 0 < 22 := by decide
  have hy : c.y ≠ 0 := by decide
  exact ⟨hwindow, hy, (commitments_open_vectors hwindow stream 2 amount extra hy).1⟩

end ColdWallet.RangeProof
