import Mathlib.Algebra.BigOperators.Module
import ColdWallet.RangeProof.Commitments
import ColdWallet.Proofs.Curve.Generators

namespace ColdWallet

namespace NonceStream

theorem scalars_succ (n : ℕ) (s : NonceStream) :
    s.scalars (n + 1) =
      (s.nextScalar.1 :: (s.nextScalar.2.scalars n).1, (s.nextScalar.2.scalars n).2) := rfl

theorem length_scalars (n : ℕ) (s : NonceStream) : (s.scalars n).1.length = n := by
  induction n generalizing s with
  | zero => rfl
  | succ n ih => rw [scalars_succ, List.length_cons, ih]

theorem scalars_add (m n : ℕ) (s : NonceStream) :
    s.scalars (m + n) =
      ((s.scalars m).1 ++ ((s.scalars m).2.scalars n).1, ((s.scalars m).2.scalars n).2) := by
  induction m generalizing s with
  | zero => rw [Nat.zero_add]; rfl
  | succ m ih => rw [Nat.succ_add, scalars_succ, scalars_succ, ih, List.cons_append]

end NonceStream

def Generator.ofVector (i : ℕ) : Point := ofLabel "beam.gen.rp" (some (UInt64.ofNat i))

theorem Generator.vector_eq : vector = (List.range (2 * rangeBits)).map ofVector := rfl

theorem Generator.length_vector : vector.length = 2 * rangeBits := by
  rw [vector_eq, List.length_map, List.length_range]

theorem Generator.ofVector_onCurve (i : ℕ) : (ofVector i).OnCurve := ofLabel_onCurve _ _

theorem Generator.vector_onCurve : ∀ p ∈ vector, p.OnCurve := by
  rw [vector_eq, List.forall_mem_map]
  exact fun i _ => ofVector_onCurve i

noncomputable def curveR (i : ℕ) : CurvePoint := (Generator.ofVector i).toCurve

namespace RangeProof

/-- What a sum of Jacobian points stands for in the group. -/
abbrev StandsFor (p : Jacobian) (P : CurvePoint) : Prop := p.toPoint = .ofCurve P

theorem odd_vector_holds {p : Point} (hp : p.OnCurve) :
    (Table.odd oddsVector p).Holds StandsFor p.toCurve :=
  Table.odd_holds 1 hp

/-- Draws from index `base` on, with the extra scalars in their places. -/
def entriesFrom (extra : Option (Bytes 32 × Bytes 32)) (base : ℕ) (draws : List Scalar) :
    List Scalar :=
  (draws.zipIdx base).map fun (s, i) => s + extraAt extra i

theorem entriesFrom_append (extra : Option (Bytes 32 × Bytes 32)) (base : ℕ)
    (draws more : List Scalar) :
    entriesFrom extra base (draws ++ more) =
      entriesFrom extra base draws ++ entriesFrom extra (base + draws.length) more := by
  unfold entriesFrom
  rw [List.zipIdx_append, List.map_append]

theorem length_entriesFrom (extra : Option (Bytes 32 × Bytes 32)) (base : ℕ)
    (draws : List Scalar) : (entriesFrom extra base draws).length = draws.length := by
  rw [entriesFrom, List.length_map, List.length_zipIdx]

/-- The multiples of points by scalars, added up. -/
noncomputable def weighted (points : List Point) (scalars : List Scalar) : CurvePoint :=
  ((points.zip scalars).map fun t => t.2.residue • t.1.toCurve).sum

theorem weighted_append {points : List Point} {scalars : List Scalar}
    (h : points.length = scalars.length) (points' : List Point) (scalars' : List Scalar) :
    weighted (points ++ points') (scalars ++ scalars') =
      weighted points scalars + weighted points' scalars' := by
  unfold weighted
  rw [List.zip_append h, List.map_append, List.sum_append]

theorem multiMul_vector (secret : List (Point × Scalar)) (points : List Point)
    (scalars : List Scalar) (hsecret : ∀ s ∈ secret, s.1.OnCurve)
    (hpoints : ∀ p ∈ points, p.OnCurve) :
    StandsFor
      (multiMul (secret.map fun s => (Table.secret s.1, s.2))
        ((points.map (Table.odd oddsVector)).zip scalars))
      ((secret.map fun s => s.2.residue • s.1.toCurve).sum + weighted points scalars) := by
  have h := Jacobian.represents.multiMul (fun s hs => Table.secret_holds (hsecret s hs))
    (fun (t : Point × Scalar) (ht : t ∈ points.zip scalars) =>
      odd_vector_holds (hpoints t.1 (List.of_mem_zip ht).1)) Prod.snd Prod.snd
  simp only [Scalar.val_smul] at h
  rw [List.zip_map_left]
  exact h

theorem sumEntries_nil (window : ℕ) (extra : Option (Bytes 32 × Bytes 32)) (limit base : ℕ)
    (stream : NonceStream) :
    StandsFor (sumEntries window extra limit base [] [] stream).1
        (0 + weighted [] (entriesFrom extra base [])) ∧
      (sumEntries window extra limit base [] [] stream).2 = stream := by
  have hnone : sumEntries window extra limit base [] [] stream = (0, stream) := by
    cases limit with
    | zero => rfl
    | succ limit => rfl
  rw [hnone]
  exact ⟨by simpa [weighted] using Jacobian.represents.zero, rfl⟩

/-- One sweep, and the terms it leaves to the others. -/
theorem sumEntries_step (window : ℕ) (extra : Option (Bytes 32 × Bytes 32)) (limit base : ℕ)
    {points : List Point} (hpoints : points ≠ []) (secret : List (SecretTable Jacobian × Scalar))
    (stream : NonceStream) :
    sumEntries window extra (limit + 1) base (points.map (Table.odd oddsVector)) secret stream =
      let draws := stream.scalars (points.take window).length
      let rest := sumEntries window extra limit (base + window)
        ((points.drop window).map (Table.odd oddsVector)) [] draws.2
      (multiMul secret (((points.take window).map (Table.odd oddsVector)).zip
        (entriesFrom extra base draws.1)) + rest.1, rest.2) := by
  cases points with
  | nil => exact absurd rfl hpoints
  | cons p ps =>
    rw [List.map_take, List.map_drop, ← List.length_map (Table.odd oddsVector), List.map_take]
    rfl

/-- The terms of one sweep and of those after it. Only a full sweep has any after it, so their
indices go on where its own end. -/
theorem weighted_split (window : ℕ) (extra : Option (Bytes 32 × Bytes 32)) (base : ℕ)
    (points : List Point) (stream : NonceStream) :
    let now := stream.scalars (points.take window).length
    let later := now.2.scalars (points.drop window).length
    (stream.scalars points.length).2 = later.2 ∧
      weighted points (entriesFrom extra base (stream.scalars points.length).1) =
        weighted (points.take window) (entriesFrom extra base now.1) +
          weighted (points.drop window) (entriesFrom extra (base + window) later.1) := by
  intro now later
  have hdraws : stream.scalars points.length = (now.1 ++ later.1, later.2) := by
    rw [← NonceStream.scalars_add, ← List.length_append, List.take_append_drop]
  have hnow : now.1.length = (points.take window).length := NonceStream.length_scalars _ _
  have hlater : entriesFrom extra (base + now.1.length) later.1 =
      entriesFrom extra (base + window) later.1 := by
    by_cases hfull : window ≤ points.length
    · rw [hnow, List.length_take, Nat.min_eq_left hfull]
    · have hnil : later.1 = [] := by
        rw [← List.length_eq_zero_iff, NonceStream.length_scalars, List.length_drop]
        omega
      rw [hnil]
      rfl
  rw [hdraws]
  refine ⟨rfl, ?_⟩
  rw [entriesFrom_append, hlater]
  nth_rewrite 1 [← List.take_append_drop window points]
  apply weighted_append
  rw [length_entriesFrom, hnow]

/-- However the terms are cut into sweeps, all of them are summed, and the stream is left after as
many draws. -/
theorem sumEntries_eq {window : ℕ} (hwindow : 0 < window)
    (extra : Option (Bytes 32 × Bytes 32)) (limit base : ℕ) (points : List Point)
    (secret : List (Point × Scalar)) (stream : NonceStream)
    (hpoints : ∀ p ∈ points, p.OnCurve) (hsecret : ∀ s ∈ secret, s.1.OnCurve)
    (hlimit : points.length ≤ limit) (hnone : points = [] → secret = []) :
    let sum := sumEntries window extra limit base (points.map (Table.odd oddsVector))
      (secret.map fun s => (Table.secret s.1, s.2)) stream
    let draws := stream.scalars points.length
    StandsFor sum.1 ((secret.map fun s => s.2.residue • s.1.toCurve).sum +
      weighted points (entriesFrom extra base draws.1)) ∧ sum.2 = draws.2 := by
  induction limit generalizing base points secret stream with
  | zero =>
    obtain rfl := List.length_eq_zero_iff.mp (Nat.le_zero.mp hlimit)
    rw [hnone rfl]
    exact sumEntries_nil ..
  | succ limit ih =>
    by_cases hempty : points = []
    · subst hempty
      rw [hnone rfl]
      exact sumEntries_nil ..
    · have hpos := List.length_pos_iff.mpr hempty
      obtain ⟨hlast, hsum⟩ := weighted_split window extra base points stream
      have hnow := multiMul_vector secret (points.take window)
        (entriesFrom extra base (stream.scalars (points.take window).length).1) hsecret
        (fun q hq => hpoints q (List.mem_of_mem_take hq))
      obtain ⟨hlater, hstream⟩ := ih (base + window) (points.drop window) []
        (stream.scalars (points.take window).length).2
        (fun q hq => hpoints q (List.mem_of_mem_drop hq)) (by simp)
        (by rw [List.length_drop]; omega) (fun _ => rfl)
      simp only [sumEntries_step _ _ _ _ hempty, hlast, hsum, ← add_assoc]
      refine ⟨Jacobian.represents.add hnow ?_, hstream⟩
      simpa using hlater

theorem eq_map_getD {n : ℕ} {scalars : List Scalar} (h : scalars.length = n) :
    scalars = (List.range n).map fun i => scalars.getD i 0 := by
  subst h
  apply List.ext_getElem
  · simp
  · intro i hi _
    simp [hi]

theorem weighted_range {n : ℕ} {scalars : List Scalar} (h : scalars.length = n) (f : ℕ → Point) :
    weighted ((List.range n).map f) scalars =
      ∑ i ∈ Finset.range n, (scalars.getD i 0).residue • (f i).toCurve := by
  unfold weighted
  rw [eq_map_getD h, List.zip_map', List.map_map, ← eq_map_getD h]
  rfl

theorem weighted_vector (extra : Option (Bytes 32 × Bytes 32)) {draws : List Scalar}
    (h : draws.length = 2 * Generator.rangeBits) :
    weighted Generator.vector (entriesFrom extra 0 draws) =
      ∑ i ∈ Finset.range (2 * Generator.rangeBits),
        (draws.getD i 0 + extraAt extra i).residue • curveR i := by
  rw [Generator.vector_eq, weighted_range ((length_entriesFrom extra 0 draws).trans h)]
  apply Finset.sum_congr rfl
  intro i hi
  have hlt : i < draws.length := h ▸ Finset.mem_range.mp hi
  have hentry : (entriesFrom extra 0 draws).getD i 0 = draws.getD i 0 + extraAt extra i := by
    simp [entriesFrom, hlt]
  rw [hentry]
  rfl

theorem length_vector : Table.vector.length = 2 * Generator.rangeBits := by
  rw [Table.vector, List.length_map, Generator.length_vector]

/-- The sum behind `S`, started with its blinding. -/
theorem sumEntries_vector {window : ℕ} (hwindow : 0 < window)
    (extra : Option (Bytes 32 × Bytes 32)) (rho : Scalar) (stream : NonceStream) :
    let sum := sumEntries window extra (2 * Generator.rangeBits) 0 Table.vector
      [(Table.G, rho)] stream
    let draws := stream.scalars (2 * Generator.rangeBits)
    StandsFor sum.1 (rho.residue • curveG + ∑ i ∈ Finset.range (2 * Generator.rangeBits),
      (draws.1.getD i 0 + extraAt extra i).residue • curveR i) ∧ sum.2 = draws.2 := by
  have hvector : Generator.vector ≠ [] := by
    rw [← List.length_pos_iff, Generator.length_vector]
    decide
  have h := sumEntries_eq hwindow extra Generator.vector.length 0 Generator.vector
    [(.base, rho)] stream Generator.vector_onCurve (by simpa using Point.base_onCurve) le_rfl
    (fun h => absurd h hvector)
  simp only [Generator.length_vector, weighted_vector extra (NonceStream.length_scalars _ _),
    List.map_cons, List.map_nil, List.sum_cons, List.sum_nil, add_zero] at h
  exact h

/-- `S` opens to its draws and the extra scalars, for every number of terms swept at once. -/
theorem sPoint_eq {window : ℕ} (hwindow : 0 < window) (extra : Option (Bytes 32 × Bytes 32))
    {stream rest : NonceStream} {rho : Scalar} (hrho : stream.nextScalar = (rho, rest)) :
    sPoint window extra stream =
      (.ofCurve (rho.residue • curveG + ∑ i ∈ Finset.range (2 * Generator.rangeBits),
          ((rest.scalars (2 * Generator.rangeBits)).1.getD i 0 + extraAt extra i).residue •
            curveR i),
        (rest.scalars (2 * Generator.rangeBits)).2) := by
  obtain ⟨hsum, hstream⟩ := sumEntries_vector hwindow extra rho rest
  unfold sPoint
  rw [hrho, length_vector]
  exact congrArg₂ Prod.mk hsum hstream

theorem sPoint_congr {window : ℕ} (hwindow : 0 < window)
    {extra extra' : Option (Bytes 32 × Bytes 32)} (h : extraAt extra = extraAt extra')
    (stream : NonceStream) : sPoint window extra stream = sPoint window extra' stream := by
  obtain ⟨⟨rho, rest⟩, hrho⟩ : ∃ draw, stream.nextScalar = draw := ⟨_, rfl⟩
  rw [sPoint_eq hwindow extra hrho, sPoint_eq hwindow extra' hrho, h]

theorem zipIdx_map_range {α : Type} (f : ℕ → α) (n : ℕ) :
    ((List.range n).map f).zipIdx = (List.range n).map fun i => (f i, i) := by
  apply List.ext_getElem
  · simp
  · intro i _ _
    simp

/-- The tables of the two vectors' generators, in pairs of one index. -/
theorem vector_pairs : Table.vector.splitAt Generator.rangeBits =
    ((List.range Generator.rangeBits).map fun i => Table.odd oddsVector (Generator.ofVector i),
      (List.range Generator.rangeBits).map fun i =>
        Table.odd oddsVector (Generator.ofVector (Generator.rangeBits + i))) := by
  rw [Table.vector, Generator.vector_eq, two_mul, List.range_add, List.map_append,
    List.map_append, List.splitAt_eq, List.take_left' (by simp), List.drop_left' (by simp)]
  simp only [List.map_map, Function.comp_def]

/-- `A` opens to the bits of the amount, and to their complements with the sign changed. -/
theorem aPoint_eq (alpha : Scalar) (amount : UInt64) :
    aPoint alpha amount = .ofCurve (alpha.residue • curveG +
      ∑ i ∈ Finset.range Generator.rangeBits, if amount.toNat.testBit i then curveR i
        else -curveR (Generator.rangeBits + i)) := by
  have hG : StandsFor (multiMul [(Table.G, alpha)] []) (alpha.residue • curveG) := mulG_eq alpha
  have hpoint (i : ℕ) :
      StandsFor (Table.odd oddsVector (Generator.ofVector i)).point (curveR i) :=
    (odd_vector_holds (Generator.ofVector_onCurve i)).point
  have hterm (i : ℕ) (p : Jacobian) (P : CurvePoint) (hp : StandsFor p P) :
      StandsFor (p + if amount.toNat.testBit i then
          (Table.odd oddsVector (Generator.ofVector i)).point
        else -(Table.odd oddsVector (Generator.ofVector (Generator.rangeBits + i))).point)
        (P + if amount.toNat.testBit i then curveR i
          else -curveR (Generator.rangeBits + i)) := by
    refine Jacobian.represents.add hp ?_
    split_ifs
    · exact hpoint i
    · exact Jacobian.represents.neg (hpoint _)
  unfold aPoint
  simp only [vector_pairs, List.zip_map', zipIdx_map_range, List.foldl_map]
  exact foldl_represents (l := List.range Generator.rangeBits) (fun i _ => hterm i) hG

end RangeProof

end ColdWallet
