import ColdWallet.Proofs.RangeProof.Vectors

namespace ColdWallet.RangeProof

/-- A draw with the extra scalar of the half that opens with its index; none if there is no such
half. -/
def withExtra? (extra : Option (Bytes 32 × Bytes 32)) (index : ℕ) (draw : Scalar) :
    Option Scalar :=
  match extra with
  | none => some draw
  | some k =>
    if index % Generator.rangeBits = 0 then do
      return draw + Scalar.reduce (← [k.1, k.2][index / Generator.rangeBits]?)
    else some draw

/-- Goes over the slots from slot `i` on. The first `count` slots are overwritten with draws, from
index `base` on, and those behind them are cleared. -/
def refill? (extra : Option (Bytes 32 × Bytes 32)) (base count : ℕ) :
    (i : ℕ) → List Scalar → NonceStream → Option (List Scalar × NonceStream)
  | _, [], stream => some ([], stream)
  | i, _ :: slots, stream =>
    if count ≤ i then do
      let rest ← refill? extra base count (i + 1) slots stream
      return (0 :: rest.1, rest.2)
    else do
      let v ← withExtra? extra (base + i) stream.nextScalar.1
      let rest ← refill? extra base count (i + 1) slots stream.nextScalar.2
      return (v :: rest.1, rest.2)

/-- The slots with their tables, from index `i` on. Behind the last generator the last one is taken
again. -/
def slotTerms? : (i : ℕ) → List Scalar → Option (List (OddTable Jacobian × Scalar))
  | _, [] => some []
  | i, s :: slots => do
    let table ← Table.vector[min i (2 * Generator.rangeBits - 1)]?
    return (table, s) :: (← slotTerms? (i + 1) slots)

/-- Sweeps until every generator from index `base` on has had its turn; none if more than `limit`
sweeps are needed. The blinding joins the sweep that starts at the first generator. -/
def sweeps? (extra : Option (Bytes 32 × Bytes 32)) (rho : Scalar) :
    (limit base : ℕ) → List Scalar → NonceStream → Jacobian → Option (Jacobian × NonceStream)
  | 0, base, _, stream, sum =>
    if 2 * Generator.rangeBits ≤ base then some (sum, stream) else none
  | limit + 1, base, slots, stream, sum =>
    if 2 * Generator.rangeBits ≤ base then some (sum, stream)
    else do
      let count := min slots.length (2 * Generator.rangeBits - base)
      let filled ← refill? extra base count 0 slots stream
      let terms ← slotTerms? base filled.1
      let part := multiMul (if base = 0 then [(Table.G, rho)] else []) terms
      sweeps? extra rho limit (base + slots.length) filled.1 filled.2 (sum + part)

/-- `S` with a buffer for so many entries. The last sweep may find fewer generators left than there
are slots, and the slots behind still hold what the sweep before put there. -/
def sPointInBuffer? (window : ℕ) (extra : Option (Bytes 32 × Bytes 32)) (stream : NonceStream) :
    Option (Point × NonceStream) := do
  let swept ← sweeps? extra stream.nextScalar.1 (2 * Generator.rangeBits) 0
    (List.replicate window 0) stream.nextScalar.2 0
  return (swept.1.toPoint, swept.2)

section Refill

variable {extra : Option (Bytes 32 × Bytes 32)} {base count : ℕ}

/-- Below the number of generators, two halves open. -/
theorem withExtra?_eq {index : ℕ} (h : index < 2 * Generator.rangeBits) (draw : Scalar) :
    withExtra? extra index draw = some (draw + extraAt extra index) := by
  cases extra with
  | none => exact congrArg some (add_zero draw).symm
  | some k =>
    have hbits : Generator.rangeBits = 64 := rfl
    rw [hbits] at h
    unfold withExtra? extraAt
    simp only [hbits]
    by_cases hlow : index = 0
    · subst hlow
      rfl
    · by_cases hhigh : index = 64
      · subst hhigh
        rfl
      · rw [if_neg (by omega), if_neg hlow, if_neg hhigh, add_zero]

theorem refill?_cleared {i : ℕ} (h : count ≤ i) (slots : List Scalar) (stream : NonceStream) :
    refill? extra base count i slots stream =
      some (List.replicate slots.length 0, stream) := by
  induction slots generalizing i with
  | nil => rfl
  | cons v slots ih =>
    rw [refill?, if_pos h, ih (Nat.le_succ_of_le h)]
    rfl

variable (extra) in
theorem refill?_append {i n : ℕ} (hcount : i + n = count)
    (hbase : base + count ≤ 2 * Generator.rangeBits) {old : List Scalar} (hold : old.length = n)
    (spare : List Scalar) (stream : NonceStream) :
    refill? extra base count i (old ++ spare) stream =
      some (entriesFrom extra (base + i) (stream.scalars n).1 ++ List.replicate spare.length 0,
        (stream.scalars n).2) := by
  -- By the slots in use; those behind them are cleared at the end.
  induction n generalizing i old stream with
  | zero =>
    obtain rfl := List.length_eq_zero_iff.mp hold
    exact refill?_cleared hcount.ge spare stream
  | succ n ih =>
    obtain ⟨v, old, rfl⟩ := List.exists_cons_of_length_eq_add_one hold
    have hindex : base + i < 2 * Generator.rangeBits := by omega
    rw [List.cons_append, refill?, if_neg (by omega), withExtra?_eq hindex, Option.bind_eq_bind,
      Option.bind_some, ih (by omega) (Nat.succ.inj hold), NonceStream.scalars_succ]
    rfl

/-- What the slots held before is gone: the slots in use have the entries, and no slot behind them
keeps an entry of an earlier sweep. -/
theorem refill?_eq (hbase : base + count ≤ 2 * Generator.rangeBits) {slots : List Scalar}
    (hslots : count ≤ slots.length) (stream : NonceStream) :
    refill? extra base count 0 slots stream =
      some (entriesFrom extra base (stream.scalars count).1 ++
        List.replicate (slots.length - count) 0, (stream.scalars count).2) := by
  have hold : (slots.take count).length = count := List.length_take_of_le hslots
  have h := refill?_append extra (Nat.zero_add count) hbase hold (slots.drop count) stream
  rwa [List.take_append_drop, List.length_drop, Nat.add_zero] at h

end Refill

section Terms

/-- The generators of so many slots from index `i` on, the last one standing in behind the others. -/
def slotPoints (i k : ℕ) : List Point :=
  (List.range' i k).map fun j => Generator.ofVector (min j (2 * Generator.rangeBits - 1))

theorem length_slotPoints (i k : ℕ) : (slotPoints i k).length = k := by
  rw [slotPoints, List.length_map, List.length_range']

theorem slotPoints_succ (i k : ℕ) : slotPoints i (k + 1) =
    Generator.ofVector (min i (2 * Generator.rangeBits - 1)) :: slotPoints (i + 1) k := rfl

theorem slotPoints_add (i k l : ℕ) :
    slotPoints i (k + l) = slotPoints i k ++ slotPoints (i + k) l := by
  unfold slotPoints
  rw [← List.map_append, List.range'_append_1]

theorem slotPoints_onCurve (i k : ℕ) : ∀ p ∈ slotPoints i k, p.OnCurve := by
  unfold slotPoints
  rw [List.forall_mem_map]
  exact fun j _ => Generator.ofVector_onCurve _

theorem slotPoints_eq {i k : ℕ} (h : i + k ≤ 2 * Generator.rangeBits) :
    slotPoints i k = (Generator.vector.drop i).take k := by
  rw [Generator.vector_eq]
  apply List.ext_getElem
  · rw [length_slotPoints, List.length_take, List.length_drop, List.length_map, List.length_range]
    omega
  · intro j hj _
    rw [length_slotPoints] at hj
    have hlast : min (i + j) (2 * Generator.rangeBits - 1) = i + j := by omega
    simp [slotPoints, hlast]

theorem slotTerms?_eq (i : ℕ) (slots : List Scalar) :
    slotTerms? i slots =
      some (((slotPoints i slots.length).map (Table.odd oddsVector)).zip slots) := by
  induction slots generalizing i with
  | nil => rfl
  | cons s slots ih =>
    have hlast : min i (2 * Generator.rangeBits - 1) < 2 * Generator.rangeBits :=
      (Nat.min_le_right i _).trans_lt (by decide)
    have htable : Table.vector[min i (2 * Generator.rangeBits - 1)]? =
        some (Table.odd oddsVector
          (Generator.ofVector (min i (2 * Generator.rangeBits - 1)))) := by
      rw [Table.vector, Generator.vector_eq, List.getElem?_map, List.getElem?_map,
        List.getElem?_range hlast]
      rfl
    rw [slotTerms?, htable, ih, List.length_cons, slotPoints_succ]
    rfl

/-- Cleared slots add nothing, whatever generators they have. -/
theorem weighted_cleared (points : List Point) (k : ℕ) :
    weighted points (List.replicate k 0) = 0 := by
  unfold weighted
  apply List.sum_eq_zero
  intro P hP
  obtain ⟨t, ht, rfl⟩ := List.mem_map.mp hP
  have hzero := List.eq_of_mem_replicate (List.of_mem_zip ht).2
  rw [hzero, Scalar.residue_zero]
  exact zero_smul (ZMod groupOrder) t.1.toCurve

end Terms

section Sweep

variable {extra : Option (Bytes 32 × Bytes 32)} {base : ℕ}

/-- The generators whose turn it is in a sweep from index `base` on. -/
def turn (base window : ℕ) : List Point := (Generator.vector.drop base).take window

theorem length_vector_drop (base : ℕ) :
    (Generator.vector.drop base).length = 2 * Generator.rangeBits - base := by
  rw [List.length_drop, Generator.length_vector]

theorem length_turn (base window : ℕ) :
    (turn base window).length = min window (2 * Generator.rangeBits - base) := by
  rw [turn, List.length_take, length_vector_drop]

/-- The slots that are not in use leave the sum of a sweep to those that are. -/
theorem weighted_slots {window : ℕ} (hbase : base ≤ 2 * Generator.rangeBits)
    {entries : List Scalar} (hentries : entries.length = (turn base window).length) :
    weighted (slotPoints base window)
        (entries ++ List.replicate (window - (turn base window).length) 0) =
      weighted (turn base window) entries := by
  have hturn := length_turn base window
  have hused : slotPoints base (turn base window).length = turn base window := by
    rw [slotPoints_eq (by omega), turn, List.take_eq_take_iff, length_vector_drop, ← turn]
    omega
  have hslots : slotPoints base window = turn base window ++
      slotPoints (base + (turn base window).length) (window - (turn base window).length) := by
    conv_lhs => rw [show window = (turn base window).length +
      (window - (turn base window).length) by omega, slotPoints_add, hused]
  rw [hslots, weighted_append hentries.symm, weighted_cleared, add_zero]

variable (extra) in
/-- A sweep fills all of the buffer, and its terms sum to those of the generators whose turn it is. -/
theorem sweep_eq (hbase : base ≤ 2 * Generator.rangeBits) (slots : List Scalar)
    (stream : NonceStream) :
    let now := turn base slots.length
    let draws := stream.scalars now.length
    ∃ filled terms, filled.length = slots.length ∧
      refill? extra base now.length 0 slots stream = some (filled, draws.2) ∧
      slotTerms? base filled = some terms ∧
      ∀ secret : List (Point × Scalar), (∀ s ∈ secret, s.1.OnCurve) →
        StandsFor (multiMul (secret.map fun s => (Table.secret s.1, s.2)) terms)
          ((secret.map fun s => s.2.residue • s.1.toCurve).sum +
            weighted now (entriesFrom extra base draws.1)) := by
  intro now draws
  have hnow : now.length = min slots.length (2 * Generator.rangeBits - base) := length_turn ..
  have hentries : (entriesFrom extra base draws.1).length = now.length := by
    rw [length_entriesFrom, NonceStream.length_scalars]
  have hfilled : (entriesFrom extra base draws.1 ++
      List.replicate (slots.length - now.length) 0).length = slots.length := by
    rw [List.length_append, hentries, List.length_replicate]
    omega
  refine ⟨_, _, hfilled, refill?_eq (by omega) (by omega) stream, slotTerms?_eq base _,
    fun secret hsecret => ?_⟩
  rw [hfilled, ← weighted_slots hbase hentries]
  exact multiMul_vector secret _ _ hsecret (slotPoints_onCurve _ _)

/-- The blinding as a list of secret terms; only the sweep that starts at the first generator has
one. -/
theorem exists_blinding (rho : Scalar) (base : ℕ) :
    ∃ secret : List (Point × Scalar), (∀ s ∈ secret, s.1.OnCurve) ∧
      secret.map (fun s => (Table.secret s.1, s.2)) =
        (if base = 0 then [(Table.G, rho)] else []) ∧
      (secret.map fun s => s.2.residue • s.1.toCurve).sum =
        if base = 0 then rho.residue • curveG else 0 := by
  by_cases hfirst : base = 0
  · refine ⟨[(.base, rho)], by simpa using Point.base_onCurve, ?_, ?_⟩
    · rw [if_pos hfirst]
      rfl
    · rw [if_pos hfirst, List.map_cons, List.map_nil, List.sum_singleton]
      rfl
  · refine ⟨[], by simp, ?_, ?_⟩
    · rw [if_neg hfirst]
      rfl
    · rw [if_neg hfirst]
      rfl

/-- What the sweeps from index `base` on come to when they start with the sum `P`: the terms that are
left, and the blinding if it has still to come. -/
def Swept (extra : Option (Bytes 32 × Bytes 32)) (rho : Scalar) (base : ℕ) (stream : NonceStream)
    (P : CurvePoint) (result : Option (Jacobian × NonceStream)) : Prop :=
  let points := Generator.vector.drop base
  let draws := stream.scalars points.length
  ∃ total, result = some (total, draws.2) ∧
    StandsFor total (P + (if base = 0 then rho.residue • curveG else 0) +
      weighted points (entriesFrom extra base draws.1))

variable {rho : Scalar} {stream : NonceStream} {sum : Jacobian} {P : CurvePoint}

/-- Behind the last generator nothing is drawn and nothing added. -/
theorem sweeps?_done (hdone : 2 * Generator.rangeBits ≤ base) (limit : ℕ) (slots : List Scalar)
    (hsum : StandsFor sum P) :
    Swept extra rho base stream P (sweeps? extra rho limit base slots stream sum) := by
  have hnone : Generator.vector.drop base = [] := by
    rw [← List.length_eq_zero_iff, length_vector_drop]
    omega
  have hlate : base ≠ 0 := by
    rintro rfl
    exact absurd hdone (by decide)
  have hresult : sweeps? extra rho limit base slots stream sum = some (sum, stream) := by
    cases limit with
    | zero => rw [sweeps?, if_pos hdone]
    | succ limit => rw [sweeps?, if_pos hdone]
  unfold Swept
  rw [hnone, if_neg hlate, add_zero]
  refine ⟨sum, hresult, ?_⟩
  rwa [show weighted [] _ = 0 from rfl, add_zero]

/-- Every sweep moves on by at least one generator, so no more are needed than there are
generators. -/
theorem sweeps?_swept (limit : ℕ) {slots : List Scalar} (hslots : 0 < slots.length)
    (hlimit : 2 * Generator.rangeBits ≤ base + limit) (hsum : StandsFor sum P) :
    Swept extra rho base stream P (sweeps? extra rho limit base slots stream sum) := by
  -- What is left after a sweep starts from its sum, so `P` takes that up.
  induction limit generalizing base slots stream sum P with
  | zero => exact sweeps?_done hlimit 0 slots hsum
  | succ limit ih =>
    by_cases hdone : 2 * Generator.rangeBits ≤ base
    · exact sweeps?_done hdone (limit + 1) slots hsum
    · obtain ⟨filled, terms, hfilled, hrefill, hterms, hpart⟩ :=
        sweep_eq extra (Nat.le_of_not_le hdone) slots stream
      obtain ⟨secret, hsecret, hblinding, hblinded⟩ := exists_blinding rho base
      have hpart := hpart secret hsecret
      rw [hblinding, hblinded] at hpart
      have hlimit : 2 * Generator.rangeBits ≤ base + slots.length + limit := by omega
      obtain ⟨total, htotal, hstands⟩ :=
        ih (hfilled ▸ hslots) hlimit (Jacobian.represents.add hsum hpart)
      obtain ⟨hlast, hsplit⟩ :=
        weighted_split slots.length extra base (Generator.vector.drop base) stream
      rw [List.drop_drop] at hlast hsplit
      have hlate : base + slots.length ≠ 0 := by omega
      rw [if_neg hlate, add_zero] at hstands
      refine ⟨total, ?_, ?_⟩
      · rw [sweeps?, if_neg hdone, ← length_turn, hlast]
        simp only [hrefill, hterms, Option.bind_eq_bind, Option.bind_some]
        exact htotal
      · rw [hsplit]
        simpa only [turn, add_assoc] using hstands

end Sweep

/-- Slots, cleared entries and clamped generators come to the same as sweeps over the generators
alone. -/
theorem sPointInBuffer?_eq {window : ℕ} (hwindow : 0 < window)
    (extra : Option (Bytes 32 × Bytes 32)) (stream : NonceStream) :
    sPointInBuffer? window extra stream = some (sPoint window extra stream) := by
  generalize hdraw : stream.nextScalar = draw
  obtain ⟨rho, rest⟩ := draw
  have hslots : 0 < (List.replicate window (0 : Scalar)).length := by rwa [List.length_replicate]
  have hswept : Swept extra rho 0 rest 0
      (sweeps? extra rho (2 * Generator.rangeBits) 0 (List.replicate window 0) rest 0) :=
    sweeps?_swept _ hslots (Nat.zero_add _).ge Jacobian.represents.zero
  obtain ⟨total, htotal, hstands⟩ := hswept
  rw [List.drop_zero, Generator.length_vector] at htotal hstands
  rw [if_pos rfl, zero_add, weighted_vector extra (NonceStream.length_scalars _ _)] at hstands
  rw [sPoint_eq hwindow extra hdraw, ← hstands, sPointInBuffer?, hdraw, htotal]
  rfl

/-- For every size of the buffer: `S` is `rho` times the base point, and every draw times its
generator, the extra scalars added to the draws that open a half. The stream has then given `rho` and
a draw for each generator, and no more. -/
theorem sPoint_any_window {window : ℕ} (hwindow : 0 < window)
    (extra : Option (Bytes 32 × Bytes 32)) (stream : NonceStream) :
    let rho := stream.nextScalar.1
    let draws := stream.nextScalar.2.scalars (2 * Generator.rangeBits)
    let S := rho.residue • curveG + ∑ i ∈ Finset.range (2 * Generator.rangeBits),
      ((draws.1.getD i 0).residue + (if i = 0 then (extraScalars extra).1.residue else 0) +
        if i = Generator.rangeBits then (extraScalars extra).2.residue else 0) • curveR i
    draws.1.length = 2 * Generator.rangeBits ∧
      sPoint window extra stream = (.ofCurve S, draws.2) ∧
      sPointInBuffer? window extra stream = some (.ofCurve S, draws.2) := by
  generalize hdraw : stream.nextScalar = draw
  obtain ⟨rho, rest⟩ := draw
  have hS := sPoint_eq hwindow extra hdraw
  simp only [Scalar.residue_add, residue_extraAt, ← add_assoc] at hS
  refine ⟨NonceStream.length_scalars _ _, hS, ?_⟩
  rw [sPointInBuffer?_eq hwindow, hS]

/-- The two buffers the device is built with, twenty-two slots and all at once. -/
theorem sPoint_small_window :
    let extra := some (Scalar.toBytes 11, Scalar.toBytes 13)
    let stream : NonceStream := { key := .zero 32 }
    0 < 22 ∧ 0 < sWindow ∧ sPointInBuffer? 22 extra stream = some (sPoint sWindow extra stream) := by
  intro extra stream
  have hsmall : 0 < 22 := by decide
  have hwhole : 0 < sWindow := by decide
  have hinBuffer := (sPoint_any_window hsmall extra stream).2.2
  have hatOnce := (sPoint_any_window hwhole extra stream).2.1
  exact ⟨hsmall, hwhole, hinBuffer.trans (congrArg some hatOnce.symm)⟩

end ColdWallet.RangeProof
