import ColdWallet.Proofs.RangeProof.Recovery
import ColdWallet.Proofs.RangeProof.Vectors

namespace ColdWallet.RangeProof

section Weights

/-- The weight of an entry in the folded vector. A round takes the second challenge where the bit of
the index that it halves by is set; the first round halves by the highest bit. -/
def foldWeight : List (Scalar × Scalar) → ℕ → ZMod groupOrder
  | [], _ => 1
  | e :: rounds, i =>
    (if i.testBit rounds.length then e.2.residue else e.1.residue) * foldWeight rounds i

variable {l : List Scalar} {rounds : List (Scalar × Scalar)}

theorem foldVector_cons (l : List Scalar) (e : Scalar × Scalar) (rounds : List (Scalar × Scalar)) :
    foldVector l (e :: rounds) = foldVector (foldHalves l e.1 e.2) rounds := rfl

theorem foldHalves_append {low high : List Scalar} (h : low.length = high.length) (e f : Scalar) :
    foldHalves (low ++ high) e f = List.zipWith (fun a b => a * e + b * f) low high := by
  have hhalf : (low ++ high).length / 2 = low.length := by
    rw [List.length_append]
    omega
  unfold foldHalves
  rw [hhalf, List.splitAt_eq, List.take_left, List.drop_left]

theorem getD_zipWith (g : Scalar → Scalar → Scalar) {low high : List Scalar} {i : ℕ}
    (hlow : i < low.length) (hhigh : i < high.length) :
    (List.zipWith g low high).getD i 0 = g (low.getD i 0) (high.getD i 0) := by
  have hi : i < (List.zipWith g low high).length := by
    rw [List.length_zipWith]
    omega
  rw [List.getD_eq_getElem _ _ hi, List.getD_eq_getElem _ _ hlow, List.getD_eq_getElem _ _ hhigh,
    List.getElem_zipWith]

theorem exists_halves {n : ℕ} (h : l.length = 2 * n) :
    ∃ low high, l = low ++ high ∧ low.length = n ∧ high.length = n := by
  refine ⟨l.take n, l.drop n, (List.take_append_drop n l).symm, ?_, ?_⟩
  · rw [List.length_take]
    omega
  · rw [List.length_drop]
    omega

/-- The bits of an index in the upper half, below the highest, are those of its place there. -/
theorem foldWeight_upper {n i : ℕ} (h : rounds.length ≤ n) :
    foldWeight rounds (2 ^ n + i) = foldWeight rounds i := by
  induction rounds with
  | nil => rfl
  | cons e rounds ih =>
    have hlt : rounds.length < n := h
    rw [foldWeight, foldWeight, Nat.testBit_two_pow_add_gt hlt, ih hlt.le]

/-- Each round halves the sum: an entry of the lower half and the one above it are joined under the
weight that the later rounds give to both. -/
theorem foldVector_eq_sum (h : l.length = 2 ^ rounds.length) :
    (foldVector l rounds).residue =
      ∑ i ∈ Finset.range (2 ^ rounds.length), (l.getD i 0).residue * foldWeight rounds i := by
  induction rounds generalizing l with
  | nil =>
    obtain ⟨a, rfl⟩ := List.length_eq_one_iff.mp h
    simp [foldVector, foldWeight]
  | cons e rounds ih =>
    rw [List.length_cons, pow_succ'] at h
    obtain ⟨low, high, rfl, hlow, hhigh⟩ := exists_halves h
    have hfolded : (foldHalves (low ++ high) e.1 e.2).length = 2 ^ rounds.length := by
      rw [foldHalves_append (hlow.trans hhigh.symm), List.length_zipWith, hlow, hhigh,
        Nat.min_self]
    rw [foldVector_cons, ih hfolded, foldHalves_append (hlow.trans hhigh.symm), List.length_cons,
      pow_succ', two_mul, Finset.sum_range_add, ← Finset.sum_add_distrib]
    refine Finset.sum_congr rfl fun i hi => ?_
    have hi' : i < 2 ^ rounds.length := Finset.mem_range.mp hi
    have hbit : i.testBit rounds.length = false := Nat.testBit_lt_two_pow hi'
    have hupper : (low ++ high).getD (2 ^ rounds.length + i) 0 = high.getD i 0 := by
      rw [List.getD_append_right _ _ _ _ (by omega), hlow, Nat.add_sub_cancel_left]
    rw [getD_zipWith _ (hlow ▸ hi') (hhigh ▸ hi'), List.getD_append _ _ _ _ (hlow ▸ hi'), hupper,
      foldWeight, foldWeight, foldWeight_upper le_rfl, Nat.testBit_two_pow_add_eq, hbit,
      Scalar.residue_add, Scalar.residue_mul, Scalar.residue_mul]
    simp only [Bool.not_false, Bool.false_eq_true, if_true, if_false]
    ring

/-- The first round joins entries one and three, and entries two and four. -/
example : foldVector [1, 2, 3, 4] [(5, 7), (11, 13)] =
    (1 * 5 + 3 * 7) * 11 + (2 * 5 + 4 * 7) * 13 := by decide

/-- The weight as a product over all rounds. -/
theorem foldWeight_ofFn {n : ℕ} (e : Fin n → Scalar × Scalar) (i : ℕ) :
    foldWeight (List.ofFn e) i =
      ∏ k : Fin n, if i.testBit (n - 1 - k) then (e k).2.residue else (e k).1.residue := by
  induction n with
  | zero => rfl
  | succ n ih =>
    rw [List.ofFn_succ, foldWeight, ih, Fin.prod_univ_succ, List.length_ofFn]
    have hplace : ∀ k : Fin n, n + 1 - 1 - (k.succ : ℕ) = n - 1 - (k : ℕ) := by
      intro k
      rw [Fin.val_succ]
      omega
    simp only [hplace]
    rfl

theorem foldWeight_ofFn_zero {n : ℕ} (e : Fin n → Scalar × Scalar) :
    foldWeight (List.ofFn e) 0 = ∏ k, (e k).1.residue := by
  rw [foldWeight_ofFn]
  simp only [Nat.zero_testBit, Bool.false_eq_true, if_false]

/-- The first entry takes the first challenge of every round. -/
theorem foldWeight_zero (rounds : List (Scalar × Scalar)) :
    foldWeight rounds 0 = (rounds.map fun e => e.1.residue).prod := by
  induction rounds with
  | nil => rfl
  | cons e rounds ih =>
    rw [foldWeight, Nat.zero_testBit, if_neg Bool.false_ne_true, ih, List.map_cons, List.prod_cons]

/-- What an extra scalar is divided by is `x` times the weight of the first entry. -/
theorem residue_extraWeight (x : Scalar) (rounds : List (Scalar × Scalar)) :
    (extraWeight x (rounds.map Prod.fst)).residue = x.residue * foldWeight rounds 0 := by
  rw [foldWeight_zero]
  unfold extraWeight
  induction rounds generalizing x with
  | nil => exact (mul_one _).symm
  | cons e rounds ih =>
    rw [List.map_cons, List.foldl_cons, ih, List.map_cons, List.prod_cons, Scalar.residue_mul,
      mul_assoc]

/-- What is added to the first entry enters the folded scalar with its weight. -/
theorem foldVector_set_zero (h : l.length = 2 ^ rounds.length) (d : Scalar) :
    (foldVector (l.set 0 (l.getD 0 0 + d)) rounds).residue =
      (foldVector l rounds).residue + d.residue * foldWeight rounds 0 := by
  have hpos : 0 < l.length := h ▸ Nat.two_pow_pos _
  obtain ⟨n, hn⟩ : ∃ n, 2 ^ rounds.length = n + 1 := ⟨_, (Nat.succ_pred_eq_of_pos
    (Nat.two_pow_pos _)).symm⟩
  have hset : (l.set 0 (l.getD 0 0 + d)).length = 2 ^ rounds.length := by
    rw [List.length_set, h]
  rw [foldVector_eq_sum hset, foldVector_eq_sum h, hn, Finset.sum_range_succ',
    Finset.sum_range_succ']
  cases l with
  | nil => exact absurd rfl hpos.ne
  | cons a l =>
    simp only [List.set_cons_zero, List.getD_cons_zero, List.getD_cons_succ, Scalar.residue_add]
    ring

/-- Dividing by the weight gives back what the draw behind the first entry was raised by. -/
theorem recoverExtra?_set_zero {x : Scalar} (hx : x ≠ 0) (hrounds : ∀ e ∈ rounds, e.1 ≠ 0)
    (h : l.length = 2 ^ rounds.length) (k : Scalar) :
    recoverExtra? (foldVector (l.set 0 (l.getD 0 0 + k * x)) rounds) (foldVector l rounds) x
      (rounds.map Prod.fst) = some k := by
  have hes : ∀ e ∈ rounds.map Prod.fst, e ≠ 0 := by
    rw [List.forall_mem_map]
    exact hrounds
  obtain ⟨k', hk', hunique⟩ := Scalar.exists_solution (extraWeight_ne_zero hx hes)
    (foldVector (l.set 0 (l.getD 0 0 + k * x)) rounds) (foldVector l rounds)
  have hsum : foldVector (l.set 0 (l.getD 0 0 + k * x)) rounds =
      foldVector l rounds + k * extraWeight x (rounds.map Prod.fst) := by
    apply Scalar.residue.injective
    rw [foldVector_set_zero h, Scalar.residue_add, Scalar.residue_mul, Scalar.residue_mul,
      residue_extraWeight, mul_assoc]
  rw [recoverExtra?, hk', (hunique k).mp hsum]

section Given

variable {n : ℕ} (e : Fin n → Scalar × Scalar)

/-- A folded vector as one sum over all entries, for rounds with these challenges. -/
theorem foldVector_ofFn (h : l.length = 2 ^ n) :
    (foldVector l (List.ofFn e)).residue = ∑ i ∈ Finset.range (2 ^ n), (l.getD i 0).residue *
      ∏ k : Fin n, if i.testBit (n - 1 - k) then (e k).2.residue else (e k).1.residue := by
  have hlength : l.length = 2 ^ (List.ofFn e).length := by rw [h, List.length_ofFn]
  rw [foldVector_eq_sum hlength, List.length_ofFn]
  simp only [foldWeight_ofFn]

theorem foldVector_ofFn_set_zero (h : l.length = 2 ^ n) (d : Scalar) :
    (foldVector (l.set 0 (l.getD 0 0 + d)) (List.ofFn e)).residue =
      (foldVector l (List.ofFn e)).residue + d.residue * ∏ k, (e k).1.residue := by
  have hlength : l.length = 2 ^ (List.ofFn e).length := by rw [h, List.length_ofFn]
  rw [foldVector_set_zero hlength, foldWeight_ofFn_zero]

theorem residue_extraWeight_ofFn (x : Scalar) :
    (extraWeight x ((List.ofFn e).map Prod.fst)).residue = x.residue * ∏ k, (e k).1.residue := by
  rw [residue_extraWeight, foldWeight_ofFn_zero]

theorem recoverExtra?_ofFn_set_zero {x : Scalar} (hx : x ≠ 0) (he : ∀ k, (e k).1 ≠ 0)
    (h : l.length = 2 ^ n) (d : Scalar) :
    recoverExtra? (foldVector (l.set 0 (l.getD 0 0 + d * x)) (List.ofFn e))
      (foldVector l (List.ofFn e)) x ((List.ofFn e).map Prod.fst) = some d := by
  have hlength : l.length = 2 ^ (List.ofFn e).length := by rw [h, List.length_ofFn]
  have hne : ∀ e' ∈ List.ofFn e, e'.1 ≠ 0 := by
    intro e' hmem
    obtain ⟨k, rfl⟩ := List.mem_ofFn.mp hmem
    exact he k
  exact recoverExtra?_set_zero hx hne hlength d

end Given

end Weights

inductive Side where
  | left
  | right

/-- What runs along with the entries of the right vector: the power of `y`, and the doubled square
of `z`. -/
structure Powers where
  y : Scalar
  doubled : Scalar

namespace Side

/-- The challenges of a round for the lower and the upper half. -/
def pair : Side → Scalar × Scalar → Scalar × Scalar
  | left, e => e
  | right, e => (e.2, e.1)

def entry : Side → Challenges → Powers → (bit : Bool) → (draw : Scalar) → Scalar
  | left, c, _, bit, s => s * c.x - c.lessBit bit
  | right, c, w, bit, s => s * c.x * w.y + c.lessBit (!bit) * w.y + w.doubled

def advance : Side → Challenges → Powers → Powers
  | left, _, w => w
  | right, c, w => ⟨w.y * c.y, w.doubled * 2⟩

def entries (side : Side) (c : Challenges) (amount : UInt64) :
    (i : ℕ) → Powers → List Scalar → List Scalar
  | _, _, [] => []
  | i, w, s :: draws =>
    side.entry c w (amount.toNat.testBit i) s ::
      side.entries c amount (i + 1) (side.advance c w) draws

end Side

/-- The slots with one of them written, unless it is not there. -/
def store? (slots : List Scalar) (i : ℕ) (v : Scalar) : Option (List Scalar) :=
  if i < slots.length then some (slots.set i v) else none

/-- Folds entry `i` into its slot: one of the lower half is put there, one of the upper half is
added to what the slot holds. -/
def gatherSlot? (half : ℕ) (e : Scalar × Scalar) (i : ℕ) (v : Scalar) (slots : List Scalar) :
    Option (List Scalar) :=
  if i < half then store? slots i (v * e.1)
  else do store? slots (i - half) ((← slots[i - half]?) + v * e.2)

/-- Draws the entries from `i` on, and folds each at once. -/
def gather? (side : Side) (c : Challenges) (amount : UInt64) (e : Scalar × Scalar) (half : ℕ) :
    (i n : ℕ) → NonceStream → Powers → List Scalar → Option (NonceStream × Powers × List Scalar)
  | _, 0, stream, w, slots => some (stream, w, slots)
  | i, n + 1, stream, w, slots => do
    let v := side.entry c w (amount.toNat.testBit i) stream.nextScalar.1
    let slots ← gatherSlot? half e i v slots
    gather? side c amount e half (i + 1) n stream.nextScalar.2 (side.advance c w) slots

/-- Folds the slots from `i` on, each with the one `step` behind it. -/
def foldSlots? (e : Scalar × Scalar) (step : ℕ) : (i n : ℕ) → List Scalar → Option (List Scalar)
  | _, 0, slots => some slots
  | i, n + 1, slots => do
    let v := (← slots[i]?) * e.1 + (← slots[step + i]?) * e.2
    foldSlots? e step (i + 1) n (← store? slots i v)

/-- Halves the slots that are in use in every round. -/
def foldRounds? : (used : ℕ) → List (Scalar × Scalar) → List Scalar → Option (List Scalar)
  | _, [], slots => some slots
  | used, e :: rounds, slots => do
    foldRounds? (used / 2) rounds (← foldSlots? e (used / 2) 0 (used / 2) slots)

/-- One vector gathered and folded in half as many slots as it has entries. -/
def condenseSide? (side : Side) (c : Challenges) (amount : UInt64) (half : ℕ)
    (rounds : List (Scalar × Scalar)) (stream : NonceStream) (w : Powers) :
    Option (Scalar × NonceStream × Powers) := do
  let e ← rounds.head?
  let gathered ← gather? side c amount (side.pair e) half 0 (half + half) stream w
    (List.replicate half 0)
  let slots ← foldRounds? half (rounds.tail.map side.pair) gathered.2.2
  return (← slots[0]?, gathered.1, gathered.2.1)

def condenseInPlace? (stream : NonceStream) (amount : UInt64) (c : Challenges)
    (rounds : List (Scalar × Scalar)) : Option (Scalar × Scalar) := do
  let half := Generator.rangeBits / 2
  let left ← condenseSide? .left c amount half rounds stream ⟨1, c.z * c.z⟩
  let right ← condenseSide? .right c amount half rounds left.2.1 left.2.2
  return (left.1, right.1)

section InPlace

variable {side : Side} {c : Challenges} {amount : UInt64} {e : Scalar × Scalar}
  {rounds : List (Scalar × Scalar)}

theorem Side.entries_left (w : Powers) (i : ℕ) (draws : List Scalar) :
    left.entries c amount i w draws = leftEntries c amount i draws := by
  induction draws generalizing i with
  | nil => rfl
  | cons s draws ih =>
    rw [entries, leftEntries, ← ih (i + 1)]
    rfl

theorem Side.entries_right (w : Powers) (i : ℕ) (draws : List Scalar) :
    right.entries c amount i w draws = rightEntries c amount i w.y w.doubled draws := by
  induction draws generalizing i w with
  | nil => rfl
  | cons s draws ih =>
    rw [entries, rightEntries, ih]
    rfl

theorem Side.length_entries (i : ℕ) (w : Powers) (draws : List Scalar) :
    (side.entries c amount i w draws).length = draws.length := by
  induction draws generalizing i w with
  | nil => rfl
  | cons s draws ih => rw [entries, List.length_cons, List.length_cons, ih]

theorem Side.entries_append (i : ℕ) (w : Powers) (draws more : List Scalar) :
    side.entries c amount i w (draws ++ more) = side.entries c amount i w draws ++
      side.entries c amount (i + draws.length) ((side.advance c)^[draws.length] w) more := by
  induction draws generalizing i w with
  | nil => rfl
  | cons s draws ih =>
    rw [List.cons_append, entries, entries, ih, List.length_cons, Function.iterate_succ_apply,
      Nat.add_right_comm i, List.cons_append]
    rfl

theorem getElem?_behind {front back : List Scalar} {v : Scalar} {i : ℕ} (h : i = front.length) :
    (front ++ v :: back)[i]? = some v := by
  rw [h, List.getElem?_append_right le_rfl, Nat.sub_self, List.getElem?_cons_zero]

theorem store?_behind {front back : List Scalar} {u v : Scalar} {i : ℕ} (h : i = front.length) :
    store? (front ++ u :: back) i v = some (front ++ v :: back) := by
  have hi : i < (front ++ u :: back).length := by
    rw [List.length_append, List.length_cons]
    omega
  rw [store?, if_pos hi, h, List.set_append_right _ _ le_rfl, Nat.sub_self, List.set_cons_zero]

theorem gatherSlot?_lower {half i : ℕ} (hi : i < half) {front back : List Scalar}
    (hfront : i = front.length) (u v : Scalar) :
    gatherSlot? half e i v (front ++ u :: back) = some (front ++ v * e.1 :: back) := by
  rw [gatherSlot?, if_pos hi, store?_behind hfront]

theorem gatherSlot?_upper {half i : ℕ} {front back : List Scalar} (hfront : half + front.length = i)
    (u v : Scalar) :
    gatherSlot? half e i v (front ++ u :: back) = some (front ++ (u + v * e.2) :: back) := by
  have hplace : i - half = front.length := by omega
  rw [gatherSlot?, if_neg (by omega), getElem?_behind hplace]
  exact store?_behind hplace

theorem gather?_lower {half i n : ℕ} (h : i + n ≤ half) (stream : NonceStream) (w : Powers)
    {done old : List Scalar} (hdone : i = done.length) (hold : old.length = n) :
    gather? side c amount e half i n stream w (done ++ old) =
      some ((stream.scalars n).2, (side.advance c)^[n] w,
        done ++ (side.entries c amount i w (stream.scalars n).1).map (· * e.1)) := by
  induction n generalizing i stream w done old with
  | zero =>
    obtain rfl := List.length_eq_zero_iff.mp hold
    rfl
  | succ n ih =>
    obtain ⟨u, old, rfl⟩ := List.exists_cons_of_length_eq_add_one hold
    have hi : i < half := by omega
    have hdone' (v : Scalar) : i + 1 = (done ++ [v]).length := by
      rw [List.length_append, hdone]
      rfl
    rw [gather?, gatherSlot?_lower hi hdone, Option.bind_eq_bind, Option.bind_some,
      List.append_cons, ih (by omega) _ _ (hdone' _) (Nat.succ.inj hold), NonceStream.scalars_succ,
      Side.entries, Function.iterate_succ_apply, List.map_cons, List.append_assoc,
      List.singleton_append]

/-- The upper half is added to what the lower half left, slot by slot. -/
theorem gather?_upper {half i n : ℕ} (stream : NonceStream) (w : Powers) {done lower : List Scalar}
    (hdone : half + done.length = i) (hlower : lower.length = n) :
    gather? side c amount e half i n stream w (done ++ lower) =
      some ((stream.scalars n).2, (side.advance c)^[n] w,
        done ++ List.zipWith (fun a b => a + b * e.2) lower
          (side.entries c amount i w (stream.scalars n).1)) := by
  induction n generalizing i stream w done lower with
  | zero =>
    obtain rfl := List.length_eq_zero_iff.mp hlower
    rfl
  | succ n ih =>
    obtain ⟨u, lower, rfl⟩ := List.exists_cons_of_length_eq_add_one hlower
    have hdone' (v : Scalar) : half + (done ++ [v]).length = i + 1 := by
      rw [List.length_append, ← hdone]
      rfl
    rw [gather?, gatherSlot?_upper hdone, Option.bind_eq_bind, Option.bind_some,
      List.append_cons, ih _ _ (hdone' _) (Nat.succ.inj hlower), NonceStream.scalars_succ,
      Side.entries, Function.iterate_succ_apply, List.zipWith_cons_cons, List.append_assoc,
      List.singleton_append]

theorem gather?_add (half i m n : ℕ) (stream : NonceStream) (w : Powers) (slots : List Scalar) :
    gather? side c amount e half i (m + n) stream w slots =
      (gather? side c amount e half i m stream w slots).bind fun g =>
        gather? side c amount e half (i + m) n g.1 g.2.1 g.2.2 := by
  induction m generalizing i stream w slots with
  | zero =>
    rw [Nat.zero_add]
    rfl
  | succ m ih =>
    rw [Nat.succ_add, gather?, gather?, Option.bind_eq_bind, Option.bind_assoc]
    congr 1
    funext slots
    rw [ih, Nat.add_right_comm i]
    rfl

/-- Gathering is the first round, over all of the entries. -/
theorem gather?_eq (half : ℕ) (stream : NonceStream) (w : Powers) :
    gather? side c amount e half 0 (half + half) stream w (List.replicate half 0) =
      some ((stream.scalars (half + half)).2, (side.advance c)^[half + half] w,
        foldHalves (side.entries c amount 0 w (stream.scalars (half + half)).1) e.1 e.2) := by
  have hlower : gather? side c amount e half 0 half stream w ([] ++ List.replicate half 0) = _ :=
    gather?_lower (Nat.zero_add half).le stream w rfl List.length_replicate
  have hentries : ((side.entries c amount 0 w (stream.scalars half).1).map (· * e.1)).length =
      half := by
    rw [List.length_map, Side.length_entries, NonceStream.length_scalars]
  have hupper : gather? side c amount e half half half (stream.scalars half).2
      ((side.advance c)^[half] w) ([] ++ _) = _ :=
    gather?_upper (stream.scalars half).2 ((side.advance c)^[half] w) (Nat.add_zero half) hentries
  rw [List.nil_append, List.nil_append] at hlower
  rw [List.nil_append, List.nil_append] at hupper
  rw [gather?_add, hlower, Option.bind_some, Nat.zero_add, hupper, NonceStream.scalars_add,
    Side.entries_append, NonceStream.length_scalars, Nat.zero_add, foldHalves_append,
    List.zipWith_map_left, Nat.add_comm half half, Function.iterate_add_apply]
  rw [Side.length_entries, Side.length_entries, NonceStream.length_scalars,
    NonceStream.length_scalars]

/-- A slot is written once nothing reads it any more: those that are written stand before all that
are still to be read. -/
theorem foldSlots?_eq {i n step : ℕ} {done low passed high : List Scalar} (hdone : i = done.length)
    (hlow : low.length = n) (hpassed : passed.length = i) (hhigh : high.length = n)
    (hstep : step = i + n) (rest : List Scalar) :
    foldSlots? e step i n (done ++ (low ++ (passed ++ (high ++ rest)))) =
      some (done ++ (List.zipWith (fun a b => a * e.1 + b * e.2) low high ++
        (passed ++ (high ++ rest)))) := by
  induction n generalizing i done low passed high with
  | zero =>
    obtain rfl := List.length_eq_zero_iff.mp hlow
    rfl
  | succ n ih =>
    obtain ⟨a, low, rfl⟩ := List.exists_cons_of_length_eq_add_one hlow
    obtain ⟨b, high, rfl⟩ := List.exists_cons_of_length_eq_add_one hhigh
    simp only [List.cons_append]
    have hplace : step + i = (done ++ a :: (low ++ passed)).length := by
      simp only [List.length_append, List.length_cons] at hlow ⊢
      omega
    have hbehind : done ++ a :: (low ++ (passed ++ b :: (high ++ rest))) =
        done ++ a :: (low ++ passed) ++ b :: (high ++ rest) := by
      simp only [List.append_assoc, List.cons_append]
    have hhigh_read : (done ++ a :: (low ++ passed) ++ b :: (high ++ rest))[step + i]? = some b :=
      getElem?_behind hplace
    rw [← hbehind] at hhigh_read
    have hdone' (v : Scalar) : i + 1 = (done ++ [v]).length := by
      rw [List.length_append, hdone]
      rfl
    have hpassed' : (passed ++ [b]).length = i + 1 := by
      rw [List.length_append, hpassed]
      rfl
    rw [foldSlots?, getElem?_behind hdone, hhigh_read]
    simp only [Option.bind_eq_bind, Option.bind_some, store?_behind hdone]
    rw [List.append_cons, List.append_cons passed, ih (hdone' _) (Nat.succ.inj hlow) hpassed'
      (Nat.succ.inj hhigh) (by omega), List.zipWith_cons_cons, List.append_assoc done]
    rfl

/-- The slots in use open with the folded vector after every round. -/
theorem foldRounds?_eq {l : List Scalar} (h : l.length = 2 ^ rounds.length) (rest : List Scalar) :
    ∃ rest', foldRounds? l.length rounds (l ++ rest) = some (foldVector l rounds :: rest') := by
  induction rounds generalizing l rest with
  | nil =>
    obtain ⟨a, rfl⟩ := List.length_eq_one_iff.mp h
    exact ⟨rest, rfl⟩
  | cons e rounds ih =>
    rw [List.length_cons, pow_succ'] at h
    obtain ⟨low, high, rfl, hlow, hhigh⟩ := exists_halves h
    have hfolded : foldHalves (low ++ high) e.1 e.2 = _ :=
      foldHalves_append (hlow.trans hhigh.symm) e.1 e.2
    have hlength : (foldHalves (low ++ high) e.1 e.2).length = 2 ^ rounds.length := by
      rw [hfolded, List.length_zipWith, hlow, hhigh, Nat.min_self]
    have hused : (low ++ high).length / 2 = 2 ^ rounds.length := by omega
    have hround : foldSlots? e _ 0 _ (low ++ (high ++ rest)) = some (_ ++ (high ++ rest)) :=
      @foldSlots?_eq e 0 _ _ [] low [] high rfl hlow rfl hhigh (Nat.zero_add _).symm rest
    rw [← hfolded] at hround
    obtain ⟨rest', hrest⟩ := ih hlength (high ++ rest)
    refine ⟨rest', ?_⟩
    rw [hlength] at hrest
    rw [foldRounds?, hused, List.append_assoc, hround, Option.bind_eq_bind, Option.bind_some, hrest,
      foldVector_cons]

theorem condenseSide?_eq {half : ℕ} (h : half + half = 2 ^ rounds.length)
    (hsome : rounds ≠ []) (stream : NonceStream) (w : Powers) :
    condenseSide? side c amount half rounds stream w =
      some (foldVector (side.entries c amount 0 w (stream.scalars (half + half)).1)
        (rounds.map side.pair), (stream.scalars (half + half)).2,
        (side.advance c)^[half + half] w) := by
  cases rounds with
  | nil => exact absurd rfl hsome
  | cons e rounds =>
    have hentries : (side.entries c amount 0 w (stream.scalars (half + half)).1).length =
        2 * half := by
      rw [Side.length_entries, NonceStream.length_scalars, two_mul]
    obtain ⟨low, high, hvector, hlow, hhigh⟩ := exists_halves hentries
    rw [List.length_cons, pow_succ'] at h
    have hlength : (foldHalves (low ++ high) (side.pair e).1 (side.pair e).2).length = half := by
      rw [foldHalves_append (hlow.trans hhigh.symm), List.length_zipWith, hlow, hhigh, Nat.min_self]
    have hpow : (foldHalves (low ++ high) (side.pair e).1 (side.pair e).2).length =
        2 ^ (rounds.map side.pair).length := by
      rw [hlength, List.length_map]
      omega
    obtain ⟨rest, hrest⟩ := foldRounds?_eq hpow []
    rw [hlength, List.append_nil] at hrest
    unfold condenseSide?
    rw [List.head?_cons, List.tail_cons]
    simp only [Option.bind_eq_bind, Option.bind_some, gather?_eq, hvector, hrest,
      List.getElem?_cons_zero, List.map_cons, foldVector_cons]
    rfl

theorem Side.iterate_advance_left (n : ℕ) (w : Powers) : (left.advance c)^[n] w = w :=
  congrFun (Function.iterate_id n) w

/-- Both ways of folding give the same scalars, and no slot is ever missing. -/
theorem condenseInPlace?_eq (h : rounds.length = foldRounds) (stream : NonceStream) :
    condenseInPlace? stream amount c rounds = some (condense stream amount c rounds) := by
  have hhalf : Generator.rangeBits / 2 + Generator.rangeBits / 2 = Generator.rangeBits := by decide
  have hpow : Generator.rangeBits / 2 + Generator.rangeBits / 2 = 2 ^ rounds.length := by
    rw [h]
    decide
  have hsome : rounds ≠ [] := by
    rintro rfl
    cases h
  have hleft : rounds.map Side.left.pair = rounds := List.map_id rounds
  have hright : rounds.map Side.right.pair = rounds.map Prod.swap := rfl
  unfold condenseInPlace?
  simp only [condenseSide?_eq hpow hsome, Option.bind_eq_bind, Option.bind_some, hhalf,
    Side.iterate_advance_left, Side.entries_left, Side.entries_right, hleft, hright]
  rfl

end InPlace

theorem length_vectors (stream : NonceStream) (amount : UInt64) (c : Challenges) :
    (vectors stream amount c).1.length = Generator.rangeBits ∧
      (vectors stream amount c).2.length = Generator.rangeBits := by
  unfold vectors
  exact ⟨(length_leftEntries ..).trans (NonceStream.length_scalars ..),
    (length_rightEntries ..).trans (NonceStream.length_scalars ..)⟩

theorem residue_vectors (stream : NonceStream) (amount : UInt64) (c : Challenges) {i : ℕ}
    (hi : i < Generator.rangeBits) :
    let draws := (stream.scalars (2 * Generator.rangeBits)).1
    ((vectors stream amount c).1.getD i 0).residue =
        (draws.getD i 0).residue * c.x.residue - c.z.residue + amountBit amount i ∧
      ((vectors stream amount c).2.getD i 0).residue =
        c.y.residue ^ i * ((draws.getD (Generator.rangeBits + i) 0).residue * c.x.residue +
          c.z.residue - 1 + amountBit amount i) + c.z.residue ^ 2 * 2 ^ i := by
  obtain ⟨left, right, hleft, hright, hdraws, hvectors⟩ := exists_draws stream amount c
  have hlower : (left ++ right).getD i 0 = left.getD i 0 :=
    List.getD_append _ _ _ _ (hleft.symm ▸ hi)
  have hupper : (left ++ right).getD (Generator.rangeBits + i) 0 = right.getD i 0 := by
    rw [List.getD_append_right _ _ _ _ (hleft.le.trans (Nat.le_add_right _ i)), hleft,
      Nat.add_sub_cancel_left]
  simp only [hdraws, hvectors, hlower, hupper]
  rw [residue_leftEntries c amount 0 (hleft.symm ▸ hi),
    residue_rightEntries c amount 0 1 (c.z * c.z) (hright.symm ▸ hi), Nat.zero_add,
    Scalar.residue_one, one_mul, Scalar.residue_mul, pow_two]
  exact ⟨rfl, rfl⟩

/-- Folding is an inner product. Entry `i` of the left vector enters the folded scalar with one
challenge of every round, the second where the bit of `i` that the round halves by is set and the
first elsewhere; the right vector takes them the other way round. The two vectors folded in one set
of slots give the same. What is added to a first entry enters with all first challenges, which
recovery divides by: it finds the extra scalar that the draw behind the entry was raised by. -/
theorem condense_eq_sum (stream : NonceStream) (amount : UInt64) (c : Challenges)
    (e : Fin foldRounds → Scalar × Scalar) :
    let s (i : ℕ) := ((stream.scalars (2 * Generator.rangeBits)).1.getD i 0).residue
    let v₀ (i : ℕ) := s i * c.x.residue - c.z.residue + amountBit amount i
    let v₁ (i : ℕ) := c.y.residue ^ i * (s (Generator.rangeBits + i) * c.x.residue + c.z.residue -
      1 + amountBit amount i) + c.z.residue ^ 2 * 2 ^ i
    let rounds := List.ofFn e
    let left := (vectors stream amount c).1
    let right := (vectors stream amount c).2
    let folded := condense stream amount c rounds
    condenseInPlace? stream amount c rounds = some folded ∧
    (folded.1.residue = ∑ i ∈ Finset.range Generator.rangeBits, v₀ i *
      ∏ k : Fin foldRounds,
        if i.testBit (foldRounds - 1 - k) then (e k).2.residue else (e k).1.residue) ∧
    (folded.2.residue = ∑ i ∈ Finset.range Generator.rangeBits, v₁ i *
      ∏ k : Fin foldRounds,
        if i.testBit (foldRounds - 1 - k) then (e k).1.residue else (e k).2.residue) ∧
    (∀ d, (foldVector (left.set 0 (left.getD 0 0 + d)) rounds).residue =
        folded.1.residue + d.residue * ∏ k, (e k).1.residue ∧
      (foldVector (right.set 0 (right.getD 0 0 + d)) (rounds.map Prod.swap)).residue =
        folded.2.residue + d.residue * ∏ k, (e k).2.residue) ∧
    (extraWeight c.x (rounds.map Prod.fst)).residue = c.x.residue * ∏ k, (e k).1.residue ∧
    (extraWeight c.x (rounds.map Prod.snd)).residue = c.x.residue * ∏ k, (e k).2.residue ∧
    (c.x ≠ 0 → (∀ k, (e k).1 ≠ 0 ∧ (e k).2 ≠ 0) → ∀ d,
      recoverExtra? (foldVector (left.set 0 (left.getD 0 0 + d * c.x)) rounds) folded.1 c.x
          (rounds.map Prod.fst) = some d ∧
        recoverExtra? (foldVector (right.set 0 (right.getD 0 0 + d * c.x)) (rounds.map Prod.swap))
          folded.2 c.x (rounds.map Prod.snd) = some d) := by
  intro s v₀ v₁ rounds left right folded
  have hpow : Generator.rangeBits = 2 ^ foldRounds := by decide
  -- The right vector is folded as the left one, under challenges that have changed places.
  have hswapped : rounds.map Prod.swap = List.ofFn fun k => (e k).swap := List.map_ofFn ..
  have hsecond : rounds.map Prod.snd = (rounds.map Prod.swap).map Prod.fst :=
    List.map_map.symm
  have hentries (i : ℕ) (hi : i < Generator.rangeBits) :
      (left.getD i 0).residue = v₀ i ∧ (right.getD i 0).residue = v₁ i :=
    residue_vectors stream amount c hi
  have hinPlace : condenseInPlace? stream amount c rounds = some folded :=
    condenseInPlace?_eq List.length_ofFn stream
  have hfolded : folded = (foldVector left rounds, foldVector right (rounds.map Prod.swap)) := rfl
  obtain ⟨hleft, hright⟩ : left.length = Generator.rangeBits ∧ right.length = Generator.rangeBits :=
    length_vectors stream amount c
  -- Both vectors are given by their entries from here on, so that nothing runs the stream.
  clear_value left right folded v₀ v₁
  rw [hpow] at hleft hright hentries
  rw [hsecond, hswapped, hpow]
  rw [hswapped] at hfolded
  refine ⟨hinPlace, ?_, ?_, fun d => ⟨?_, ?_⟩, ?_, ?_, fun hx he d => ⟨?_, ?_⟩⟩
  · rw [hfolded, foldVector_ofFn e hleft]
    refine Finset.sum_congr rfl fun i hi => ?_
    rw [(hentries i (Finset.mem_range.mp hi)).1]
  · rw [hfolded, foldVector_ofFn _ hright]
    refine Finset.sum_congr rfl fun i hi => ?_
    rw [(hentries i (Finset.mem_range.mp hi)).2]
    simp only [Prod.fst_swap, Prod.snd_swap]
  · rw [hfolded, foldVector_ofFn_set_zero e hleft]
  · rw [hfolded, foldVector_ofFn_set_zero _ hright]
    simp only [Prod.fst_swap]
  · exact residue_extraWeight_ofFn e c.x
  · exact residue_extraWeight_ofFn _ c.x
  · rw [hfolded, recoverExtra?_ofFn_set_zero e hx (fun k => (he k).1) hleft]
  · rw [hfolded, recoverExtra?_ofFn_set_zero _ hx (fun k => (he k).2) hright]

/-- Three is found on the draws behind the first entries of both vectors, where every round has the
challenges two and five. -/
theorem condense_eq_sum_extras :
    let c : Challenges := ⟨3, 5, 7⟩
    let stream : NonceStream := { key := .zero 32 }
    let rounds : List (Scalar × Scalar) := List.ofFn fun _ : Fin foldRounds => (2, 5)
    let left := (vectors stream 9 c).1
    let right := (vectors stream 9 c).2
    let folded := condense stream 9 c rounds
    recoverExtra? (foldVector (left.set 0 (left.getD 0 0 + 3 * c.x)) rounds) folded.1 c.x
        (rounds.map Prod.fst) = some 3 ∧
      recoverExtra? (foldVector (right.set 0 (right.getD 0 0 + 3 * c.x)) (rounds.map Prod.swap))
        folded.2 c.x (rounds.map Prod.snd) = some 3 := by
  intro c stream rounds left right folded
  have hx : c.x ≠ 0 := by decide
  have he : ∀ _ : Fin foldRounds, (2 : Scalar) ≠ 0 ∧ (5 : Scalar) ≠ 0 := fun _ => by decide
  exact (condense_eq_sum stream 9 c fun _ => (2, 5)).2.2.2.2.2.2 hx he 3

end ColdWallet.RangeProof
