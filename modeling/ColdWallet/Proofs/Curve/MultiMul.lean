import Mathlib.Algebra.Module.BigOperators
import Mathlib.Tactic.Abel
import Mathlib.Tactic.Module
import ColdWallet.Curve.MultiMul
import ColdWallet.Proofs.Curve.Order
import ColdWallet.Proofs.Curve.Recoding

namespace ColdWallet

section Windows

/-- The values of the fixed windows below a bit, each at its weight. -/
def fixedSum (v : ℕ → ℕ) : (bits : ℕ) → ℕ
  | 0 => 0
  | bit + 1 => fixedSum v bit + if bit % fixedWidth = 0 then v bit * 2 ^ bit else 0

theorem fixedSum_skip (v : ℕ → ℕ) {bit : ℕ} (h : bit % fixedWidth ≠ 0) :
    fixedSum v (bit + 1) = fixedSum v bit := by
  rw [fixedSum, if_neg h, add_zero]

theorem fixedSum_window (v : ℕ → ℕ) {bit : ℕ} (h : bit % 4 = 0) :
    fixedSum v (bit + 4) = fixedSum v bit + v bit * 2 ^ bit := by
  have hskip : ∀ j < 4, j ≠ 0 → (bit + j) % fixedWidth ≠ 0 := by
    intro j hj hpos
    unfold fixedWidth
    omega
  rw [fixedSum_skip v (hskip 3 (by omega) (by omega)),
    fixedSum_skip v (hskip 2 (by omega) (by omega)),
    fixedSum_skip v (hskip 1 (by omega) (by omega)), fixedSum,
    if_pos (show bit % fixedWidth = 0 from h)]

/-- The fixed windows of a scalar make up the scalar. -/
theorem fixedSum_shift (k n : ℕ) :
    fixedSum (fun bit => (k >>> bit) % fixedValues) (4 * n) = k % 2 ^ (4 * n) := by
  induction n with
  | zero => simp [fixedSum, Nat.mod_one]
  | succ n ih =>
    rw [mul_add, mul_one, fixedSum_window _ (Nat.mul_mod_right 4 n), ih, pow_add, Nat.mod_mul,
      Nat.shiftRight_eq_div_pow, mul_comm (2 ^ _)]
    rfl

theorem fixedSum_ones : fixedSum (fun _ => 1) Recoding.bits = offsetWeight := by
  decide +kernel

theorem fixedSum_scalar (k : Scalar) :
    fixedSum (fun bit => (k.val >>> bit) % fixedValues) Recoding.bits = k.val := by
  have h := fixedSum_shift k.val 64
  rwa [Nat.mod_eq_of_lt (k.isLt.trans (by decide))] at h

/-- The digit of the window that starts at a bit, zero if none does. -/
def digitAt (width bit : ℕ) : List Window → Int
  | w :: _ => if w.bit = bit then Window.digit width w.index else 0
  | [] => 0

/-- The windows left once the one at a bit is dropped. -/
def passed (bit : ℕ) : List Window → List Window
  | w :: rest => if w.bit = bit then rest else w :: rest
  | [] => []

theorem passed_falling {bit : ℕ} {windows : List Window}
    (h : Recoding.Falling (bit + 1) windows) : Recoding.Falling bit (passed bit windows) := by
  cases windows with
  | nil => trivial
  | cons w rest =>
    obtain ⟨hw, hrest⟩ := h
    by_cases hbit : w.bit = bit
    · rw [passed, if_pos hbit]
      exact hbit ▸ hrest
    · rw [passed, if_neg hbit]
      exact ⟨by omega, hrest⟩

theorem total_passed (width bit : ℕ) (windows : List Window) :
    Recoding.total width windows =
      digitAt width bit windows * 2 ^ bit + Recoding.total width (passed bit windows) := by
  cases windows with
  | nil => simp [passed, digitAt]
  | cons w rest =>
    by_cases hbit : w.bit = bit
    · rw [passed, if_pos hbit, digitAt, if_pos hbit, Recoding.total_cons, Window.value, hbit]
    · rw [passed, if_neg hbit, digitAt, if_neg hbit, zero_mul, zero_add]

theorem PublicTerm.pass_eq {P : Type} (bit : ℕ) (t : OddTable P) (windows : List Window) :
    PublicTerm.pass bit ⟨t, windows⟩ = ⟨t, passed bit windows⟩ := by
  cases windows with
  | nil => rfl
  | cons w rest =>
    unfold PublicTerm.pass passed
    by_cases hbit : w.bit = bit
    · simp only [if_pos hbit]
    · simp only [if_neg hbit]

theorem foldl_represents {ι P A : Type} [AddCommGroup A] {r : P → A → Prop} {f : P → ι → P}
    {v : ι → A} {l : List ι}
    (h : ∀ i ∈ l, ∀ p x, r p x → r (f p i) (x + v i)) {acc : P} {x : A} (hacc : r acc x) :
    r (l.foldl f acc) (x + (l.map v).sum) := by
  induction l generalizing acc x with
  | nil => simpa using hacc
  | cons i l ih =>
    rw [List.foldl_cons, List.map_cons, List.sum_cons, ← add_assoc]
    exact ih (fun j hj => h j (List.mem_cons_of_mem _ hj)) (h i List.mem_cons_self acc x hacc)

end Windows

section Tables

variable {P A : Type} [PointArith P] [AddCommGroup A] {r : P → A → Prop}

theorem Represents.progression (hr : Represents r) {start step : P} {s d : A} (hs : r start s)
    (hd : r step d) {count j : ℕ} (hj : j < count) :
    r ((progression start step count).toArray.getD j 0) (s + j • d) := by
  induction count generalizing start s j with
  | zero => omega
  | succ count ih =>
    cases j with
    | zero => simpa [ColdWallet.progression] using hs
    | succ j =>
      have h := ih (hr.add hs hd) (show j < count by omega)
      rw [add_assoc, ← succ_nsmul'] at h
      simpa [ColdWallet.progression] using h

/-- The table's entries are the multiples of `a`, all shifted by `o`. -/
structure SecretTable.Holds (r : P → A → Prop) (o a : A) (t : SecretTable P) : Prop where
  entry {j : ℕ} : j < fixedValues → r (t.entries.getD j 0) (o + j • a)
  correction : r t.correction (-(offsetWeight • o))

theorem SecretTable.holds_ofPoint (hr : Represents r) {p offset : P} {a o : A} (hp : r p a)
    (ho : r offset o) : (SecretTable.ofPoint p offset).Holds r o a where
  entry hj := hr.progression ho hp hj
  correction := hr.neg (hr.mulNat ho offsetWeight)

theorem SecretTable.Holds.read {t : SecretTable P} {o a : A} (h : t.Holds r o a) (k : Scalar)
    (bit : ℕ) : r (t.read k bit) (o + ((k.val >>> bit) % fixedValues) • a) :=
  h.entry (Nat.mod_lt _ (by decide))

/-- The table's entries are the odd multiples of `a`, as many as its signed windows reach. -/
structure OddTable.Holds (r : P → A → Prop) (a : A) (t : OddTable P) : Prop where
  size : t.size = 2 ^ (t.width - 1)
  odd {j : ℕ} : j < t.size → r (t.odds.getD j 0) ((2 * j + 1) • a)

namespace OddTable

theorem length_progression (start step : P) (count : ℕ) :
    (progression start step count).length = count := by
  induction count generalizing start with
  | zero => rfl
  | succ count ih => rw [progression, List.length_cons, ih]

theorem size_ofPoint (size : ℕ) (p : P) : (OddTable.ofPoint size p).size = size :=
  length_progression _ _ _

theorem holds_ofPoint (hr : Represents r) {p : P} {a : A} (hp : r p a) (n : ℕ) :
    (OddTable.ofPoint (2 ^ n) p).Holds r a where
  size := by rw [OddTable.width, size_ofPoint, Nat.log2_two_pow, Nat.add_sub_cancel]
  odd {j} hj := by
    rw [size_ofPoint] at hj
    have h := hr.progression hp (hr.double hp) hj
    rwa [← two_nsmul, ← mul_nsmul', ← succ_nsmul', mul_comm] at h

variable {t : OddTable P} {a : A}

theorem Holds.size_pos (h : t.Holds r a) : 0 < t.size := by
  rw [h.size]
  exact Nat.two_pow_pos _

theorem Holds.point (h : t.Holds r a) : r t.point a := by
  simpa [OddTable.point] using h.odd h.size_pos

theorem Holds.multiple (hr : Represents r) (h : t.Holds r a) (index : ℕ) :
    r (t.multiple index) (Window.digit t.width index • a) := by
  have hpos := h.size_pos
  unfold OddTable.multiple Window.digit
  rw [← h.size]
  by_cases hneg : t.size ≤ index
  · rw [if_pos hneg, if_pos hneg, neg_smul]
    have hodd := hr.neg (h.odd (show 2 * t.size - 1 - index < t.size by omega))
    rw [← natCast_zsmul] at hodd
    exact_mod_cast hodd
  · rw [if_neg hneg, if_neg hneg]
    have hodd := h.odd (show index < t.size by omega)
    rw [← natCast_zsmul] at hodd
    exact_mod_cast hodd

end OddTable

namespace Represents

variable {ι κ : Type} {I : List ι} {J : List κ} {T : ι → SecretTable P} {U : κ → OddTable P}
  {o : A} {a : ι → A} {b : κ → A}

/-- What the fixed windows below a bit contribute, with their offsets. -/
def fixedPart (o a : A) (k : Scalar) (bits : ℕ) : A :=
  fixedSum (fun _ => 1) bits • o + fixedSum (fun bit => (k.val >>> bit) % fixedValues) bits • a

/-- What the fixed window at a bit contributes, before its weight. -/
def fixedAt (o a : A) (k : Scalar) (bit : ℕ) : A :=
  if bit % fixedWidth = 0 then o + ((k.val >>> bit) % fixedValues) • a else 0

theorem fixedPart_succ (o a : A) (k : Scalar) (bit : ℕ) :
    fixedPart o a k (bit + 1) = 2 ^ bit • fixedAt o a k bit + fixedPart o a k bit := by
  unfold fixedPart fixedAt
  by_cases hbit : bit % fixedWidth = 0
  · rw [if_pos hbit, fixedSum, fixedSum, if_pos hbit, if_pos hbit]
    module
  · rw [if_neg hbit, fixedSum_skip _ hbit, fixedSum_skip _ hbit, smul_zero, zero_add]

theorem sum_split {ι : Type} (l : List ι) {n : ℕ} {u v w : ι → A}
    (h : ∀ i, u i = n • v i + w i) : (l.map u).sum = n • (l.map v).sum + (l.map w).sum := by
  rw [List.smul_sum, List.map_map, ← List.sum_map_add]
  exact congrArg List.sum (List.map_congr_left fun i _ => h i)

theorem secret_step (hT : ∀ i ∈ I, (T i).Holds r o (a i)) (hr : Represents r) (k : ι → Scalar)
    (bit : ℕ) {acc : P} {x : A} (hacc : r acc x) :
    r (if bit % fixedWidth = 0 then
        (I.map fun i => (T i, k i)).foldl (fun acc (t, k) => acc + t.read k bit) acc
      else acc) (x + (I.map fun i => fixedAt o (a i) (k i) bit).sum) := by
  unfold fixedAt
  by_cases hbit : bit % fixedWidth = 0
  · simp only [if_pos hbit]
    rw [List.foldl_map]
    exact foldl_represents (fun i hi p y hp => hr.add hp ((hT i hi).read (k i) bit)) hacc
  · simpa [if_neg hbit] using hacc

theorem public_step (hU : ∀ j ∈ J, (U j).Holds r (b j)) (hr : Represents r)
    (W : κ → List Window) (bit : ℕ) {acc : P} {x : A} (hacc : r acc x) :
    r ((J.map fun j => PublicTerm.mk (U j) (W j)).foldl (PublicTerm.addAt bit) acc)
      (x + (J.map fun j => digitAt (U j).width bit (W j) • b j).sum) := by
  rw [List.foldl_map]
  refine foldl_represents (fun j hj p y hp => ?_) hacc
  unfold PublicTerm.addAt digitAt
  cases W j with
  | nil => simpa using hp
  | cons w rest =>
    by_cases hbit : w.bit = bit
    · simp only [if_pos hbit]
      exact hr.add hp ((hU j hj).multiple hr w.index)
    · simpa [if_neg hbit] using hp

/-- Sweeping from a bit down doubles what there is so often, and adds every window below. -/
theorem sweep (hr : Represents r) (hT : ∀ i ∈ I, (T i).Holds r o (a i))
    (hU : ∀ j ∈ J, (U j).Holds r (b j)) (k : ι → Scalar) (bits : ℕ) {W : κ → List Window}
    (hW : ∀ j ∈ J, Recoding.Falling bits (W j)) {acc : P} {x : A} (hacc : r acc x) :
    r (ColdWallet.sweep (I.map fun i => (T i, k i)) bits acc
        (J.map fun j => PublicTerm.mk (U j) (W j)))
      (2 ^ bits • x + (I.map fun i => fixedPart o (a i) (k i) bits).sum +
        (J.map fun j => Recoding.total (U j).width (W j) • b j).sum) := by
  induction bits generalizing W acc x with
  | zero =>
    have hnil : ∀ j ∈ J, Recoding.total (U j).width (W j) • b j = 0 := by
      intro j hj
      cases hw : W j with
      | nil => rw [Recoding.total_nil, zero_smul]
      | cons w rest =>
        have h := hW j hj
        rw [hw] at h
        exact absurd h.1 (Nat.not_lt_zero _)
    rw [List.map_congr_left hnil]
    simpa [ColdWallet.sweep, fixedPart, fixedSum] using hacc
  | succ bit ih =>
    have hsecret := secret_step hT hr k bit (hr.double hacc)
    have hpublic := public_step hU hr W bit hsecret
    have h := ih (fun j hj => passed_falling (hW j hj)) hpublic
    have hI := sum_split I fun i => fixedPart_succ o (a i) (k i) bit
    have hJ : (J.map fun j => Recoding.total (U j).width (W j) • b j).sum =
        2 ^ bit • (J.map fun j => digitAt (U j).width bit (W j) • b j).sum +
          (J.map fun j => Recoding.total (U j).width (passed bit (W j)) • b j).sum := by
      refine sum_split J fun j => ?_
      rw [total_passed _ bit, add_smul, mul_comm, mul_smul]
      norm_cast
    rw [ColdWallet.sweep, List.map_map]
    simp only [Function.comp_def, PublicTerm.pass_eq]
    convert h using 1
    rw [hI, hJ]
    module

/-- The carry out of a recoding stands for one more multiple above all the windows. -/
theorem carried (hr : Represents r) (hU : ∀ j ∈ J, (U j).Holds r (b j)) (carry : κ → Bool) :
    r ((J.map fun j => (U j, carry j)).foldl
        (fun acc (t, carry) => if carry then acc + t.point else acc) 0)
      (J.map fun j => (carry j).toNat • b j).sum := by
  rw [List.foldl_map, ← zero_add (List.sum _)]
  refine foldl_represents (fun j hj p y hp => ?_) hr.zero
  cases carry j with
  | true =>
    simp only [if_true, Bool.toNat_true, one_smul]
    exact hr.add hp (hU j hj).point
  | false => simpa using hp

theorem multiMul (hr : Represents r) (hT : ∀ i ∈ I, (T i).Holds r o (a i))
    (hU : ∀ j ∈ J, (U j).Holds r (b j)) (k : ι → Scalar) (e : κ → Scalar) :
    r (ColdWallet.multiMul (I.map fun i => (T i, k i)) (J.map fun j => (U j, e j)))
      ((I.map fun i => (k i).val • a i).sum + (J.map fun j => (e j).val • b j).sum) := by
  obtain ⟨W, carry, hwindows⟩ : ∃ (W : κ → List Window) (carry : κ → Bool),
      ∀ j, Recoding.windows (U j).width (e j).val = (W j, carry j) := ⟨_, _, fun _ => rfl⟩
  have hwidth : ∀ j, 0 < (U j).width := fun j => Nat.succ_pos _
  have hcarried := hr.carried hU carry
  have hswept := hr.sweep hT hU k Recoding.bits
    (fun j _ => Recoding.windows_falling (hwidth j) (hwindows j)) hcarried
  have hcorrect : ∀ p x, r p x → r (I.foldl (fun p i => p + (T i).correction) p)
      (x + (I.map fun _ => -(offsetWeight • o)).sum) := fun p x hp =>
    foldl_represents (fun i hi q y hq => hr.add hq (hT i hi).correction) hp
  have hcorrected := hcorrect _ _ hswept
  have hI : (I.map fun i => (k i).val • a i).sum =
      1 • (I.map fun _ => -(offsetWeight • o)).sum +
        (I.map fun i => fixedPart o (a i) (k i) Recoding.bits).sum := by
    refine sum_split I fun i => ?_
    rw [fixedPart, fixedSum_ones, fixedSum_scalar]
    module
  have hJ : (J.map fun j => (e j).val • b j).sum =
      2 ^ Recoding.bits • (J.map fun j => (carry j).toNat • b j).sum +
        (J.map fun j => Recoding.total (U j).width (W j) • b j).sum := by
    refine sum_split J fun j => ?_
    have hsum := Recoding.windows_sum (hwidth j)
      ((e j).isLt.trans (by decide : groupOrder < 2 ^ Recoding.bits)) (hwindows j)
    rw [← natCast_zsmul, hsum, add_smul, add_comm, mul_comm, mul_smul]
    norm_cast
  rw [hI, hJ, one_smul]
  unfold ColdWallet.multiMul
  simp only [List.map_map, List.foldl_map, Function.comp_def, PublicTerm.start, hwindows]
    at hcorrected ⊢
  convert hcorrected using 1
  abel

end Represents

end Tables

section Indices

variable {P : Type}

/-- The entry that a window asks for is in the table: of its own multiple, or of the one whose
negative it stands for. -/
def OddTable.Reaches (t : OddTable P) (w : Window) : Prop :=
  if t.size ≤ w.index then w.index ≤ 2 * t.size - 1 ∧ 2 * t.size - 1 - w.index < t.odds.size
  else w.index < t.odds.size

theorem OddTable.reaches_of_lt {t : OddTable P} {w : Window} (h : w.index < 2 * t.size) :
    t.Reaches w := by
  have hsize : t.odds.size = t.size := rfl
  unfold Reaches
  split
  · omega
  · omega

namespace PublicTerm

/-- Passing bits drops windows and adds none. -/
theorem mem_passed {bits : List ℕ} {t : OddTable P} {windows : List Window} {w : Window}
    (h : w ∈ (bits.foldl (fun t bit => pass bit t) ⟨t, windows⟩).windows) : w ∈ windows := by
  induction bits generalizing windows with
  | nil => exact h
  | cons bit bits ih =>
    rw [List.foldl_cons, pass_eq] at h
    have hpassed := ih h
    cases windows with
    | nil => exact hpassed
    | cons v rest =>
      rw [passed] at hpassed
      split_ifs at hpassed
      · exact List.mem_cons_of_mem v hpassed
      · exact hpassed

/-- Whatever bits the sweep has passed, the windows that are left ask for entries there are. -/
theorem start_reaches {t : OddTable P} (hsize : t.size = 2 ^ (t.width - 1)) (k : Scalar)
    (bits : List ℕ) :
    ∀ w ∈ (bits.foldl (fun t bit => pass bit t) (start t k).1).windows, t.Reaches w := by
  obtain ⟨windows, carry, hwindows⟩ :
      ∃ ws carry, Recoding.windows t.width k.val = (ws, carry) := ⟨_, _, rfl⟩
  intro w hw
  simp only [start, hwindows] at hw
  refine OddTable.reaches_of_lt ?_
  rw [hsize]
  exact Recoding.windows_index_lt (Nat.succ_pos _) hwindows w (mem_passed hw)

end PublicTerm

end Indices

/-- Over all points and scalars, any offset point and any tables of a power of two of odd multiples:
the joint multiplication is the plain sum of the multiples in the group of the curve. Every value of
a fixed window has its entry, and so has every signed window at every bit of the sweep, and the
point that a carry adds. -/
theorem multiMul_eq_sum (n : ℕ) (offset : CurvePoint) (secret terms : List (CurvePoint × Scalar)) :
    let fixed (p : CurvePoint) : SecretTable Jacobian :=
      .ofPoint (.ofPoint (.ofCurve p)) (.ofPoint (.ofCurve offset))
    let odds (p : CurvePoint) : OddTable Jacobian := .ofPoint (2 ^ n) (.ofPoint (.ofCurve p))
    (multiMul (secret.map fun s => (fixed s.1, s.2))
        (terms.map fun t => (odds t.1, t.2))).toPoint =
      .ofCurve ((secret.map fun s => s.2.val • s.1).sum + (terms.map fun t => t.2.val • t.1).sum) ∧
    (∀ p (k : Scalar) (bit : ℕ), (k.val >>> bit) % fixedValues < (fixed p).entries.size) ∧
    (∀ p k (passed : List ℕ),
      ∀ w ∈ (passed.foldl (fun t bit => t.pass bit) (PublicTerm.start (odds p) k).1).windows,
        (odds p).Reaches w) ∧
    ∀ p, 0 < (odds p).odds.size := by
  intro fixed odds
  have hfixed : ∀ p, (fixed p).Holds (fun (q : Jacobian) P => q.toPoint = .ofCurve P) offset p :=
    fun p => SecretTable.holds_ofPoint Jacobian.represents (Jacobian.toPoint_ofPoint _)
      (Jacobian.toPoint_ofPoint _)
  have hodds : ∀ p, (odds p).Holds (fun (q : Jacobian) P => q.toPoint = .ofCurve P) p :=
    fun p => OddTable.holds_ofPoint Jacobian.represents (Jacobian.toPoint_ofPoint _) n
  refine ⟨?_, ?_, ?_, ?_⟩
  · exact Jacobian.represents.multiMul (fun s _ => hfixed s.1) (fun t _ => hodds t.1)
      Prod.snd Prod.snd
  · intro p k bit
    have hsize : (fixed p).entries.size = fixedValues := OddTable.length_progression _ _ _
    rw [hsize]
    exact Nat.mod_lt _ (by decide)
  · intro p k passed
    exact PublicTerm.start_reaches (hodds p).size k passed
  · intro p
    exact (hodds p).size_pos

/-- The largest scalar over eight odd multiples: a carry leaves its top, and its highest window is
subtracted. -/
theorem multiMul_eq_sum_base :
    let fixed : SecretTable Jacobian := .ofPoint (.ofPoint .base) (.ofPoint .base)
    let odds : OddTable Jacobian := .ofPoint (2 ^ 3) (.ofPoint .base)
    ∃ P, Point.base = .ofCurve P ∧
      (multiMul [(fixed, 5)] [(odds, -1)]).toPoint =
        .ofCurve (5 • P + (groupOrder - 1) • P) ∧
      ⟨126, 13⟩ ∈ (PublicTerm.start odds (-1)).1.windows ∧ odds.Reaches ⟨126, 13⟩ := by
  intro fixed odds
  obtain ⟨P, hP⟩ := Point.exists_ofCurve Point.base_onCurve
  have hwidth : odds.width = 4 := by
    rw [OddTable.width, OddTable.size_ofPoint]
    decide
  have hwindow : ⟨126, 13⟩ ∈ (PublicTerm.start odds (-1)).1.windows := by
    rw [PublicTerm.start, hwidth]
    decide +kernel
  obtain ⟨hsum, _, hreaches, _⟩ := multiMul_eq_sum 3 P [(P, 5)] [(P, -1)]
  have hfive : (5 : Scalar).val = 5 := rfl
  have hlargest : (-1 : Scalar).val = groupOrder - 1 := by decide +kernel
  simp only [hP, List.map_cons, List.map_nil, List.sum_cons, List.sum_nil, add_zero, hfive,
    hlargest] at hsum
  refine ⟨P, hP.symm, hsum, hwindow, ?_⟩
  have h := hreaches P (-1) []
  simp only [hP] at h
  exact h _ hwindow

end ColdWallet
