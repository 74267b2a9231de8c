import ColdWallet.Proofs.Wire.RoundTrip

namespace ColdWallet

section Cursors

variable {α : Type}

/-- What is read of a section of so many records: all of them where the bytes hold the section, and
else those before the cut, with one error behind them. -/
structure Layout.Reads (a : Layout α) (n : ℕ) (l : List UInt8)
    (entries : List (Except WireError α)) : Prop where
  whole : n * a.width ≤ l.length →
    ∃ vs : List α, entries = vs.map .ok ∧ vs.length = n ∧ vs.flatMap a.write = l.take (n * a.width)
  cut : l.length < n * a.width →
    ∃ vs : List α, entries = vs.map .ok ++ [.error .invalidLength] ∧ vs.length = l.length / a.width ∧
      vs.flatMap a.write = l.take (l.length / a.width * a.width)

theorem Layout.Exact.readEntries_reads {a : Layout α} (ha : a.Exact) (n : ℕ) (l : List UInt8) :
    a.Reads n l (a.readEntries n l) where
  whole h :=
    ⟨_, a.readEntries_whole h, a.length_readMany n l, ha.flatMap_readMany h⟩
  cut h :=
    ⟨_, a.readEntries_cut h, a.length_readMany _ l, ha.flatMap_readMany (Nat.div_mul_le_self ..)⟩

/-- Written records are read back as entries without an error, whatever follows them. -/
theorem Layout.Lawful.readEntries_flatMap {a : Layout α} (ha : a.Lawful) (vs : List α)
    (rest : List UInt8) :
    a.readEntries vs.length (vs.flatMap a.write ++ rest) = vs.map .ok := by
  have hroom : vs.length * a.width ≤ (vs.flatMap a.write ++ rest).length := by
    rw [List.length_append, ha.length_flatMap]
    omega
  rw [a.readEntries_whole hroom, ha.readMany]

/-- Reads the record at the front of the bytes, and says how many bytes it takes. -/
def Layout.front (a : Layout α) (l : List UInt8) : Except WireError (α × ℕ) :=
  (a.decode l).map fun (v, _) => (v, a.width)

/-- A place in the bytes of a section, with the number of records still to come. -/
structure Cursor where
  bytes : List UInt8
  remaining : ℕ

namespace Cursor

variable {front? : List UInt8 → Option (Except WireError (α × ℕ))} {c c' : Cursor}

/-- Asks for the next record. An error ends the section, a record leaves the bytes after it. There
is no outcome if a slice leaves the bytes. -/
def next? (front? : List UInt8 → Option (Except WireError (α × ℕ))) (c : Cursor) :
    Option (Option (Except WireError α) × Cursor) :=
  match c.remaining with
  | 0 => some (none, c)
  | remaining + 1 => do
    match ← front? c.bytes with
    | .ok (v, n) => return (some (.ok v), ⟨← sliceFrom? c.bytes n, remaining⟩)
    | .error e => return (some (.error e), ⟨c.bytes, 0⟩)

/-- The cursor gives these entries, one each time it is asked, and from then on says that it is at
its end. -/
inductive Yields (front? : List UInt8 → Option (Except WireError (α × ℕ))) :
    Cursor → List (Except WireError α) → Prop where
  | ended {c : Cursor} (h : c.next? front? = some (none, c)) : Yields front? c []
  | entry {c c' : Cursor} {e : Except WireError α} {entries : List (Except WireError α)}
      (h : c.next? front? = some (some e, c')) (rest : Yields front? c' entries) :
      Yields front? c (e :: entries)

theorem next?_ended (l : List UInt8) : next? front? ⟨l, 0⟩ = some (none, ⟨l, 0⟩) := rfl

theorem next?_whole {a : Layout α} (hfront : ∀ l, front? l = some (a.front l)) {l : List UInt8}
    (h : a.width ≤ l.length) (n : ℕ) :
    next? front? ⟨l, n + 1⟩ = some (some (.ok (a.read (l.take a.width))), ⟨l.drop a.width, n⟩) := by
  simp [next?, hfront, Layout.front, Layout.decode_whole h, Except.map, sliceFrom?_inside h]

theorem next?_short {a : Layout α} (hfront : ∀ l, front? l = some (a.front l)) {l : List UInt8}
    (h : l.length < a.width) (n : ℕ) :
    next? front? ⟨l, n + 1⟩ = some (some (.error .invalidLength), ⟨l, 0⟩) := by
  simp [next?, hfront, Layout.front, Layout.decode_short h, Except.map]

/-- A cursor over any bytes gives the entries that are read from them. -/
theorem yields_readEntries {a : Layout α} (hfront : ∀ l, front? l = some (a.front l)) (n : ℕ)
    (l : List UInt8) : Yields front? ⟨l, n⟩ (a.readEntries n l) := by
  induction n generalizing l with
  | zero => exact .ended (next?_ended l)
  | succ n ih =>
    rw [Layout.readEntries]
    by_cases h : l.length < a.width
    · rw [Layout.decode_short h]
      exact .entry (next?_short hfront h n) (.ended (next?_ended l))
    · rw [Layout.decode_whole (Nat.not_lt.mp h)]
      exact .entry (next?_whole hfront (Nat.not_lt.mp h) n) (ih _)

/-- A cursor is a function of its place, and gives one list of entries alone. -/
theorem Yields.unique {entries entries' : List (Except WireError α)}
    (h : Yields front? c entries) (h' : Yields front? c entries') : entries = entries' := by
  induction h generalizing entries' with
  | ended h =>
    cases h' with
    | ended => rfl
    | entry h' => simp [h] at h'
  | entry h _ ih =>
    cases h' with
    | ended h' => simp [h] at h'
    | entry h' rest =>
      rw [h, Option.some.injEq, Prod.mk.injEq, Option.some.injEq] at h'
      obtain ⟨rfl, rfl⟩ := h'
      rw [ih rest]

end Cursor

/-- Reads a shielded input in its two parts, the second from where the first ends. -/
def ShieldedInput.front? (l : List UInt8) : Option (Except WireError (ShieldedInput × ℕ)) :=
  match ShieldedSecret.layout.front l with
  | .error e => some (.error e)
  | .ok (secret, n) => do
    match ShieldedTerms.layout.front (← sliceFrom? l n) with
    | .error e => return .error e
    | .ok (terms, m) => return .ok (⟨secret, terms⟩, n + m)

theorem ShieldedInput.read_eq (l : List UInt8) :
    ShieldedInput.layout.read (l.take ShieldedInput.layout.width) =
      ⟨ShieldedSecret.layout.read (l.take ShieldedSecret.layout.width),
        ShieldedTerms.layout.read ((l.drop ShieldedSecret.layout.width).take
          ShieldedTerms.layout.width)⟩ := by
  show ShieldedInput.mk (ShieldedSecret.layout.read (List.take _ (l.take _)))
    (ShieldedTerms.layout.read (List.drop _ (l.take _))) = _
  rw [List.take_take, List.drop_take]
  rfl

/-- The second part is only looked for where the first was found, so that its place exists. -/
theorem ShieldedInput.front?_eq (l : List UInt8) :
    front? l = some (ShieldedInput.layout.front l) := by
  have hwidth : ShieldedInput.layout.width =
      ShieldedSecret.layout.width + ShieldedTerms.layout.width := rfl
  unfold front?
  by_cases hsecret : l.length < ShieldedSecret.layout.width
  · have hinput : l.length < ShieldedInput.layout.width := by omega
    simp [Layout.front, Layout.decode_short hsecret, Layout.decode_short hinput, Except.map]
  · have hinside := Nat.not_lt.mp hsecret
    have hlength : (l.drop ShieldedSecret.layout.width).length =
        l.length - ShieldedSecret.layout.width := List.length_drop
    simp only [Layout.front, Layout.decode_whole hinside, Except.map, sliceFrom?_inside hinside,
      Option.bind_eq_bind, Option.bind_some]
    by_cases hinput : l.length < ShieldedInput.layout.width
    · have hterms : (l.drop ShieldedSecret.layout.width).length < ShieldedTerms.layout.width := by
        omega
      simp [Layout.decode_short hterms, Layout.decode_short hinput]
    · have hterms : ShieldedTerms.layout.width ≤ (l.drop ShieldedSecret.layout.width).length := by
        omega
      rw [Layout.decode_whole hterms, Layout.decode_whole (Nat.not_lt.mp hinput), read_eq]
      rfl

end Cursors

section Writing

/-- Writes a record into a buffer at a place, and moves the place behind it. There is no outcome if
a slice leaves the buffer. -/
def put? (buffer : List UInt8) (place : ℕ) (record : List UInt8) :
    Option (Except WireError (List UInt8 × ℕ)) := do
  let out ← sliceFrom? buffer place
  if out.length < record.length then return .error .invalidLength
  else return .ok (buffer.take place ++ (← overwrite? out record), place + record.length)

/-- Writes records one behind the other, up to the first that does not fit. -/
def putAll? (buffer : List UInt8) (place : ℕ) :
    List (List UInt8) → Option (Except WireError (List UInt8 × ℕ))
  | [] => some (.ok (buffer, place))
  | record :: records => do
    match ← put? buffer place record with
    | .error e => return .error e
    | .ok (buffer, place) => putAll? buffer place records

variable {buffer record : List UInt8} {place : ℕ} {records : List (List UInt8)}

/-- A record that fits is written behind what stands before its place, and leaves a buffer of the same
length. -/
theorem put?_fits (h : place + record.length ≤ buffer.length) :
    ∃ buffer', put? buffer place record = some (.ok (buffer', place + record.length)) ∧
      buffer'.length = buffer.length ∧
      buffer'.take (place + record.length) = buffer.take place ++ record := by
  have hplace : place ≤ buffer.length := by omega
  have hroom : record.length ≤ (buffer.drop place).length := by
    rw [List.length_drop]
    omega
  refine ⟨buffer.take place ++ record ++ buffer.drop (place + record.length), ?_, ?_, ?_⟩
  · simp only [put?, sliceFrom?_inside hplace, Option.bind_eq_bind, Option.bind_some,
      overwrite?_fits hroom, if_neg (Nat.not_lt.mpr hroom), List.drop_drop, List.append_assoc]
    rfl
  · simp only [List.length_append, List.length_take, List.length_drop]
    omega
  · apply List.take_left'
    rw [List.length_append, List.length_take_of_le hplace]

theorem put?_short (hplace : place ≤ buffer.length)
    (h : buffer.length < place + record.length) :
    put? buffer place record = some (.error .invalidLength) := by
  have hroom : (buffer.drop place).length < record.length := by
    rw [List.length_drop]
    omega
  rw [put?, sliceFrom?_inside hplace]
  exact if_pos hroom

theorem putAll?_fits (h : place + records.flatten.length ≤ buffer.length) :
    ∃ buffer', putAll? buffer place records =
        some (.ok (buffer', place + records.flatten.length)) ∧
      buffer'.length = buffer.length ∧
      buffer'.take (place + records.flatten.length) = buffer.take place ++ records.flatten := by
  induction records generalizing buffer place with
  | nil => exact ⟨buffer, by simp [putAll?]⟩
  | cons record records ih =>
    rw [List.flatten_cons, List.length_append, ← Nat.add_assoc] at h ⊢
    obtain ⟨mid, hput, hmid, hfront⟩ := put?_fits (Nat.le_of_add_right_le h)
    obtain ⟨last, hall, hlast, hback⟩ := ih (hmid.symm ▸ h)
    refine ⟨last, ?_, hlast.trans hmid, ?_⟩
    · rw [putAll?, hput]
      exact hall
    · rw [hback, hfront, List.append_assoc]

theorem putAll?_short (hplace : place ≤ buffer.length)
    (h : buffer.length < place + records.flatten.length) :
    putAll? buffer place records = some (.error .invalidLength) := by
  induction records generalizing buffer place with
  | nil =>
    simp only [List.flatten_nil, List.length_nil, Nat.add_zero] at h
    omega
  | cons record records ih =>
    rw [List.flatten_cons, List.length_append, ← Nat.add_assoc] at h
    by_cases hfits : place + record.length ≤ buffer.length
    · obtain ⟨mid, hput, hmid, -⟩ := put?_fits hfits
      simp [putAll?, hput, ih (hmid.symm ▸ hfits) (hmid.symm ▸ h)]
    · simp [putAll?, put?_short hplace (Nat.not_le.mp hfits)]

end Writing

namespace AddCoins

def coinFront? (l : List UInt8) : Option (Except WireError (CoinId × ℕ)) :=
  some (CoinId.layout.front l)

/-- A cursor from a place of the payload, or from its end if the place is behind it. -/
def cursorAt? (r : AddCoins) (place remaining : ℕ) : Option Cursor := do
  return ⟨← sliceFrom? r.payload (min place r.payload.length), remaining⟩

/-- What the three sections give when each is walked in place. -/
structure Walks (r : AddCoins) (inputs outputs : List (Except WireError CoinId))
    (shielded : List (Except WireError ShieldedInput)) : Prop where
  inputs : Cursor.Yields coinFront? ⟨r.payload, r.inputCount.toNat⟩ inputs
  outputs : ∃ c, r.cursorAt? (r.inputCount.toNat * CoinId.layout.width) r.outputCount.toNat =
    some c ∧ c.Yields coinFront? outputs
  shielded : ∃ c, r.cursorAt? ((r.inputCount.toNat + r.outputCount.toNat) * CoinId.layout.width)
    r.shieldedCount.toNat = some c ∧ c.Yields ShieldedInput.front? shielded

/-- What is written for three lists, in this order. A shielded input is written in its two parts. -/
def records (inputs outputs : List CoinId) (shielded : List ShieldedInput) : List (List UInt8) :=
  (inputs ++ outputs).map CoinId.layout.write ++ shielded.flatMap fun s =>
    [ShieldedSecret.layout.write s.secret, ShieldedTerms.layout.write s.terms]

/-- Writes a list of coins into a buffer, and makes the request for what was written. There is no
outcome if a slice leaves the buffer. -/
def buildInto? (buffer : List UInt8) (reset : Bool) (inputs outputs : List CoinId)
    (shielded : List ShieldedInput) : Option (Except WireError AddCoins) := do
  if 255 < inputs.length ∨ 255 < outputs.length ∨ 255 < shielded.length then
    return .error .invalidLength
  else
    match ← putAll? buffer 0 (records inputs outputs shielded) with
    | .error e => return .error e
    | .ok (buffer, place) => return .ok {
        reset := if reset then 1 else 0
        inputCount := UInt8.ofNat inputs.length
        outputCount := UInt8.ofNat outputs.length
        shieldedCount := UInt8.ofNat shielded.length
        payload := ← sliceTo? buffer place }

theorem cursorAt?_eq (r : AddCoins) (place remaining : ℕ) :
    r.cursorAt? place remaining = some ⟨r.payload.drop place, remaining⟩ := by
  have hinside : min place r.payload.length ≤ r.payload.length := Nat.min_le_right ..
  rw [cursorAt?, sliceFrom?_inside hinside]
  rcases Nat.le_total place r.payload.length with h | h
  · rw [Nat.min_eq_left h]
    rfl
  · rw [Nat.min_eq_right h, List.drop_length, List.drop_of_length_le h]
    rfl

theorem yields_inputs (r : AddCoins) :
    Cursor.Yields coinFront? ⟨r.payload, r.inputCount.toNat⟩ r.inputs :=
  Cursor.yields_readEntries (fun _ => rfl) ..

theorem yields_outputs (r : AddCoins) :
    Cursor.Yields coinFront? ⟨r.payload.drop (r.inputCount.toNat * CoinId.layout.width),
      r.outputCount.toNat⟩ r.outputs :=
  Cursor.yields_readEntries (fun _ => rfl) ..

theorem yields_shielded (r : AddCoins) :
    Cursor.Yields ShieldedInput.front? ⟨r.payload.drop
      ((r.inputCount.toNat + r.outputCount.toNat) * CoinId.layout.width),
      r.shieldedCount.toNat⟩ r.shielded :=
  Cursor.yields_readEntries ShieldedInput.front?_eq ..

/-- Whatever the header and the payload are, a walk stays inside of the payload and gives the entries
that are read from it, and no others. -/
theorem walks_iff {r : AddCoins} {inputs outputs : List (Except WireError CoinId)}
    {shielded : List (Except WireError ShieldedInput)} :
    r.Walks inputs outputs shielded ↔
      inputs = r.inputs ∧ outputs = r.outputs ∧ shielded = r.shielded := by
  constructor
  · intro h
    obtain ⟨c, hc, houtputs⟩ := h.outputs
    obtain ⟨c', hc', hshielded⟩ := h.shielded
    rw [cursorAt?_eq, Option.some.injEq] at hc hc'
    subst hc hc'
    exact ⟨h.inputs.unique r.yields_inputs, houtputs.unique r.yields_outputs,
      hshielded.unique r.yields_shielded⟩
  · intro h
    obtain ⟨rfl, rfl, rfl⟩ := h
    exact ⟨r.yields_inputs, ⟨_, cursorAt?_eq .., r.yields_outputs⟩,
      ⟨_, cursorAt?_eq .., r.yields_shielded⟩⟩

section Built

variable {capacity : ℕ} {reset : Bool} {inputs outputs : List CoinId}
  {shielded : List ShieldedInput} {buffer : List UInt8}

def written (inputs outputs : List CoinId) (shielded : List ShieldedInput) : List UInt8 :=
  (inputs ++ outputs).flatMap CoinId.layout.write ++ shielded.flatMap ShieldedInput.layout.write

/-- The request for three lists, its counts cut to a byte. -/
def ofLists (reset : Bool) (inputs outputs : List CoinId) (shielded : List ShieldedInput) :
    AddCoins where
  reset := if reset then 1 else 0
  inputCount := UInt8.ofNat inputs.length
  outputCount := UInt8.ofNat outputs.length
  shieldedCount := UInt8.ofNat shielded.length
  payload := written inputs outputs shielded

theorem length_written : (written inputs outputs shielded).length =
    28 * (inputs.length + outputs.length) + 57 * shielded.length := by
  have hcoins : ((inputs ++ outputs).flatMap CoinId.layout.write).length =
      (inputs ++ outputs).length * 28 := CoinId.layout_exact.length_flatMap _
  have hshielded : (shielded.flatMap ShieldedInput.layout.write).length = shielded.length * 57 :=
    ShieldedInput.layout_exact.length_flatMap _
  rw [List.length_append] at hcoins
  rw [written, List.length_append, hcoins, hshielded]
  omega

def Counted (inputs outputs : List CoinId) (shielded : List ShieldedInput) : Prop :=
  inputs.length ≤ 255 ∧ outputs.length ≤ 255 ∧ shielded.length ≤ 255

theorem not_counted_iff : ¬Counted inputs outputs shielded ↔
    255 < inputs.length ∨ 255 < outputs.length ∨ 255 < shielded.length := by
  unfold Counted
  omega

theorem build_ok (hcounted : Counted inputs outputs shielded)
    (hroom : (written inputs outputs shielded).length ≤ capacity) :
    build capacity reset inputs outputs shielded = .ok (ofLists reset inputs outputs shielded) := by
  have hcond : ¬(255 < inputs.length ∨ 255 < outputs.length ∨ 255 < shielded.length ∨
      capacity < (written inputs outputs shielded).length) := by
    unfold Counted at hcounted
    omega
  exact if_neg hcond

theorem build_error (h : ¬(Counted inputs outputs shielded ∧
    (written inputs outputs shielded).length ≤ capacity)) :
    build capacity reset inputs outputs shielded = .error .invalidLength := by
  have hcond : 255 < inputs.length ∨ 255 < outputs.length ∨ 255 < shielded.length ∨
      capacity < (written inputs outputs shielded).length := by
    unfold Counted at h
    omega
  exact if_pos hcond

theorem flatten_records :
    (records inputs outputs shielded).flatten = written inputs outputs shielded := by
  have hparts : (shielded.flatMap fun s => [ShieldedSecret.layout.write s.secret,
      ShieldedTerms.layout.write s.terms]).flatten =
        shielded.flatMap ShieldedInput.layout.write := by
    induction shielded with
    | nil => rfl
    | cons s shielded ih =>
      rw [List.flatMap_cons, List.flatten_append, ih, List.flatMap_cons]
      simp [ShieldedInput.layout, Layout.map, Layout.pair]
  rw [records, List.flatten_append, hparts, ← List.flatMap_def, written]

/-- A slice never leaves the buffer, and what was written is the payload. -/
theorem buildInto?_eq : buildInto? buffer reset inputs outputs shielded =
    some (build buffer.length reset inputs outputs shielded) := by
  unfold buildInto?
  split
  · next hmany =>
    rw [build_error fun h => not_counted_iff.mpr hmany h.1]
    rfl
  · next hfew =>
    have hcounted : Counted inputs outputs shielded := not_not.mp (mt not_counted_iff.mp hfew)
    by_cases hroom : (written inputs outputs shielded).length ≤ buffer.length
    · have hfits : 0 + (records inputs outputs shielded).flatten.length ≤ buffer.length := by
        rwa [flatten_records, Nat.zero_add]
      obtain ⟨buffer', hall, hlength, hfront⟩ := putAll?_fits hfits
      rw [Nat.zero_add, flatten_records] at hall hfront
      rw [← hlength] at hroom
      rw [hall, build_ok hcounted (hlength ▸ hroom)]
      simp only [Option.bind_eq_bind, Option.bind_some, sliceTo?_inside hroom, hfront]
      rfl
    · have hshort : buffer.length < 0 + (records inputs outputs shielded).flatten.length := by
        rwa [flatten_records, Nat.zero_add, ← Nat.not_le]
      rw [putAll?_short (Nat.zero_le _) hshort, build_error fun h => hroom h.2]
      rfl

theorem toNat_count {n : ℕ} (h : n ≤ 255) : (UInt8.ofNat n).toNat = n :=
  UInt8.toNat_ofNat_of_lt' (Nat.lt_succ_of_le h)

theorem ofLists_payloadLength (h : Counted inputs outputs shielded) :
    (ofLists reset inputs outputs shielded).payload.length =
      (ofLists reset inputs outputs shielded).payloadLength := by
  have hlength : (ofLists reset inputs outputs shielded).payload.length =
      28 * (inputs.length + outputs.length) + 57 * shielded.length := length_written
  have hexpected : (ofLists reset inputs outputs shielded).payloadLength =
      (inputs.length + outputs.length) * 28 + shielded.length * 57 := by
    unfold payloadLength ofLists
    rw [toNat_count h.1, toNat_count h.2.1, toNat_count h.2.2]
    rfl
  omega

/-- The three lists that the sections of a request hold. -/
structure Lists (r : AddCoins) (inputs outputs : List CoinId) (shielded : List ShieldedInput) :
    Prop where
  inputs : r.inputs = inputs.map .ok
  outputs : r.outputs = outputs.map .ok
  shielded : r.shielded = shielded.map .ok

theorem ofLists_lists (h : Counted inputs outputs shielded) :
    (ofLists reset inputs outputs shielded).Lists inputs outputs shielded where
  inputs := by
    unfold AddCoins.inputs ofLists written
    rw [toNat_count h.1, List.flatMap_append, List.append_assoc]
    exact CoinId.layout_exact.readEntries_flatMap ..
  outputs := by
    unfold AddCoins.outputs ofLists written
    rw [toNat_count h.1, toNat_count h.2.1, List.flatMap_append, List.append_assoc,
      ← CoinId.layout_exact.length_flatMap, List.drop_left]
    exact CoinId.layout_exact.readEntries_flatMap ..
  shielded := by
    unfold AddCoins.shielded ofLists written
    rw [toNat_count h.1, toNat_count h.2.1, toNat_count h.2.2, ← List.length_append,
      ← CoinId.layout_exact.length_flatMap, List.drop_left]
    have hall := ShieldedInput.layout_exact.readEntries_flatMap shielded []
    rwa [List.append_nil] at hall

end Built

/-- A payload of the length that the counts ask for holds three lists, and nothing else. -/
theorem exists_lists {r : AddCoins} (h : r.payload.length = r.payloadLength) :
    ∃ inputs outputs shielded, r.Lists inputs outputs shielded ∧
      written inputs outputs shielded = r.payload := by
  have hlength : r.payload.length = r.inputCount.toNat * CoinId.layout.width +
      r.outputCount.toNat * CoinId.layout.width +
        r.shieldedCount.toNat * ShieldedInput.layout.width := by
    rw [h, payloadLength, Nat.add_mul]
  have hinputs : r.inputCount.toNat * CoinId.layout.width ≤ r.payload.length := by omega
  have houtputs : r.outputCount.toNat * CoinId.layout.width ≤
      (r.payload.drop (r.inputCount.toNat * CoinId.layout.width)).length := by
    rw [List.length_drop]
    omega
  have hshielded : (r.payload.drop ((r.inputCount.toNat + r.outputCount.toNat) *
      CoinId.layout.width)).length = r.shieldedCount.toNat * ShieldedInput.layout.width := by
    rw [List.length_drop, Nat.add_mul]
    omega
  refine ⟨_, _, _, ⟨Layout.readEntries_whole _ hinputs, Layout.readEntries_whole _ houtputs,
    Layout.readEntries_whole _ hshielded.ge⟩, ?_⟩
  rw [written, List.flatMap_append, CoinId.layout_exact.flatMap_readMany hinputs,
    CoinId.layout_exact.flatMap_readMany houtputs,
    ShieldedInput.layout_exact.flatMap_readMany hshielded.ge, ← List.take_add, ← Nat.add_mul,
    ← hshielded, List.take_length, List.take_append_drop]

/-- Building a list of coins and reading it are inverse. It is built exactly where every count fits a
byte and all records fit the buffer, and read as the three lists, also from the bytes it travels as; a
payload of the length that its header asks for is always what is written for the coins read from it.
Of any other payload every section is read up to its cut. Records are written and sections walked in
place without a slice outside of the bytes. -/
theorem lists_inverse :
    (∀ (capacity : ℕ) (reset : Bool) (inputs outputs : List CoinId)
        (shielded : List ShieldedInput),
      (Counted inputs outputs shielded ∧
          28 * (inputs.length + outputs.length) + 57 * shielded.length ≤ capacity →
        ∃ r, build capacity reset inputs outputs shielded = .ok r ∧
          r.payload.length = r.payloadLength ∧ r.Lists inputs outputs shielded ∧
          codec.decode (codec.encode r) = .ok (r, [])) ∧
      (¬(Counted inputs outputs shielded ∧
          28 * (inputs.length + outputs.length) + 57 * shielded.length ≤ capacity) →
        build capacity reset inputs outputs shielded = .error .invalidLength)) ∧
    (∀ r : AddCoins, r.payload.length = r.payloadLength →
      ∃ inputs outputs shielded, r.Lists inputs outputs shielded ∧
        (inputs ++ outputs).flatMap CoinId.layout.write ++
          shielded.flatMap ShieldedInput.layout.write = r.payload) ∧
    (∀ r : AddCoins,
      CoinId.layout.Reads r.inputCount.toNat r.payload r.inputs ∧
      CoinId.layout.Reads r.outputCount.toNat (r.payload.drop (r.inputCount.toNat * 28))
        r.outputs ∧
      ShieldedInput.layout.Reads r.shieldedCount.toNat
        (r.payload.drop ((r.inputCount.toNat + r.outputCount.toNat) * 28)) r.shielded) ∧
    (∀ (buffer : List UInt8) (reset : Bool) (inputs outputs : List CoinId)
        (shielded : List ShieldedInput),
      buildInto? buffer reset inputs outputs shielded =
        some (build buffer.length reset inputs outputs shielded)) ∧
    ∀ (r : AddCoins) inputs outputs shielded, r.Walks inputs outputs shielded ↔
      inputs = r.inputs ∧ outputs = r.outputs ∧ shielded = r.shielded := by
  refine ⟨?_, fun r => exists_lists, ?_, fun buffer reset inputs outputs shielded => buildInto?_eq,
    fun r inputs outputs shielded => walks_iff⟩
  · intro capacity reset inputs outputs shielded
    rw [← length_written]
    constructor
    · intro h
      exact ⟨_, build_ok h.1 h.2, ofLists_payloadLength h.1, ofLists_lists h.1,
        decode_iff.mpr ⟨rfl, rfl⟩⟩
    · exact build_error
  · intro r
    exact ⟨CoinId.layout_exact.readEntries_reads .., CoinId.layout_exact.readEntries_reads ..,
      ShieldedInput.layout_exact.readEntries_reads ..⟩

/-- A coin of zeros and a list of two of them, whole and cut within the second. -/
theorem lists_inverse_two_inputs :
    (∃ r, build 56 true [⟨0, 0, 0, 0, 0⟩, ⟨0, 0, 0, 0, 0⟩] [] [] = .ok r ∧
      r.payload.length = r.payloadLength ∧
      r.Lists [⟨0, 0, 0, 0, 0⟩, ⟨0, 0, 0, 0, 0⟩] [] [] ∧
      codec.decode (codec.encode r) = .ok (r, [])) ∧
    build 55 true [⟨0, 0, 0, 0, 0⟩, ⟨0, 0, 0, 0, 0⟩] [] [] = .error .invalidLength ∧
    (∃ inputs outputs shielded,
      (⟨1, 2, 0, 0, List.replicate 56 0⟩ : AddCoins).Lists inputs outputs shielded ∧
        (inputs ++ outputs).flatMap CoinId.layout.write ++
          shielded.flatMap ShieldedInput.layout.write = List.replicate 56 0) ∧
    ∃ vs : List CoinId, (⟨1, 2, 0, 0, List.replicate 40 0⟩ : AddCoins).inputs =
        vs.map .ok ++ [.error .invalidLength] ∧
      vs.length = 1 ∧ vs.flatMap CoinId.layout.write = List.replicate 28 0 := by
  obtain ⟨hbuild, hlists, hcut, -⟩ := lists_inverse
  refine ⟨(hbuild 56 true _ _ _).1 ⟨⟨by decide, by decide, by decide⟩, by decide⟩,
    (hbuild 55 true _ _ _).2 fun h => absurd h.2 (by decide), hlists _ rfl, ?_⟩
  exact (hcut ⟨1, 2, 0, 0, List.replicate 40 0⟩).1.cut (by decide)

end AddCoins

end ColdWallet
