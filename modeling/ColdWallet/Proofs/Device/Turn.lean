import ColdWallet.Device.Turn

namespace ColdWallet

section Checks

variable {ε α β : Type}

theorem except_bind_ok {x : Except ε α} {f : α → Except ε β} {b : β} :
    x >>= f = .ok b ↔ ∃ a, x = .ok a ∧ f a = .ok b := by
  cases x with
  | error e => exact ⟨nofun, nofun⟩
  | ok a =>
    constructor
    · intro h
      exact ⟨a, rfl, h⟩
    · rintro ⟨_, h, hf⟩
      cases h
      exact hf

theorem except_bind_error {x : Except ε α} {f : α → Except ε β} {e : ε} :
    x >>= f = .error e ↔ x = .error e ∨ ∃ a, x = .ok a ∧ f a = .error e := by
  cases x with
  | error e' =>
    constructor
    · intro h
      exact .inl (congrArg _ (Except.error.inj h))
    · rintro (h | ⟨_, h, _⟩)
      · exact congrArg _ (Except.error.inj h)
      · cases h
  | ok a =>
    constructor
    · intro h
      exact .inr ⟨a, rfl, h⟩
    · rintro (h | ⟨_, h, hf⟩)
      · cases h
      · cases h
        exact hf

theorem except_throw_ok {c : Prop} [Decidable c] {e : ε} {k : Except ε α} {a : α} :
    (if c then throw e else k) = .ok a ↔ ¬c ∧ k = .ok a := by
  by_cases hc : c
  · rw [if_pos hc]
    exact ⟨nofun, fun h => absurd hc h.1⟩
  · rw [if_neg hc]
    exact ⟨fun h => ⟨hc, h⟩, fun h => h.2⟩

theorem except_throw_error {c : Prop} [Decidable c] {e e' : ε} {k : Except ε α} :
    (if c then throw e else k) = .error e' ↔ c ∧ e = e' ∨ ¬c ∧ k = .error e' := by
  by_cases hc : c
  · rw [if_pos hc]
    exact ⟨fun h => .inl ⟨hc, Except.error.inj h⟩, fun h => h.elim (fun h => congrArg _ h.2)
      fun h => absurd hc h.1⟩
  · rw [if_neg hc]
    exact ⟨fun h => .inr ⟨hc, h⟩, fun h => h.elim (fun h => absurd h.1 hc) fun h => h.2⟩

/-- What would come after a failed check does not run. -/
theorem except_guard_ok {c : Prop} [Decidable c] {e : ε} {f : PUnit → Except ε α}
    {k : Except ε α} {a : α} : (if c then throw e >>= f else k) = .ok a ↔ ¬c ∧ k = .ok a :=
  except_throw_ok

theorem except_guard_error {c : Prop} [Decidable c] {e e' : ε} {f : PUnit → Except ε α}
    {k : Except ε α} :
    (if c then throw e >>= f else k) = .error e' ↔ c ∧ e = e' ∨ ¬c ∧ k = .error e' :=
  except_throw_error

theorem except_pure_ok {a b : α} : (pure a : Except ε α) = .ok b ↔ a = b :=
  ⟨fun h => Except.ok.inj h, fun h => congrArg _ h⟩

theorem except_pure_error {a : α} {e : ε} : (pure a : Except ε α) = .error e ↔ False :=
  ⟨nofun, nofun⟩

end Checks

namespace Act

variable {α β : Type} {x : Act α} {s : State}

theorem bind_run {a : α} {y : Except DeviceError β} {events more : List Event} {t u : State}
    {f : α → Act β} (h : x s = ⟨.ok a, events, t⟩) (hf : f a t = ⟨y, more, u⟩) :
    (x >>= f) s = ⟨y, events ++ more, u⟩ := by
  show Act.bind x f s = _
  unfold Act.bind
  rw [h]
  simp only [hf]

theorem bind_error {e : DeviceError} {events : List Event} {t : State} (f : α → Act β)
    (h : x s = ⟨.error e, events, t⟩) : (x >>= f) s = ⟨.error e, events, t⟩ := by
  show Act.bind x f s = _
  unfold Act.bind
  rw [h]

/-- An action without events goes over to the next. -/
theorem bind_quiet {a : α} {t : State} (f : α → Act β) (h : x s = ⟨.ok a, [], t⟩) :
    (x >>= f) s = f a t :=
  bind_run h rfl

theorem bind_assoc {γ : Type} (x : Act α) (f : α → Act β) (g : β → Act γ) :
    x >>= f >>= g = x >>= fun a => f a >>= g := by
  funext s
  show Act.bind (Act.bind x f) g s = Act.bind x (fun a => Act.bind (f a) g) s
  unfold Act.bind
  cases hx : (x s).result with
  | error e => simp only [hx]
  | ok a =>
    cases hf : (f a (x s).state).result with
    | error e => simp only [hx, hf]
    | ok b => simp only [hx, hf, List.append_assoc]

theorem pure_run (a : α) (s : State) : (pure a : Act α) s = ⟨.ok a, [], s⟩ := rfl

theorem ledger_run {b : Ledger} (h : s.session = some b) : ledger s = ⟨.ok b, [], s⟩ := by
  unfold ledger
  rw [bind_quiet _ (rfl : look s = ⟨.ok s, [], s⟩), h]
  rfl

theorem ledger_run_none (h : s.session = none) : ledger s = ⟨.error .noBalance, [], s⟩ := by
  unfold ledger
  rw [bind_quiet _ (rfl : look s = ⟨.ok s, [], s⟩), h]
  rfl

theorem confirm_run (approve : SpendPrompt → Bool) (prompt : SpendPrompt) (s : State) :
    confirm approve prompt s =
      ⟨if approve prompt then .ok () else .error .declined, [.prompted prompt], s⟩ := by
  unfold confirm
  cases approve prompt with
  | true => rfl
  | false => rfl

theorem readSlot_run (slot : UInt32) (s : State) :
    readSlot slot s = ⟨.ok (s.slots slot), [.slotRead slot], s⟩ := rfl

theorem settle_run {b : Ledger} (fee : UInt64) (h : s.session = some b) :
    settle fee s = ⟨.ok (), [], { s with session := some (b.settle fee) }⟩ := by
  unfold settle
  rw [bind_quiet _ (ledger_run h)]
  rfl

/-- Wrapping up a result keeps events and state. -/
theorem wrap_ok {a : α} {events : List Event} {t : State} (g : α → β)
    (h : x s = ⟨.ok a, events, t⟩) :
    (x >>= fun a => (pure (g a) : Act β)) s = ⟨.ok (g a), events, t⟩ := by
  rw [bind_run h (pure_run (g a) t), List.append_nil]

theorem ofExcept_run (y : Except DeviceError α) (s : State) : ofExcept y s = ⟨y, [], s⟩ := rfl

end Act

end ColdWallet
