import Mathlib.Data.List.Perm.Basic
import ColdWallet.Proofs.Device.Run

namespace ColdWallet

namespace Passage

/-- The closing of a send that was answered with success. -/
def closed? (p : Passage) : Option CloseSend :=
  match p.accepted? with
  | some (.closeSend r) => some r
  | _ => none

def used? (p : Passage) : Option (Bytes 32) := p.closed?.map fun r => p.before.slots r.slot

end Passage

theorem closed?_other {p : Passage} (h : ∀ r, p.accepted? ≠ some (.closeSend r)) :
    p.closed? = none := by
  unfold Passage.closed?
  split
  · next r hr => exact absurd hr (h r)
  · rfl

theorem closed?_answer {s : State} {request : List UInt8} {capacity : Nat}
    {approve : SpendPrompt → Bool} {r : Request} {y : Except DeviceError Reply}
    {events : List Event} {u : State} (hr : Request.ofList? request = some r)
    (h : ∀ reply, y = .ok reply → ∀ close, r ≠ .closeSend close) :
    Passage.closed? ⟨s, .invoke request capacity approve,
      ⟨Device.answerBytes capacity y, events, u⟩⟩ = none := by
  refine closed?_other fun close hclose => ?_
  obtain ⟨he, reply, hy⟩ := accepted?_answer hr hclose
  exact h reply hy close he.symm

theorem closed?_ok {s : State} {request : List UInt8} {capacity : Nat}
    {approve : SpendPrompt → Bool} {r : CloseSend}
    (hr : Request.ofList? request = some (.closeSend r)) (reply : Reply) (events : List Event)
    (u : State) :
    Passage.closed? ⟨s, .invoke request capacity approve,
      ⟨Device.answerBytes capacity (.ok reply), events, u⟩⟩ = some r := by
  unfold Passage.closed?
  rw [accepted?_ok hr]

namespace Device

def slotValues (d : Device) (s : State) : List (Bytes 32) :=
  (List.range d.policy.slots.toNat).map fun i => s.slots (UInt32.ofNat i)

/-- The draws, 32 bytes each, from a position of the entropy on. -/
def draws (d : Device) (position count : Nat) : List (Bytes 32) :=
  (List.range count).map fun k => d.draw (position + 32 * k)

/-- The slot values that sends were closed with in a run. -/
def usedValues (d : Device) (s : State) (steps : List Step) : List (Bytes 32) :=
  (d.trace s steps).filterMap Passage.used?

/-- A send was closed: it was checked with the value of its slot, this slot alone was replaced by
the next draw, and then the kernel was signed. -/
structure Closes (d : Device) (p : Passage) (r : CloseSend) : Prop where
  slot : r.slot < d.policy.slots
  events : p.response.events = [.slotRead r.slot, .slotWrite r.slot (d.draw p.before.drawn)]
  replaced : p.response.state.slots r.slot = d.draw p.before.drawn
  others : ∀ i, i ≠ r.slot → p.response.state.slots i = p.before.slots i
  drawn : p.response.state.drawn = p.before.drawn + 32
  phases : ∃ b net asset reply,
    p.before.session = some b ∧
    d.authorizeSend r p.before =
      ⟨.ok (d.termsOf b r.kernel r.parties net asset (p.before.slots r.slot)), [.slotRead r.slot],
        p.before⟩ ∧
    d.renewSlot r.slot p.before =
      ⟨.ok (), [.slotWrite r.slot (d.draw p.before.drawn)], d.renewed r.slot p.before⟩ ∧
    signSend r (d.termsOf b r.kernel r.parties net asset (p.before.slots r.slot))
      (d.renewed r.slot p.before) = ⟨.ok reply, [], p.response.state⟩ ∧
    p.response.bytes = StatusMajor.ok.toByte :: ClosedSend.layout.write reply

/-- No slot was changed and nothing drawn, and only slots there are were read. -/
structure Spares (d : Device) (p : Passage) : Prop where
  slots : p.response.state.slots = p.before.slots
  drawn : p.response.state.drawn = p.before.drawn
  events : ∀ event ∈ p.response.events, event.Observes d.policy

variable {d : Device} {p : Passage}

/-- One step either closes a send or spares all slots. -/
theorem Passes.slots (h : Passes d p) :
    (∃ r, p.closed? = some r ∧ Closes d p r) ∨ (p.closed? = none ∧ Spares d p) := by
  cases h with
  | reset => exact Or.inr ⟨rfl, rfl, rfl, nofun⟩
  | refused e =>
    refine Or.inr ⟨closed?_other ?_, rfl, rfl, nofun⟩
    rw [accepted?_refused e]
    nofun
  | @admitted s _ _ _ r t hr heffect =>
    have hprompted : ∀ prompt, ∀ event ∈ [Event.prompted prompt], event.Observes d.policy := by
      intro prompt event hevent
      cases List.mem_singleton.mp hevent
      trivial
    cases heffect with
    | added _ => exact Or.inr ⟨closed?_answer hr fun _ _ => nofun, rfl, rfl, nofun⟩
    | dropped _ => exact Or.inr ⟨closed?_answer hr fun _ _ => nofun, rfl, rfl, nofun⟩
    | split _ _ _ =>
      exact Or.inr ⟨closed?_answer hr fun _ _ => nofun, rfl, rfl, hprompted _⟩
    | shielded _ _ _ =>
      exact Or.inr ⟨closed?_answer hr fun _ _ => nofun, rfl, rfl, hprompted _⟩
    | @closed r b net asset hb hcheck hagreed =>
      refine Or.inl ⟨r, closed?_ok hr _ _ _, ?_⟩
      exact {
        slot := (checkSend_ok_iff.mp hcheck).2.2.2
        events := rfl
        replaced := if_pos rfl
        others := fun i hi => if_neg hi
        drawn := rfl
        phases := ⟨b, net, asset, _, hb, authorizeSend_ok (sendTerms_ok hb hcheck) hagreed,
          renewSlot_run d r.slot s, signSend_run (s := d.renewed r.slot s) hb, rfl⟩ }
    | @still _ y _ _ hsettled hevents =>
      refine Or.inr ⟨closed?_answer hr ?_, rfl, rfl, hevents⟩
      rintro reply hy close rfl
      cases hsettled reply hy

section Conservation

variable {s u : State}

theorem used?_closed {r : CloseSend} (h : p.closed? = some r) :
    p.used? = some (p.before.slots r.slot) := by
  rw [Passage.used?, h, Option.map_some]

theorem draws_succ (d : Device) (position count : Nat) :
    d.draws position (count + 1) = d.draw position :: d.draws (position + 32) count := by
  have hrest : ∀ k, position + 32 * (k + 1) = position + 32 + 32 * k := fun k => by omega
  unfold draws
  simp only [List.range_succ_eq_map, List.map_cons, List.map_map, Function.comp_def, hrest,
    Nat.mul_zero, Nat.add_zero]

theorem length_slotValues (d : Device) (s : State) :
    (d.slotValues s).length = d.policy.slots.toNat := by
  rw [slotValues, List.length_map, List.length_range]

theorem getElem_slotValues {i : Nat} (h : i < (d.slotValues s).length) :
    (d.slotValues s)[i] = s.slots (UInt32.ofNat i) := by
  simp only [slotValues, List.getElem_map, List.getElem_range]

theorem slotValues_set {slot : UInt32} {value : Bytes 32} (hvalue : u.slots slot = value)
    (hothers : ∀ i, i ≠ slot → u.slots i = s.slots i) :
    d.slotValues u = (d.slotValues s).set slot.toNat value := by
  apply List.ext_getElem
  · rw [List.length_set, length_slotValues, length_slotValues]
  · intro i hi _
    rw [List.getElem_set, getElem_slotValues, getElem_slotValues]
    have hsize : i < 2 ^ 32 := by
      rw [length_slotValues] at hi
      exact hi.trans d.policy.slots.toNat_lt
    split
    · next h => rw [← h, UInt32.ofNat_toNat, hvalue]
    · next h =>
      apply hothers
      rintro rfl
      exact h (UInt32.toNat_ofNat_of_lt' hsize)

theorem set_perm {α : Type} {l : List α} {i : Nat} (h : i < l.length) (a : α) :
    (l[i] :: l.set i a).Perm (a :: l) := by
  refine ((List.set_perm_cons_eraseIdx h a).cons l[i]).trans ?_
  refine (List.Perm.swap a l[i] _).trans ?_
  exact (List.getElem_cons_eraseIdx_perm h).cons a

theorem Closes.perm {r : CloseSend} (h : Closes d p r) :
    (p.before.slots r.slot :: d.slotValues p.response.state).Perm
      (d.draw p.before.drawn :: d.slotValues p.before) := by
  have hslot : r.slot.toNat < (d.slotValues p.before).length := by
    rw [length_slotValues]
    exact UInt32.lt_iff_toNat_lt.mp h.slot
  have hvalue : (d.slotValues p.before)[r.slot.toNat] = p.before.slots r.slot := by
    rw [getElem_slotValues, UInt32.ofNat_toNat]
  rw [slotValues_set h.replaced h.others, ← hvalue]
  exact set_perm hslot _

/-- What a run used and what it left in the slots is what it found there and what it drew. -/
theorem used_perm (d : Device) (s : State) (steps : List Step) :
    (d.usedValues s steps ++ d.slotValues (d.after s steps)).Perm
        (d.slotValues s ++ d.draws s.drawn (d.usedValues s steps).length) ∧
      (d.after s steps).drawn = s.drawn + 32 * (d.usedValues s steps).length := by
  induction steps generalizing s with
  | nil => exact ⟨by simp [usedValues, trace, draws, after], rfl⟩
  | cons step steps ih =>
    obtain ⟨hperm, hdrawn⟩ := ih (d.perform s step).state
    rcases (perform_passes d s step).slots with ⟨r, hclosed, h⟩ | ⟨hclosed, h⟩
    · have hused : d.usedValues s (step :: steps) =
          s.slots r.slot :: d.usedValues (d.perform s step).state steps :=
        List.filterMap_cons_some (used?_closed hclosed)
      have hposition : (d.perform s step).state.drawn = s.drawn + 32 := h.drawn
      rw [hposition] at hperm hdrawn
      rw [hused, List.length_cons, draws_succ]
      refine ⟨?_, hdrawn.trans (by omega)⟩
      have hslots : (s.slots r.slot :: d.slotValues (d.perform s step).state).Perm
          (d.draw s.drawn :: d.slotValues s) := h.perm
      refine (hperm.cons (s.slots r.slot)).trans ?_
      refine (hslots.append_right _).trans ?_
      exact List.perm_middle.symm
    · have hused : d.usedValues s (step :: steps) =
          d.usedValues (d.perform s step).state steps :=
        List.filterMap_cons_none (by rw [Passage.used?, hclosed, Option.map_none])
      have hposition : (d.perform s step).state.drawn = s.drawn := h.drawn
      have hslots : d.slotValues (d.perform s step).state = d.slotValues s := by
        unfold slotValues
        rw [h.slots]
      rw [hposition] at hperm hdrawn
      rw [hslots] at hperm
      rw [hused]
      exact ⟨hperm, hdrawn⟩

end Conservation

theorem outside_kept (d : Device) (s : State) (steps : List Step) {i : UInt32}
    (hi : d.policy.slots ≤ i) : (d.after s steps).slots i = s.slots i := by
  induction steps generalizing s with
  | nil => rfl
  | cons step steps ih =>
    refine (ih (d.perform s step).state).trans ?_
    rcases (perform_passes d s step).slots with ⟨r, _, h⟩ | ⟨_, h⟩
    · apply h.others
      rintro rfl
      exact absurd h.slot (UInt32.not_lt.mpr hi)
    · exact congrFun h.slots i

/-- Whatever the device is asked for, as long as the values its slots start from and the draws of
the run are distinct, no slot value signs twice. Closing a send replaces the value of its slot
before it signs, nothing else changes a slot or draws, and slots there are not stay out of it. -/
theorem slot_values_used_once (d : Device) (s : State) (steps : List Step)
    (h : (d.slotValues s ++ d.draws s.drawn (d.usedValues s steps).length).Nodup) :
    (d.usedValues s steps).Nodup ∧
      (d.after s steps).drawn = s.drawn + 32 * (d.usedValues s steps).length ∧
      (∀ p ∈ d.trace s steps,
        (∃ r, p.closed? = some r ∧ Closes d p r) ∨ (p.closed? = none ∧ Spares d p)) ∧
      ∀ i, d.policy.slots ≤ i → (d.after s steps).slots i = s.slots i := by
  obtain ⟨hperm, hdrawn⟩ := used_perm d s steps
  refine ⟨?_, hdrawn, ?_, fun i => outside_kept d s steps⟩
  · exact (List.nodup_append.mp (hperm.nodup_iff.mpr h)).1
  · intro p hp
    exact (trace_passes d s steps p hp).slots

theorem usedValues_closing {s : State} {b : Ledger} {r : CloseSend} {net : UInt64}
    {asset : UInt32} {capacity : Nat} {approve : SpendPrompt → Bool}
    (hcapacity : 1 + Opcode.closeSend.answerWidth ≤ capacity) (h : s.session = some b)
    (hcheck : d.checkSend b r.kernel r.parties r.slot = .ok (net, asset))
    (hagreed : SendAgreed r (d.termsOf b r.kernel r.parties net asset (s.slots r.slot)))
    (steps : List Step) :
    d.usedValues s (.invoke (Request.closeSend r).toList capacity approve :: steps) =
      s.slots r.slot ::
        d.usedValues { d.renewed r.slot s with session := some (b.settle r.kernel.fee) }
          steps := by
  have hperform := perform_closeSend approve hcapacity h hcheck hagreed
  unfold usedValues
  rw [trace, hperform]
  refine List.filterMap_cons_some (used?_closed ?_)
  exact closed?_ok (Request.ofList?_toList _) (.closedSend _) _ _

/-- A peer can confirm a send to one of its addresses on any terms. -/
theorem exists_agreed (t : SendTerms) (kernel : KernelParams) {parties : Parties} (slot : UInt32)
    {peer : KeyNode} {number : UInt64} (hpeer : parties.peer = (peer.address number).2) :
    ∃ r : CloseSend, r.kernel = kernel ∧ r.parties = parties ∧ r.slot = slot ∧ SendAgreed r t := by
  obtain ⟨points⟩ : Nonempty KernelPoints := ⟨⟨.infinity, .infinity⟩⟩
  obtain ⟨proof, hproof⟩ : ∃ proof, proof = Signature.sign
      (paymentConfirmation t.ownId (kernel.id points []) t.net t.asset)
      (peer.address number).1 := ⟨_, rfl⟩
  refine ⟨⟨kernel, parties, slot, proof, t.agreement, points⟩, rfl, rfl, rfl, ?_⟩
  exact sendAgreed_of_signed peer number rfl hpeer hproof

theorem exists_closing {s : State} {b : Ledger} {kernel : KernelParams} {parties : Parties}
    {slot : UInt32} {net : UInt64} {asset : UInt32} {peer : KeyNode} {number : UInt64}
    (hpeer : parties.peer = (peer.address number).2) (h : s.session = some b)
    (hcheck : d.checkSend b kernel parties slot = .ok (net, asset)) :
    ∃ step, ∀ steps, d.usedValues s (step :: steps) = s.slots slot ::
      d.usedValues { d.renewed slot s with session := some (b.settle kernel.fee) } steps := by
  obtain ⟨r, rfl, rfl, rfl, hagreed⟩ :=
    exists_agreed (d.termsOf b kernel parties net asset (s.slots slot)) kernel slot hpeer
  exact ⟨.invoke (Request.closeSend r).toList 65 fun _ => true,
    usedValues_closing (by decide) h hcheck hagreed⟩

/-- Two sends closed one after the other with the same slot. -/
theorem slot_values_used_once_twice :
    let d := Sample.device (.zero 32)
    let s := State.fresh fun i => Vector.replicate 32 (UInt8.ofNat (i.toNat + 2))
    ∃ steps, d.usedValues s steps = [s.slots 3, d.draw 0] ∧ (d.usedValues s steps).Nodup := by
  intro d s
  obtain ⟨b, hlisted, hnet⟩ : ∃ b : Ledger,
      d.perform s (Sample.listing 1 [Sample.coin 1 1000 0] []) = ⟨[0], [], ⟨some b, s.slots, 0⟩⟩ ∧
      b.net (some 20) = .ok (980, 0) := ⟨_, rfl, rfl⟩
  obtain ⟨peer, hpeer⟩ : ∃ peer, peer = ((KeyNode.ofSeed (.zero 32)).address 1).2 := ⟨_, rfl⟩
  have hthere : allZero peer.toList = false := by
    rw [hpeer]
    exact KeyNode.address_ne_zero _ 1
  have hcheck : ∀ b' : Ledger, b'.net (some 20) = .ok (980, 0) →
      d.checkSend b' ⟨20, 1, 100⟩ ⟨peer, 0⟩ 3 = .ok (980, 0) := by
    intro b' hnet
    exact checkSend_ok_iff.mpr ⟨hnet, by decide, hthere, by decide⟩
  obtain ⟨first, hfirst⟩ :=
    exists_closing (s := ⟨some b, s.slots, 0⟩) hpeer rfl (hcheck b hnet)
  obtain ⟨second, hsecond⟩ :=
    exists_closing (s := { d.renewed 3 ⟨some b, s.slots, 0⟩ with session := some (b.settle 20) })
      hpeer rfl (hcheck (b.settle 20) hnet)
  have hused : d.usedValues s [Sample.listing 1 [Sample.coin 1 1000 0] [], first, second] =
      [s.slots 3, d.draw 0] := by
    have hlisting : d.usedValues s [Sample.listing 1 [Sample.coin 1 1000 0] [], first, second] =
        d.usedValues ⟨some b, s.slots, 0⟩ [first, second] := by
      unfold usedValues
      rw [trace, hlisted]
      exact List.filterMap_cons_none rfl
    rw [hlisting, hfirst]
    exact congrArg (s.slots 3 :: ·) (hsecond [])
  refine ⟨_, hused, ?_⟩
  refine (slot_values_used_once d s _ ?_).1
  rw [hused]
  decide

end Device

end ColdWallet
