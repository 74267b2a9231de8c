import ColdWallet.Proofs.Device.Invoke

namespace ColdWallet

/-- One use of the device: a request with the room for its answer and the user's answers to its
prompts, or a reset. -/
inductive Step where
  | invoke (request : List UInt8) (capacity : Nat) (approve : SpendPrompt → Bool)
  | reset

/-- A step as it was passed in a run. -/
structure Passage where
  before : State
  step : Step
  response : Device.Response

namespace Passage

/-- The request of a step that was answered with success. -/
def accepted? (p : Passage) : Option Request :=
  match p.step with
  | .invoke request _ _ =>
    if Device.accepted p.response.bytes then Request.ofList? request else none
  | .reset => none

end Passage

namespace Device

def perform (d : Device) (s : State) : Step → Device.Response
  | .invoke request capacity approve => d.invoke approve request capacity s
  | .reset => ⟨[], [], Device.reset s⟩

/-- The steps of a run with the state each found and the response it got. -/
def trace (d : Device) : State → List Step → List Passage
  | _, [] => []
  | s, step :: steps => ⟨s, step, d.perform s step⟩ :: d.trace (d.perform s step).state steps

def after (d : Device) (s : State) : List Step → State
  | [] => s
  | step :: steps => d.after (d.perform s step).state steps

end Device

/-- The device when it is switched on, with whatever its slots hold. -/
def State.fresh (slots : UInt32 → Bytes 32) : State := ⟨none, slots, 0⟩

/-- A coin as it is listed on a balance. -/
inductive Entry where
  | input (c : CoinId)
  | output (c : CoinId)
  | shielded (s : ShieldedInput)

namespace Entry

def asset : Entry → UInt32
  | input c => c.asset
  | output c => c.asset
  | shielded s => s.terms.asset

/-- What the wallet gains: outputs count positively, inputs negatively. -/
def amount : Entry → Int
  | input c => -c.amount.toNat
  | output c => c.amount.toNat
  | shielded s => -s.terms.amount.toNat

def fee : Entry → UInt64
  | shielded s => s.terms.fee
  | _ => 0

def blinding (master : KeyNode) : Entry → Scalar
  | input c => -c.blinding master
  | output c => c.blinding master
  | shielded s => -s.blinding master

/-- What the wallet gains of the native asset, the fees of shielded inputs added to it. -/
def native (e : Entry) : Int := (if e.asset = 0 then e.amount else 0) + e.fee.toNat

/-- What the wallet gains of the other asset. -/
def foreign (e : Entry) : Int := if e.asset = 0 then 0 else e.amount

/-- The policy for coins of a transaction. -/
def Admitted (policy : Policy) : Entry → Prop
  | input c => CoinId.schemeV1 ≤ c.scheme ∨ policy.allowWeakInputs = true
  | output c => c.subkey = 0 ∧ CoinId.schemeV1 ≤ c.scheme
  | shielded s => s.terms.fee ≤ policy.maxShieldedFee

end Entry

def readWhole {α : Type} (entries : List (Except WireError α)) : List α :=
  entries.filterMap Except.toOption

def AddCoins.entries (r : AddCoins) : List Entry :=
  (readWhole r.inputs).map .input ++ (readWhole r.outputs).map .output ++
    (readWhole r.shielded).map .shielded

/-- What was listed and counted on the balance that is open. -/
structure Tally where
  entries : List Entry
  fees : List UInt64

namespace Tally

/-- Coins open a balance anew if they ask for it or if there is none; kernels add their fees. -/
def pass (t : Tally) (p : Passage) : Tally :=
  match p.accepted? with
  | some (.addCoins r) =>
    if r.reset ≠ 0 ∨ p.before.session = none then ⟨r.entries, []⟩
    else { t with entries := t.entries ++ r.entries }
  | some r => { t with fees := t.fees ++ r.settled.toList }
  | none => t

end Tally

namespace Device

def tally (d : Device) (s : State) (steps : List Step) : Tally :=
  (d.trace s steps).foldl Tally.pass ⟨[], []⟩

/-- A step refused leaves the state, a reset erases the balance, and any other has an effect. -/
inductive Passes (d : Device) : Passage → Prop
  | reset {s : State} : Passes d ⟨s, .reset, ⟨[], [], Device.reset s⟩⟩
  | refused {s : State} {request : List UInt8} {capacity : Nat} {approve : SpendPrompt → Bool}
      (e : DeviceError) :
      Passes d ⟨s, .invoke request capacity approve, ⟨answerBytes capacity (.error e), [], s⟩⟩
  | admitted {s : State} {request : List UInt8} {capacity : Nat} {approve : SpendPrompt → Bool}
      {r : Request} {t : Turn Reply} :
      Request.ofList? request = some r → Effect d approve s r t →
      Passes d ⟨s, .invoke request capacity approve,
        ⟨answerBytes capacity t.result, t.events, t.state⟩⟩

theorem perform_passes (d : Device) (s : State) (step : Step) :
    Passes d ⟨s, step, d.perform s step⟩ := by
  cases step with
  | reset => exact .reset
  | invoke request capacity approve =>
    rcases invoke_cases d approve request capacity s with ⟨e, h⟩ | ⟨r, t, hr, heffect, h⟩
    · rw [perform, h]
      exact .refused e
    · rw [perform, h]
      exact .admitted hr heffect

theorem trace_performed (d : Device) (s : State) (steps : List Step) :
    ∀ p ∈ d.trace s steps, p.response = d.perform p.before p.step := by
  induction steps generalizing s with
  | nil => nofun
  | cons step steps ih =>
    intro p hp
    rcases List.mem_cons.mp hp with rfl | hp
    · rfl
    · exact ih _ p hp

/-- Every passage of a run is one of these. -/
theorem trace_passes (d : Device) (s : State) (steps : List Step) :
    ∀ p ∈ d.trace s steps, Passes d p := by
  rintro ⟨before, step, response⟩ hp
  obtain rfl : response = d.perform before step := trace_performed d s steps _ hp
  exact perform_passes d before step

end Device

theorem accepted?_refused {s : State} {request : List UInt8} {capacity : Nat}
    {approve : SpendPrompt → Bool} (e : DeviceError) (events : List Event) (u : State) :
    Passage.accepted? ⟨s, .invoke request capacity approve,
      ⟨Device.answerBytes capacity (.error e), events, u⟩⟩ = none := by
  simp only [Passage.accepted?, Device.accepted_error]
  rfl

/-- Only a success makes a request accepted, and only the request that was in the bytes. -/
theorem accepted?_answer {s : State} {request : List UInt8} {capacity : Nat}
    {approve : SpendPrompt → Bool} {r r' : Request} {y : Except DeviceError Reply}
    {events : List Event} {u : State} (hr : Request.ofList? request = some r)
    (h : Passage.accepted? ⟨s, .invoke request capacity approve,
      ⟨Device.answerBytes capacity y, events, u⟩⟩ = some r') :
    r' = r ∧ ∃ reply, y = .ok reply := by
  simp only [Passage.accepted?, hr, Option.ite_none_right_eq_some, Option.some.injEq] at h
  exact ⟨h.2.symm, (Device.accepted_answerBytes capacity y).mp h.1⟩

theorem accepted?_ok {s : State} {request : List UInt8} {capacity : Nat}
    {approve : SpendPrompt → Bool} {r : Request} (hr : Request.ofList? request = some r)
    (reply : Reply) (events : List Event) (u : State) :
    Passage.accepted? ⟨s, .invoke request capacity approve,
      ⟨Device.answerBytes capacity (.ok reply), events, u⟩⟩ = some r := by
  simp only [Passage.accepted?, hr]
  rfl

namespace Device

/-- A request that is sent as it is written is answered with its reply. -/
theorem perform_ok {d : Device} {approve : SpendPrompt → Bool} {capacity : Nat} {s u : State}
    {r : Request} {reply : Reply} {events : List Event}
    (hcapacity : 1 + r.opcode.answerWidth ≤ capacity)
    (h : d.answer approve (capacity - 1) r s = ⟨.ok reply, events, u⟩) :
    d.perform s (.invoke r.toList capacity approve) =
      ⟨StatusMajor.ok.toByte :: reply.toList, events, u⟩ :=
  invoke_admitted (Request.admission_toList hcapacity) h

/-- A send closed on its terms: its slot is renewed, and its fee counted. -/
theorem perform_closeSend {d : Device} (approve : SpendPrompt → Bool) {capacity : Nat}
    {s : State} {b : Ledger} {r : CloseSend} {net : UInt64} {asset : UInt32}
    (hcapacity : 1 + Opcode.closeSend.answerWidth ≤ capacity) (h : s.session = some b)
    (hcheck : d.checkSend b r.kernel r.parties r.slot = .ok (net, asset))
    (hagreed : SendAgreed r (d.termsOf b r.kernel r.parties net asset (s.slots r.slot))) :
    d.perform s (.invoke (Request.closeSend r).toList capacity approve) =
      ⟨StatusMajor.ok.toByte :: ClosedSend.layout.write ⟨signature b
          (d.termsOf b r.kernel r.parties net asset (s.slots r.slot)).keys 0 r.points.noncePub
          (r.kernel.id r.points [])⟩,
        [.slotRead r.slot, .slotWrite r.slot (d.draw s.drawn)],
        { d.renewed r.slot s with session := some (b.settle r.kernel.fee) }⟩ := by
  have hanswer : d.answer approve (capacity - 1) (.closeSend r) s = _ :=
    Act.wrap_ok Reply.closedSend (closeSend_ok h hcheck hagreed)
  exact perform_ok hcapacity hanswer

end Device

namespace Sample

def device (seed : Bytes 32) : Device where
  master := .ofSeed seed
  policy := {}
  entropy i := UInt8.ofNat (i / 32)

def coin (index amount : UInt64) (asset : UInt32) : CoinId where
  index
  kind := 0x6e6f726d
  subIndex := 0x2000000
  amount
  asset

def listing (reset : UInt8) (inputs outputs : List CoinId) : Step :=
  .invoke (Request.addCoins {
    reset
    inputCount := UInt8.ofNat inputs.length
    outputCount := UInt8.ofNat outputs.length
    shieldedCount := 0
    payload := (inputs ++ outputs).flatMap CoinId.layout.write }).toList 1 fun _ => true

end Sample

end ColdWallet
