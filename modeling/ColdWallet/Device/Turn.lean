import ColdWallet.Device.Ledger

namespace ColdWallet

structure SpendPrompt where
  /-- What leaves the wallet; zero for a split and for a send to an own address. -/
  amount : UInt64
  asset : UInt32
  peer : Option (Bytes 32)
  kernel : KernelParams
  kernelId : Option (Bytes 32)
deriving DecidableEq

inductive Event where
  | slotRead (slot : UInt32)
  | slotWrite (slot : UInt32) (value : Bytes 32)
  | addressShown (number : UInt64) (id : Bytes 32)
  | prompted (prompt : SpendPrompt)
deriving DecidableEq

/-- What never changes while the device runs. -/
structure Device where
  master : KeyNode
  policy : Policy
  /-- The random bytes the device will draw, by position. -/
  entropy : Nat → UInt8

structure State where
  session : Option Ledger
  /-- The secrets from which the nonces of sends are derived. -/
  slots : UInt32 → Bytes 32
  drawn : Nat

structure Turn (α : Type) where
  result : Except DeviceError α
  events : List Event
  state : State

/-- An action of the device, from the state it finds to a result, the events it caused outside in
their order, and the state it left. -/
def Act (α : Type) := State → Turn α

namespace Act

variable {α β : Type}

protected def pure (a : α) : Act α := fun s => ⟨.ok a, [], s⟩

/-- Goes on from where the first action stopped. If that failed, events and state stay as they were
reached. -/
protected def bind (x : Act α) (f : α → Act β) : Act β := fun s =>
  let t := x s
  match t.result with
  | .error e => ⟨.error e, t.events, t.state⟩
  | .ok a =>
    let u := f a t.state
    ⟨u.result, t.events ++ u.events, u.state⟩

instance : Monad Act where
  pure := Act.pure
  bind := Act.bind

def ofExcept (x : Except DeviceError α) : Act α := fun s => ⟨x, [], s⟩

def fail (e : DeviceError) : Act α := ofExcept (.error e)

def notify (e : Event) : Act Unit := fun s => ⟨.ok (), [e], s⟩

def look : Act State := fun s => ⟨.ok s, [], s⟩

def setSession (session : Option Ledger) : Act Unit := fun s => ⟨.ok (), [], { s with session }⟩

def ledger : Act Ledger := do
  match (← look).session with
  | some b => return b
  | none => fail .noBalance

/-- Asks the user, and fails if the answer is no. -/
def confirm (approve : SpendPrompt → Bool) (prompt : SpendPrompt) : Act Unit := do
  notify (.prompted prompt)
  if approve prompt then return () else fail .declined

def readSlot (slot : UInt32) : Act (Bytes 32) := do
  notify (.slotRead slot)
  return (← look).slots slot

def writeSlot (slot : UInt32) (value : Bytes 32) : Act Unit := fun s =>
  ⟨.ok (), [.slotWrite slot value],
    { s with slots := fun i => if i = slot then value else s.slots i }⟩

def drawBytes (entropy : Nat → UInt8) : Act (Bytes 32) := fun s =>
  ⟨.ok (Vector.ofFn fun i => entropy (s.drawn + i)), [], { s with drawn := s.drawn + 32 }⟩

def settle (fee : UInt64) : Act Unit := do
  let b ← ledger
  setSession (some (b.settle fee))

end Act

end ColdWallet
