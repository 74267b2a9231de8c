import ColdWallet.Device.Error
import ColdWallet.Keys.Coin
import ColdWallet.Shielded.Spend

namespace ColdWallet

structure Policy where
  slots : UInt32 := 32
  allowWeakInputs : Bool := false
  maxShieldedFee : UInt64 := 0
deriving DecidableEq, Repr

/-- The balance of the transaction in progress, in the native asset and in at most one other.
Amounts are signed as the wallet sees them: outputs add, inputs subtract. -/
structure Ledger where
  blinding : Scalar := 0
  native : Int := 0
  foreign : Int := 0
  /-- The other asset, zero while there is none. -/
  asset : UInt32 := 0
  shieldedFees : UInt64 := 0
  /-- Shielded fees and the fees of the kernels signed on this balance. -/
  totalFees : UInt64 := 0
deriving DecidableEq

namespace Ledger

def inRange (v : Int) : Bool := Int64.minValue.toInt ≤ v && v ≤ Int64.maxValue.toInt

def checked (v : Int) : Except DeviceError Int :=
  if inRange v then .ok v else .error .amountOverflow

def saturatingAdd (a b : UInt64) : UInt64 :=
  if a.toNat + b.toNat < UInt64.size then a + b else 0xffffffffffffffff

def addAmount (b : Ledger) (amount : Int) (asset : UInt32) : Except DeviceError Ledger := do
  if asset = 0 then return { b with native := ← checked (b.native + amount) }
  else if b.asset ≠ 0 ∧ b.asset ≠ asset then throw .amountOverflow
  else return { b with asset, foreign := ← checked (b.foreign + amount) }

def addInput (b : Ledger) (master : KeyNode) (policy : Policy) (c : CoinId) :
    Except DeviceError Ledger := do
  if c.isWeak && !policy.allowWeakInputs then throw .weakInput
  let b ← b.addAmount (-c.amount.toNat) c.asset
  return { b with blinding := b.blinding - c.blinding master }

/-- Adds a coin's amount to the balance. An output to a child key could belong to somebody else. -/
def addOutput (b : Ledger) (master : KeyNode) (c : CoinId) : Except DeviceError Ledger := do
  if c.subkey ≠ 0 then throw .childOutput
  if c.isWeak then throw .weakOutput
  let b ← b.addAmount c.amount.toNat c.asset
  return { b with blinding := b.blinding + c.blinding master }

/-- Counts the fee attached to a shielded input, which the input itself pays. -/
def addShieldedFee (b : Ledger) (policy : Policy) (fee : UInt64) : Except DeviceError Ledger := do
  if fee = 0 then return b
  if policy.maxShieldedFee < fee then throw .shieldedFee
  if UInt64.size ≤ b.shieldedFees.toNat + fee.toNat then throw .amountOverflow
  addAmount { b with
    shieldedFees := b.shieldedFees + fee
    totalFees := saturatingAdd b.totalFees fee } fee.toNat 0

def addShielded (b : Ledger) (master : KeyNode) (policy : Policy) (s : ShieldedInput) :
    Except DeviceError Ledger := do
  let b ← b.addAmount (-s.terms.amount.toNat) s.terms.asset
  let b ← b.addShieldedFee policy s.terms.fee
  return { b with blinding := b.blinding - s.blinding master }

/-- Adds entries one by one; an entry that was cut short is a mismatch of sizes. -/
def addAll {α : Type} (add : Ledger → α → Except DeviceError Ledger) (b : Ledger)
    (entries : List (Except WireError α)) : Except DeviceError Ledger :=
  entries.foldlM (fun b entry => match entry with
    | .ok v => add b v
    | .error _ => .error .sizeMismatch) b

def addCoins (b : Ledger) (master : KeyNode) (policy : Policy) (r : AddCoins) :
    Except DeviceError Ledger := do
  if r.payload.length ≠ r.payloadLength then throw .sizeMismatch
  let b ← addAll (fun b => b.addInput master policy) b r.inputs
  let b ← addAll (fun b => b.addOutput master) b r.outputs
  addAll (fun b => b.addShielded master policy) b r.shielded

/-- What the transaction moves, and in which asset. With a kernel fee the wallet sends: the amount
is what leaves it besides the fee, and zero for a split. Without, it receives a positive amount. A
transfer of the other asset must leave nothing of the native one. -/
def net (b : Ledger) (fee : Option UInt64) : Except DeviceError (UInt64 × UInt32) := do
  let native ← match fee with
    | some fee => checked (b.native + fee.toNat)
    | none => .ok b.native
  if b.foreign ≠ 0 ∧ native ≠ 0 then throw .mixedAssets
  let (sum, asset) := if b.foreign = 0 then (native, 0) else (b.foreign, b.asset)
  match fee with
  | some _ => if 0 < sum then throw .notSending else return (UInt64.ofNat sum.natAbs, asset)
  | none => if sum ≤ 0 then throw .notReceiving else return (UInt64.ofNat sum.natAbs, asset)

/-- The kernel offset `-(blinding + k)`. -/
def offset (b : Ledger) (k : Scalar) : Bytes 32 := (-(b.blinding + k)).toBytes

def settle (b : Ledger) (fee : UInt64) : Ledger :=
  { b with totalFees := saturatingAdd b.totalFees fee }

def describe (b : Ledger) : String :=
  "TxBalance \x7b rcv_beam: " ++ toString b.native ++ ", rcv_asset: " ++ toString b.foreign ++
    ", aid: " ++ toString b.asset.toNat ++ ", implicit_fee: " ++ toString b.shieldedFees.toNat ++
    ", total_fee: " ++ toString b.totalFees.toNat ++ ", .. \x7d"

end Ledger

def describeSession : Option Ledger → String
  | none => "None"
  | some b => "TxBalance(" ++ b.describe ++ ")"

end ColdWallet
