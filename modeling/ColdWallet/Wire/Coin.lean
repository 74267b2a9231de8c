import ColdWallet.Wire.Codec

namespace ColdWallet

/-- What a coin's key is derived from. The high byte of `subIndex` is the key scheme, the rest the
index of a child key. -/
structure CoinId where
  index : UInt64
  kind : UInt32
  subIndex : UInt32
  amount : UInt64
  asset : UInt32
deriving DecidableEq, Repr

def CoinId.layout : Layout CoinId :=
  (Layout.u64.pair <| Layout.u32.pair <| Layout.u32.pair <| Layout.u64.pair Layout.u32).map
    (fun (index, kind, subIndex, amount, asset) => { index, kind, subIndex, amount, asset })
    (fun c => (c.index, c.kind, c.subIndex, c.amount, c.asset))

structure ShieldedSecret where
  serialBlinding : Bytes 32
  /-- Nonzero when the viewer, and not a holder of the public half alone, created the voucher. -/
  byViewer : UInt8
deriving DecidableEq

def ShieldedSecret.layout : Layout ShieldedSecret :=
  ((Layout.bytes 32).pair Layout.u8).map
    (fun (serialBlinding, byViewer) => { serialBlinding, byViewer })
    (fun s => (s.serialBlinding, s.byViewer))

structure ShieldedTerms where
  fee : UInt64
  amount : UInt64
  asset : UInt32
  viewer : UInt32
deriving DecidableEq, Repr

def ShieldedTerms.layout : Layout ShieldedTerms :=
  (Layout.u64.pair <| Layout.u64.pair <| Layout.u32.pair Layout.u32).map
    (fun (fee, amount, asset, viewer) => { fee, amount, asset, viewer })
    (fun s => (s.fee, s.amount, s.asset, s.viewer))

structure ShieldedInput where
  secret : ShieldedSecret
  terms : ShieldedTerms
deriving DecidableEq

def ShieldedInput.layout : Layout ShieldedInput :=
  (ShieldedSecret.layout.pair ShieldedTerms.layout).map
    (fun (secret, terms) => { secret, terms })
    (fun s => (s.secret, s.terms))

/-- Reads so many entries from the front of the bytes, up to the first that is cut short. -/
def Layout.readEntries {α : Type} (a : Layout α) : Nat → List UInt8 → List (Except WireError α)
  | 0, _ => []
  | n + 1, l =>
    match a.decode l with
    | .ok (v, rest) => .ok v :: a.readEntries n rest
    | .error e => [.error e]

/-- A list of coins to add to a transaction: a header with the counts, and the coins as raw bytes
whose length is left for the receiver to check. -/
structure AddCoins where
  /-- Nonzero to discard the coins added before. -/
  reset : UInt8
  inputCount : UInt8
  outputCount : UInt8
  shieldedCount : UInt8
  payload : List UInt8
deriving DecidableEq

namespace AddCoins

def headerWidth : Nat := 4

def payloadLength (r : AddCoins) : Nat :=
  (r.inputCount.toNat + r.outputCount.toNat) * CoinId.layout.width +
    r.shieldedCount.toNat * ShieldedInput.layout.width

def inputs (r : AddCoins) : List (Except WireError CoinId) :=
  CoinId.layout.readEntries r.inputCount.toNat r.payload

def outputs (r : AddCoins) : List (Except WireError CoinId) :=
  CoinId.layout.readEntries r.outputCount.toNat
    (r.payload.drop (r.inputCount.toNat * CoinId.layout.width))

def shielded (r : AddCoins) : List (Except WireError ShieldedInput) :=
  ShieldedInput.layout.readEntries r.shieldedCount.toNat
    (r.payload.drop ((r.inputCount.toNat + r.outputCount.toNat) * CoinId.layout.width))

def codec : Codec AddCoins where
  encode r := r.reset :: r.inputCount :: r.outputCount :: r.shieldedCount :: r.payload
  decode
    | reset :: inputCount :: outputCount :: shieldedCount :: payload =>
      .ok ({ reset, inputCount, outputCount, shieldedCount, payload }, [])
    | _ => .error .invalidLength

/-- The request for these coins, if their encodings fit so many bytes and every count fits a
byte. -/
def build (capacity : Nat) (reset : Bool) (inputs outputs : List CoinId)
    (shielded : List ShieldedInput) : Except WireError AddCoins :=
  let payload := (inputs ++ outputs).flatMap CoinId.layout.write ++
    shielded.flatMap ShieldedInput.layout.write
  if 255 < inputs.length ∨ 255 < outputs.length ∨ 255 < shielded.length ∨
      capacity < payload.length then .error .invalidLength
  else .ok {
    reset := if reset then 1 else 0
    inputCount := UInt8.ofNat inputs.length
    outputCount := UInt8.ofNat outputs.length
    shieldedCount := UInt8.ofNat shielded.length
    payload }

end AddCoins

end ColdWallet
