import ColdWallet.Device.Request
import ColdWallet.Device.Turn
import ColdWallet.Keys.Address
import ColdWallet.Shielded.Output

namespace ColdWallet

/-- The blinding factor and the nonce of a kernel, both drawn from a hash of all that its signature
depends on. -/
structure KernelKeys where
  blinding : Scalar
  nonce : Scalar
deriving DecidableEq

namespace KernelKeys

def ofHash (salt : List UInt8) (hash : Bytes 32) : KernelKeys :=
  let (blinding, stream) := (NonceStream.ofMaterial salt hash.toList).nextScalar
  ⟨blinding, stream.nextScalar.1⟩

def points (k : KernelKeys) : KernelPoints :=
  ⟨(mulG k.blinding).compact, (mulG k.nonce).compact⟩

/-- The public points joined with those of the peer, if the peer's are points. -/
def joint? (k : KernelKeys) (peer : KernelPoints) : Option KernelPoints := do
  let commitment ← peer.commitment.toPoint?
  let noncePub ← peer.noncePub.toPoint?
  return ⟨(mulG k.blinding + commitment).compact, (mulG k.nonce + noncePub).compact⟩

def sign (k : KernelKeys) (noncePub : CompactPoint) (kernelId : Bytes 32) : Bytes 32 :=
  (signShare (challenge noncePub kernelId) k.blinding k.nonce).toBytes

end KernelKeys

namespace KernelParams

def terms (k : KernelParams) : List UInt8 :=
  Write.num k.minHeight ++ Write.num k.maxHeight ++ Write.num k.fee

end KernelParams

namespace Split

def keyPreimage (r : Split) (b : Ledger) : List UInt8 := r.kernel.terms ++ Write.scalar b.blinding

def keys (r : Split) (b : Ledger) : KernelKeys :=
  .ofHash (label "hw-wlt-split") (sha256 (r.keyPreimage b))

end Split

namespace Receive

def keyPreimage (r : Receive) (b : Ledger) (net : UInt64) (asset : UInt32) : List UInt8 :=
  (r.kernel.id r.points []).toList ++ Write.point r.points.noncePub ++ [0] ++
    r.parties.peer.toList ++ Write.num r.parties.ownAddress ++ Write.scalar b.blinding ++
    Write.num net ++ Write.num32 asset

def keys (r : Receive) (b : Ledger) (net : UInt64) (asset : UInt32) : KernelKeys :=
  .ofHash (label "hw-wlt-rcv") (sha256 (r.keyPreimage b net asset))

end Receive

namespace SendShielded

def keyPreimage (r : SendShielded) (b : Ledger) (nested : Bytes 32) : List UInt8 :=
  nested.toList ++ r.kernel.terms ++ Write.scalar b.blinding

def keys (r : SendShielded) (b : Ledger) (nested : Bytes 32) : KernelKeys :=
  .ofHash (label "hw-wlt-snd-sh") (sha256 (r.keyPreimage b nested))

end SendShielded

/-- What both halves of a send agree on. Heights and commitments may still change between them; the
fee may not. -/
structure SendTerms where
  fee : UInt64
  peer : Bytes 32
  ownId : Bytes 32
  blinding : Scalar
  net : UInt64
  asset : UInt32
  nonce : Scalar
deriving DecidableEq

namespace SendTerms

def preimage (t : SendTerms) : List UInt8 :=
  Write.num t.fee ++ t.peer.toList ++ t.ownId.toList ++ [0] ++ Write.scalar t.blinding ++
    Write.num t.net ++ Write.num32 t.asset ++ Write.scalar t.nonce

def keys (t : SendTerms) : KernelKeys :=
  ⟨NonceStream.firstScalar (label "hw-wlt-snd") (sha256 t.preimage).toList, t.nonce⟩

def agreementPreimage (t : SendTerms) : List UInt8 :=
  label "tx.token" ++ Write.scalar t.keys.blinding

/-- The token of the user's agreement, which is never all zero. -/
def agreement (t : SendTerms) : Bytes 32 :=
  let token := sha256 t.agreementPreimage
  if allZero token.toList then token.set 31 1 else token

end SendTerms

namespace Device

/-- A response and an offset for a kernel whose keys are these. The offset may cover a further
key. -/
def signature (b : Ledger) (k : KernelKeys) (further : Scalar) (noncePub : CompactPoint)
    (kernelId : Bytes 32) : KernelSignature :=
  ⟨k.sign noncePub kernelId, b.offset (k.blinding + further)⟩

/-- The kernel of a split with the prompt for it. Nothing may be left over besides the fee. -/
def planSplit (b : Ledger) (r : Split) : Except DeviceError (SpendPrompt × SignedKernel) := do
  let (net, _) ← b.net (some r.kernel.fee)
  if net ≠ 0 then throw .netAmount
  let keys := r.keys b
  let id := r.kernel.id keys.points []
  return (
    { amount := 0, asset := 0, peer := none, kernel := r.kernel, kernelId := some id },
    ⟨keys.points, signature b keys 0 keys.points.noncePub id⟩)

def split (approve : SpendPrompt → Bool) (r : Split) : Act SignedKernel := do
  let (prompt, reply) ← Act.ofExcept (planSplit (← Act.ledger) r)
  Act.confirm approve prompt
  Act.settle r.kernel.fee
  return reply

/-- Signs as the receiver of a transfer. An own address makes the device confirm the payment. -/
def receive (d : Device) (b : Ledger) (r : Receive) : Except DeviceError Received := do
  let (net, asset) ← b.net none
  let keys := r.keys b net asset
  let some points := keys.joint? r.points | throw .peerCommitments
  let id := r.kernel.id points []
  let paymentProof :=
    if r.parties.ownAddress = 0 then .blank
    else
      let (sk, _) := d.master.address r.parties.ownAddress
      .sign (paymentConfirmation r.parties.peer id net asset) sk
  return ⟨points, signature b keys 0 points.noncePub id, paymentProof⟩

/-- What is sent, and in which asset, if the request could be signed. -/
def checkSend (d : Device) (b : Ledger) (kernel : KernelParams) (parties : Parties)
    (slot : UInt32) : Except DeviceError (UInt64 × UInt32) := do
  let (net, asset) ← b.net (some kernel.fee)
  if net = 0 then throw .netAmount
  if allZero parties.peer.toList then throw .missingPeer
  if d.policy.slots ≤ slot then throw .slotRange
  return (net, asset)

def sendTerms (d : Device) (kernel : KernelParams) (parties : Parties) (slot : UInt32) :
    Act SendTerms := do
  let b ← Act.ledger
  let (net, asset) ← Act.ofExcept (checkSend d b kernel parties slot)
  let value ← Act.readSlot slot
  return {
    fee := kernel.fee
    peer := parties.peer
    ownId := (d.master.address parties.ownAddress).2
    blinding := b.blinding
    net
    asset
    nonce := d.master.key value }

def openSend (d : Device) (approve : SpendPrompt → Bool) (r : OpenSend) : Act OpenedSend := do
  let t ← sendTerms d r.kernel r.parties r.slot
  Act.confirm approve
    { amount := t.net, asset := t.asset, peer := some t.peer, kernel := r.kernel, kernelId := none }
  return ⟨t.agreement, t.keys.points⟩

def renewSlot (d : Device) (slot : UInt32) : Act Unit := do
  let value ← Act.drawBytes d.entropy
  Act.writeSlot slot value

/-- Signs as the sender, once the user has agreed to these terms and the peer has confirmed the
payment. The slot is renewed before the signature leaves, so its nonce is not used again. -/
def closeSend (d : Device) (r : CloseSend) : Act ClosedSend := do
  let t ← sendTerms d r.kernel r.parties r.slot
  if r.agreement ≠ t.agreement then Act.fail .userAgreement
  let id := r.kernel.id r.points []
  let message := paymentConfirmation t.ownId id t.net t.asset
  if !r.paymentProof.verifyX message r.parties.peer then Act.fail .paymentProof
  renewSlot d r.slot
  let b ← Act.ledger
  Act.settle r.kernel.fee
  return ⟨signature b t.keys 0 r.points.noncePub id⟩

/-- The kernel of a send to a voucher with the prompt for it. A send to an own address takes nothing
out of the wallet. -/
def planSendShielded (d : Device) (b : Ledger) (r : SendShielded) :
    Except DeviceError (SpendPrompt × SignedKernel) := do
  let (net, asset) ← b.net (some r.kernel.fee)
  if net = 0 then throw .netAmount
  if allZero r.parties.peer.toList then throw .missingPeer
  let some (outputBlinding, nested) := r.verifyOutput? d.master net asset
    | throw .shieldedOutput
  let keys := r.keys b nested
  let id := r.kernel.id keys.points [nested]
  let prompt : SpendPrompt :=
    if r.parties.ownAddress = 0 then
      { amount := net, asset, peer := some r.parties.peer, kernel := r.kernel, kernelId := some id }
    else { amount := 0, asset := 0, peer := none, kernel := r.kernel, kernelId := some id }
  return (prompt, ⟨keys.points, signature b keys outputBlinding keys.points.noncePub id⟩)

def sendShielded (d : Device) (approve : SpendPrompt → Bool) (r : SendShielded) :
    Act SignedKernel := do
  let (prompt, reply) ← Act.ofExcept (planSendShielded d (← Act.ledger) r)
  Act.confirm approve prompt
  Act.settle r.kernel.fee
  return reply

/-- Adds coins to the balance, a new one if there is none or the request discards it. A failure
leaves no balance at all. -/
def addCoins (d : Device) (r : AddCoins) : Act Unit := do
  let s ← Act.look
  let b : Ledger := (if r.reset != 0 then none else s.session).getD {}
  match b.addCoins d.master d.policy r with
  | .ok b => Act.setSession (some b)
  | .error e => do
    Act.setSession none
    Act.fail e

end Device

end ColdWallet
