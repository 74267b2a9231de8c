import ColdWallet.Wire.Keys

namespace ColdWallet

structure KernelParams where
  fee : UInt64
  minHeight : UInt64
  maxHeight : UInt64
deriving DecidableEq, Repr

def KernelParams.layout : Layout KernelParams :=
  (Layout.u64.pair <| Layout.u64.pair Layout.u64).map
    (fun (fee, minHeight, maxHeight) => { fee, minHeight, maxHeight })
    (fun k => (k.fee, k.minHeight, k.maxHeight))

structure KernelPoints where
  commitment : CompactPoint
  noncePub : CompactPoint
deriving DecidableEq

def KernelPoints.layout : Layout KernelPoints :=
  (CompactPoint.layout.pair CompactPoint.layout).map
    (fun (commitment, noncePub) => { commitment, noncePub }) (fun k => (k.commitment, k.noncePub))

/-- The two sides of a transfer: the peer's identity, and the number of the own address. -/
structure Parties where
  peer : Bytes 32
  ownAddress : UInt64
deriving DecidableEq

def Parties.layout : Layout Parties :=
  ((Layout.bytes 32).pair Layout.u64).map
    (fun (peer, ownAddress) => { peer, ownAddress }) (fun p => (p.peer, p.ownAddress))

/-- A kernel's signature share, and the share of the offset that goes with it. -/
structure KernelSignature where
  response : Bytes 32
  offset : Bytes 32
deriving DecidableEq

def KernelSignature.layout : Layout KernelSignature :=
  ((Layout.bytes 32).pair (Layout.bytes 32)).map
    (fun (response, offset) => { response, offset }) (fun s => (s.response, s.offset))

structure Signature where
  noncePub : CompactPoint
  response : Bytes 32
deriving DecidableEq

namespace Signature

def layout : Layout Signature :=
  (CompactPoint.layout.pair (Layout.bytes 32)).map
    (fun (noncePub, response) => { noncePub, response }) (fun s => (s.noncePub, s.response))

/-- The signature with all bytes zero, where none is given. -/
def blank : Signature := ⟨.infinity, .zero 32⟩

end Signature

structure Split where
  kernel : KernelParams
deriving DecidableEq, Repr

def Split.layout : Layout Split := KernelParams.layout.map Split.mk Split.kernel

structure SignedKernel where
  points : KernelPoints
  signature : KernelSignature
deriving DecidableEq

def SignedKernel.layout : Layout SignedKernel :=
  (KernelPoints.layout.pair KernelSignature.layout).map
    (fun (points, signature) => { points, signature }) (fun r => (r.points, r.signature))

structure Receive where
  kernel : KernelParams
  parties : Parties
  points : KernelPoints
deriving DecidableEq

def Receive.layout : Layout Receive :=
  (KernelParams.layout.pair <| Parties.layout.pair KernelPoints.layout).map
    (fun (kernel, parties, points) => { kernel, parties, points })
    (fun r => (r.kernel, r.parties, r.points))

structure Received where
  points : KernelPoints
  signature : KernelSignature
  paymentProof : Signature
deriving DecidableEq

def Received.layout : Layout Received :=
  (KernelPoints.layout.pair <| KernelSignature.layout.pair Signature.layout).map
    (fun (points, signature, paymentProof) => { points, signature, paymentProof })
    (fun r => (r.points, r.signature, r.paymentProof))

/-- Opens a transfer to a peer, with the nonce kept in a slot. -/
structure OpenSend where
  kernel : KernelParams
  parties : Parties
  slot : UInt32
deriving DecidableEq

def OpenSend.layout : Layout OpenSend :=
  (KernelParams.layout.pair <| Parties.layout.pair Layout.u32).map
    (fun (kernel, parties, slot) => { kernel, parties, slot })
    (fun r => (r.kernel, r.parties, r.slot))

structure OpenedSend where
  agreement : Bytes 32
  points : KernelPoints
deriving DecidableEq

def OpenedSend.layout : Layout OpenedSend :=
  ((Layout.bytes 32).pair KernelPoints.layout).map
    (fun (agreement, points) => { agreement, points }) (fun r => (r.agreement, r.points))

/-- Closes a transfer: the user's agreement from its opening, and the peer's part. -/
structure CloseSend where
  kernel : KernelParams
  parties : Parties
  slot : UInt32
  paymentProof : Signature
  agreement : Bytes 32
  points : KernelPoints
deriving DecidableEq

def CloseSend.layout : Layout CloseSend :=
  (KernelParams.layout.pair <| Parties.layout.pair <| Layout.u32.pair <|
    Signature.layout.pair <| (Layout.bytes 32).pair KernelPoints.layout).map
    (fun (kernel, parties, slot, paymentProof, agreement, points) =>
      { kernel, parties, slot, paymentProof, agreement, points })
    (fun r => (r.kernel, r.parties, r.slot, r.paymentProof, r.agreement, r.points))

structure ClosedSend where
  signature : KernelSignature
deriving DecidableEq

def ClosedSend.layout : Layout ClosedSend :=
  KernelSignature.layout.map ClosedSend.mk ClosedSend.signature

end ColdWallet
