import ColdWallet.Keys.Coin
import ColdWallet.Shielded.Voucher

namespace ColdWallet

namespace ShieldedInput

def keyChild : UInt32 := 0xfffffffe

def keyPreimage (s : ShieldedInput) : List UInt8 :=
  label "sh.skout" ++ Write.num s.terms.amount ++ Write.num32 s.terms.asset ++
    Write.num s.terms.fee ++ s.secret.serialBlinding.toList ++
    Write.num (if s.secret.byViewer = 0 then 0 else 1) ++ Write.num32 s.terms.viewer

/-- The blinding factor of the output that a shielded input is turned into. -/
def blinding (s : ShieldedInput) (master : KeyNode) : Scalar :=
  (master.child keyChild).key (sha256 s.keyPreimage)

end ShieldedInput

inductive SpendError where
  /-- The serial blinding is not below the group order. -/
  | serialOverflow
  /-- A decoy is missing, cut short, or no curve point where one is needed. -/
  | decoy
deriving DecidableEq, Repr

/-- The nonces of a spend: two for its signature, and the one that blinds the first decoy. -/
structure SpendNonces where
  first : Scalar
  second : Scalar
  tau : Scalar
deriving DecidableEq

def SpendNonces.ofSeed (seed : Bytes 32) : SpendNonces :=
  let first := (NonceStream.ofMaterial (label "lelantus.1") seed.toList).nextScalar
  let second := first.2.nextScalar
  ⟨first.1, second.1, second.2.nextScalar.1⟩

namespace SpendShielded

def kernelMessage (r : SpendShielded) : List UInt8 :=
  KernelParams.specialMessage ⟨r.input.terms.fee, r.window.minHeight, r.window.maxHeight⟩
    shieldedInputKind ++ Write.num r.window.windowEnd

def opening (r : SpendShielded) (outputCommitment spendPub : Point) : Transcript :=
  (sha256 r.kernelMessage).toList ++ r.poolState.toList ++
    Write.pointOption r.generator.ifPresent ++ Write.num32 r.window.sigmaN ++
    Write.num32 r.window.sigmaM ++ Write.curvePoint outputCommitment ++ Write.curvePoint spendPub

/-- All that is visible when the nonces are drawn, followed by the secrets. -/
def nonceMaterial (r : SpendShielded) (transcript : Transcript) (decoys : List CompactPoint)
    (outputBlinding : Scalar) : List UInt8 :=
  transcript ++ decoys.flatMap Write.point ++ Write.scalar outputBlinding ++ r.assetKey.toList ++
    r.outputKey.toList

/-- The list without its errors, or none if there is one. -/
def wholeDecoys? (r : SpendShielded) : Option (List CompactPoint) :=
  r.decoys.mapM Except.toOption

def outputCommitment (r : SpendShielded) (master : KeyNode) : Point :=
  commit (r.input.blinding master) r.input.terms.amount (assetGenerator r.input.terms.asset)

def spendKey (r : SpendShielded) (master : KeyNode) (serialBlinding : Scalar) : Scalar :=
  (Viewer.ofMaster master r.input.terms.viewer).spendKey serialBlinding
    (r.input.secret.byViewer != 0)

def signatureChallenges (noncePub : CompactPoint) (hash : Bytes 32) : Scalar × Scalar :=
  let drawn := Transcript.challenge (Write.point noncePub ++ hash.toList)
  (drawn.1, drawn.2.challenge.1)

def signatureResponses (r : SpendShielded) (output spendKey : Scalar) (n : SpendNonces)
    (e : Scalar × Scalar) : Scalar × Scalar :=
  let assetKey := Scalar.reduce r.assetKey
  let amount := Scalar.ofNat r.input.terms.amount.toNat
  (-(n.first + assetKey * n.second + (assetKey * amount + output) * e.1 + spendKey * e.2),
    -(n.second + amount * e.1))

def sigmaChallenge (t : Transcript) (g₀ : CompactPoint) (decoys : List CompactPoint) : Scalar :=
  (t ++ Write.point g₀ ++ decoys.flatMap Write.point).challenge.1

def decoyResponse (r : SpendShielded) (output tau x : Scalar) : Scalar :=
  (Scalar.reduce r.outputKey - output) * x.pow (max 1 r.window.sigmaM.toNat) - tau

/-- The device's part of the proof: a signature over the output commitment and the spend key, the
first decoy blinded by a nonce, and the response for it. -/
def respond (r : SpendShielded) (output spendKey : Scalar) (opened : Bytes 32 × Transcript)
    (n : SpendNonces) (decoyPoint : Point) (decoys : List CompactPoint) : SpentShielded :=
  let noncePub := (commitScalar n.first n.second (assetGenerator r.input.terms.asset)).compact
  let responses := r.signatureResponses output spendKey n (signatureChallenges noncePub opened.1)
  let g₀ := (mulG n.tau + decoyPoint).compact
  let x := sigmaChallenge (opened.2 ++ r.abcd.toList.flatMap Write.point) g₀ decoys
  { noncePub
    responses := (responses.1.toBytes, responses.2.toBytes)
    g₀
    zR := (r.decoyResponse output n.tau x).toBytes }

/-- The answer to a request to spend, with nonces drawn from all that it holds. -/
def prove (r : SpendShielded) (master : KeyNode) : Except SpendError SpentShielded := do
  let output := r.input.blinding master
  let some serialBlinding := Scalar.ofBytes? r.input.secret.serialBlinding
    | throw .serialOverflow
  let spendKey := r.spendKey master serialBlinding
  let opened := Transcript.challengeHash (r.opening (r.outputCommitment master) (mulG spendKey))
  let some decoys := r.wholeDecoys? | throw .decoy
  let n := SpendNonces.ofSeed (sha256
    (r.nonceMaterial (opened.2 ++ r.abcd.toList.flatMap Write.point) decoys output))
  let some decoy₀ := decoys.head? | throw .decoy
  let some decoyPoint := decoy₀.toPoint? | throw .decoy
  return r.respond output spendKey opened n decoyPoint (decoys.drop 1)

end SpendShielded

end ColdWallet
