import ColdWallet.Kernel
import ColdWallet.Shielded.Viewer
import ColdWallet.Wire.Shielded

namespace ColdWallet

def ticketHash (serialPub : CompactPoint) : Bytes 32 :=
  sha256 (label "Out-S" ++ Write.point serialPub)

/-- The nonce of the voucher that follows one made from `nonce`. -/
def nextVoucherNonce (nonce : Bytes 32) : Bytes 32 := sha256 (label "sh.v.n" ++ nonce.toList)

namespace Voucher

def hash (v : Voucher) : Bytes 32 :=
  sha256 (label "voucher.1" ++ Write.point v.serialPub ++ Write.point v.noncePub ++
    v.sharedSecret.toList)

def secretOfPoint (p : Point) : Bytes 32 := sha256 (Viewer.domain "sp-sec" ++ Write.curvePoint p)

def ofNonce (viewer : Viewer) (nonce : Bytes 32) : Voucher :=
  let kG := viewer.blinding.publicHalf (sha256 (Viewer.domain "kG" ++ nonce.toList))
  let spendPub := mulG (viewer.spendKey kG true)
  let serial := (Transcript.challenge (label "L.Spend" ++ Write.curvePoint spendPub)).1
  let serialPub := (mulGJ kG serial).compact
  let m := viewer.exchangeKey serialPub
  let sharedSecret := secretOfPoint (mulGJ (kG * m) (serial * m))
  let nG := viewer.blinding.publicHalf (sha256 (Viewer.domain "nG" ++ sharedSecret.toList))
  let nJ := viewer.blinding.publicHalf (sha256 (Viewer.domain "nJ" ++ sharedSecret.toList))
  let noncePub := (mulGJ nG nJ).compact
  let e := challenge noncePub (ticketHash serialPub)
  { serialPub
    noncePub
    sharedSecret
    signature := .blank
    responses := ((signShare e kG nG).toBytes, (signShare e serial nJ).toBytes) }

def signed (v : Voucher) (sk : Scalar) : Voucher := { v with signature := .sign v.hash sk }

/-- Whether the responses prove knowledge of the serial point:
`k₀·G + k₁·J + e·SerialPub + NoncePub = 0`. -/
def ticketValid (v : Voucher) : Bool :=
  match v.serialPub.toPoint?, v.noncePub.toPoint? with
  | some serialPub, some noncePub =>
    let e := challenge v.noncePub (ticketHash v.serialPub)
    mulGJ (Scalar.reduce v.responses.1) (Scalar.reduce v.responses.2) +
      serialPub.mul e.val + noncePub = .infinity
  | _, _ => false

/-- So many vouchers, the first from `nonce` and each other from the nonce after the one before. -/
def batch (viewer : Viewer) (sk : Scalar) : (count : Nat) → (nonce : Bytes 32) → List Voucher
  | 0, _ => []
  | count + 1, nonce =>
    (ofNonce viewer nonce).signed sk :: batch viewer sk count (nextVoucherNonce nonce)

end Voucher

end ColdWallet
