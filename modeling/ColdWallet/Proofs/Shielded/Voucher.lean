import ColdWallet.Shielded.Voucher
import ColdWallet.Proofs.Signature

namespace ColdWallet.Voucher

/-- The shared secret behind a serial point, as the owner of a viewer's blinding node finds it without
the voucher's nonce. -/
def recoverSecret? (blinding : KeyNode) (serialPub : CompactPoint) : Option (Bytes 32) :=
  serialPub.toPoint?.map fun p =>
    secretOfPoint
      (p.mul (blinding.key (sha256 (Viewer.domain "DH" ++ Write.point serialPub))).val)

/-- What a voucher is made of: the blinding and the number of its output, each with the nonce that
answers for it in the ticket. -/
structure Made (v : Voucher) (viewer : Viewer) (kG serial nG nJ : Scalar) : Prop where
  serialPub : v.serialPub = (mulGJ kG serial).compact
  noncePub : v.noncePub = (mulGJ nG nJ).compact
  sharedSecret : v.sharedSecret = secretOfPoint
    (mulGJ (kG * viewer.exchangeKey v.serialPub) (serial * viewer.exchangeKey v.serialPub))
  responses : v.responses =
    ((signShare (challenge v.noncePub (ticketHash v.serialPub)) kG nG).toBytes,
      (signShare (challenge v.noncePub (ticketHash v.serialPub)) serial nJ).toBytes)

theorem ofNonce_made (viewer : Viewer) (nonce : Bytes 32) :
    ∃ kG serial nG nJ, (ofNonce viewer nonce).Made viewer kG serial nG nJ :=
  ⟨_, _, _, _, ⟨rfl, rfl, rfl, rfl⟩⟩

section Made

variable {v : Voucher} {viewer : Viewer} {kG serial nG nJ : Scalar}

theorem Made.toPoint?_serialPub (h : v.Made viewer kG serial nG nJ) :
    v.serialPub.toPoint? = some (.ofCurve (kG.residue • curveG + serial.residue • curveJ)) := by
  rw [h.serialPub, mulGJ_eq, CompactPoint.toPoint?_ofCurve]

theorem Made.toPoint?_noncePub (h : v.Made viewer kG serial nG nJ) :
    v.noncePub.toPoint? = some (.ofCurve (nG.residue • curveG + nJ.residue • curveJ)) := by
  rw [h.noncePub, mulGJ_eq, CompactPoint.toPoint?_ofCurve]

/-- On either generator, the response takes off the nonce and the challenge's multiple of the key. -/
theorem Made.ticket_equation (h : v.Made viewer kG serial nG nJ) :
    (Scalar.reduce v.responses.1).residue • curveG +
        (Scalar.reduce v.responses.2).residue • curveJ +
        (challenge v.noncePub (ticketHash v.serialPub)).residue •
          (kG.residue • curveG + serial.residue • curveJ) +
        (nG.residue • curveG + nJ.residue • curveJ) = 0 := by
  simp only [h.responses, Scalar.reduce_toBytes, signShare, Scalar.residue_neg,
    Scalar.residue_add, Scalar.residue_mul]
  module

/-- Both multiples of the exchange key together are the multiple of the serial point. -/
theorem Made.sharedSecret_eq (h : v.Made viewer kG serial nG nJ) :
    v.sharedSecret = secretOfPoint (.ofCurve ((viewer.exchangeKey v.serialPub).residue •
      (kG.residue • curveG + serial.residue • curveJ))) := by
  have hpoint : ∀ m : Scalar, mulGJ (kG * m) (serial * m) =
      .ofCurve (m.residue • (kG.residue • curveG + serial.residue • curveJ)) := by
    intro m
    rw [mulGJ_eq, Scalar.residue_mul, Scalar.residue_mul]
    congr 1
    module
  rw [h.sharedSecret, hpoint]

end Made

/-- A ticket is valid where its responses, its nonce and its serial point cancel out. -/
theorem ticketValid_iff {v : Voucher} {S N : CurvePoint}
    (hserial : v.serialPub.toPoint? = some (.ofCurve S))
    (hnonce : v.noncePub.toPoint? = some (.ofCurve N)) :
    v.ticketValid = true ↔
      (Scalar.reduce v.responses.1).residue • curveG +
        (Scalar.reduce v.responses.2).residue • curveJ +
        (challenge v.noncePub (ticketHash v.serialPub)).residue • S + N = 0 := by
  unfold ticketValid
  simp only [hserial, hnonce, mulGJ_eq, Point.mul_ofCurve, Scalar.val_smul, ← Point.ofCurve_add]
  rw [decide_eq_true_iff]
  exact ⟨fun h => Point.ofCurve_injective h, fun h => congrArg Point.ofCurve h⟩

theorem recoverSecret?_eq {serialPub : CompactPoint} {S : CurvePoint}
    (h : serialPub.toPoint? = some (.ofCurve S)) (viewer : Viewer) :
    recoverSecret? viewer.blinding serialPub =
      some (secretOfPoint (.ofCurve ((viewer.exchangeKey serialPub).residue • S))) := by
  unfold recoverSecret?
  rw [h, Option.map_some, Point.mul_ofCurve, Scalar.val_smul]
  rfl

/-- Every voucher has a valid ticket, and a shared secret that is hashed from the exchange key's multiple
of its serial point. The blinding node and the serial point are all that the owner needs for it. -/
theorem valid_and_recoverable (master : KeyNode) (index : UInt32) (nonce : Bytes 32) :
    let viewer := Viewer.ofMaster master index
    let v := ofNonce viewer nonce
    v.ticketValid = true ∧
      ∃ S N : CurvePoint, v.serialPub.toPoint? = some (.ofCurve S) ∧
        v.noncePub.toPoint? = some (.ofCurve N) ∧
        (Scalar.reduce v.responses.1).residue • curveG +
            (Scalar.reduce v.responses.2).residue • curveJ +
            (challenge v.noncePub (ticketHash v.serialPub)).residue • S + N = 0 ∧
        v.sharedSecret = sha256 (Viewer.domain "sp-sec" ++
          Write.curvePoint (.ofCurve ((viewer.exchangeKey v.serialPub).residue • S))) ∧
        recoverSecret? viewer.blinding v.serialPub = some v.sharedSecret := by
  intro viewer v
  obtain ⟨kG, serial, nG, nJ, hmade⟩ : ∃ kG serial nG nJ, v.Made viewer kG serial nG nJ :=
    ofNonce_made viewer nonce
  have hserial := hmade.toPoint?_serialPub
  have hnonce := hmade.toPoint?_noncePub
  have hsum := hmade.ticket_equation
  have hsecret := hmade.sharedSecret_eq
  refine ⟨(ticketValid_iff hserial hnonce).mpr hsum, _, _, hserial, hnonce, hsum, hsecret, ?_⟩
  rw [recoverSecret?_eq hserial viewer, hsecret]

/-- The vouchers of a batch are made from the nonces along the chain. -/
theorem batch_eq_map (viewer : Viewer) (sk : Scalar) (count : ℕ) (nonce : Bytes 32) :
    batch viewer sk count nonce =
      (List.iterate nextVoucherNonce nonce count).map fun nonce =>
        (ofNonce viewer nonce).signed sk := by
  induction count generalizing nonce with
  | zero => rfl
  | succ count ih => rw [batch, ih, List.iterate, List.map_cons]

/-- A batch goes on where the one before it stopped. -/
theorem batch_append (viewer : Viewer) (sk : Scalar) (a b : ℕ) (nonce : Bytes 32) :
    batch viewer sk (a + b) nonce =
      batch viewer sk a nonce ++ batch viewer sk b (nextVoucherNonce^[a] nonce) := by
  rw [batch_eq_map, batch_eq_map, batch_eq_map, List.iterate_add, List.map_append]

/-- The signature is no part of what is signed. -/
theorem hash_signed (v : Voucher) (sk : Scalar) : (v.signed sk).hash = v.hash := by
  unfold hash signed
  rfl

theorem signed_verifies (v : Voucher) (sk : Scalar) :
    (v.signed (evenKey sk).1).signature.verifyX (v.signed (evenKey sk).1).hash (evenKey sk).2 =
      true := by
  rw [hash_signed]
  exact Signature.sign_verifiesX v.hash sk

end ColdWallet.Voucher
