import ColdWallet.Shielded.Output
import ColdWallet.Proofs.RangeProof.Assembly

namespace ColdWallet.SendShielded

open RangeProof (Recovered)

/-- The bytes that an honest output carries before the amount. -/
def expectedUser (e : Expected) (asset : UInt32) : List UInt8 := bigEndian 4 asset.toNat ++ [e.flags]

/-- The parameters of an honest output: the asset, the flags and the amount. -/
def expectedParams (e : Expected) (amount : UInt64) (asset : UInt32) : Scalar :=
  Scalar.ofNat (ofBigEndian (expectedUser e asset ++ bigEndian 8 amount.toNat))

/-- The blinding factor of an honest output's commitment, without what the asset adds. -/
def proofBlinding (r : SendShielded) (e : Expected) (amount : UInt64) (asset : UInt32) : Scalar :=
  e.blinding -
    if asset ≠ 0 ∨ r.alwaysHideAsset ≠ 0 then assetBlinding r.voucher amount else 0

theorem length_expectedUser (e : Expected) (asset : UInt32) :
    (expectedUser e asset).length = userLength := by
  rw [expectedUser, List.length_append, length_bigEndian]
  rfl

theorem val_expectedParams (e : Expected) (amount : UInt64) (asset : UInt32) :
    (expectedParams e amount asset).val =
      ofBigEndian (expectedUser e asset ++ bigEndian 8 amount.toNat) := by
  have hlt := ofBigEndian_lt (expectedUser e asset ++ bigEndian 8 amount.toNat)
  rw [List.length_append, length_expectedUser, length_bigEndian] at hlt
  exact Nat.mod_eq_of_lt (hlt.trans (by decide))

/-- What has to be read back from an honest proof. -/
theorem proofHonest_iff_recover (r : SendShielded) (e : Expected) (amount : UInt64)
    (asset : UInt32) :
    let recovery := r.proof.recover e.transcript e.seed userLength (some e.seed) true
    r.proofHonest e amount asset = true ↔
      recovery.result = some ⟨amount, some (r.proofBlinding e amount asset), some e.message⟩ ∧
        recovery.user = expectedUser e asset := by
  unfold proofHonest
  generalize r.proof.recover e.transcript e.seed userLength (some e.seed) true = recovery
  obtain ⟨result, user, t⟩ := recovery
  rcases result with _ | ⟨found, _ | blinding, _ | extra⟩
  · simp
  · simp
  · simp
  · simp
  · simp only [decide_eq_true_eq, Option.some.injEq, Recovered.mk.injEq, Scalar.add_eq_iff]
    unfold expectedUser proofBlinding
    tauto

/-- The check of a proof accepts just those that hold what is expected. -/
theorem proofHonest_iff (r : SendShielded) (e : Expected) (amount : UInt64) (asset : UInt32) :
    r.proofHonest e amount asset = true ↔
      r.proof.Holds e.transcript e.seed (expectedParams e amount asset) amount e.seed
        (r.proofBlinding e amount asset) e.message := by
  refine (proofHonest_iff_recover r e amount asset).trans ?_
  rw [← length_expectedUser e asset]
  exact RangeProof.recover_eq_iff r.proof e.transcript e.seed
    ((length_expectedUser e asset).trans_le (by decide)) (val_expectedParams e amount asset) e.seed
    (r.proofBlinding e amount asset) e.message

theorem peerHonest_iff (r : SendShielded) (master : KeyNode) :
    r.peerHonest master = true ↔
      r.voucher.signature.verifyX r.voucher.hash r.parties.peer = true ∧
        (r.parties.ownAddress = 0 ∨
          (master.address r.parties.ownAddress).2 = r.parties.peer) := by
  unfold peerHonest
  rw [Bool.and_eq_true, Bool.or_eq_true, beq_iff_eq, beq_iff_eq]

theorem verifyOutput?_eq {r : SendShielded} {e : Expected} {amount : UInt64} {asset : UInt32}
    (he : expected r.voucher r.note amount asset r.generator.ifPresent = e) (master : KeyNode) :
    r.verifyOutput? master amount asset =
      if r.peerHonest master && r.proofHonest e amount asset then
        some (e.blinding, sha256 (outputMessage.toList ++ RangeProof.layout.write r.proof))
      else none := by
  subst he
  rfl

def withProof (r : SendShielded) (q : RangeProof) : SendShielded := { r with proof := q }

/-- A proof that is assembled from what is expected, over the points of the one in the request. -/
def honestProof (r : SendShielded) (e : Expected) (amount : UInt64) (asset : UInt32) : RangeProof :=
  r.proof.assemble e.transcript e.seed (expectedParams e amount asset).toBytes e.seed
    (r.proofBlinding e amount asset) e.message

section withProof
variable (r : SendShielded) (q : RangeProof)

theorem withProof_proofHonest (e : Expected) (amount : UInt64) (asset : UInt32) :
    (r.withProof q).proofHonest e amount asset = true ↔
      q.Holds e.transcript e.seed (expectedParams e amount asset) amount e.seed
        (r.proofBlinding e amount asset) e.message := proofHonest_iff _ e amount asset

theorem withProof_verifyOutput? {e : Expected} {amount : UInt64} {asset : UInt32}
    (he : expected r.voucher r.note amount asset r.generator.ifPresent = e) (master : KeyNode) :
    (r.withProof q).verifyOutput? master amount asset =
      if r.peerHonest master && (r.withProof q).proofHonest e amount asset then
        some (e.blinding, sha256 (outputMessage.toList ++ RangeProof.layout.write q))
      else none := verifyOutput?_eq (r := r.withProof q) he master

end withProof

theorem honestProof_honest (r : SendShielded) (e : Expected) (amount : UInt64) (asset : UInt32) :
    (r.withProof (r.honestProof e amount asset)).proofHonest e amount asset = true := by
  have hamount : UInt64.ofNat (expectedParams e amount asset).val = amount :=
    ((RangeProof.read_iff ((length_expectedUser e asset).trans_le (by decide)) amount).mpr
      (val_expectedParams e amount asset)).2.2
  have hholds := RangeProof.assemble_holds r.proof e.transcript e.seed
    (expectedParams e amount asset).toBytes e.seed (r.proofBlinding e amount asset) e.message
  rw [Scalar.reduce_toBytes, hamount] at hholds
  exact (withProof_proofHonest r _ e amount asset).mpr hholds

/-- The check accepts exactly the honest outputs: the peer signed the voucher and is the own address
if one is named, and the range proof holds the asset, the flags and the amount in its response and
its `A`, the blinding factor behind `tauX` and the two message scalars in its folded vectors. It then
gives the blinding factor and the kernel's identifier; and every request is accepted once its proof
is assembled from these, if only its peer is honest. -/
theorem verifyOutput_accepts_honest (r : SendShielded) (master : KeyNode) (amount : UInt64)
    (asset : UInt32) :
    let e := expected r.voucher r.note amount asset r.generator.ifPresent
    (∀ blinding id, r.verifyOutput? master amount asset = some (blinding, id) ↔
      (blinding = e.blinding ∧
          id = sha256 (outputMessage.toList ++ RangeProof.layout.write r.proof)) ∧
        r.voucher.signature.verifyX r.voucher.hash r.parties.peer = true ∧
        (r.parties.ownAddress = 0 ∨ (master.address r.parties.ownAddress).2 = r.parties.peer) ∧
        r.proof.Holds e.transcript e.seed (expectedParams e amount asset) amount e.seed
          (r.proofBlinding e amount asset) e.message) ∧
      ((verifyOutput? (r.withProof (r.honestProof e amount asset)) master amount asset).isSome =
          true ↔
        r.peerHonest master = true) := by
  generalize he : expected r.voucher r.note amount asset r.generator.ifPresent = e
  refine ⟨fun blinding id => ?_, ?_⟩
  · rw [verifyOutput?_eq he, Option.ite_none_right_eq_some, Bool.and_eq_true, peerHonest_iff,
      proofHonest_iff, Option.some.injEq, Prod.mk.injEq, eq_comm (a := blinding),
      eq_comm (a := id)]
    tauto
  · rw [withProof_verifyOutput? r _ he, honestProof_honest, Bool.and_true, Option.isSome_ite]

end ColdWallet.SendShielded
