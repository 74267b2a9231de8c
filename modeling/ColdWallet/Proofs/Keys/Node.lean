import ColdWallet.Keys.Node
import ColdWallet.Proofs.Signature

namespace ColdWallet

namespace PublicNode

def half (n : PublicNode) (hash : Bytes 32) : Scalar :=
  (NonceStream.ofMaterial (label "beam-Key") (n.secret.toList ++ hash.toList)).nextScalar.1

/-- Stated for the function, as the kernel would run the stream to compare its values. -/
theorem half_def : half = fun n hash => (NonceStream.ofMaterial (label "beam-Key")
    (n.secret.toList ++ hash.toList)).nextScalar.1 := rfl

/-- The images of the key under a hash on the two blinding generators; none if a point of the
cofactor is not on the curve. -/
def images? (n : PublicNode) (hash : Bytes 32) : Option (Point × Point) := do
  let cofactorG ← n.cofactorG.toPoint?
  let cofactorJ ← n.cofactorJ.toPoint?
  return (cofactorG.mul (n.half hash).val, cofactorJ.mul (n.half hash).val)

end PublicNode

theorem toPoint?_mulJ (k : Scalar) :
    (mulJ k).compact.toPoint? = some (.ofCurve (k.residue • curveJ)) := by
  rw [mulJ_eq, CompactPoint.toPoint?_ofCurve]

namespace KeyNode

variable (k : KeyNode) (hash : Bytes 32)

theorem toPublic_half : k.toPublic.half hash = k.publicHalf hash := by
  have hsecret : k.toPublic.secret = k.secret := rfl
  rw [publicHalf_eq, PublicNode.half_def]
  beta_reduce
  rw [hsecret]

/-- The half of a key times a multiple of the cofactor is that multiple of the key. -/
theorem mul_half (P : CurvePoint) :
    (Point.ofCurve (k.cofactor.residue • P)).mul (k.publicHalf hash).val =
      .ofCurve ((k.key hash).residue • P) := by
  rw [Point.mul_ofCurve, Scalar.val_smul, smul_smul, ← Scalar.residue_mul, key]

/-- A watcher finds the images of every key of the node, be the cofactor its own or a scaled one. -/
theorem toPublic_images? :
    k.toPublic.images? hash = some (.ofCurve ((k.key hash).residue • curveG),
      .ofCurve ((k.key hash).residue • curveJ)) := by
  have hG : k.toPublic.cofactorG.toPoint? = some (.ofCurve (k.cofactor.residue • curveG)) :=
    toPoint?_mulG k.cofactor
  have hJ : k.toPublic.cofactorJ.toPoint? = some (.ofCurve (k.cofactor.residue • curveJ)) :=
    toPoint?_mulJ k.cofactor
  rw [PublicNode.images?, hG, hJ, toPublic_half]
  simp only [Option.bind_eq_bind, Option.bind_some, Option.pure_def, mul_half]

end KeyNode

end ColdWallet
