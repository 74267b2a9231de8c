import ColdWallet.Kernel
import ColdWallet.Keys.Address
import ColdWallet.Proofs.Transcript

namespace ColdWallet

attribute [ext] KernelParams KernelPoints

namespace KernelParams

/-- Identifiers and special messages open alike: with the parameters, a point and a number. -/
theorem opening_inj {k k' : KernelParams} {c c' : CompactPoint} {n n' : UInt64}
    {s t : List UInt8}
    (h : Write.num k.fee ++ (Write.num k.minHeight ++ (Write.num k.maxHeight ++
        (Write.point c ++ (Write.num n ++ s)))) =
      Write.num k'.fee ++ (Write.num k'.minHeight ++ (Write.num k'.maxHeight ++
        (Write.point c' ++ (Write.num n' ++ t))))) :
    k = k' ∧ c = c' ∧ n = n' ∧ s = t := by
  obtain ⟨hfee, h⟩ := Write.num_prefixFree h
  obtain ⟨hmin, h⟩ := Write.num_prefixFree h
  obtain ⟨hmax, h⟩ := Write.num_prefixFree h
  obtain ⟨hpoint, h⟩ := Write.point_prefixFree h
  obtain ⟨hnumber, h⟩ := Write.num_prefixFree h
  exact ⟨KernelParams.ext hfee hmin hmax, hpoint, hnumber, h⟩

/-- Each nested kernel is announced by a zero, and the end of them by a one. -/
theorem nested_injective {ids ids' : List (Bytes 32)}
    (h : ids.flatMap (fun id => 0 :: id.toList) ++ [1] =
      ids'.flatMap (fun id => 0 :: id.toList) ++ [1]) : ids = ids' := by
  induction ids generalizing ids' with
  | nil =>
    cases ids' with
    | nil => rfl
    | cons id' ids' => cases (List.cons.inj h).1
  | cons id ids ih =>
    cases ids' with
    | nil => cases (List.cons.inj h).1
    | cons id' ids' =>
      simp only [List.flatMap_cons, List.cons_append, List.append_assoc] at h
      obtain ⟨hid, hrest⟩ := Write.bytes_prefixFree 32 (List.cons.inj h).2
      rw [hid, ih hrest]

/-- Parameters, commitment and nested kernels can be read off the bytes hashed for an identifier. -/
theorem idPreimage_injective {k k' : KernelParams} {points points' : KernelPoints}
    {nested nested' : List (Bytes 32)}
    (h : k.idPreimage points nested = k'.idPreimage points' nested') :
    k = k' ∧ points.commitment = points'.commitment ∧ nested = nested' := by
  simp only [idPreimage, List.append_assoc] at h
  obtain ⟨hparams, hcommitment, _, hnested⟩ := opening_inj h
  exact ⟨hparams, hcommitment, nested_injective (List.append_cancel_left hnested)⟩

/-- In the place of a commitment a special message has one of no point, and a number for its kind
where an identifier has none. -/
theorem specialMessage_eq (k : KernelParams) (kind : UInt8) :
    k.specialMessage kind = Write.num k.fee ++ Write.num k.minHeight ++ Write.num k.maxHeight ++
      Write.point ⟨.zero 32, 1⟩ ++ Write.num kind.toUInt64 ++ [1] := by
  have hpoint : Write.point ⟨.zero 32, 1⟩ = List.replicate 32 0 ++ [1] := rfl
  rw [hpoint, specialMessage, List.append_assoc _ (List.replicate 32 0) [1]]

theorem specialMessage_inj {k k' : KernelParams} {kind kind' : UInt8} {s t : List UInt8}
    (h : k.specialMessage kind ++ s = k'.specialMessage kind' ++ t) :
    k = k' ∧ kind = kind' ∧ s = t := by
  simp only [specialMessage_eq, List.append_assoc] at h
  obtain ⟨hparams, _, hkind, hrest⟩ := opening_inj h
  exact ⟨hparams, UInt8.toUInt64_inj.mp hkind, List.append_cancel_left hrest⟩

theorem specialMessage_prefixFree (kind : UInt8) :
    Write.PrefixFree fun k : KernelParams => k.specialMessage kind := by
  intro k k' s t h
  obtain ⟨hparams, _, hrest⟩ := specialMessage_inj h
  exact ⟨hparams, hrest⟩

end KernelParams

end ColdWallet
