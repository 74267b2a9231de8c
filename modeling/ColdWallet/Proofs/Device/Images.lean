import ColdWallet.Proofs.Cosigning
import ColdWallet.Proofs.Device.Frame
import ColdWallet.Proofs.Keys.Node

namespace ColdWallet

namespace KeyImage

def fields : Layout (Bytes 32 × UInt32 × UInt8) :=
  (Layout.bytes 32).pair (Layout.u32.pair Layout.u8)

theorem fields_lawful : fields.Lawful :=
  (Layout.bytes_exact 32).toLawful.pair (Layout.u32_exact.toLawful.pair Layout.u8_exact.toLawful)

/-- A request for images of a child's key under a hash, with all eight bits of its flags. -/
def frame (hash : Bytes 32) (child : UInt32) (flags : UInt8) : List UInt8 :=
  Opcode.keyImage.toByte :: (hash.toList ++ (littleEndian 4 child.toNat ++ [flags]))

/-- Two bits of the flags are read, whatever the others are. -/
theorem ofList?_frame (hash : Bytes 32) (child : UInt32) (flags : UInt8) :
    Request.ofList? (frame hash child flags) = some (.keyImage ⟨hash, child, .ofByte flags⟩) := by
  let bytes := fields.write (hash, child, flags)
  have hlength : bytes.length = layout.width := fields_lawful.length _
  have hread : layout.read bytes = ⟨hash, child, .ofByte flags⟩ := by
    show (fun v => KeyImage.mk v.1 v.2.1 (.ofByte v.2.2)) (fields.read bytes) = _
    rw [fields_lawful.read]
  have hexact : Request.exact layout bytes = .ok ⟨hash, child, .ofByte flags⟩ := by
    rw [Request.exact, hlength, if_neg (lt_irrefl _), if_neg (lt_irrefl _), hread]
  have hpayload : Request.ofPayload .keyImage bytes =
      .ok (.keyImage ⟨hash, child, .ofByte flags⟩) := congrArg (Except.map Request.keyImage) hexact
  have hframe : frame hash child flags = Opcode.keyImage.toByte :: bytes := rfl
  rw [hframe, Request.ofList?, Opcode.ofByte?_toByte, Option.bind_eq_bind, Option.bind_some,
    hpayload]
  rfl

end KeyImage

theorem ShieldedInput.blinding_eq (s : ShieldedInput) (master : KeyNode) :
    s.blinding master = (master.child 0xfffffffe).key (sha256 s.keyPreimage) := rfl

namespace Device

variable (d : Device) (approve : SpendPrompt → Bool) (s : State) {room : ℕ}

theorem keyImages_ofByte (hash : Bytes 32) (child : UInt32) (flags : UInt8) :
    d.keyImages ⟨hash, child, .ofByte flags⟩ =
      if flags &&& 1 = 0 ∧ flags &&& 2 = 0 then .error .noImage
      else .ok {
        onG := if flags &&& 1 = 0 then .infinity
          else (mulG ((d.master.child child).key hash)).compact
        onJ := if flags &&& 2 = 0 then .infinity
          else (mulJ ((d.master.child child).key hash)).compact } := by
  unfold keyImages ImageFlags.ofByte
  by_cases hG : flags &&& 1 = 0
  · by_cases hJ : flags &&& 2 = 0
    · simp [hG, hJ]
    · simp [hG, hJ]
  · by_cases hJ : flags &&& 2 = 0
    · simp [hG, hJ]
    · simp [hG, hJ]

/-- The answer about images, where it has room. -/
theorem invoke_keyImage (hash : Bytes 32) (child : UInt32) (flags : UInt8)
    (hroom : Opcode.keyImage.answerWidth ≤ room) :
    (d.invoke approve (KeyImage.frame hash child flags) (1 + room) s).bytes =
      answerBytes (1 + room)
        ((d.keyImages ⟨hash, child, .ofByte flags⟩).map Reply.keyImages) := by
  have hadmission : Request.admission (KeyImage.frame hash child flags) (1 + room) =
      .ok (.keyImage ⟨hash, child, .ofByte flags⟩) :=
    Request.admission_of_ofList? (KeyImage.ofList?_frame hash child flags)
      (Nat.add_le_add_left hroom 1)
  have hanswer : d.answer approve (1 + room - 1) (.keyImage ⟨hash, child, .ofByte flags⟩) s =
      ⟨(d.keyImages ⟨hash, child, .ofByte flags⟩).map Reply.keyImages, [], s⟩ :=
    Act.wrap_ofExcept _ Reply.keyImages s
  rw [invoke_admitted hadmission hanswer]

theorem invoke_exportKey (r : ExportKey) (hroom : Opcode.exportKey.answerWidth ≤ room) :
    (d.invoke approve (Request.exportKey r).toList (1 + room) s).bytes =
      StatusMajor.ok.toByte :: ExportedKey.layout.write (d.exportKey r) := by
  have hadmission : Request.admission (Request.exportKey r).toList (1 + room) =
      .ok (.exportKey r) := Request.admission_toList (Nat.add_le_add_left hroom 1)
  have hanswer : d.answer approve (1 + room - 1) (.exportKey r) s =
      ⟨.ok (.exportedKey (d.exportKey r)), [], s⟩ := rfl
  rw [invoke_admitted hadmission hanswer]
  rfl

/-- A watcher predicts the images of the exported child. From the node that is answered, whatever kind
but zero is asked for, the watcher finds two points under every hash; the device gives them out in
compact form, for the generators that the flags name, and refuses where they name none. The node of
any key node, at whatever depth and with whatever cofactor, gives the key times either generator. -/
theorem watcher_predicts_images {kind : UInt8} (hkind : kind ≠ 0) :
    (∃ node : PublicNode,
      (∀ (approve : SpendPrompt → Bool) (s : State) (room : ℕ),
        Opcode.exportKey.answerWidth ≤ room →
        (d.invoke approve [Opcode.exportKey.toByte, kind] (1 + room) s).bytes =
          StatusMajor.ok.toByte :: ExportedKey.layout.write ⟨node⟩) ∧
      ∀ hash : Bytes 32, ∃ onG onJ : Point, node.images? hash = some (onG, onJ) ∧
        ∀ (flags : UInt8) (approve : SpendPrompt → Bool) (s : State) (room : ℕ),
          Opcode.keyImage.answerWidth ≤ room →
          (d.invoke approve (KeyImage.frame hash 0xffffffff flags) (1 + room) s).bytes =
            if flags &&& 1 = 0 ∧ flags &&& 2 = 0 then [StatusMajor.unspecified.toByte, 0]
            else StatusMajor.ok.toByte :: KeyImages.layout.write {
              onG := if flags &&& 1 = 0 then .infinity else onG.compact
              onJ := if flags &&& 2 = 0 then .infinity else onJ.compact }) ∧
    ∀ (k : KeyNode) (hash : Bytes 32),
      k.toPublic.images? hash = some (.ofCurve ((k.key hash).residue • curveG),
        .ofCurve ((k.key hash).residue • curveJ)) := by
  refine ⟨⟨(d.master.child exportedChild).toPublic, ?_, fun hash => ⟨_, _,
    (d.master.child exportedChild).toPublic_images? hash, ?_⟩⟩, KeyNode.toPublic_images?⟩
  · intro approve s room hroom
    have hnode : d.exportKey ⟨kind⟩ = ⟨(d.master.child exportedChild).toPublic⟩ := by
      rw [exportKey, if_neg hkind]
    rw [← hnode]
    exact d.invoke_exportKey approve s ⟨kind⟩ hroom
  · intro flags approve s room hroom
    have hstatus : 2 ≤ 1 + Opcode.keyImage.answerWidth := by decide
    have hcapacity : 2 ≤ 1 + room := hstatus.trans (Nat.add_le_add_left hroom 1)
    rw [d.invoke_keyImage approve s hash 0xffffffff flags hroom, keyImages_ofByte, ← mulG_eq,
      ← mulJ_eq]
    split_ifs with hnone
    · exact answerBytes_error .noImage hcapacity
    · rfl
    · rfl
    · rfl
    · rfl

/-- The exported node tells the image on the second generator alone; six bits of the flags name
none. -/
theorem watcher_predicts_images_second :
    let d := Sample.device (.zero 32)
    let s : State := ⟨none, fun _ => .zero 32, 0⟩
    let ask (request : List UInt8) (room : ℕ) :=
      (d.invoke (fun _ => false) request (1 + room) s).bytes
    (1 : UInt8) ≠ 0 ∧ ∃ (node : PublicNode) (onG onJ : Point),
      ask [3, 1] 98 = 0 :: ExportedKey.layout.write ⟨node⟩ ∧
      node.images? (.zero 32) = some (onG, onJ) ∧
      ask (KeyImage.frame (.zero 32) 0xffffffff 2) 66 =
        0 :: KeyImages.layout.write ⟨.infinity, onJ.compact⟩ ∧
      ask (KeyImage.frame (.zero 32) 0xffffffff 0xfc) 66 = [1, 0] := by
  intro d s ask
  have hkind : (1 : UInt8) ≠ 0 := by decide
  obtain ⟨⟨node, hexported, hwatched⟩, -⟩ := watcher_predicts_images d hkind
  obtain ⟨onG, onJ, himages, hanswers⟩ := hwatched (.zero 32)
  have hsecond := hanswers 2 (fun _ => false) s 66 (by decide)
  rw [if_neg (by decide), if_pos (by decide), if_neg (by decide)] at hsecond
  have hnone := hanswers 0xfc (fun _ => false) s 66 (by decide)
  rw [if_pos (by decide)] at hnone
  exact ⟨hkind, node, onG, onJ, hexported (fun _ => false) s 98 (by decide), himages, hsecond,
    hnone⟩

/-- Two key nodes give a hash the same image exactly where they have the same key under it. -/
theorem images_agree_iff (k l : KeyNode) (hash : Bytes 32) :
    mulG (k.key hash) = mulG (l.key hash) ↔ k.key hash = l.key hash :=
  ⟨fun h => mulG_compact_injective (congrArg Point.compact h), fun h => by rw [h]⟩

/-- The exported child is not the one that the blinding factors of shielded inputs come from. What a
watcher makes of the exported node is the image of an input's blinding factor exactly where the two
children have one key under the hash of that input. The images asked of the inputs' own child are
those of the blinding factor, and so is what a watcher would make of its node. -/
theorem exported_images_of_inputs {kind : UInt8} (hkind : kind ≠ 0) :
    ∃ node : PublicNode,
      (∀ (approve : SpendPrompt → Bool) (s : State) (room : ℕ),
        Opcode.exportKey.answerWidth ≤ room →
        (d.invoke approve [Opcode.exportKey.toByte, kind] (1 + room) s).bytes =
          StatusMajor.ok.toByte :: ExportedKey.layout.write ⟨node⟩) ∧
      ∀ input : ShieldedInput,
        let hash := sha256 input.keyPreimage
        let blinding := input.blinding d.master
        (∃ onG onJ : Point, node.images? hash = some (onG, onJ) ∧
          (onG = mulG blinding ↔ (d.master.child 0xffffffff).key hash = blinding)) ∧
        (d.master.child 0xfffffffe).toPublic.images? hash = some (mulG blinding, mulJ blinding) ∧
        ∀ (approve : SpendPrompt → Bool) (s : State) (room : ℕ),
          Opcode.keyImage.answerWidth ≤ room →
          (d.invoke approve (KeyImage.frame hash 0xfffffffe 3) (1 + room) s).bytes =
            StatusMajor.ok.toByte ::
              KeyImages.layout.write ⟨(mulG blinding).compact, (mulJ blinding).compact⟩ := by
  refine ⟨(d.master.child exportedChild).toPublic, ?_, ?_⟩
  · intro approve s room hroom
    have hnode : d.exportKey ⟨kind⟩ = ⟨(d.master.child exportedChild).toPublic⟩ := by
      rw [exportKey, if_neg hkind]
    rw [← hnode]
    exact d.invoke_exportKey approve s ⟨kind⟩ hroom
  · intro input
    rw [input.blinding_eq]
    generalize sha256 input.keyPreimage = hash
    refine ⟨⟨_, _, KeyNode.toPublic_images? _ hash, ?_⟩, ?_, ?_⟩
    · rw [← mulG_eq]
      exact images_agree_iff _ _ hash
    · rw [KeyNode.toPublic_images?, mulG_eq, mulJ_eq]
    · intro approve s room hroom
      rw [d.invoke_keyImage approve s hash 0xfffffffe 3 hroom, keyImages_ofByte,
        if_neg (by decide), if_neg (by decide), if_neg (by decide)]
      rfl

/-- On the device grown from the zero seed, what a watcher makes of the exported node under an input
of 1000 tells whether the two children share a key there; the device itself tells the image. -/
theorem exported_images_of_inputs_zero :
    let d := Sample.device (.zero 32)
    let s : State := ⟨none, fun _ => .zero 32, 0⟩
    let input : ShieldedInput := ⟨⟨.zero 32, 0⟩, ⟨0, 1000, 0, 0⟩⟩
    let hash := sha256 input.keyPreimage
    let blinding := input.blinding d.master
    (1 : UInt8) ≠ 0 ∧ ∃ (node : PublicNode) (onG onJ : Point),
      (d.invoke (fun _ => false) [3, 1] 99 s).bytes = 0 :: ExportedKey.layout.write ⟨node⟩ ∧
      node.images? hash = some (onG, onJ) ∧
      (onG = mulG blinding ↔ (d.master.child 0xffffffff).key hash = blinding) ∧
      (d.invoke (fun _ => false) (KeyImage.frame hash 0xfffffffe 3) 67 s).bytes =
        0 :: KeyImages.layout.write ⟨(mulG blinding).compact, (mulJ blinding).compact⟩ := by
  intro d s input hash blinding
  have hkind : (1 : UInt8) ≠ 0 := by decide
  obtain ⟨node, hexported, hinputs⟩ := exported_images_of_inputs d hkind
  obtain ⟨⟨onG, onJ, himages, hagree⟩, -, hasked⟩ := hinputs input
  exact ⟨hkind, node, onG, onJ, hexported (fun _ => false) s 98 (by decide), himages, hagree,
    hasked (fun _ => false) s 66 (by decide)⟩

/-- There, the two children do not share a key: the exported node shows another image than that of
the input's blinding factor. -/
theorem exported_images_miss_input :
    let d := Sample.device (.zero 32)
    let s : State := ⟨none, fun _ => .zero 32, 0⟩
    let input : ShieldedInput := ⟨⟨.zero 32, 0⟩, ⟨0, 1000, 0, 0⟩⟩
    ∃ (node : PublicNode) (onG onJ : Point),
      (d.invoke (fun _ => false) [3, 1] 99 s).bytes = 0 :: ExportedKey.layout.write ⟨node⟩ ∧
      node.images? (sha256 input.keyPreimage) = some (onG, onJ) ∧
      onG ≠ mulG (input.blinding d.master) := by
  intro d s input
  have hkeys : (d.master.child exportedChild).key (sha256 input.keyPreimage) ≠
      (d.master.child ShieldedInput.keyChild).key (sha256 input.keyPreimage) := by
    decide +kernel
  refine ⟨(d.master.child exportedChild).toPublic, _, _,
    d.invoke_exportKey (fun _ => false) s ⟨1⟩ (show Opcode.exportKey.answerWidth ≤ 98 by decide),
    KeyNode.toPublic_images? _ _, ?_⟩
  rw [← mulG_eq, input.blinding_eq]
  exact fun h => hkeys ((images_agree_iff _ _ _).mp h)

end Device

end ColdWallet
