import LaneKernel.Proofs.Assembling

/-!
# Patches

Filling in a waiting branch replaces the low half of its word.  Which halves a
list of fixups fills in, and the failure it stops at, follow from the label
positions alone.  A byte behind the patches is the one that was written last,
whatever stood there before: patching again, from the first fixup on, leaves the
bytes that patching once leaves.
-/

namespace LaneKernel

namespace Word

/-- A word is what its four bytes are. -/
theorem ofBytes_congr {first second : Array UInt8} {position : Nat}
    (same : ∀ index, index < 4 →
      first[position + index]? = second[position + index]?) :
    ofBytes first position = ofBytes second position := by
  have start := same 0 (by decide)
  rw [Nat.add_zero] at start
  unfold ofBytes
  simp only [Array.getD_eq_getD_getElem?]
  rw [start, same 1 (by decide), same 2 (by decide), same 3 (by decide)]

theorem getElem?_setIfInBounds (text : Array UInt8) (position : Nat)
    (byte : UInt8) (index : Nat) :
    (text.setIfInBounds position byte)[index]? =
      text[index]?.map fun old => if index = position then byte else old := by
  rw [Array.getElem?_setIfInBounds]
  by_cases here : position = index
  · subst here
    simp only [if_true]
    by_cases inside : position < text.size
    · rw [if_pos inside, Array.getElem?_eq_getElem inside]
      rfl
    · rw [if_neg inside, Array.getElem?_eq_none (Nat.le_of_not_lt inside)]
      rfl
  · rw [if_neg here]
    simp only [Ne.symm here, if_false]
    exact Option.map_id'.symm

theorem getElem?_write (text : Array UInt8) (position : Nat) (word : UInt32)
    (index : Nat) :
    (write text position word)[index]? = text[index]?.map fun old =>
      if index = position + 3 then (word >>> 24).toUInt8
      else if index = position + 2 then (word >>> 16).toUInt8
      else if index = position + 1 then (word >>> 8).toUInt8
      else if index = position then word.toUInt8
      else old := by
  unfold write
  simp only [getElem?_setIfInBounds, Option.map_map]
  rfl

theorem ofBytes_write {text : Array UInt8} {position : Nat}
    (inside : position + 4 ≤ text.size) (word : UInt32) :
    ofBytes (write text position word) position = word := by
  refine Eq.trans ?_ (assemble_bytes word)
  have isByte : ∀ index, position ≤ index → index < position + 4 →
      ∃ old, text[index]? = some old :=
    fun index _ below => ⟨_, Array.getElem?_eq_getElem (by omega)⟩
  obtain ⟨first, isFirst⟩ := isByte position (by omega) (by omega)
  obtain ⟨second, isSecond⟩ := isByte (position + 1) (by omega) (by omega)
  obtain ⟨third, isThird⟩ := isByte (position + 2) (by omega) (by omega)
  obtain ⟨fourth, isFourth⟩ := isByte (position + 3) (by omega) (by omega)
  unfold ofBytes
  simp [Array.getD_eq_getD_getElem?, getElem?_write, isFirst, isSecond, isThird,
    isFourth]

theorem ofBytes_append (text more : Array UInt8) (word : UInt32) :
    ofBytes (text ++ (bytes word ++ more)) text.size = word := by
  refine Eq.trans ?_ (assemble_bytes word)
  unfold ofBytes
  simp only [Array.getD_eq_getD_getElem?, Array.getElem?_append]
  simp [bytes]

end Word

/-- An offset that is written into the low half of the word at a position. -/
structure Patch where
  position : Nat
  offset : UInt16

namespace Patch

/-- The byte that a patch writes at an index. -/
def byte? (patch : Patch) (index : Nat) : Option UInt8 :=
  if index = patch.position then some patch.offset.toUInt8
  else if index = patch.position + 1 then some (patch.offset >>> 8).toUInt8
  else none

/-- The word at the position with its low half replaced. -/
def word (patch : Patch) (text : Array UInt8) : UInt32 :=
  (Word.ofBytes text patch.position &&& 0xffff0000) ||| patch.offset.toUInt32

def apply (text : Array UInt8) (patch : Patch) : Array UInt8 :=
  Word.write text patch.position (patch.word text)

/-- Applies the patches in order. -/
def applyAll (text : Array UInt8) (patches : List Patch) : Array UInt8 :=
  patches.foldl apply text

/-- The byte at an index behind the patches, where `old` stood in front of
them. -/
def byteBehind (patches : List Patch) (index : Nat) (old : UInt8) : UInt8 :=
  patches.foldl (fun byte patch => (patch.byte? index).getD byte) old

theorem toNat_word (patch : Patch) (text : Array UInt8) :
    (patch.word text).toNat =
      patch.offset.toNat + (text.getD (patch.position + 2) 0).toNat * 2 ^ 16 +
        (text.getD (patch.position + 3) 0).toNat * 2 ^ 24 := by
  have low := (text.getD patch.position 0).toNat_lt
  have second := (text.getD (patch.position + 1) 0).toNat_lt
  have fits := patch.offset.toNat_lt
  have whole : (Word.ofBytes text patch.position).toNat = _ :=
    Word.toNat_assemble _ _ _ _
  have lowHalf : (Word.ofBytes text patch.position &&& 0xffff).toNat =
      (Word.ofBytes text patch.position).toNat % 2 ^ 16 :=
    Word.toNat_and_mask _ 0xffff 16 rfl
  have highHalf : (Word.ofBytes text patch.position &&& 0xffff0000).toNat =
      (text.getD (patch.position + 2) 0).toNat * 2 ^ 16 +
        (text.getD (patch.position + 3) 0).toNat * 2 ^ 24 := by
    have bound := (Word.ofBytes text patch.position).toNat_lt
    have sum := Word.and_not_add_and (Word.ofBytes text patch.position) 0xffff
    rw [← UInt32.toNat_inj, UInt32.toNat_add] at sum
    have noMore := (Word.ofBytes text patch.position &&& 0xffff0000).toNat_lt
    change ((Word.ofBytes text patch.position &&& 0xffff0000).toNat + _) % _ =
      _ at sum
    omega
  have isHalf : (Word.ofBytes text patch.position &&& 0xffff0000).toNat %
      2 ^ 16 = 0 := by omega
  unfold word
  rw [Word.toNat_or_low _ _ 16 isHalf
    (by rw [UInt16.toNat_toUInt32]; exact fits), highHalf,
    UInt16.toNat_toUInt32]
  omega

theorem getElem?_apply (patch : Patch) (text : Array UInt8) (index : Nat) :
    (patch.apply text)[index]? = text[index]?.map fun old =>
      (patch.byte? index).getD old := by
  have value := patch.toNat_word text
  have third := (text.getD (patch.position + 2) 0).toNat_lt
  have fourth := (text.getD (patch.position + 3) 0).toNat_lt
  have fits := patch.offset.toNat_lt
  have firstByte : (patch.word text).toUInt8 = patch.offset.toUInt8 := by
    apply UInt8.toNat_inj.mp
    rw [UInt32.toNat_toUInt8, UInt16.toNat_toUInt8, value]
    omega
  have secondByte :
      (patch.word text >>> 8).toUInt8 = (patch.offset >>> 8).toUInt8 := by
    apply UInt8.toNat_inj.mp
    rw [Word.toNat_byte _ 8 8 rfl (by decide), UInt16.toNat_toUInt8,
      UInt16.toNat_shiftRight, value]
    change _ = (patch.offset.toNat >>> 8) % _
    rw [Nat.shiftRight_eq_div_pow]
    omega
  have thirdByte :
      (patch.word text >>> 16).toUInt8 = text.getD (patch.position + 2) 0 := by
    apply UInt8.toNat_inj.mp
    rw [Word.toNat_byte _ 16 16 rfl (by decide), value]
    omega
  have fourthByte :
      (patch.word text >>> 24).toUInt8 = text.getD (patch.position + 3) 0 := by
    apply UInt8.toNat_inj.mp
    rw [Word.toNat_byte _ 24 24 rfl (by decide), value]
    omega
  unfold apply
  rw [Word.getElem?_write, firstByte, secondByte, thirdByte, fourthByte]
  cases isOld : text[index]? with
  | none => rfl
  | some old =>
      have same : ∀ place, index = place → text.getD place 0 = old := by
        rintro _ rfl
        rw [Array.getD_eq_getD_getElem?, isOld]
        rfl
      refine congrArg some ?_
      unfold byte?
      split
      case isTrue isFourth =>
        rw [same _ isFourth, if_neg (by omega), if_neg (by omega)]
        rfl
      case isFalse =>
        split
        case isTrue isThird =>
          rw [same _ isThird, if_neg (by omega), if_neg (by omega)]
          rfl
        case isFalse =>
          split
          case isTrue =>
            rw [if_neg (by omega)]
            rfl
          case isFalse => split <;> rfl

theorem size_apply (patch : Patch) (text : Array UInt8) :
    (patch.apply text).size = text.size := by
  unfold apply Word.write
  simp only [Array.size_setIfInBounds]

theorem size_applyAll (patches : List Patch) (text : Array UInt8) :
    (applyAll text patches).size = text.size := by
  induction patches generalizing text with
  | nil => rfl
  | cons patch rest induction =>
      exact (induction _).trans (patch.size_apply text)

theorem getElem?_applyAll (patches : List Patch) (text : Array UInt8)
    (index : Nat) :
    (applyAll text patches)[index]? =
      text[index]?.map (byteBehind patches index) := by
  induction patches generalizing text with
  | nil => exact Option.map_id'.symm
  | cons patch rest induction =>
      change (applyAll (patch.apply text) rest)[index]? = _
      rw [induction, getElem?_apply, Option.map_map]
      rfl

theorem applyAll_append (text : Array UInt8) (first second : List Patch) :
    applyAll text (first ++ second) = applyAll (applyAll text first) second :=
  List.foldl_append

theorem byte?_eq_none {patch : Patch} {index : Nat}
    (outside : index < patch.position ∨ patch.position + 2 ≤ index) :
    patch.byte? index = none := by
  unfold byte?
  rw [if_neg (by omega), if_neg (by omega)]

theorem byteBehind_of_untouched {patches : List Patch} {index : Nat}
    (untouched : ∀ patch ∈ patches, patch.byte? index = none) (old : UInt8) :
    byteBehind patches index old = old := by
  induction patches with
  | nil => rfl
  | cons patch rest induction =>
      change byteBehind rest index ((patch.byte? index).getD old) = old
      rw [untouched patch List.mem_cons_self]
      exact induction fun other isOther =>
        untouched other (List.mem_cons_of_mem _ isOther)

theorem getElem?_applyAll_of_untouched {patches : List Patch} {index : Nat}
    (untouched : ∀ patch ∈ patches, patch.byte? index = none)
    (text : Array UInt8) : (applyAll text patches)[index]? = text[index]? := by
  rw [getElem?_applyAll, funext (byteBehind_of_untouched untouched)]
  exact Option.map_id'

/-- A byte that a single patch writes, be it once or several times. -/
theorem byteBehind_of_only {patches : List Patch} {patch : Patch} {index : Nat}
    (isPatch : patch ∈ patches)
    (only : ∀ other ∈ patches, other = patch ∨ other.byte? index = none)
    (old : UInt8) :
    byteBehind patches index old = (patch.byte? index).getD old := by
  induction patches generalizing old with
  | nil => cases isPatch
  | cons head rest induction =>
      have onlyRest :
          ∀ other ∈ rest, other = patch ∨ other.byte? index = none :=
        fun other isOther => only other (List.mem_cons_of_mem _ isOther)
      change byteBehind rest index ((head.byte? index).getD old) = _
      by_cases inRest : patch ∈ rest
      · rw [induction inRest onlyRest]
        rcases only head List.mem_cons_self with rfl | untouched
        · cases head.byte? index <;> rfl
        · rw [untouched]
          rfl
      · obtain rfl : patch = head :=
          (List.mem_cons.mp isPatch).resolve_right inRest
        refine byteBehind_of_untouched (fun other isOther => ?_) _
        exact (onlyRest other isOther).resolve_left fun same =>
          inRest (same ▸ isOther)

/-- Either no patch writes the byte, or what stood there before does not
matter. -/
theorem byteBehind_cases (patches : List Patch) (index : Nat) :
    (∀ old, byteBehind patches index old = old) ∨
      ∃ written, ∀ old, byteBehind patches index old = written := by
  induction patches with
  | nil => exact .inl fun _ => rfl
  | cons patch rest induction =>
      rcases induction with untouched | ⟨written, isWritten⟩
      · cases isByte : patch.byte? index with
        | none =>
            refine .inl fun old => ?_
            change byteBehind rest index ((patch.byte? index).getD old) = old
            rw [isByte]
            exact untouched old
        | some byte =>
            refine .inr ⟨byte, fun old => ?_⟩
            change byteBehind rest index ((patch.byte? index).getD old) = byte
            rw [isByte]
            exact untouched byte
      · exact .inr ⟨written, fun _ => isWritten _⟩

theorem byteBehind_idempotent (patches : List Patch) (index : Nat)
    (old : UInt8) :
    byteBehind patches index (byteBehind patches index old) =
      byteBehind patches index old := by
  rcases byteBehind_cases patches index with untouched | ⟨written, isWritten⟩
  · rw [untouched, untouched]
  · rw [isWritten, isWritten]

/-- All patches behind the first of them leave what all patches leave. -/
theorem applyAll_applyAll {first patches : List Patch}
    (isFirst : first <+: patches) (text : Array UInt8) :
    applyAll (applyAll text first) patches = applyAll text patches := by
  obtain ⟨second, rfl⟩ := isFirst
  have again : applyAll (applyAll text first) first = applyAll text first := by
    apply Array.ext_getElem?
    intro index
    rw [getElem?_applyAll, getElem?_applyAll, Option.map_map]
    congr 1
    exact funext (byteBehind_idempotent first index)
  rw [applyAll_append, applyAll_append, again]

/-- A text with more bytes behind it is patched alike. -/
theorem applyAll_append_text {patches : List Patch} {text : Array UInt8}
    (more : Array UInt8)
    (inside : ∀ patch ∈ patches, patch.position + 4 ≤ text.size) :
    applyAll (text ++ more) patches = applyAll text patches ++ more := by
  have untouched : ∀ index, text.size ≤ index →
      ∀ old, byteBehind patches index old = old := by
    refine fun index isBehind => byteBehind_of_untouched fun patch isPatch =>
      byte?_eq_none ?_
    have within := inside patch isPatch
    omega
  apply Array.ext_getElem?
  intro index
  rw [getElem?_applyAll, Array.getElem?_append, Array.getElem?_append,
    size_applyAll, getElem?_applyAll]
  split
  case isTrue => rfl
  case isFalse isBehind =>
    rw [funext (untouched index (Nat.le_of_not_lt isBehind))]
    exact Option.map_id'

end Patch

namespace Fixup

/-- The patch that fills in a waiting branch, or why there is none. -/
def patch (fixup : Fixup) (labels : List (Label × Nat)) :
    Except AsmError Patch :=
  match labels.lookup fixup.label with
  | none => .error (.unresolvedLabel fixup.label)
  | some target => do
      let offset ← Word.branchOffset fixup.position target
      return ⟨fixup.position, offset.toUInt16⟩

/-- The patches of the fixups in front of the first that has none. -/
def patches (labels : List (Label × Nat)) : List Fixup → List Patch
  | [] => []
  | fixup :: rest =>
      match fixup.patch labels with
      | .ok patch => patch :: patches labels rest
      | .error _ => []

/-- Why the first fixup without a patch has none. -/
def failure? (labels : List (Label × Nat)) : List Fixup → Option AsmError
  | [] => none
  | fixup :: rest =>
      match fixup.patch labels with
      | .ok _ => failure? labels rest
      | .error cause => some cause

end Fixup

theorem Fixup.patch_eq_ok {labels : List (Label × Nat)} {fixup : Fixup}
    {patch : Patch} :
    fixup.patch labels = .ok patch ↔
      ∃ target offset, labels.lookup fixup.label = some target ∧
      Word.branchOffset fixup.position target = .ok offset ∧
        patch = ⟨fixup.position, offset.toUInt16⟩ := by
  unfold Fixup.patch
  cases labels.lookup fixup.label with
  | none => simp
  | some target =>
      refine Outcome.bind_eq_ok.trans ⟨?_, ?_⟩
      · rintro ⟨offset, isOffset, isPatch⟩
        cases isPatch
        exact ⟨target, offset, rfl, isOffset, rfl⟩
      · rintro ⟨_, offset, isTarget, isOffset, rfl⟩
        cases isTarget
        exact ⟨offset, isOffset, rfl⟩

theorem Fixup.position_patch {labels : List (Label × Nat)} {fixup : Fixup}
    {patch : Patch} (isPatch : fixup.patch labels = .ok patch) :
    patch.position = fixup.position := by
  obtain ⟨_, _, _, _, rfl⟩ := patch_eq_ok.mp isPatch
  rfl

theorem Word.toUInt16_branchOffset {position target : Nat} {offset : UInt32}
    (isOffset : branchOffset position target = .ok offset) :
    offset.toUInt16.toUInt32 = offset := by
  apply UInt32.toNat_inj.mp
  rw [UInt16.toNat_toUInt32, UInt32.toNat_toUInt16]
  exact Nat.mod_eq_of_lt (branchOffset_lt isOffset)

namespace CodeBuffer

theorem patchedWord_eq (text : Array UInt8) (labels : List (Label × Nat))
    (fixup : Fixup) :
    patchedWord text labels fixup =
      (fixup.patch labels).map (Patch.word · text) := by
  unfold patchedWord Fixup.patch
  cases labels.lookup fixup.label with
  | none => rfl
  | some target =>
      cases isOffset : Word.branchOffset fixup.position target with
      | error cause => simp only [isOffset]; rfl
      | ok offset =>
          simp only [isOffset]
          change Except.ok _ =
            Except.ok (Patch.word ⟨fixup.position, offset.toUInt16⟩ text)
          rw [Patch.word, Word.toUInt16_branchOffset isOffset]

/-- Filling in fixups applies their patches, and fails where the first patch is
missing. -/
theorem patchAll_eq (text : Array UInt8) (labels : List (Label × Nat))
    (fixups : List Fixup) :
    patchAll labels text fixups =
      (Patch.applyAll text (Fixup.patches labels fixups),
        Fixup.failure? labels fixups) := by
  induction fixups generalizing text with
  | nil => rfl
  | cons fixup rest induction =>
      unfold patchAll Fixup.patches Fixup.failure?
      rw [patchedWord_eq]
      cases isPatch : fixup.patch labels with
      | error cause => rfl
      | ok patch =>
          change patchAll labels
            (Word.write text fixup.position (patch.word text)) rest = _
          rw [← Fixup.position_patch isPatch]
          exact induction _

theorem resolve_eq {buffer : CodeBuffer} (isOpen : buffer.resolved = false) :
    buffer.resolve =
      let filled := Patch.applyAll buffer.text
        (Fixup.patches buffer.labels buffer.fixups.toList)
      match Fixup.failure? buffer.labels buffer.fixups.toList with
      | none =>
          ({ buffer with text := filled, fixups := #[], resolved := true },
            none)
      | some cause => ({ buffer with text := filled }, some cause) := by
  unfold resolve
  rw [isOpen, patchAll_eq]
  cases Fixup.failure? buffer.labels buffer.fixups.toList <;> rfl

theorem resolve_eq_ok {buffer last : CodeBuffer}
    (isOpen : buffer.resolved = false)
    (isResolved : buffer.resolve = (last, none)) :
    Fixup.failure? buffer.labels buffer.fixups.toList = none ∧
      last.text = Patch.applyAll buffer.text
        (Fixup.patches buffer.labels buffer.fixups.toList) ∧
      last.labels = buffer.labels := by
  rw [resolve_eq isOpen] at isResolved
  dsimp only at isResolved
  split at isResolved
  case h_1 noFailure =>
    cases isResolved
    exact ⟨noFailure, rfl, rfl⟩
  case h_2 => cases isResolved

end CodeBuffer

namespace Fixup

variable {labels more : List (Label × Nat)}

/-- Labels that are bound later do not change a patch that there is. -/
theorem patch_extends {fixup : Fixup} {patch : Patch}
    (isPatch : fixup.patch labels = .ok patch)
    (extends_ : CodeBuffer.Extends labels more) :
    fixup.patch more = .ok patch := by
  unfold Fixup.patch at isPatch ⊢
  cases isBound : labels.lookup fixup.label with
  | none =>
      rw [isBound] at isPatch
      cases isPatch
  | some target =>
      rw [isBound] at isPatch
      rwa [extends_ _ _ isBound]

theorem patches_extends (extends_ : CodeBuffer.Extends labels more)
    (fixups behind : List Fixup) :
    patches labels fixups <+: patches more (fixups ++ behind) := by
  induction fixups with
  | nil => exact List.nil_prefix
  | cons fixup rest induction =>
      unfold patches
      cases isPatch : fixup.patch labels with
      | error cause => exact List.nil_prefix
      | ok patch =>
          rw [List.cons_append]
          simp only [patch_extends isPatch extends_]
          exact List.prefix_cons_inj patch |>.mpr induction

theorem failure?_eq_none {fixups : List Fixup} :
    failure? labels fixups = none ↔
      ∀ fixup ∈ fixups, ∃ patch, fixup.patch labels = .ok patch := by
  induction fixups with
  | nil => simp [failure?]
  | cons fixup rest induction =>
      rw [List.forall_mem_cons, ← induction, failure?]
      cases fixup.patch labels <;> simp

theorem patch_mem {fixups : List Fixup}
    (noFailure : failure? labels fixups = none) {fixup : Fixup} {patch : Patch}
    (isFixup : fixup ∈ fixups) (isPatch : fixup.patch labels = .ok patch) :
    patch ∈ patches labels fixups := by
  induction fixups with
  | nil => cases isFixup
  | cons head rest induction =>
      obtain ⟨first, isFirst⟩ :=
        failure?_eq_none.mp noFailure head List.mem_cons_self
      rw [failure?, isFirst] at noFailure
      rw [patches, isFirst]
      rcases List.mem_cons.mp isFixup with rfl | inRest
      · rw [isPatch] at isFirst
        cases isFirst
        exact List.mem_cons_self
      · exact List.mem_cons_of_mem _ (induction noFailure inRest)

/-- Every patch belongs to a fixup. -/
theorem mem_patches {fixups : List Fixup} {patch : Patch}
    (isPatch : patch ∈ patches labels fixups) :
    ∃ fixup ∈ fixups, fixup.patch labels = .ok patch := by
  induction fixups with
  | nil => cases isPatch
  | cons fixup rest induction =>
      unfold patches at isPatch
      cases isFirst : fixup.patch labels with
      | error cause =>
          rw [isFirst] at isPatch
          cases isPatch
      | ok first =>
          rw [isFirst] at isPatch
          rcases List.mem_cons.mp isPatch with rfl | isLater
          · exact ⟨fixup, List.mem_cons_self, isFirst⟩
          · obtain ⟨other, isOther, hasPatch⟩ := induction isLater
            exact ⟨other, List.mem_cons_of_mem _ isOther, hasPatch⟩

end Fixup

end LaneKernel
