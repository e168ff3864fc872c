import LaneKernel.CodeBuffer
import LaneKernel.Proofs.Outcome

/-!
# Emission of one item

A buffer takes an item as a whole or stays as it was.  `CodeBuffer.Adds` has one
rule for each way to take an item: an instruction is a word, a branch is two
words with or without its offset, and a mark binds its label.  What is known of
all emission follows from these four rules.
-/

namespace LaneKernel.CodeBuffer

open Outcome

section Steps

variable {buffer : CodeBuffer} {word : UInt32} {line : String}

@[simp] theorem text_appendWord :
    (buffer.appendWord word line).text = buffer.text ++ Word.bytes word := rfl

@[simp] theorem labels_appendWord :
    (buffer.appendWord word line).labels = buffer.labels := rfl

@[simp] theorem fixups_appendWord :
    (buffer.appendWord word line).fixups = buffer.fixups := rfl

@[simp] theorem resolved_appendWord :
    (buffer.appendWord word line).resolved = buffer.resolved := rfl

@[simp] theorem size_appendWord :
    (buffer.appendWord word line).size = buffer.size + 4 :=
  Array.size_append

@[simp] theorem position?_appendWord (label : Label) :
    (buffer.appendWord word line).position? label =
      buffer.position? label := rfl

variable (fixup : Fixup)

@[simp] theorem text_addFixup :
    (buffer.addFixup fixup).text = buffer.text := rfl

@[simp] theorem labels_addFixup :
    (buffer.addFixup fixup).labels = buffer.labels := rfl

@[simp] theorem fixups_addFixup :
    (buffer.addFixup fixup).fixups = buffer.fixups.push fixup := rfl

@[simp] theorem resolved_addFixup :
    (buffer.addFixup fixup).resolved = buffer.resolved := rfl

@[simp] theorem size_addFixup :
    (buffer.addFixup fixup).size = buffer.size := rfl

@[simp] theorem position?_addFixup (label : Label) :
    (buffer.addFixup fixup).position? label = buffer.position? label := rfl

variable (label : Label)

@[simp] theorem text_place : (buffer.place label).text = buffer.text := rfl

@[simp] theorem labels_place :
    (buffer.place label).labels = (label, buffer.size) :: buffer.labels := rfl

@[simp] theorem fixups_place :
    (buffer.place label).fixups = buffer.fixups := rfl

@[simp] theorem resolved_place :
    (buffer.place label).resolved = buffer.resolved := rfl

@[simp] theorem size_place : (buffer.place label).size = buffer.size := rfl

end Steps

/-- What a buffer becomes when it takes an item. -/
inductive Adds (buffer : CodeBuffer) : Item → CodeBuffer → Prop where
  | insn {instruction : Insn} {word : UInt32} :
      instruction.encode = .ok word →
      Adds buffer (.insn instruction) (buffer.appendWord word instruction.text)
  | reaching {condition : Condition} {left right : Reg} {label : Label}
      {word offset : UInt32} {target : Nat} :
      buffer.resolved = false → label.valid = true →
      Item.branchWord condition left right = .ok word →
        buffer.position? label = some target →
      Word.branchOffset buffer.size target = .ok offset →
      Adds buffer (.branch condition left right label)
        ((buffer.appendWord (word ||| offset)
          (Item.branchText condition left right label)).appendWord 0
            Insn.nop.text)
  | waiting {condition : Condition} {left right : Reg} {label : Label}
      {word : UInt32} :
      buffer.resolved = false → label.valid = true →
      Item.branchWord condition left right = .ok word →
        buffer.position? label = none →
      Adds buffer (.branch condition left right label)
        (((buffer.appendWord word
          (Item.branchText condition left right label)).addFixup ⟨buffer.size,
          label⟩).appendWord 0 Insn.nop.text)
  | mark {label : Label} :
      buffer.resolved = false → label.valid = true →
        buffer.position? label = none →
      Adds buffer (.mark label) (buffer.place label)

variable {buffer next after : CodeBuffer} {item : Item} {cause : AsmError}

theorem bindError?_eq_none {label : Label} :
    buffer.bindError? label = none ↔ buffer.resolved = false ∧
      buffer.position? label = none := by
  unfold bindError?
  cases buffer.resolved <;> cases buffer.position? label <;> simp

theorem bind_eq_none {label : Label} :
    buffer.bind label = (next, none) ↔
      buffer.resolved = false ∧ buffer.position? label = none ∧
        next = buffer.place label := by
  rw [← and_assoc, ← bindError?_eq_none]
  unfold bind
  cases buffer.bindError? label with
  | some cause => simp
  | none => simp [eq_comm]

theorem branchWord_eq_ok {condition : Condition} {left right : Reg}
    {label : Label} {written : UInt32} {bound : Bool} :
    buffer.branchWord condition left right label = .ok (written, bound) ↔
      ∃ word, Item.branchWord condition left right = .ok word ∧
        buffer.resolved = false ∧
        label.valid = true ∧
        ((bound = true ∧ ∃ target offset, buffer.position? label = some target ∧
            Word.branchOffset buffer.size target = .ok offset ∧
              written = word ||| offset) ∨
          (bound = false ∧ buffer.position? label = none ∧
            written = word)) := by
  unfold branchWord
  simp only [bind_eq_ok, refuse_eq_ok, Bool.not_eq_true, Bool.not_eq_true',
    Bool.not_eq_false]
  refine exists_congr fun word => and_congr_right fun _ =>
    and_congr_right fun _ =>
    and_congr_right fun _ => ?_
  cases buffer.position? label with
  | none => simp [pure, Except.pure, eq_comm, and_comm]
  | some target =>
      simp only [bind_eq_ok, pure, Except.pure, Except.ok.injEq, Prod.mk.injEq]
      constructor
      · rintro ⟨offset, isOffset, rfl, rfl⟩
        exact .inl ⟨rfl, target, offset, rfl, isOffset, rfl⟩
      · rintro (⟨rfl, _, offset, ⟨⟩, isOffset, rfl⟩ | ⟨_, ⟨⟩, _⟩)
        exact ⟨offset, isOffset, rfl, rfl⟩

/-- Emission of an item succeeds in the ways of `Adds`. -/
theorem emitItem_eq_none : buffer.emitItem item = (next, none) ↔
    buffer.Adds item next := by
  constructor
  · intro emitted
    cases item with
    | insn instruction =>
        simp only [emitItem] at emitted
        split at emitted
        case h_1 word encoded =>
          cases emitted
          exact .insn encoded
        case h_2 => cases emitted
    | branch condition left right label =>
        simp only [emitItem] at emitted
        split at emitted
        case h_1 => cases emitted
        case h_2 written bound isWritten =>
          cases emitted
          obtain ⟨word, isWord, isOpen, isValid, isWritten⟩ :=
            branchWord_eq_ok.mp isWritten
          rcases isWritten with ⟨rfl, target, offset, isBound, isOffset, rfl⟩ |
            ⟨rfl, isFree, rfl⟩
          · exact .reaching isOpen isValid isWord isBound isOffset
          · exact .waiting isOpen isValid isWord isFree
    | mark label =>
        simp only [emitItem] at emitted
        split at emitted
        case isTrue => cases emitted
        case isFalse isValid =>
          split at emitted
          case isTrue => cases emitted
          case isFalse =>
            obtain ⟨isOpen, isFree, rfl⟩ := bind_eq_none.mp emitted
            exact .mark isOpen (by simpa using isValid) isFree
  · intro adds
    cases adds with
    | insn encoded => rw [emitItem, encoded]
    | reaching isOpen isValid isWord isBound isOffset =>
        rw [emitItem, branchWord_eq_ok.mpr ⟨_, isWord, isOpen, isValid,
          .inl ⟨rfl, _, _, isBound, isOffset, rfl⟩⟩]
        rfl
    | waiting isOpen isValid isWord isFree =>
        rw [emitItem, branchWord_eq_ok.mpr ⟨_, isWord, isOpen, isValid,
          .inr ⟨rfl, isFree, rfl⟩⟩]
        rfl
    | mark isOpen isValid isFree =>
        rw [emitItem, isValid, isFree]
        exact bind_eq_none.mpr ⟨isOpen, isFree, rfl⟩

/-- An item that fails leaves the buffer alone. -/
theorem emitItem_keeps (failed : buffer.emitItem item = (next, some cause)) :
    next = buffer := by
  cases item with
  | insn instruction =>
      simp only [emitItem] at failed
      split at failed <;> cases failed
      rfl
  | branch condition left right label =>
      simp only [emitItem] at failed
      split at failed <;> cases failed
      rfl
  | mark label =>
      simp only [emitItem] at failed
      split at failed
      · cases failed
        rfl
      · split at failed
        · cases failed
          rfl
        · unfold bind at failed
          split at failed <;> cases failed
          rfl

theorem emitItems_cons {rest : Fragment} :
    buffer.emitItems (item :: rest) = (after, none) ↔
      ∃ next, buffer.Adds item next ∧ next.emitItems rest = (after, none) := by
  simp only [← emitItem_eq_none]
  rw [emitItems]
  rcases buffer.emitItem item with ⟨next, _ | cause⟩ <;> simp

/-- A relation that every item taken extends holds between a buffer and what
emission leaves of it, whether all items are taken or not. -/
theorem emitItems_induction (relation : CodeBuffer → CodeBuffer → Prop)
    (refl : ∀ buffer, relation buffer buffer)
    (step : ∀ {buffer item next last}, Adds buffer item next →
      relation next last →
      relation buffer last)
    (buffer : CodeBuffer) (items : Fragment) :
    relation buffer (buffer.emitItems items).1 := by
  induction items generalizing buffer with
  | nil => exact refl buffer
  | cons item rest induction =>
      rw [emitItems]
      rcases outcome : buffer.emitItem item with ⟨next, _ | cause⟩
      · exact step (emitItem_eq_none.mp outcome) (induction next)
      · rw [emitItem_keeps outcome]
        exact refl buffer

end LaneKernel.CodeBuffer
