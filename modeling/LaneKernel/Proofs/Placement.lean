import LaneKernel.Compiler.Basic
import LaneKernel.Proofs.Encoding
import LaneKernel.Proofs.ItemEmission

/-!
# Where assembled code stands

Assembled code is the sequence of the words of its items.  `Words` says which
words these are once the position of every label is known; `assemble_words`
shows that a successful assembly produces exactly them, whether a branch was
written with its offset at once or filled in later.
-/

namespace LaneKernel

open Outcome

/-- The number of words of an item. -/
def Item.words : Item → Nat
  | insn _ => 1
  | branch _ _ _ _ => 2
  | mark _ => 0

namespace Fragment

def words (fragment : Fragment) : Nat := (fragment.map Item.words).sum

/-- The labels that are marked in the code, in order. -/
def marks (fragment : Fragment) : List Label :=
  fragment.filterMap fun
    | .mark label => some label
    | _ => none

@[simp] theorem words_nil : words [] = 0 := rfl

@[simp] theorem words_cons (item : Item) (rest : Fragment) :
    words (item :: rest) = item.words + words rest := by
  simp [words]

@[simp] theorem words_append (first second : Fragment) :
    words (first ++ second) = words first + words second := by
  simp [words]

@[simp] theorem marks_append (front back : Fragment) :
    (front ++ back).marks = front.marks ++ back.marks := List.filterMap_append

theorem mem_marks {code : Fragment} {label : Label} :
    label ∈ code.marks ↔ Item.mark label ∈ code := by
  unfold marks
  rw [List.mem_filterMap]
  constructor
  · rintro ⟨item, isItem, isMark⟩
    cases item with
    | mark other =>
        cases isMark
        exact isItem
    | insn instruction => cases isMark
    | branch condition left right target => cases isMark
  · exact fun isItem => ⟨_, isItem, rfl⟩

end Fragment

namespace Word

/-- The bytes of a sequence of words. -/
def flatten (words : List UInt32) : List UInt8 :=
  words.flatMap fun word => (bytes word).toList

@[simp] theorem flatten_nil : flatten [] = [] := rfl

@[simp] theorem flatten_cons (word : UInt32) (rest : List UInt32) :
    flatten (word :: rest) = (bytes word).toList ++ flatten rest := rfl

@[simp] theorem flatten_append (first second : List UInt32) :
    flatten (first ++ second) = flatten first ++ flatten second := by
  simp [flatten]

@[simp] theorem length_flatten (words : List UInt32) :
    (flatten words).length = 4 * words.length := by
  induction words with
  | nil => rfl
  | cons word rest induction =>
      rw [flatten_cons, List.length_append, induction, List.length_cons]
      change 4 + _ = _
      omega

theorem ofBytes_flatten {text : Array UInt8} {before : List UInt32}
    {word : UInt32} {behind : List UInt32}
    (isText : text.toList = flatten (before ++ word :: behind)) :
    ofBytes text (4 * before.length) = word := by
  have byteAt : ∀ index, text.getD (4 * before.length + index) 0 =
      ((bytes word).toList ++ flatten behind).getD index 0 := by
    intro index
    rw [Array.getD_eq_getD_getElem?, ← Array.getElem?_toList, isText,
      flatten_append, List.getElem?_append_right (by simp), length_flatten,
      Nat.add_sub_cancel_left, flatten_cons, List.getD_eq_getElem?_getD]
  unfold ofBytes
  have first := byteAt 0
  rw [Nat.add_zero] at first
  rw [first, byteAt 1, byteAt 2, byteAt 3]
  exact assemble_bytes word

theorem toList_write {text : Array UInt8} {before : List UInt32} {word : UInt32}
    {behind : List UInt32}
    (isText : text.toList = flatten (before ++ word :: behind))
    (replacement : UInt32) :
    (write text (4 * before.length) replacement).toList =
      flatten (before ++ replacement :: behind) := by
  unfold write
  simp only [Array.toList_setIfInBounds, isText, flatten_append, flatten_cons]
  have start : ∀ index,
      4 * before.length + index = (flatten before).length + index := by
    intro index
    rw [length_flatten]
  rw [← Nat.add_zero (4 * before.length)]
  simp only [Nat.add_assoc, start, List.set_append_right, Nat.le_add_right,
    Nat.add_sub_cancel_left]
  rfl

theorem branchOffset_lt {position target : Nat} {offset : UInt32}
    (isOffset : branchOffset position target = .ok offset) :
    offset.toNat < 2 ^ 16 := by
  unfold branchOffset at isOffset
  simp only [Outcome.ite_error_eq_ok] at isOffset
  obtain ⟨_, _, isOffset⟩ := isOffset
  rw [← Except.ok.inj isOffset, UInt32.toNat_ofNat']
  omega

end Word

/-- The words of the code at a position, for the given positions of the
labels. -/
inductive Words (labels : List (Label × Nat)) : Nat → Fragment → List UInt32 →
    Prop where
  | nil {position : Nat} : Words labels position [] []
  | insn {position : Nat} {instruction : Insn} {rest : Fragment} {word : UInt32}
      {more : List UInt32} :
      instruction.encode = .ok word →
      Words labels (position + 4) rest more →
      Words labels position (.insn instruction :: rest) (word :: more)
  | mark {position : Nat} {label : Label} {rest : Fragment}
      {more : List UInt32} :
      labels.lookup label = some position →
      Words labels position rest more →
      Words labels position (.mark label :: rest) more
  | branch {position target : Nat} {condition : Condition} {left right : Reg}
      {label : Label} {rest : Fragment} {word offset : UInt32}
        {more : List UInt32} :
      Item.branchWord condition left right = .ok word →
      labels.lookup label = some target →
      Word.branchOffset position target = .ok offset →
      Words labels (position + 8) rest more →
      Words labels position (.branch condition left right label :: rest)
        ((word ||| offset) :: 0 :: more)

/-- The words of the code as they are first written, with the branches that
still wait for their labels. -/
inductive Draft (labels : List (Label × Nat)) :
    Nat → Fragment → List UInt32 → List Fixup → Prop where
  | nil {position : Nat} : Draft labels position [] [] []
  | insn {position : Nat} {instruction : Insn} {rest : Fragment} {word : UInt32}
      {more : List UInt32} {fixups : List Fixup} :
      instruction.encode = .ok word →
      Draft labels (position + 4) rest more fixups →
      Draft labels position (.insn instruction :: rest) (word :: more) fixups
  | mark {position : Nat} {label : Label} {rest : Fragment} {more : List UInt32}
      {fixups : List Fixup} :
      labels.lookup label = some position →
      Draft labels position rest more fixups →
      Draft labels position (.mark label :: rest) more fixups
  | bound {position target : Nat} {condition : Condition} {left right : Reg}
      {label : Label} {rest : Fragment} {word offset : UInt32}
        {more : List UInt32} {fixups : List Fixup} :
      Item.branchWord condition left right = .ok word →
      labels.lookup label = some target →
      Word.branchOffset position target = .ok offset →
      Draft labels (position + 8) rest more fixups →
      Draft labels position (.branch condition left right label :: rest)
        ((word ||| offset) :: 0 :: more) fixups
  | waiting {position : Nat} {condition : Condition} {left right : Reg}
      {label : Label} {rest : Fragment} {word : UInt32} {more : List UInt32}
        {fixups : List Fixup} :
      Item.branchWord condition left right = .ok word →
      Draft labels (position + 8) rest more fixups →
      Draft labels position (.branch condition left right label :: rest)
        (word :: 0 :: more) (⟨position, label⟩ :: fixups)

theorem Words.length_eq {labels : List (Label × Nat)} {position : Nat}
    {code : Fragment} {words : List UInt32}
    (isWords : Words labels position code words) :
    words.length = code.words := by
  induction isWords with
  | nil => rfl
  | insn _ _ induction =>
      rw [List.length_cons, induction, Fragment.words_cons, Item.words]
      omega
  | mark _ _ induction =>
      rw [induction, Fragment.words_cons, Item.words, Nat.zero_add]
  | branch _ _ _ _ induction =>
      rw [List.length_cons, List.length_cons, induction, Fragment.words_cons,
        Item.words]
      omega

theorem Words.of_append {labels : List (Label × Nat)} {position : Nat}
    {front back : Fragment} {words : List UInt32}
    (isWords : Words labels position (front ++ back) words) :
    ∃ first second, words = first ++ second ∧ first.length = front.words ∧
      Words labels (position + 4 * front.words) back second := by
  induction front generalizing position words with
  | nil => exact ⟨[], words, rfl, rfl, isWords⟩
  | cons item rest induction =>
      cases isWords with
      | @insn _ instruction _ word more encoded isMore =>
          obtain ⟨first, second, rfl, isLength, isBack⟩ := induction isMore
          refine ⟨word :: first, second, rfl, ?_, ?_⟩
          · rw [List.length_cons, isLength, Fragment.words_cons, Item.words]
            omega
          · rw [Fragment.words_cons, Item.words]
            rwa [show position + 4 * (1 + Fragment.words rest) =
              position + 4 + 4 * Fragment.words rest by
              omega]
      | mark bound isMore =>
          obtain ⟨first, second, rfl, isLength, isBack⟩ := induction isMore
          refine ⟨first, second, rfl, ?_, ?_⟩
          · rw [isLength, Fragment.words_cons, Item.words, Nat.zero_add]
          · rwa [Fragment.words_cons, Item.words, Nat.zero_add]
      | @branch _ target condition left right label _ word offset more isWord
          bound isOffset isMore =>
          obtain ⟨first, second, rfl, isLength, isBack⟩ := induction isMore
          refine ⟨(word ||| offset) :: 0 :: first, second, rfl, ?_, ?_⟩
          · rw [List.length_cons, List.length_cons, isLength,
              Fragment.words_cons, Item.words]
            omega
          · rw [Fragment.words_cons, Item.words]
            rwa [show position + 4 * (2 + Fragment.words rest) =
              position + 8 + 4 * Fragment.words rest by
              omega]

theorem Item.branchWord_and {condition : Condition} {left right : Reg}
    {word : UInt32} (isWord : Item.branchWord condition left right = .ok word) :
    word &&& 0xffff0000 = word := by
  have isFormat : ∃ fields : Word.IType, fields.encode = .ok word ∧
      fields.imm = 0 := by
    cases condition with
    | unknown tag => cases isWord
    | _ =>
        simp only [branchWord] at isWord
        exact ⟨_, isWord, rfl⟩
  obtain ⟨fields, encoded, noImmediate⟩ := isFormat
  obtain ⟨rs, rt, _, _, _, value⟩ := Word.IType.encode_eq_ok encoded
  have low : word &&& 0xffff = 0 := by
    apply UInt32.toNat_inj.mp
    rw [Word.toNat_and_mask word 0xffff 16 rfl]
    simp only [noImmediate, UInt32.toNat_zero] at value ⊢
    omega
  have sum := Word.and_not_add_and word 0xffff
  rwa [low, UInt32.add_zero] at sum

namespace CodeBuffer

/-- Filling in the waiting branches turns a draft into the words of the code. -/
theorem patchAll_draft {labels : List (Label × Nat)}
    {draft behind : List UInt32} {code : Fragment} {fixups : List Fixup}
    {last : Array UInt8} (before : List UInt32) (text : Array UInt8)
    (isDraft : Draft labels (4 * before.length) code draft fixups)
    (isText : text.toList = Word.flatten (before ++ draft ++ behind))
    (patched : patchAll labels text fixups = (last, none)) :
    ∃ words, Words labels (4 * before.length) code words ∧
      last.toList = Word.flatten (before ++ words ++ behind) := by
  obtain ⟨position, isPosition⟩ :
      ∃ position, position = 4 * before.length := ⟨_, rfl⟩
  rw [← isPosition] at isDraft ⊢
  induction isDraft generalizing before text with
  | nil =>
      cases patched
      exact ⟨[], .nil, isText⟩
  | @insn position instruction rest word more fixups encoded _ induction =>
      obtain ⟨words, isWords, isLast⟩ := induction (before ++ [word]) text
        (by simpa using isText) patched (by simp; omega)
      exact ⟨word :: words, .insn encoded isWords, by simpa using isLast⟩
  | mark bound _ induction =>
      obtain ⟨words, isWords, isLast⟩ :=
        induction before text isText patched isPosition
      exact ⟨words, .mark bound isWords, isLast⟩
  | @bound position target condition left right label rest word offset more
      fixups isWord isBound isOffset _ induction =>
      obtain ⟨words, isWords, isLast⟩ :=
        induction (before ++ [word ||| offset, 0]) text
        (by simpa using isText) patched (by simp; omega)
      exact ⟨(word ||| offset) :: 0 :: words,
        .branch isWord isBound isOffset isWords, by simpa using isLast⟩
  | @waiting position condition left right label rest word more fixups isWord _
      induction =>
      have stands : text.toList =
          Word.flatten (before ++ word :: (0 :: more ++ behind)) := by
        simpa using isText
      unfold patchAll patchedWord at patched
      cases isBound : labels.lookup label with
      | none => simp [isBound] at patched
      | some target =>
          simp only [isBound] at patched
          cases isOffset : Word.branchOffset position target with
          | error cause => simp [isOffset] at patched
          | ok offset =>
              simp only [isOffset, pure, Except.pure] at patched
              rw [isPosition, Word.ofBytes_flatten stands,
                Item.branchWord_and isWord] at patched
              obtain ⟨words, isWords, isLast⟩ := induction
                (before ++ [word ||| offset, 0]) _
                (by simpa using Word.toList_write stands (word ||| offset))
                  patched
                (by simp; omega)
              exact ⟨(word ||| offset) :: 0 :: words,
                .branch isWord isBound isOffset isWords, by simpa using isLast⟩

/-- Every label that is bound in the first table has the same position in the
second. -/
def Extends (labels more : List (Label × Nat)) : Prop :=
  ∀ label position, labels.lookup label = some position →
    more.lookup label = some position

/-- What emission adds to a buffer that holds the given words. -/
structure Emitted (before : List UInt32) (buffer after : CodeBuffer)
    (code : Fragment) : Prop where
  isOpen : after.resolved = false
  extends_ : Extends buffer.labels after.labels
  nodup : code.marks.Nodup
  fresh : ∀ label ∈ code.marks, buffer.labels.lookup label = none
  source : ∀ label position, after.labels.lookup label = some position →
    buffer.labels.lookup label = some position ∨
      ∃ front back, code = front ++ .mark label :: back ∧
        position = 4 * before.length + 4 * Fragment.words front
  text : ∃ draft fixups,
    after.text.toList = Word.flatten (before ++ draft) ∧
    after.fixups.toList = buffer.fixups.toList ++ fixups ∧
    ∀ labels, Extends after.labels labels →
      Draft labels (4 * before.length) code draft fixups

theorem Extends.trans {first second third : List (Label × Nat)}
    (left : Extends first second) (right : Extends second third) :
    Extends first third :=
  fun label position isBound =>
    right label position (left label position isBound)

namespace Emitted

variable {before : List UInt32} {buffer next after : CodeBuffer}
  {rest : Fragment}

theorem insn {instruction : Insn} {word : UInt32}
    (encoded : instruction.encode = .ok word)
    (sameLabels : next.labels = buffer.labels)
    (sameFixups : next.fixups = buffer.fixups)
    (emitted : Emitted (before ++ [word]) next after rest) :
    Emitted before buffer after (.insn instruction :: rest) := by
  obtain ⟨isOpen, extends_, nodup, fresh, source, draft, fixups, isText,
    isFixups, isDraft⟩ :=
    emitted
  rw [sameLabels] at extends_ fresh source
  rw [sameFixups] at isFixups
  refine ⟨isOpen, extends_, nodup, fresh, ?_, word :: draft, fixups,
    by simpa using isText, isFixups, fun labels more => .insn encoded ?_⟩
  · intro label position isBound
    refine (source label position isBound).imp_right ?_
    rintro ⟨front, back, rfl, rfl⟩
    refine ⟨.insn instruction :: front, back, rfl, ?_⟩
    simp [Item.words]
    omega
  · simpa [Nat.mul_add] using isDraft labels more

theorem mark {label : Label} (isFree : buffer.labels.lookup label = none)
    (placed : next.labels = (label, 4 * before.length) :: buffer.labels)
    (sameFixups : next.fixups = buffer.fixups)
    (emitted : Emitted before next after rest) :
    Emitted before buffer after (.mark label :: rest) := by
  obtain ⟨isOpen, extends_, nodup, fresh, source, draft, fixups, isText,
    isFixups, isDraft⟩ :=
    emitted
  have placedHere : next.labels.lookup label = some (4 * before.length) := by
    rw [placed, List.lookup_cons_self]
  have placedElsewhere : ∀ other, other ≠ label →
      next.labels.lookup other = buffer.labels.lookup other := by
    intro other different
    have notSame : (other == label) = false := by simpa using different
    rw [placed, List.lookup_cons, notSame]
  have notLabel : ∀ other ∈ Fragment.marks rest, other ≠ label := by
    rintro other isMark rfl
    rw [fresh other isMark] at placedHere
    cases placedHere
  rw [sameFixups] at isFixups
  refine ⟨isOpen, ?_, ?_, ?_, ?_, draft, fixups, isText, isFixups, ?_⟩
  · intro other position isBound
    apply extends_
    rw [placedElsewhere]
    · exact isBound
    · rintro rfl
      rw [isFree] at isBound
      cases isBound
  · exact List.nodup_cons.mpr ⟨fun isMark => notLabel label isMark rfl, nodup⟩
  · intro other isMark
    rcases List.mem_cons.mp isMark with rfl | later
    · exact isFree
    · rw [← placedElsewhere other (notLabel other later)]
      exact fresh other later
  · intro other position isBound
    rcases source other position isBound with old | ⟨front, back, rfl, rfl⟩
    · by_cases same : other = label
      · subst same
        rw [placedHere] at old
        cases old
        exact .inr ⟨[], rest, rfl, rfl⟩
      · rw [placedElsewhere other same] at old
        exact .inl old
    · exact .inr ⟨.mark label :: front, back, rfl, by simp [Item.words]⟩
  · intro labels more
    exact .mark (more _ _ (extends_ _ _ placedHere)) (isDraft labels more)

theorem branch {condition : Condition} {left right : Reg} {label : Label}
    {word written : UInt32}
    (isWord : Item.branchWord condition left right = .ok word)
    (sameLabels : next.labels = buffer.labels) (isWritten :
      (∃ target offset, buffer.labels.lookup label = some target ∧
        Word.branchOffset (4 * before.length) target = .ok offset ∧
          written = word ||| offset ∧
        next.fixups = buffer.fixups) ∨
      (written = word ∧
        next.fixups = buffer.fixups.push ⟨4 * before.length, label⟩))
    (emitted : Emitted (before ++ [written, 0]) next after rest) :
    Emitted before buffer after
      (.branch condition left right label :: rest) := by
  obtain ⟨isOpen, extends_, nodup, fresh, source, draft, fixups, isText,
    isFixups, isDraft⟩ :=
    emitted
  rw [sameLabels] at extends_ fresh source
  have newSource : ∀ other position, after.labels.lookup other = some position →
      buffer.labels.lookup other = some position ∨
        ∃ front back, .branch condition left right label :: rest =
          front ++ .mark other :: back ∧
          position = 4 * before.length + 4 * Fragment.words front := by
    intro other position isBound
    refine (source other position isBound).imp_right ?_
    rintro ⟨front, back, rfl, rfl⟩
    refine ⟨.branch condition left right label :: front, back, rfl, ?_⟩
    simp [Item.words]
    omega
  have laterDraft : ∀ labels, Extends after.labels labels →
      Draft labels (4 * before.length + 8) rest draft fixups := by
    intro labels more
    simpa [Nat.mul_add] using isDraft labels more
  rcases isWritten with ⟨target, offset, isBound, isOffset, rfl, sameFixups⟩ |
    ⟨rfl, newFixup⟩
  · rw [sameFixups] at isFixups
    refine ⟨isOpen, extends_, nodup, fresh, newSource,
      (word ||| offset) :: 0 :: draft, fixups, by simpa using isText,
      isFixups, ?_⟩
    intro labels more
    exact .bound isWord (more _ _ (extends_ _ _ isBound)) isOffset
      (laterDraft labels more)
  · rw [newFixup] at isFixups
    refine ⟨isOpen, extends_, nodup, fresh, newSource, written :: 0 :: draft,
      ⟨4 * before.length, label⟩ :: fixups, by simpa using isText,
      by simpa using isFixups, ?_⟩
    intro labels more
    exact .waiting isWord (laterDraft labels more)

end Emitted

theorem toList_text_append {before : List UInt32} {buffer next : CodeBuffer}
    {word : UInt32} (isText : buffer.text.toList = Word.flatten before)
    (isNext : next.text = buffer.text ++ Word.bytes word) :
    next.text.toList = Word.flatten (before ++ [word]) := by
  rw [isNext, Array.toList_append, isText]
  simp

theorem toList_text_branch {before : List UInt32} {buffer next : CodeBuffer}
    {word : UInt32} (isText : buffer.text.toList = Word.flatten before)
    (isNext : next.text = buffer.text ++ Word.bytes word ++ Word.bytes 0) :
    next.text.toList = Word.flatten (before ++ [word, 0]) := by
  rw [isNext, Array.toList_append, Array.toList_append, isText]
  simp

/-- Emission of code draws up its words and binds its labels. -/
theorem emitItems_emitted (before : List UInt32) (buffer after : CodeBuffer)
    (code : Fragment) (isText : buffer.text.toList = Word.flatten before)
    (isOpen : buffer.resolved = false)
    (emitted : buffer.emitItems code = (after, none)) :
    Emitted before buffer after code := by
  induction code generalizing before buffer with
  | nil =>
      cases emitted
      refine ⟨isOpen, fun _ _ => id, .nil, ?_, fun _ _ => .inl, [], [], ?_, ?_,
        fun _ _ => .nil⟩
      · intro label isLabel
        cases isLabel
      · simpa using isText
      · simp
  | cons item rest induction =>
      have isSize : buffer.size = 4 * before.length := by
        rw [size, ← Array.length_toList, isText, Word.length_flatten]
      obtain ⟨next, adds, emitted⟩ := emitItems_cons.mp emitted
      cases adds with
      | insn encoded =>
          refine .insn encoded (by simp) (by simp) (induction _ _ ?_ ?_ emitted)
          · exact toList_text_append isText text_appendWord
          · simpa using isOpen
      | reaching _ _ isWord isBound isOffset =>
          rw [isSize] at isOffset
          refine .branch isWord (by simp)
            (.inl ⟨_, _, isBound, isOffset, rfl, by simp⟩)
            (induction _ _ ?_ ?_ emitted)
          · exact toList_text_branch isText (by simp)
          · simpa using isOpen
      | waiting _ _ isWord _ =>
          refine .branch isWord (by simp) (.inr ⟨rfl, by simp [isSize]⟩)
            (induction _ _ ?_ ?_ emitted)
          · exact toList_text_branch isText (by simp)
          · simpa using isOpen
      | mark _ _ isFree =>
          refine .mark isFree (by simp [isSize]) (by simp)
            (induction before _ ?_ ?_ emitted)
          · exact isText
          · exact isOpen

theorem appendNops_spec (buffer : CodeBuffer) (before : List UInt32)
    (count : Nat) (isText : buffer.text.toList = Word.flatten before) :
    (buffer.appendNops count).text.toList =
      Word.flatten (before ++ List.replicate count 0) ∧
      (buffer.appendNops count).labels = buffer.labels ∧
      (buffer.appendNops count).fixups = buffer.fixups ∧
      (buffer.appendNops count).resolved = buffer.resolved := by
  induction count generalizing buffer before with
  | zero => exact ⟨by simpa [appendNops] using isText, rfl, rfl, rfl⟩
  | succ count induction =>
      obtain ⟨text, labels, fixups, resolved⟩ :=
        induction _ _ (toList_text_append isText text_appendWord)
      refine ⟨?_, labels, fixups, resolved⟩
      simpa [appendNops, List.replicate_succ] using text

/-- Resolving a buffer that holds a draft leaves the words of the code. -/
theorem resolve_words {buffer last : CodeBuffer} {code : Fragment}
    {draft behind : List UInt32}
    (isDraft : Draft buffer.labels 0 code draft buffer.fixups.toList)
    (isText : buffer.text.toList = Word.flatten (draft ++ behind))
    (resolved : buffer.resolve = (last, none)) :
    ∃ words, Words buffer.labels 0 code words ∧
      last.text.toList = Word.flatten (words ++ behind) := by
  unfold resolve at resolved
  split at resolved
  case isTrue => cases resolved
  case isFalse =>
    split at resolved
    case h_2 => cases resolved
    case h_1 text patched =>
      cases resolved
      exact patchAll_draft [] buffer.text isDraft isText patched

end CodeBuffer

/-- What a successful assembly places: the words of the code from position zero
on, then padding, with every label at the place of its only mark. -/
structure Placed (code : Fragment) (bytes : Array UInt8)
    (labels : List (Label × Nat)) : Prop where
  nodup : code.marks.Nodup
  words : ∃ words padding, Words labels 0 code words ∧
    bytes.toList = Word.flatten (words ++ List.replicate padding 0)
  source : ∀ label position, labels.lookup label = some position →
    ∃ front back, code = front ++ .mark label :: back ∧
      position = 4 * Fragment.words front

namespace Compiler

theorem assemble_placed {code : Fragment} {options : CompileOptions}
    {result : MachineCode} (assembled : assemble code options = .ok result) :
    ∃ labels, Placed code result.bytes labels ∧
      (options.clean = false → result.bytes.size = 4 * code.words) := by
  unfold assemble at assembled
  split at assembled
  case h_1 => cases assembled
  case h_2 buffer emitted =>
    have emittedItems :
        (CodeBuffer.empty options.listing).emitItems code = (buffer, none) := by
      unfold CodeBuffer.emit at emitted
      split at emitted
      · cases emitted
      · exact emitted
    obtain ⟨isOpen, _, nodup, _, source, draft, fixups, isText, isFixups,
      isDraft⟩ :=
      CodeBuffer.emitItems_emitted [] _ buffer code rfl rfl emittedItems
    obtain ⟨padding, isPadded, unpadded⟩ : ∃ count,
        (if options.clean then (buffer.alignTo? 16).getD buffer else buffer) =
          buffer.appendNops count ∧ (options.clean = false → count = 0) := by
      split
      case isTrue isClean =>
        unfold CodeBuffer.alignTo?
        cases CodeBuffer.padding? buffer.size 16 with
        | none => exact ⟨0, rfl, fun _ => rfl⟩
        | some count =>
            exact ⟨count, rfl,
              fun notClean => by rw [isClean] at notClean; cases notClean⟩
      case isFalse => exact ⟨0, rfl, fun _ => rfl⟩
    obtain ⟨paddedText, paddedLabels, paddedFixups, _⟩ :=
      CodeBuffer.appendNops_spec buffer draft padding (by simpa using isText)
    simp only [isPadded] at assembled
    split at assembled
    case h_1 => cases assembled
    case h_2 resolved isResolved =>
      have paddedDraft : Draft (buffer.appendNops padding).labels 0 code draft
          (buffer.appendNops padding).fixups.toList := by
        rw [paddedLabels, paddedFixups, isFixups]
        exact isDraft buffer.labels fun _ _ => id
      obtain ⟨words, isWords, isLast⟩ :=
        CodeBuffer.resolve_words paddedDraft paddedText isResolved
      have isBytes : result.bytes.toList =
          Word.flatten (words ++ List.replicate padding 0) := by
        unfold CodeBuffer.finish at assembled
        split at assembled
        · cases assembled
          exact isLast
        · cases assembled
      rw [paddedLabels] at isWords
      refine ⟨buffer.labels, ⟨nodup, ⟨words, padding, isWords, isBytes⟩, ?_⟩,
        fun notClean => ?_⟩
      rotate_left
      · rw [unpadded notClean, List.replicate_zero, List.append_nil] at isBytes
        rw [← Array.length_toList, isBytes, Word.length_flatten,
          isWords.length_eq]
      · intro label position isBound
        rcases source label position isBound with
          old | ⟨front, back, isCode, isPosition⟩
        · cases old
        · exact ⟨front, back, isCode, by simpa using isPosition⟩

end Compiler

end LaneKernel
