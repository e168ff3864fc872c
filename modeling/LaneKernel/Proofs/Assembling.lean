import LaneKernel.Proofs.Boundaries
import LaneKernel.Proofs.Placement

/-!
# Code that assembles

Assembly refuses an item without an encoding, a label that is marked twice, not
at all or with a number outside the table, and a branch that is too far from its
label.  `Fragment.Complete` excludes these, and code that has it is assembled.
-/

namespace LaneKernel

/-- What an item needs to be emitted among code that marks the given labels. -/
def Item.Encodes (marks : List Label) : Item → Prop
  | insn instruction => ∃ word, instruction.encode = .ok word
  | branch condition left right label =>
      (∃ word, branchWord condition left right = .ok word) ∧ label ∈ marks ∧
        label.valid = true
  | mark label => label.valid = true

/-- Code whose branches reach their labels, with room for padding behind it. -/
structure Fragment.Complete (code : Fragment) : Prop where
  encodes : ∀ item ∈ code, item.Encodes code.marks
  nodup : code.marks.Nodup
  short : code.words + 16 ≤ 2 ^ 15

/-- Branches reach every word of code that is not longer than half of their
range. -/
theorem Word.branchOffset_eq_ok {position target : Nat}
    (isWord : position % 4 = 0) (isTarget : target % 4 = 0)
    (fromStart : position < 4 * 2 ^ 15) (toEnd : target ≤ 4 * 2 ^ 15) :
    ∃ offset, branchOffset position target = .ok offset := by
  unfold branchOffset
  rw [if_neg (by omega), if_neg (by omega)]
  exact ⟨_, rfl⟩

namespace CodeBuffer

/-- An open buffer of whole words whose labels and waiting branches stand at
words of its text. -/
structure Tidy (marks : List Label) (buffer : CodeBuffer) : Prop where
  isOpen : buffer.resolved = false
  whole : buffer.size % 4 = 0
  bound : ∀ label position, buffer.position? label = some position →
    position % 4 = 0 ∧ position ≤ buffer.size
  waiting : ∀ fixup ∈ buffer.fixups.toList,
    fixup.label ∈ marks ∧ fixup.position % 4 = 0 ∧ fixup.position < buffer.size

/-- The labels that a buffer binds. -/
def Binds (buffer : CodeBuffer) (label : Label) :
    Prop := (buffer.position? label).isSome = true

variable {marks : List Label} {buffer : CodeBuffer} {word : UInt32}
  {line : String}

theorem Tidy.appendWord (tidy : Tidy marks buffer) :
    Tidy marks (buffer.appendWord word line) where
  isOpen := tidy.isOpen
  whole := by
    have whole := tidy.whole
    rw [size_appendWord]
    omega
  bound label position isBound := by
    have bound := tidy.bound label position isBound
    rw [size_appendWord]
    omega
  waiting fixup isFixup := by
    have waiting := tidy.waiting fixup isFixup
    rw [size_appendWord]
    exact ⟨waiting.1, waiting.2.1, by omega⟩

theorem Tidy.addFixup (tidy : Tidy marks buffer) {position : Nat}
    {label : Label} (isMark : label ∈ marks) (isWord : position % 4 = 0)
    (inside : position < buffer.size) :
    Tidy marks (buffer.addFixup ⟨position, label⟩) where
  isOpen := tidy.isOpen
  whole := tidy.whole
  bound := tidy.bound
  waiting fixup isFixup := by
    change fixup ∈ (buffer.fixups.push ⟨position, label⟩).toList at isFixup
    rw [Array.toList_push, List.mem_append, List.mem_singleton] at isFixup
    rcases isFixup with isOld | rfl
    · exact tidy.waiting fixup isOld
    · exact ⟨isMark, isWord, inside⟩

theorem position?_place (label other : Label) :
    (buffer.place label).position? other =
      if other = label then some buffer.size else buffer.position? other := by
  change List.lookup other ((label, buffer.text.size) :: buffer.labels) = _
  rw [List.lookup_cons]
  by_cases same : other = label
  · rw [if_pos same, same, beq_self_eq_true]
    rfl
  · rw [if_neg same, beq_eq_false_iff_ne.mpr same]
    rfl

theorem Tidy.place (tidy : Tidy marks buffer) (label : Label) :
    Tidy marks (buffer.place label) where
  isOpen := tidy.isOpen
  whole := tidy.whole
  bound other position isBound := by
    rw [position?_place] at isBound
    split at isBound
    · cases isBound
      exact ⟨tidy.whole, Nat.le_refl _⟩
    · exact tidy.bound other position isBound
  waiting := tidy.waiting

/-- What the emission of one item leaves. -/
structure Grown (marks : List Label) (buffer next : CodeBuffer) (item : Item) :
    Prop where
  tidy : Tidy marks next
  size : next.size = buffer.size + 4 * item.words
  binds : ∀ label, next.Binds label ↔ buffer.Binds label ∨ item = .mark label

theorem emitItem_grows (tidy : Tidy marks buffer) {item : Item}
    (encodes : item.Encodes marks)
    (isFree : ∀ label, item = .mark label → ¬ buffer.Binds label)
    (short : buffer.size + 4 * item.words ≤ 4 * 2 ^ 15) :
    ∃ next, buffer.Adds item next ∧ Grown marks buffer next item := by
  cases item with
  | insn instruction =>
      obtain ⟨word, encoded⟩ := encodes
      refine ⟨_, .insn encoded, tidy.appendWord, size_appendWord, ?_⟩
      intro label
      simp [Binds]
  | mark label =>
      have isFree : buffer.position? label = none := by
        simpa [Binds] using isFree label rfl
      refine ⟨_, .mark tidy.isOpen encodes isFree, tidy.place label, rfl, ?_⟩
      intro other
      rw [Binds, position?_place]
      by_cases same : other = label
      · simp [same]
      · simp [same, Binds, Ne.symm same]
  | branch condition left right label =>
      obtain ⟨⟨word, isWord⟩, isMark, isValid⟩ := encodes
      have whole := tidy.whole
      rw [Item.words] at short
      cases isBound : buffer.position? label with
      | some target =>
          obtain ⟨atWord, behind⟩ := tidy.bound label target isBound
          obtain ⟨offset, isOffset⟩ :=
            Word.branchOffset_eq_ok whole atWord (by omega)
              (show target ≤ _ by omega)
          refine ⟨_, .reaching tidy.isOpen isValid isWord isBound isOffset,
            tidy.appendWord.appendWord, ?_, ?_⟩
          · simp [Item.words]
          · simp [Binds]
      | none =>
          refine ⟨_, .waiting tidy.isOpen isValid isWord isBound, ?_, ?_, ?_⟩
          · apply Tidy.appendWord
            apply tidy.appendWord.addFixup isMark whole
            rw [size_appendWord]
            omega
          · simp [Item.words]
          · simp [Binds]

/-- Emission of items whose marks are still free goes through and binds the
marks. -/
theorem emitItems_grows (tidy : Tidy marks buffer) {code : Fragment}
    (encodes : ∀ item ∈ code, item.Encodes marks) (nodup : code.marks.Nodup)
    (isFree : ∀ label ∈ code.marks, ¬ buffer.Binds label)
    (short : buffer.size + 4 * code.words ≤ 4 * 2 ^ 15) :
    ∃ after, buffer.emitItems code = (after, none) ∧ Tidy marks after ∧
      after.size = buffer.size + 4 * code.words ∧
      ∀ label, after.Binds label ↔ buffer.Binds label ∨ label ∈ code.marks := by
  induction code generalizing buffer with
  | nil => exact ⟨buffer, rfl, tidy, rfl, fun label => by simp [Fragment.marks]⟩
  | cons item rest induction =>
      rw [Fragment.words_cons] at short
      have isMark : ∀ label, label ∈ Fragment.marks (item :: rest) ↔
          item = .mark label ∨ label ∈ Fragment.marks rest := by
        intro label
        cases item <;> simp [Fragment.marks, eq_comm]
      have itemFree : ∀ label, item = .mark label → ¬ buffer.Binds label :=
        fun label isItem => isFree label ((isMark label).mpr (.inl isItem))
      obtain ⟨next, adds, grown⟩ := emitItem_grows tidy
        (encodes item List.mem_cons_self) itemFree (by omega)
      have restNodup : (Fragment.marks rest).Nodup ∧
          ∀ label, item = .mark label → label ∉ Fragment.marks rest := by
        cases item with
        | mark label =>
            have split := List.nodup_cons.mp nodup
            refine ⟨split.2, ?_⟩
            rintro _ ⟨⟩
            exact split.1
        | insn instruction => exact ⟨nodup, fun label isItem => by cases isItem⟩
        | branch condition left right target =>
            exact ⟨nodup, fun label isItem => by cases isItem⟩
      obtain ⟨after, emittedRest, tidyAfter, isSize, isBound⟩ :=
        induction grown.tidy
        (fun other isOther => encodes other (List.mem_cons_of_mem _ isOther))
          restNodup.1
        (fun label isLabel bound => ((grown.binds label).mp bound).elim
          (isFree label ((isMark label).mpr (.inr isLabel)))
          fun isItem => restNodup.2 label isItem isLabel)
        (by rw [grown.size]; omega)
      refine ⟨after, emitItems_cons.mpr ⟨next, adds, emittedRest⟩,
        tidyAfter, ?_, ?_⟩
      · rw [isSize, grown.size, Fragment.words_cons]
        omega
      · intro label
        rw [isBound, grown.binds, isMark, or_assoc]

theorem patchAll_succeeds {labels : List (Label × Nat)} {fixups : List Fixup}
    (text : Array UInt8)
    (reaches : ∀ fixup ∈ fixups, ∃ target offset,
      labels.lookup fixup.label = some target ∧
        Word.branchOffset fixup.position target = .ok offset) :
    ∃ patched, patchAll labels text fixups = (patched, none) := by
  induction fixups generalizing text with
  | nil => exact ⟨text, rfl⟩
  | cons fixup rest induction =>
      obtain ⟨target, offset, isBound, isOffset⟩ :=
        reaches fixup List.mem_cons_self
      have isWord : ∃ word, patchedWord text labels fixup = .ok word := by
        unfold patchedWord
        rw [isBound]
        simp only [isOffset]
        exact ⟨_, rfl⟩
      obtain ⟨word, isWord⟩ := isWord
      unfold patchAll
      rw [isWord]
      exact induction _ fun other isOther =>
        reaches other (List.mem_cons_of_mem _ isOther)

/-- A tidy buffer that binds every label its branches wait for can be
finished. -/
theorem resolve_finish (tidy : Tidy marks buffer)
    (binds : ∀ label ∈ marks, buffer.Binds label)
    (short : buffer.size ≤ 4 * 2 ^ 15) :
    ∃ resolved code, buffer.resolve = (resolved, none) ∧
      resolved.finish = .ok code := by
  have reaches : ∀ fixup ∈ buffer.fixups.toList, ∃ target offset,
      buffer.labels.lookup fixup.label = some target ∧
        Word.branchOffset fixup.position target = .ok offset := by
    intro fixup isFixup
    obtain ⟨isMark, isWord, inside⟩ := tidy.waiting fixup isFixup
    obtain ⟨target, isBound⟩ := Option.isSome_iff_exists.mp (binds _ isMark)
    obtain ⟨atWord, within⟩ := tidy.bound _ _ isBound
    obtain ⟨offset, isOffset⟩ :=
      Word.branchOffset_eq_ok isWord atWord (by omega)
      (show target ≤ _ by omega)
    exact ⟨target, offset, isBound, isOffset⟩
  obtain ⟨patched, isPatched⟩ := patchAll_succeeds buffer.text reaches
  refine ⟨{ buffer with text := patched, fixups := #[], resolved := true },
    ⟨patched, buffer.entries.toList.map (renderEntry patched)⟩, ?_, rfl⟩
  unfold resolve
  rw [tidy.isOpen, isPatched]
  rfl

theorem size_appendNops (buffer : CodeBuffer) (count : Nat) :
    (buffer.appendNops count).size = buffer.size + 4 * count := by
  induction count generalizing buffer with
  | zero => rfl
  | succ count induction =>
      rw [CodeBuffer.appendNops, induction, size_appendWord]
      omega

theorem Tidy.appendNops (tidy : Tidy marks buffer) (count : Nat) :
    Tidy marks (buffer.appendNops count) ∧
      ∀ label, (buffer.appendNops count).Binds label ↔ buffer.Binds label := by
  induction count generalizing buffer with
  | zero => exact ⟨tidy, fun _ => Iff.rfl⟩
  | succ count induction => exact induction tidy.appendWord

end CodeBuffer

theorem Fragment.Complete.not_crashes {code : Fragment}
    (complete : code.Complete) : code.crashes = false := by
  rw [Fragment.crashes, List.any_eq_false]
  intro item isItem
  have encodes := complete.encodes item isItem
  cases item with
  | insn instruction =>
      obtain ⟨word, encoded⟩ := encodes
      rw [Item.crashes, Insn.crashes, encoded]
      exact Bool.false_ne_true
  | branch condition left right label => exact Bool.false_ne_true
  | mark label => exact Bool.false_ne_true

/-- Complete code is emitted, and its marks are bound behind it. -/
theorem Fragment.Complete.emitted {code : Fragment} (complete : code.Complete)
    (listing : Bool) :
    ∃ buffer, (CodeBuffer.empty listing).emit code = (buffer, none) ∧
      CodeBuffer.Tidy code.marks buffer ∧ buffer.size = 4 * code.words ∧
      ∀ label ∈ code.marks, buffer.Binds label := by
  have start : CodeBuffer.Tidy code.marks (.empty listing) :=
    ⟨rfl, rfl, (fun _ _ isBound => by cases isBound),
      (fun _ isFixup => by cases isFixup)⟩
  have short := complete.short
  obtain ⟨buffer, emitted, tidy, isSize, binds⟩ :=
    CodeBuffer.emitItems_grows start
    complete.encodes complete.nodup (fun _ _ isBound => by cases isBound)
    (by rw [show (CodeBuffer.empty listing).size = 0 from rfl]; omega)
  refine ⟨buffer, ?_, tidy, ?_,
    fun label isLabel => (binds label).mpr (.inr isLabel)⟩
  · rw [CodeBuffer.emit, complete.not_crashes]
    exact emitted
  · rw [isSize]
    exact Nat.zero_add _

/-- Complete code is assembled, with or without padding. -/
theorem Fragment.Complete.assembles {code : Fragment} (complete : code.Complete)
    (options : CompileOptions) :
    ∃ result, Compiler.assemble code options = .ok result := by
  obtain ⟨buffer, emitted, tidy, isSize, binds⟩ :=
    complete.emitted options.listing
  have short := complete.short
  obtain ⟨count, isPadded, fewWords⟩ : ∃ count,
      (if options.clean then (buffer.alignTo? 16).getD buffer else buffer) =
        buffer.appendNops count ∧ count ≤ 16 := by
    split
    case isTrue =>
      unfold CodeBuffer.alignTo?
      cases isPadding : CodeBuffer.padding? buffer.size 16 with
      | none => exact ⟨0, rfl, Nat.zero_le _⟩
      | some count =>
          have below : count < 4 :=
            (CodeBuffer.padding?_eq_some_iff.mp isPadding).lt_period (by decide)
          exact ⟨count, rfl, by omega⟩
    case isFalse => exact ⟨0, rfl, Nat.zero_le _⟩
  obtain ⟨paddedTidy, paddedBinds⟩ := tidy.appendNops count
  have paddedSize := buffer.size_appendNops count
  obtain ⟨resolved, result, isResolved, isFinished⟩ :=
    CodeBuffer.resolve_finish paddedTidy
    (fun label isLabel => (paddedBinds label).mpr (binds label isLabel))
      (by omega)
  refine ⟨result, ?_⟩
  unfold Compiler.assemble
  simp only [emitted, isPadded, isResolved]
  exact isFinished

end LaneKernel
