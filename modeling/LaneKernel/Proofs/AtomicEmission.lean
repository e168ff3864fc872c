import LaneKernel.Proofs.Constants
import LaneKernel.Proofs.OperandRanges

/-!
# All of a construct or nothing of it

Emission of what one constructor makes either appends everything that belongs to
it, or reports an error and leaves the buffer as it was.  The constructors of
two words that are checked one after the other have one exception: an unaligned
access whose second half is just out of reach leaves its first half behind, as a
list of items keeps those in front of a failing one.  The main statement is
`Construct.emit_atomic`.
-/

namespace LaneKernel

/-- What the constructors make. -/
inductive Construct where
  | insn (instruction : Insn)
  | branch (condition : Condition) (ra rb : Reg) (label : Label)
  | mark (label : Label)
  | loadImm (rt : Reg) (value : UInt32)
  | loadUnaligned (rt base : Reg) (offset : Int)
  | storeUnaligned (rt base : Reg) (offset : Int)

/-- The code of a construct. -/
def Construct.fragment : Construct → Fragment
  | insn instruction => Asm.insn instruction
  | branch condition ra rb label => Asm.branch condition ra rb label
  | mark label => Asm.mark label
  | loadImm rt value => Asm.loadImm rt value
  | loadUnaligned rt base offset => Asm.loadUnaligned rt base offset
  | storeUnaligned rt base offset => Asm.storeUnaligned rt base offset

/-- What a construct adds to a buffer. -/
structure Portion where
  /-- The words with their lines in the listing. -/
  words : List (UInt32 × String) := []
  /-- The label that the first word waits for. -/
  waiting : Option Label := none
  /-- The label that is bound in front of the words. -/
  bound : Option Label := none

/-- Everything that belongs to a piece of code at the cursor of a buffer. -/
inductive Fragment.Yields (buffer : CodeBuffer) :
    Fragment → Portion → Prop where
  | insns {encoded : List (Insn × UInt32)} :
      (∀ entry ∈ encoded, entry.1.encode = .ok entry.2) →
      Yields buffer (encoded.map fun entry => .insn entry.1)
        { words := encoded.map fun entry => (entry.2, entry.1.text) }
  | reaching {condition : Condition} {ra rb : Reg} {label : Label}
      {word offset : UInt32} {target : Nat} :
      Item.branchWord condition ra rb = .ok word →
        buffer.position? label = some target →
      Word.branchOffset buffer.size target = .ok offset →
      Yields buffer [.branch condition ra rb label]
        { words := [(word ||| offset, Item.branchText condition ra rb label),
            (0, "nop")] }
  | waiting {condition : Condition} {ra rb : Reg} {label : Label}
      {word : UInt32} :
      Item.branchWord condition ra rb = .ok word →
        buffer.position? label = none →
      Yields buffer [.branch condition ra rb label]
        { words := [(word, Item.branchText condition ra rb label), (0, "nop")],
          waiting := some label }
  | mark {label : Label} :
      buffer.position? label = none →
        Yields buffer [.mark label] { bound := some label }

namespace CodeBuffer

/-- The buffer behind a portion. -/
def extend (buffer : CodeBuffer) (portion : Portion) : CodeBuffer where
  text := buffer.text ++
    (portion.words.flatMap fun entry => (Word.bytes entry.1).toList).toArray
  labels := (portion.bound.map fun label => (label, buffer.size)).toList ++
    buffer.labels
  fixups := buffer.fixups ++
    (portion.waiting.map fun label => ⟨buffer.size, label⟩).toArray
  resolved := buffer.resolved
  listing := buffer.listing
  entries :=
    if buffer.listing then
      buffer.entries ++ (portion.bound.map .label).toArray ++
        (portion.words.mapIdx fun place entry =>
          .word (buffer.size + 4 * place) entry.2).toArray
    else buffer.entries

/-- Emission of the code appends everything that belongs to it or changes
nothing. -/
def Atomic (buffer : CodeBuffer) (code : Fragment) : Prop :=
  (∃ portion, code.Yields buffer portion ∧
    buffer.emit code = (buffer.extend portion, none)) ∨
    ∃ cause, buffer.emit code = (buffer, some cause)

theorem append_pair {α : Type} (items : Array α) (first second : α) :
    items ++ #[first, second] = (items.push first).push second := by
  apply Array.toList_inj.mp
  simp

section Extend

variable (buffer : CodeBuffer) (word : UInt32) (line : String) (label : Label)

theorem extend_nil : buffer.extend {} = buffer := by
  obtain ⟨text, labels, fixups, resolved, listing, entries⟩ := buffer
  cases listing <;> simp [extend]

theorem extend_cons (rest : List (UInt32 × String)) :
    buffer.extend { words := (word, line) :: rest } =
      (buffer.appendWord word line).extend { words := rest } := by
  obtain ⟨text, labels, fixups, resolved, listing, entries⟩ := buffer
  have isBytes : ∀ bytes : List UInt8,
      ((Word.bytes word).toList ++ bytes).toArray = Word.bytes word ++
        bytes.toArray := by
    intro bytes
    apply Array.toList_inj.mp
    simp
  have isPlace :
      ∀ place : Nat, text.size + 4 * (place + 1) = text.size + 4 + 4 * place :=
    fun place => by omega
  unfold extend
  rw [size_appendWord]
  cases listing <;> simp [appendWord, size, isBytes, isPlace]

theorem extend_word : buffer.extend { words := [(word, line)] } =
    buffer.appendWord word line := by
  rw [extend_cons, extend_nil]

theorem extend_words (next : UInt32) (nextLine : String) :
    buffer.extend { words := [(word, line), (next, nextLine)] } =
      (buffer.appendWord word line).appendWord next nextLine := by
  rw [extend_cons, extend_word]

theorem extend_waiting (next : UInt32) (nextLine : String) :
    buffer.extend { words := [(word, line), (next, nextLine)],
                    waiting := some label } =
      ((buffer.appendWord word line).addFixup ⟨buffer.size, label⟩).appendWord
        next nextLine := by
  obtain ⟨text, labels, fixups, resolved, listing, entries⟩ := buffer
  cases listing <;>
    simp [extend, appendWord, addFixup, Word.bytes, size, append_pair]

theorem extend_bound :
    buffer.extend { bound := some label } = buffer.place label := by
  obtain ⟨text, labels, fixups, resolved, listing, entries⟩ := buffer
  cases listing <;> simp [extend, place, size]

end Extend

variable {buffer next last : CodeBuffer} {item : Item} {code : Fragment}
  {cause : AsmError}

/-- An item that is taken appends everything that belongs to it. -/
theorem yields_of_adds (adds : buffer.Adds item next) :
    ∃ portion, Fragment.Yields buffer [item] portion ∧
      next = buffer.extend portion := by
  cases adds with
  | @insn instruction word encoded =>
      have yields :=
        @Fragment.Yields.insns buffer [(instruction, word)]
          (by simpa using encoded)
      exact ⟨_, yields, (extend_word buffer word instruction.text).symm⟩
  | reaching _ _ isWord isBound isOffset =>
      exact ⟨_, .reaching isWord isBound isOffset,
        (extend_words buffer _ _ 0 _).symm⟩
  | waiting _ _ isWord isFree =>
      exact ⟨_, .waiting isWord isFree, (extend_waiting buffer _ _ _ 0 _).symm⟩
  | mark _ _ isFree => exact ⟨_, .mark isFree, (extend_bound buffer _).symm⟩

/-- A list of items that fails keeps the items in front of the failing one. -/
theorem emitItems_keeps (failed : buffer.emitItems code = (last, some cause)) :
    ∃ front item back, code = front ++ item :: back ∧
      buffer.emitItems front = (last, none) ∧
      last.emitItem item = (last, some cause) := by
  induction code generalizing buffer with
  | nil => cases failed
  | cons item rest induction =>
      rw [emitItems] at failed
      split at failed
      case h_1 next emitted =>
        obtain ⟨front, failing, back, rfl, isFront, fails⟩ := induction failed
        refine ⟨item :: front, failing, back, rfl, ?_, fails⟩
        rw [emitItems, emitted]
        exact isFront
      case h_2 next reason fails =>
        cases failed
        obtain rfl := emitItem_keeps fails
        exact ⟨[], item, rest, rfl, rfl, fails⟩

theorem atomic_single (buffer : CodeBuffer) (item : Item) :
    buffer.Atomic [item] := by
  unfold Atomic emit
  split
  case isTrue => exact .inr ⟨_, rfl⟩
  case isFalse =>
    rcases outcome : buffer.emitItems [item] with ⟨last, _ | cause⟩
    · obtain ⟨next, adds, isLast⟩ := emitItems_cons.mp outcome
      cases isLast
      obtain ⟨portion, yields, rfl⟩ := yields_of_adds adds
      exact .inl ⟨portion, yields, rfl⟩
    · obtain ⟨front, failing, back, isSplit, isFront, _⟩ :=
        emitItems_keeps outcome
      cases front with
      | nil =>
          cases isFront
          exact .inr ⟨cause, rfl⟩
      | cons first front => simp at isSplit

variable {first second : Insn} {word other : UInt32}

theorem emit_pair (isFirst : first.encode = .ok word)
    (isSecond : second.encode = .ok other) :
    buffer.emit [.insn first, .insn second] =
      (buffer.extend { words := [(word, first.text), (other, second.text)] },
        none) := by
  rw [extend_words]
  simp [emit, Fragment.crashes, Item.crashes, Insn.crashes, emitItems, emitItem,
    isFirst, isSecond]

theorem emit_half (isFirst : first.encode = .ok word)
    (isSecond : second.encode = .error cause) (isPlain : cause.Plain) :
    buffer.emit [.insn first, .insn second] =
      (buffer.extend { words := [(word, first.text)] }, some cause) := by
  have noCrash : cause.isCrash = false := isPlain
  rw [extend_word]
  simp [emit, Fragment.crashes, Item.crashes, Insn.crashes, emitItems, emitItem,
    isFirst, isSecond, noCrash]

/-- Two instructions of which the second has a word if the first one has. -/
theorem atomic_pair (buffer : CodeBuffer)
    (follows : ∀ word, first.encode = .ok word →
      ∃ other, second.encode = .ok other) :
    buffer.Atomic [.insn first, .insn second] := by
  cases isFirst : first.encode with
  | ok word =>
      obtain ⟨other, isSecond⟩ := follows word isFirst
      have yields :=
        @Fragment.Yields.insns buffer [(first, word), (second, other)]
        (by simp [isFirst, isSecond])
      exact .inl ⟨_, yields, emit_pair isFirst isSecond⟩
  | error cause =>
      refine .inr ?_
      unfold emit
      split
      · exact ⟨_, rfl⟩
      · exact ⟨cause, by rw [emitItems, emitItem, isFirst]⟩

/-- What keeps only its first word is not atomic. -/
theorem not_atomic_of_half {line : String}
    (half : buffer.emit code =
      (buffer.extend { words := [(word, line)] }, some cause)) :
    ¬ buffer.Atomic code := by
  rintro (⟨portion, _, emitted⟩ | ⟨reason, refused⟩)
  · rw [half] at emitted
    cases (Prod.mk.inj emitted).2
  · rw [half, extend_word] at refused
    have longer : (buffer.appendWord word line).size = buffer.size + 4 :=
      size_appendWord
    rw [(Prod.mk.inj refused).1] at longer
    omega

end CodeBuffer

namespace Construct

/-- The first half of an unaligned access is in reach and the second half is
not. -/
def Straddles : Construct → Prop
  | loadUnaligned rt base offset | storeUnaligned rt base offset =>
      rt.isGeneral = true ∧ base.isGeneral = true ∧ 0x7ffc < offset ∧
        offset ≤ 0x7fff
  | _ => False

variable {rt base : Reg} {offset : Int}

theorem operands_of_mem {op : MemOp} {word : UInt32}
    (encoded : (Insn.mem op rt base offset).encode = .ok word) :
    rt.isGeneral = true ∧ base.isGeneral = true ∧ -0x8000 ≤ offset ∧
      offset ≤ 0x7fff := by
  obtain ⟨_, fits⟩ := (Insn.inRange_or_slips encoded).resolve_right id
  simpa only [Insn.encodable, Bool.and_eq_true, decide_eq_true_eq, and_assoc]
    using fits

theorem encode_mem {op : MemOp} (isRt : rt.isGeneral = true)
    (isBase : base.isGeneral = true) (low : -0x8000 ≤ offset)
    (high : offset ≤ 0x7fff) :
    ∃ word, (Insn.mem op rt base offset).encode = .ok word := by
  apply Insn.encode_of_encodable
  simp only [Insn.encodable, isRt, isBase, low, high, and_self, decide_true,
    Bool.and_self]

theorem encode_mem_high {op : MemOp} (high : 0x7fff < offset) :
    (Insn.mem op rt base offset).encode =
      .error (.within op.name (.outOfRange (.signed16 offset))) := by
  have outside :
      Word.signed16 offset = .error (.outOfRange (.signed16 offset)) :=
    if_pos (.inr high)
  rw [Insn.encode, outside]
  rfl

theorem atomic_unaligned (buffer : CodeBuffer) (op other : MemOp)
    (within : ¬ (Construct.loadUnaligned rt base offset).Straddles) :
    buffer.Atomic [.insn (.mem op rt base offset),
      .insn (.mem other rt base (Asm.wrap64 (offset + 3)))] := by
  apply CodeBuffer.atomic_pair
  intro word encoded
  obtain ⟨isRt, isBase, low, high⟩ := operands_of_mem encoded
  have inReach : offset ≤ 0x7ffc :=
    Int.not_lt.mp fun behind => within ⟨isRt, isBase, behind, high⟩
  rw [Asm.wrap64_add_three low high]
  exact encode_mem isRt isBase (by omega) (by omega)

/-- An access whose second half is out of reach leaves its first word behind. -/
theorem half_unaligned (buffer : CodeBuffer) (op other : MemOp)
    (straddles : (Construct.loadUnaligned rt base offset).Straddles) :
    ∃ word cause, (Insn.mem op rt base offset).encode = .ok word ∧
      .outOfRange ∈ cause.classes ∧
      buffer.emit [.insn (.mem op rt base offset),
          .insn (.mem other rt base (Asm.wrap64 (offset + 3)))] =
        (buffer.extend { words := [(word, (Insn.mem op rt base offset).text)] },
          some cause) := by
  obtain ⟨isRt, isBase, behind, high⟩ := straddles
  obtain ⟨word, encoded⟩ :
      ∃ word, (Insn.mem op rt base offset).encode = .ok word :=
    encode_mem isRt isBase (by omega) high
  have refused : (Insn.mem other rt base (Asm.wrap64 (offset + 3))).encode =
      .error (.within other.name (.outOfRange (.signed16 (offset + 3)))) := by
    rw [Asm.wrap64_add_three (by omega) high]
    exact encode_mem_high (by omega)
  exact ⟨word, _, encoded, List.mem_singleton_self _,
    CodeBuffer.emit_half encoded refused rfl⟩

theorem atomic_loadImm (buffer : CodeBuffer) (rt : Reg) (value : UInt32) :
    buffer.Atomic (Asm.loadImm rt value) := by
  have code := Asm.loadImm_code rt value
  generalize Asm.loadImm rt value = fragment at code ⊢
  cases code with
  | signed | lower | upper => exact CodeBuffer.atomic_single buffer _
  | both highSmall lowSmall =>
      apply CodeBuffer.atomic_pair
      intro word encoded
      obtain ⟨_, fits⟩ := (Insn.inRange_or_slips encoded).resolve_right id
      simp only [Insn.encodable, Bool.and_eq_true] at fits
      exact Insn.encode_of_encodable (Insn.encodable_ori fits.1 fits.1 lowSmall)

/-- Emission of a construct appends all of it or changes nothing, except for an
unaligned access whose second half is out of reach: it is refused and its first
word stays. -/
theorem emit_atomic (buffer : CodeBuffer) (construct : Construct) :
    (buffer.Atomic construct.fragment ↔ ¬ construct.Straddles) ∧
    (construct.Straddles → ∃ first second word cause,
      construct.fragment = [.insn first, .insn second] ∧
        first.encode = .ok word ∧
        .outOfRange ∈ cause.classes ∧ buffer.emit construct.fragment =
          (buffer.extend { words := [(word, first.text)] }, some cause)) := by
  cases construct with
  | insn instruction =>
      exact ⟨iff_of_true (CodeBuffer.atomic_single buffer _) id, False.elim⟩
  | branch condition ra rb label =>
      exact ⟨iff_of_true (CodeBuffer.atomic_single buffer _) id, False.elim⟩
  | mark label =>
      exact ⟨iff_of_true (CodeBuffer.atomic_single buffer _) id, False.elim⟩
  | loadImm rt value =>
      exact ⟨iff_of_true (atomic_loadImm buffer rt value) id, False.elim⟩
  | loadUnaligned rt base offset | storeUnaligned rt base offset =>
      refine ⟨⟨fun atomic straddles => ?_,
        fun within => atomic_unaligned buffer _ _ within⟩, ?_⟩
      · obtain ⟨word, cause, _, _, half⟩ := half_unaligned buffer _ _ straddles
        exact CodeBuffer.not_atomic_of_half half atomic
      · intro straddles
        obtain ⟨word, cause, encoded, outOfRange, half⟩ :=
    half_unaligned buffer _ _ straddles
        exact ⟨_, _, word, cause, rfl, encoded, outOfRange, half⟩

/-- A store at the last offset that both of its halves reach, and one at the
next offset. -/
theorem emit_atomic_storeUnaligned :
    (CodeBuffer.empty true).Atomic
      (Construct.storeUnaligned .t0 .a0 0x7ffc).fragment ∧
    ∃ first second word cause,
      (Construct.storeUnaligned .t0 .a0 0x7ffd).fragment =
        [.insn first, .insn second] ∧
        first.encode = .ok word ∧ .outOfRange ∈ cause.classes ∧
        (CodeBuffer.empty true).emit
          (Construct.storeUnaligned .t0 .a0 0x7ffd).fragment =
            ((CodeBuffer.empty true).extend { words := [(word, first.text)] },
            some cause) := by
  have within : ¬ (Construct.storeUnaligned .t0 .a0 0x7ffc).Straddles :=
    fun straddles => absurd straddles.2.2.1 (by decide)
  have straddles : (Construct.storeUnaligned .t0 .a0 0x7ffd).Straddles :=
    ⟨rfl, rfl, by decide, by decide⟩
  exact ⟨(emit_atomic (.empty true) _).1.mpr within,
    (emit_atomic (.empty true) _).2 straddles⟩

/-- A load of a word at the last offset that its first half reaches. -/
theorem not_atomic_loadUnaligned :
    ¬ (CodeBuffer.empty false).Atomic
      (Construct.loadUnaligned .t0 .a0 0x7fff).fragment := by
  have straddles : (Construct.loadUnaligned .t0 .a0 0x7fff).Straddles :=
    ⟨rfl, rfl, by decide, by decide⟩
  obtain ⟨word, cause, _, _, half⟩ :=
    half_unaligned (.empty false) .lwr .lwl straddles
  exact CodeBuffer.not_atomic_of_half half

end Construct

end LaneKernel
