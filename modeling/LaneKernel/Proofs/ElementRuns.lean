import LaneKernel.Proofs.Exchange

/-!
# Runs of single elements

What the code of one element changes and which bytes it needs, and the states of
a whole run in front of every element.
-/

namespace LaneKernel.Reference

/-- Some instruction of the program writes or reads the element of an array that
is a number of elements away. -/
def Accesses (site : Site) : Bool → VarIndex → Int → Prop
  | true, index, distance => WritesArray site index ∧ distance = 0
  | false, index, distance => ReadsArray site index distance

theorem Accesses.elsewhere {program : Program} {executor : Executor}
    {row element otherRow other : Nat} {write : Bool} {index : VarIndex}
    {distance : Int}
    (accesses : Accesses ⟨program, executor, row, element⟩ write index
      distance) :
    Accesses ⟨program, executor, otherRow, other⟩ write index distance := by
  cases write <;> exact accesses

theorem accesses_increment {executor : Executor} {row element : Nat}
    {write : Bool} {index : VarIndex} {distance : Int}
    (accesses : Accesses ⟨Program.increment, executor, row, element⟩ write index
      distance) :
    index = (if write then 0 else 4) ∧ distance = 0 := by
  have isCode : resolveCode Program.increment =
      [(⟨.arith .add, 1⟩, ⟨"addb", 0, [0], [4, 16]⟩)] := by decide +kernel
  cases write with
  | true =>
      obtain ⟨⟨entry, isEntry, isTarget, _⟩, isZero⟩ := accesses
      change entry ∈ resolveCode Program.increment at isEntry
      rw [isCode, List.mem_singleton] at isEntry
      rw [isEntry] at isTarget
      exact ⟨isTarget, isZero⟩
  | false =>
      obtain ⟨entry, isEntry, reads⟩ := accesses
      change entry ∈ resolveCode Program.increment at isEntry
      rw [isCode, List.mem_singleton] at isEntry
      rw [isEntry] at reads
      obtain ⟨isSource, isRole, isZero⟩ :=
        (Site.reads_element (by decide)).mp reads
      refine ⟨?_, isZero⟩
      rcases List.mem_cons.mp isSource with isFirst | isConst
      · exact isFirst
      · rw [List.mem_singleton.mp isConst] at isRole
        change (Program.increment.var 16).role = .source at isRole
        exact absurd isRole (by decide +kernel)

namespace Site

/-- The element writes the byte at a place. -/
def Changes (site : Site) (place : Nat) : Prop :=
  ∃ index, WritesArray site index ∧ site.Touches index 0 place

/-- The element reads or writes the byte at a place. -/
def Needs (site : Site) (place : Nat) : Prop :=
  ∃ write index distance, Accesses site write index distance ∧
    site.Touches index distance place

variable {site : Site} {state next : State} {code : List (Opcode × Instruction)}

theorem Changes.needs {place : Nat} (changes : site.Changes place) :
    site.Needs place := by
  obtain ⟨index, writes, touches⟩ := changes
  exact ⟨true, index, 0, ⟨writes, rfl⟩, touches⟩

/-- One instruction changes no byte but those of the element that it writes. -/
theorem step_frame {entry : Opcode × Instruction}
    (checked : site.program.Checked entry.2 entry.1)
    (isStep : site.step state entry.1 entry.2 = (next, none)) :
    state.memory.SameShape next.memory ∧
      ∀ place, state.memory.base.toNat ≤ place →
        (∀ index, site.Writes entry.2 index → ¬ site.Touches index 0 place) →
        next.memory.byteAt place = state.memory.byteAt place := by
  obtain ⟨word, isWord⟩ := result_of_step isStep
  rcases checked.target with isDest | isTemp
  · rw [step_dest isDest isWord] at isStep
    obtain ⟨rfl, isFine⟩ := Prod.mk.inj isStep
    refine ⟨FlatMemory.sameShape_store .., fun place above untouched => ?_⟩
    by_cases covers : state.memory.Covers (site.address entry.2.target 0)
        (site.program.var entry.2.target).size.toNat
    · exact (FlatMemory.byteAt_store covers above).trans
        (if_neg (untouched entry.2.target ⟨rfl, isDest⟩))
    · rw [FlatMemory.store_eq_error covers]
  · rw [step_temp isTemp isWord] at isStep
    obtain ⟨rfl, _⟩ := Prod.mk.inj isStep
    rw [memory_setValue]
    exact ⟨.refl _, fun _ _ _ => rfl⟩

/-- The code of an element changes no byte but those that the element writes. -/
theorem runCode_frame
    (checked : ∀ entry ∈ code, site.program.Checked entry.2 entry.1)
    (inProgram : ∀ entry ∈ code, entry ∈ resolveCode site.program)
    (isRun : site.runCode state code = (next, none)) :
    state.memory.SameShape next.memory ∧
      ∀ place, state.memory.base.toNat ≤ place → ¬ site.Changes place →
        next.memory.byteAt place = state.memory.byteAt place := by
  induction code generalizing state with
  | nil =>
      cases isRun
      exact ⟨.refl _, fun _ _ _ => rfl⟩
  | cons entry code induction =>
      obtain ⟨middle, isStep, isRest⟩ := runCode_cons_eq.mp isRun
      obtain ⟨firstShape, firstBytes⟩ :=
        step_frame (checked entry List.mem_cons_self) isStep
      obtain ⟨restShape, restBytes⟩ := induction
        (fun other isOther => checked other (List.mem_cons_of_mem _ isOther))
        (fun other isOther => inProgram other (List.mem_cons_of_mem _ isOther))
          isRest
      refine ⟨firstShape.trans restShape, fun place above unchanged => ?_⟩
      rw [restBytes place (by rw [firstShape.base]; exact above) unchanged]
      apply firstBytes place above
      intro index writes touches
      exact unchanged ⟨index,
        ⟨entry, inProgram entry List.mem_cons_self, writes⟩, touches⟩

/-- An access of an instruction that completes is inside the memory. -/
theorem step_covers {entry : Opcode × Instruction}
    (flat : site.program.Flat entry)
    (isStep : site.step state entry.1 entry.2 = (next, none)) {index : VarIndex}
    {distance : Int} (accesses : site.Reads entry.1 entry.2 index distance ∨
      site.Writes entry.2 index ∧ distance = 0) :
    state.memory.Covers (site.address index distance)
      (site.program.var index).size.toNat := by
  obtain ⟨word, isWord⟩ := result_of_step isStep
  rcases accesses with reads | ⟨⟨rfl, isDest⟩, rfl⟩
  · obtain ⟨isIndex, ⟨isLoad, isDistance⟩ | ⟨isOffset, isDistance⟩⟩ :=
      reads_of_flat flat reads <;>
      rw [isIndex, isDistance]
    · obtain ⟨⟨kind, size⟩, instruction⟩ := entry
      obtain rfl : kind = .load := isLoad
      have isSource : (site.program.var instruction.firstSource).role =
          .source := flat.checked.moves
      change site.read state instruction.firstSource _ _ = .ok word at isWord
      rw [read_source isSource] at isWord
      exact (FlatMemory.load_eq_ok.mp isWord).1
    · obtain ⟨⟨kind, size⟩, instruction⟩ := entry
      obtain rfl : kind = .loadOffset := isOffset
      exact (FlatMemory.load_eq_ok.mp isWord).1
  · rw [step_dest isDest isWord] at isStep
    obtain ⟨_, isFine⟩ := Prod.mk.inj isStep
    by_contra outside
    rw [FlatMemory.store_eq_error outside] at isFine
    cases isFine

/-- All bytes that an element needs are inside the memory if its code
completes. -/
theorem runCode_covers (flat : ∀ entry ∈ code, site.program.Flat entry)
    (inProgram : ∀ entry ∈ code, entry ∈ resolveCode site.program)
    (isRun : site.runCode state code = (next, none))
    {entry : Opcode × Instruction} (isEntry : entry ∈ code) {index : VarIndex}
    {distance : Int} (accesses : site.Reads entry.1 entry.2 index distance ∨
      site.Writes entry.2 index ∧ distance = 0) :
    state.memory.Covers (site.address index distance)
      (site.program.var index).size.toNat := by
  induction code generalizing state with
  | nil => cases isEntry
  | cons first code induction =>
      obtain ⟨middle, isStep, isRest⟩ := runCode_cons_eq.mp isRun
      have firstFlat := flat first List.mem_cons_self
      rcases List.mem_cons.mp isEntry with rfl | isLater
      · exact step_covers firstFlat isStep accesses
      · have shape := (step_frame firstFlat.checked isStep).1
        rw [← shape.covers]
        exact induction (fun other isOther =>
          flat other (List.mem_cons_of_mem _ isOther))
          (fun other isOther =>
            inProgram other (List.mem_cons_of_mem _ isOther)) isRest isLater

end Site

/-- The states of a run in front of every element of every row. -/
structure Trace (program : Program) (executor : Executor) (elements rows : Nat)
    (states : Nat → Nat → State) : Prop where
  step : ∀ row < rows, ∀ element < elements,
    Site.runCode ⟨program, executor, row, element⟩ (states row element)
      (resolveCode program) = (states row (element + 1), none)
  next : ∀ row < rows, states (row + 1) 0 = states row elements

section Traces

variable {program : Program} {executor : Executor}
  {code : List (Opcode × Instruction)} {row : Nat} {state last : State}

theorem runElements_succ {count : Nat}
    (isRun : runElements program executor code row (count + 1) 0 state =
      (last, none)) :
    ∃ middle, runElements program executor code row count 0 state =
      (middle, none) ∧
      Site.runCode ⟨program, executor, row, count⟩ middle code =
        (last, none) := by
  rw [runElements_eq] at isRun
  obtain ⟨middle, isFront, isLast⟩ := repeated_add_eq.mp isRun
  rw [repeated_one, Nat.zero_add] at isLast
  exact ⟨middle, (runElements_eq _ _ _).trans isFront, isLast⟩

theorem runRows_succ {elements count : Nat}
    (isRun : runRows program executor code elements (count + 1) 0 state =
      (last, none)) :
    ∃ middle, runRows program executor code elements count 0 state =
      (middle, none) ∧
      runElements program executor code count elements 0 middle =
        (last, none) := by
  rw [runRows_eq] at isRun
  obtain ⟨middle, isFront, isLast⟩ := repeated_add_eq.mp isRun
  rw [repeated_one, Nat.zero_add] at isLast
  exact ⟨middle, (runRows_eq _ _ _ _).trans isFront, isLast⟩

theorem runElements_le {count less : Nat} (fewer : less ≤ count)
    (isRun : runElements program executor code row count 0 state =
      (last, none)) :
    ∃ middle, runElements program executor code row less 0 state =
      (middle, none) := by
  rw [runElements_eq, ← Nat.add_sub_of_le fewer] at isRun
  obtain ⟨middle, isFront, _⟩ := repeated_add_eq.mp isRun
  exact ⟨middle, (runElements_eq _ _ _).trans isFront⟩

theorem runRows_le {elements count less : Nat} (fewer : less ≤ count)
    (isRun : runRows program executor code elements count 0 state =
      (last, none)) :
    ∃ middle, runRows program executor code elements less 0 state =
      (middle, none) := by
  rw [runRows_eq, ← Nat.add_sub_of_le fewer] at isRun
  obtain ⟨middle, isFront, _⟩ := repeated_add_eq.mp isRun
  exact ⟨middle, (runRows_eq _ _ _ _).trans isFront⟩

/-- A run that completes has a trace. -/
theorem exists_trace {elements rows : Nat}
    (isRun : runRows program executor (resolveCode program) elements rows 0
      state = (last, none)) :
    ∃ states, Trace program executor elements rows states ∧ states 0 0 = state ∧
      states rows 0 = last := by
  let atRow row :=
    (runRows program executor (resolveCode program) elements row 0 state).1
  refine ⟨fun row element =>
    (runElements program executor (resolveCode program) row element 0
      (atRow row)).1, ⟨?_, ?_⟩, rfl,
    congrArg Prod.fst isRun⟩
  all_goals
    intro row below
    obtain ⟨next, isNext⟩ := runRows_le (show row + 1 ≤ rows from below) isRun
    obtain ⟨begun, isBegun, isRow⟩ := runRows_succ isNext
    have isAt : atRow row = begun := congrArg Prod.fst isBegun
  · intro element inRow
    obtain ⟨later, isLater⟩ :=
  runElements_le (show element + 1 ≤ elements from inRow) isRow
    obtain ⟨middle, isMiddle, isElement⟩ := runElements_succ isLater
    simp only [isAt, isMiddle, isLater]
    exact isElement
  · have isAtNext : atRow (row + 1) = next := congrArg Prod.fst isNext
    simp only [isAt, isAtNext, isRow]
    rfl

end Traces

namespace Trace

variable {program : Program} {executor : Executor} {elements rows : Nat}
  {states : Nat → Nat → State}
  (trace : Trace program executor elements rows states)
  (checked : ∀ entry ∈ resolveCode program, program.Checked entry.2 entry.1)

include trace checked

/-- Elements of a row leave the bytes that none of them writes. -/
theorem frame {row : Nat} (inRows : row < rows) {first count : Nat}
    (inRow : first + count ≤ elements) :
    (states row first).memory.SameShape (states row (first + count)).memory ∧
      ∀ place, (states row first).memory.base.toNat ≤ place →
        (∀ number < count,
          ¬ Site.Changes ⟨program, executor, row, first + number⟩ place) →
        (states row (first + count)).memory.byteAt place =
          (states row first).memory.byteAt place := by
  induction count with
  | zero => exact ⟨.refl _, fun _ _ _ => rfl⟩
  | succ count induction =>
      obtain ⟨shape, bytes⟩ := induction (by omega)
      obtain ⟨lastShape, lastBytes⟩ :=
        @Site.runCode_frame ⟨program, executor, row, first + count⟩ _ _ _
        checked (fun entry isEntry => isEntry)
          (trace.step row inRows (first + count) (by omega))
      refine ⟨shape.trans lastShape, fun place above unchanged => ?_⟩
      rw [← Nat.add_assoc, lastBytes place (by rw [shape.base]; exact above)
        (unchanged count (Nat.lt_succ_self _)), bytes place above]
      exact fun number below => unchanged number (Nat.lt_succ_of_lt below)

theorem shape {row : Nat} (inRows : row ≤ rows) :
    (states 0 0).memory.SameShape (states row 0).memory := by
  induction row with
  | zero => exact .refl _
  | succ row induction =>
      rw [trace.next row inRows]
      refine (induction (by omega)).trans ?_
      have rowShape :=
        (trace.frame checked inRows (show 0 + elements ≤ elements by omega)).1
      rwa [Nat.zero_add] at rowShape

theorem shape_element {row : Nat} (inRows : row < rows) {element : Nat}
    (inRow : element ≤ elements) :
    (states 0 0).memory.SameShape (states row element).memory := by
  have rowShape :=
    (trace.frame checked inRows (show 0 + element ≤ elements by omega)).1
  rw [Nat.zero_add] at rowShape
  exact (trace.shape checked inRows.le).trans rowShape

end Trace

end LaneKernel.Reference
