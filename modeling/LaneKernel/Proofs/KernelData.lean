import LaneKernel.Proofs.DataRuns

/-!
# The data behind a kernel

Between two chunks the memory of the machine is the memory of the interpreter.
A chunk opens with the interpreter in step with every lane, each instruction of
the body keeps them in step, and when the chunk is done its bytes are those that
the interpreter leaves behind its elements.
-/

namespace LaneKernel

open Compiler Reference

namespace Compilation

variable {program : Program} {options : CompileOptions} {site : CallSite}
  (compilation : Compilation program options site.kernel)

/-- The memory in front of the element at a place of a row. -/
def Whole (states : Nat → Nat → State) (row place : Nat) (core : Core) : Prop :=
  compilation.Filled core ∧
    core.ram.Shows (states row (place / compilation.width)).memory

/-- What holds while a chunk is worked on: in step with each lane, the
interpreter completes the instructions that are still ahead. -/
structure Part (memory : FlatMemory) (states : Nat → Nat → State)
    (visit : Visit) (ahead : List (Opcode × Instruction)) (core : Core) :
    Prop where
  inBody : ∀ entry ∈ ahead, entry ∈ compilation.body
  filled : compilation.Filled core
  lanes : ∀ number < visit.length / compilation.width, ∃ state last,
    (compilation.element visit.row
      (visit.start / compilation.width + number)).runCode state ahead =
        (last, none) ∧
    last.memory =
      (states visit.row (visit.start / compilation.width + number + 1)).memory ∧
    compilation.InStep memory visit number core state
  others : ∀ place, memory.base.toNat ≤ place →
    place < memory.base.toNat + memory.data.size →
    (∀ number < visit.length / compilation.width,
      ¬ (compilation.element visit.row
        (visit.start / compilation.width + number)).Changes place) →
    core.ram.peek (UInt32.ofNat place) =
      (states visit.row (visit.start / compilation.width)).memory.byteAt place

/-- No other instruction writes the slot of a marked broadcast. -/
theorem eq_of_target (unmarked : program.Unmarked)
    {prepared entry : Opcode × Instruction}
    (isPrepared : prepared ∈ compilation.tourAt.preparations)
    (isEntry : entry ∈ resolveCode compilation.plan.program)
    (same : entry.2.target = prepared.2.target) : entry = prepared := by
  obtain ⟨inCode, isMarked⟩ := List.mem_filter.mp isPrepared
  obtain ⟨found, _, isInstruction⟩ := Reference.opcode_of_mem inCode
  obtain ⟨isFound, _, isOther⟩ := Reference.opcode_of_mem isEntry
  have isSole :=
    ((Program.lower_invariant_iff compilation.planned.lowered unmarked
    isInstruction).mp isMarked).2
  obtain ⟨front, back, isCode⟩ := List.append_of_mem isInstruction
  change compilation.plan.program.code.toList = _ at isCode
  rw [isCode] at isSole isOther
  have isSame : entry.2 = prepared.2 := by
    rcases List.mem_append.mp isOther with inFront | inBack
    · exact (not_two_writers isSole inFront List.mem_cons_self same rfl).elim
    · rcases List.mem_cons.mp inBack with isSame | inBack
      · exact isSame
      · rw [List.append_cons] at isSole
        exact (not_two_writers isSole
          (List.mem_append_right _ List.mem_cons_self) inBack rfl same).elim
  rw [isSame] at isFound
  exact Prod.ext (Option.some.inj (isFound.symm.trans found)) isSame

theorem target_ne (unmarked : program.Unmarked)
    {prepared entry : Opcode × Instruction}
    (isPrepared : prepared ∈ compilation.tourAt.preparations)
    (isEntry : entry ∈ compilation.body) :
    prepared.2.target ≠ entry.2.target := by
  intro same
  obtain ⟨inCode, notMarked⟩ := compilation.planned.mem_resolveCode isEntry
  rw [compilation.eq_of_target unmarked isPrepared inCode same.symm]
    at notMarked
  cases (List.mem_filter.mp isPrepared).2.symm.trans notMarked

theorem temp_of_prepared (unmarked : program.Unmarked)
    {prepared : Opcode × Instruction}
    (isPrepared : prepared ∈ compilation.tourAt.preparations) :
    (compilation.plan.program.var prepared.2.target).role = .temp :=
  (Program.flat_of_mem compilation.planned.lowered
    (List.mem_of_mem_filter isPrepared)).target
      (by rw [compilation.plain unmarked prepared isPrepared]; decide)

theorem filled_congr {core next : Core} (filled : compilation.Filled core)
    (same : ∀ register, next.vector register = core.vector register) :
    compilation.Filled next := by
  intro entry isEntry
  rw [← filled entry isEntry]
  exact same _

variable {compilation} {memory : FlatMemory} {states : Nat → Nat → State}
  {visit : Visit} (follows : compilation.Follows memory states)
  (chunked : compilation.Chunked visit)

include follows in
/-- Elements of a row leave what an element that is not among them needs. -/
theorem Follows.frame {row : Nat} (inRows : row < compilation.tourAt.rows)
    {first count : Nat} (inRow : first + count ≤ site.executor.n.toInt.toNat)
    {place : Nat} (above : memory.base.toNat ≤ place)
    (unchanged : ∀ number < count,
      ¬ (compilation.element row (first + number)).Changes place) :
    (states row (first + count)).memory.byteAt place =
      (states row first).memory.byteAt place := by
  apply (follows.trace.frame compilation.checked inRows inRow).2 place _
    unchanged
  rw [(follows.shape inRows (by omega)).base]
  exact above

section Chunk

variable (built : program.Built) (unmarked : program.Unmarked) {core : Core}

include chunked in
theorem Chunked.start_le :
    visit.start / compilation.width ≤ site.executor.n.toInt.toNat :=
  (Nat.le_add_right _ _).trans chunked.inRow

include follows unmarked in
/-- An element runs in the order of the kernel, whatever its temporaries hold at
first. -/
theorem Follows.runs {row element : Nat}
    (inRows : row < compilation.tourAt.rows)
    (inRow : element < site.executor.n.toInt.toNat) {state : State}
    (sameMemory : state.memory = (states row element).memory) :
    ∃ begun last, (compilation.element row element).runCode state
        compilation.tourAt.preparations = (begun, none) ∧
      (compilation.element row element).runCode begun compilation.body =
        (last, none) ∧
      last.memory = (states row (element + 1)).memory := by
  have valid := (Program.validate_eq_ok.mp
    (Program.validate_lower compilation.planned.lowered)).2
  have sameEnding :=
    @ending_runCode (compilation.element row element) _ _ valid _ _ sameMemory
    fun _ impossible => impossible.elim
  rw [← resolveCode_eq, follows.trace.step row inRows element inRow]
    at sameEnding
  obtain ⟨last, isLast, sameLast⟩ :
      ∃ last, (compilation.element row element).runCode state
      (resolveCode compilation.plan.program) = (last, none) ∧
      last.memory = (states row (element + 1)).memory := by
    generalize Site.runCode _ state _ = outcome at sameEnding ⊢
    obtain ⟨last, stopped⟩ := outcome
    obtain ⟨sameLast, rfl⟩ := Prod.mk.inj sameEnding
    exact ⟨last, rfl, sameLast⟩
  have inOrder := runCode_kernel compilation.planned.lowered unmarked rfl
    compilation.planned.reordered isLast
  obtain ⟨begun, isPrepared, isBody⟩ := Site.runCode_append_eq.mp inOrder
  exact ⟨begun, last, isPrepared, isBody, sameLast⟩

include follows chunked unmarked in
/-- In front of a chunk the interpreter is in step with every lane. -/
theorem Follows.opens
    (whole : compilation.Whole states visit.row visit.start core) :
    compilation.Part memory states visit compilation.body core := by
  obtain ⟨filled, shows⟩ := whole
  have inChunk := chunked.inRow
  have shape := follows.shape chunked.inRows chunked.start_le
  have shown : ∀ place, memory.base.toNat ≤ place →
      place < memory.base.toNat + memory.data.size →
        core.ram.peek (UInt32.ofNat place) =
        (states visit.row (visit.start / compilation.width)).memory.byteAt
        place := by
    intro place above inside
    exact shows place (by rw [shape.base]; exact above)
      (by rw [shape.base, shape.size]; exact inside)
  refine ⟨fun _ isEntry => isEntry, filled, fun number isNumber => ?_,
    fun place above inside _ =>
    shown place above inside⟩
  have inLane := (chunked.lane_le isNumber).trans chunked.short
  have inRow : visit.start / compilation.width + number <
      site.executor.n.toInt.toNat := by omega
  -- The interpreter starts with what the lane happens to hold.
  obtain ⟨begun, last, isPrepared, isBody, sameLast⟩ :=
    follows.runs unmarked chunked.inRows inRow (memory_laneState core _)
  have areFlat : ∀ entry ∈ compilation.tourAt.preparations,
      compilation.plan.program.Flat entry :=
    fun entry isEntry => Program.flat_of_mem compilation.planned.lowered
      (List.mem_of_mem_filter isEntry)
  obtain ⟨mirrors, isMemory⟩ :=
    (mirrors_laneState core _).prepared inLane areFlat
    (compilation.plain unmarked) filled isPrepared
  rw [memory_laneState] at isMemory
  have begunShape : memory.SameShape begun.memory := by
    rw [isMemory]
    exact follows.shape chunked.inRows inRow.le
  refine ⟨begun, last, isBody, sameLast, begunShape, mirrors,
    fun place needs => ?_⟩
  obtain ⟨above, inside⟩ := follows.needs_inside chunked.inRows inRow needs
  rw [shown place above inside, isMemory]
  refine (follows.frame chunked.inRows inRow.le above fun other isOther =>
    ?_).symm
  exact follows.isolated _ chunked.inRows _ inRow _ (by omega)
    (by omega) place needs

include follows chunked built unmarked in
/-- Every instruction of the body keeps the interpreter in step with all
lanes. -/
theorem Follows.advance {entry : Opcode × Instruction}
    {remaining : List (Opcode × Instruction)} {before after : Core}
    (part : compilation.Part memory states visit (entry :: remaining) before)
    (performed : Performed compilation.tourAt.site site.executor
      compilation.tourAt.stack (compilation.tourAt.region visit) entry.1 entry.2
        before after) :
    compilation.Part memory states visit remaining after := by
  have isEntry := part.inBody entry List.mem_cons_self
  refine ⟨fun other isOther =>
    part.inBody other (List.mem_cons_of_mem _ isOther), ?_, ?_, ?_⟩
  · intro prepared isPrepared
    rw [performed.stepped.value _
      (compilation.target_ne unmarked isPrepared isEntry)
      (compilation.has_vector built
      (compilation.temp_of_prepared unmarked isPrepared))]
    exact part.filled prepared isPrepared
  · intro number isNumber
    obtain ⟨state, last, isRun, sameLast, inStep⟩ := part.lanes number isNumber
    obtain ⟨next, isStep, isRest⟩ := Site.runCode_cons_eq.mp isRun
    exact ⟨next, last, isRest, sameLast,
      inStep.step follows chunked performed isEntry built isNumber isStep⟩
  · intro place above inside unchanged
    rw [← part.others place above inside unchanged]
    apply follows.peek_performed chunked performed isEntry above inside
    intro number isNumber index writes touches
    exact unchanged number isNumber ⟨index, (writes_of_entry isEntry writes).1,
      touches⟩

include follows chunked in
/-- Behind a chunk the memory is what the interpreter leaves behind its last
element. -/
theorem Follows.closes (part : compilation.Part memory states visit [] core) :
    compilation.Whole states visit.row (visit.start + visit.length) core := by
  have inChunk := chunked.inRow
  have isPlace : (visit.start + visit.length) / compilation.width =
      visit.start / compilation.width + visit.length / compilation.width := by
    have isStart := chunked.isStart
    have isLength := chunked.isLength
    generalize visit.start / compilation.width = first at *
    generalize visit.length / compilation.width = count at *
    rw [← isStart, ← isLength, ← Nat.add_mul,
      Nat.mul_div_cancel _ compilation.width_pos]
  refine ⟨part.filled, ?_⟩
  rw [isPlace]
  intro place above inside
  have shape := follows.shape chunked.inRows inChunk
  rw [shape.base] at above inside
  rw [shape.size] at inside
  by_cases changed : ∃ number < visit.length / compilation.width,
    (compilation.element visit.row
      (visit.start / compilation.width + number)).Changes place
  · obtain ⟨number, isNumber, changes⟩ := changed
    obtain ⟨state, last, isRun, sameLast, inStep⟩ := part.lanes number isNumber
    obtain rfl : state = last := congrArg Prod.fst isRun
    rw [inStep.bytes place changes.needs, sameLast]
    -- The elements behind the one that writes the byte leave it.
    obtain ⟨later, isLater⟩ := Nat.exists_eq_add_of_lt isNumber
    rw [show visit.start / compilation.width +
      visit.length / compilation.width =
      visit.start / compilation.width + number + 1 + later by omega]
    refine (follows.frame chunked.inRows (by omega) above fun other isOther =>
      ?_).symm
    exact follows.isolated _ chunked.inRows _ (by omega) _ (by omega)
      (by omega) place changes.needs
  · have unchanged : ∀ number < visit.length / compilation.width,
        ¬ (compilation.element visit.row
          (visit.start / compilation.width + number)).Changes place :=
      fun number isNumber changes => changed ⟨number, isNumber, changes⟩
    rw [part.others place above inside unchanged]
    exact (follows.frame chunked.inRows inChunk above unchanged).symm

end Chunk

include follows in
/-- The invariant of the data that the loop of a kernel carries. -/
theorem Follows.carries (built : program.Built) (unmarked : program.Unmarked) :
    compilation.tourAt.Carries (compilation.Whole states)
      (compilation.Part memory states) where
  same row place core next whole vectors sameRam := by
    refine ⟨compilation.filled_congr whole.1 vectors, ?_⟩
    rw [sameRam]
    exact whole.2
  opens visit isVisit core whole :=
    follows.opens (follows.chunked isVisit) unmarked whole
  advance visit isVisit entry remaining before after part performed :=
    follows.advance (follows.chunked isVisit) built unmarked part performed
  closes visit isVisit core part :=
    follows.closes (follows.chunked isVisit) part
  nextRow row inRows core whole := by
    obtain ⟨filled, shows⟩ := whole
    refine ⟨filled, ?_⟩
    rw [follows.rowBytes_eq inRows,
      Nat.mul_div_cancel _ compilation.width_pos,
      ← follows.trace.next row inRows] at shows
    rw [Nat.zero_div]
    exact shows

/-- In front of the loop the memory is still the first one, and each broadcast
is ahead or done. -/
structure Preparing (compilation : Compilation program options site.kernel)
    (memory : FlatMemory) (ahead : List (Opcode × Instruction)) (core : Core) :
    Prop where
  isAhead : ∀ entry ∈ ahead, entry ∈ compilation.tourAt.preparations
  shows : core.ram.Shows memory
  done : ∀ entry ∈ compilation.tourAt.preparations, entry ∈ ahead ∨
    compilation.tourAt.site.value core entry.2.target =
      .filled entry.1.size
        (site.executor.scalar compilation.plan.program.var entry.2.firstSource)

include follows in
/-- The broadcasts in front of the loop establish its invariant. -/
theorem Follows.prepares (built : program.Built) (unmarked : program.Unmarked)
    {origin : Core} (shows : origin.ram.Shows memory) :
    compilation.tourAt.Prepares origin (compilation.Whole states)
      (compilation.Preparing memory) where
  opens core opened := by
    refine ⟨fun _ isEntry => isEntry, fun place above inside => ?_,
      fun _ isEntry => .inl isEntry⟩
    rw [← shows place above inside]
    apply opened.kept.peek
    rintro (⟨impossible, _⟩ | inFrame)
    · cases impossible
    · rw [compilation.frame_tour] at inFrame
      exact follows.apart place above inside inFrame
  advance entry remaining before after preparing performed := by
    have isEntry := preparing.isAhead entry List.mem_cons_self
    have isParam := compilation.plain unmarked entry isEntry
    refine ⟨fun other isOther =>
      preparing.isAhead other (List.mem_cons_of_mem _ isOther), ?_, ?_⟩
    · intro place above inside
      rw [← preparing.shows place above inside]
      apply performed.peek _ (follows.not_staged above inside)
      intro touch isTouch
      unfold Opcode.touch? at isTouch
      rw [isParam] at isTouch
      cases isTouch
    · intro prepared isPrepared
      by_cases same : entry = prepared
      · exact .inr (same ▸ performed.filled isParam)
      · refine (preparing.done prepared isPrepared).imp
          (fun isAhead => (List.mem_cons.mp isAhead).resolve_left
            (Ne.symm same)) fun isFilled => ?_
        rw [← isFilled]
        refine performed.stepped.value _ (fun sameTarget => same ?_)
          (compilation.has_vector built
            (compilation.temp_of_prepared unmarked isPrepared))
        exact compilation.eq_of_target unmarked isPrepared
          (List.mem_of_mem_filter isEntry) sameTarget.symm
  closes core opened preparing := by
    refine ⟨fun entry isEntry => ?_, ?_⟩
    · exact (preparing.done entry isEntry).resolve_left List.not_mem_nil
    · rw [Nat.zero_div, follows.initial]
      exact preparing.shows

end Compilation

end LaneKernel
