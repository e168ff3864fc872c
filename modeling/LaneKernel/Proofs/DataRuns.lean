import LaneKernel.Proofs.Arrangements
import LaneKernel.Proofs.LaneSimulation

/-!
# Data of a run

The memory of a machine that runs a kernel shows the memory of the interpreter:
at the start of a chunk after all elements in front of it, and while the chunk
is worked on, at the bytes that each of its elements needs.  This holds as long
as no element writes what another element of its row needs.
-/

namespace LaneKernel

open Compiler Reference

theorem Visit.dvd_of_mem {size bytes first count : Nat} {visit : Visit}
    (small : size ∣ 16) (whole : size ∣ bytes)
    (isVisit : visit ∈ ofRows bytes first count) :
    size ∣ visit.start ∧ size ∣ visit.length := by
  have tail : size ∣ bytes % 16 := (Nat.dvd_mod_iff small).mpr whole
  have blocks : ∀ row start number, size ∣ start →
      ∀ visit ∈ Visit.blocks row start number,
      size ∣ visit.start ∧ size ∣ visit.length := by
    intro row start number
    induction number generalizing start with
    | zero => intro _ visit isVisit; cases isVisit
    | succ number induction =>
        intro divides visit isVisit
        rcases List.mem_cons.mp isVisit with rfl | isLater
        · exact ⟨divides, small⟩
        · exact induction (start + 16) (Nat.dvd_add divides small) visit isLater
  induction count generalizing first with
  | zero => cases isVisit
  | succ count induction =>
      rcases List.mem_append.mp isVisit with inRow | isLater
      · rcases List.mem_cons.mp inRow with rfl | isBlock
        · exact ⟨Nat.dvd_zero _, tail⟩
        · exact blocks _ _ _ tail visit isBlock
      · exact induction isLater

namespace Compilation

variable {program : Program} {options : CompileOptions} {site : CallSite}
  (compilation : Compilation program options site.kernel)

/-- The states of a run of the interpreter over the rows that a call goes
through. -/
structure Traced (memory : FlatMemory) (states : Nat → Nat → State) : Prop where
  trace : Trace compilation.plan.program site.executor
    site.executor.n.toInt.toNat compilation.tourAt.rows states
  initial : (states 0 0).memory = memory

/-- A run of the interpreter that a call can follow: no element writes what
another element of its row needs, and the frame is not part of the memory. -/
structure Follows (memory : FlatMemory) (states : Nat → Nat → State) : Prop
    extends compilation.Traced memory states where
  below : memory.base.toNat + memory.data.size ≤ 2 ^ 32
  short : 0 < compilation.tourAt.rows →
    site.executor.n.toInt.toNat * compilation.width < 2 ^ 32
  isolated : ∀ row < compilation.tourAt.rows,
    ∀ first < site.executor.n.toInt.toNat,
      ∀ second < site.executor.n.toInt.toNat, first ≠ second → ∀ place,
    (compilation.element row first).Needs place →
      ¬ (compilation.element row second).Changes place
  apart : ∀ place, memory.base.toNat ≤ place →
    place < memory.base.toNat + memory.data.size →
    UInt32.ofNat place ∉ site.frame

/-- The interpreter has the values in a lane and the bytes that the element of
the lane needs. -/
structure InStep (memory : FlatMemory) (visit : Visit) (number : Nat)
    (core : Core) (state : State) :
    Prop where
  shape : memory.SameShape state.memory
  mirrors : compilation.Mirrors core number state
  bytes : ∀ place, (compilation.element visit.row
      (visit.start / compilation.width + number)).Needs place →
    core.ram.peek (UInt32.ofNat place) = state.memory.byteAt place

theorem checked (entry : Opcode × Instruction)
    (isEntry : entry ∈ resolveCode compilation.plan.program) :
    compilation.plan.program.Checked entry.2 entry.1 :=
  (Program.flat_of_mem compilation.planned.lowered isEntry).checked

/-- The elements of a chunk. -/
structure Chunked (visit : Visit) : Prop where
  inRows : visit.row < compilation.tourAt.rows
  isStart : visit.start / compilation.width * compilation.width = visit.start
  isLength : visit.length / compilation.width * compilation.width = visit.length
  inRow : visit.start / compilation.width + visit.length / compilation.width ≤
    site.executor.n.toInt.toNat
  short : visit.length ≤ 16

section Follows

variable {compilation} {memory : FlatMemory} {states : Nat → Nat → State}

namespace Follows

variable (follows : compilation.Follows memory states)

include follows

theorem rowBytes_eq {row : Nat} (inRows : row < compilation.tourAt.rows) :
    compilation.tourAt.rowBytes =
      site.executor.n.toInt.toNat * compilation.width := by
  rw [compilation.rowBytes_eq (compilation.row_lt inRows).1]
  exact Nat.mod_eq_of_lt (follows.short (by omega))

theorem chunked {visit : Visit} (isVisit : visit ∈ compilation.tourAt.visits) :
    compilation.Chunked visit := by
  obtain ⟨inRows, inRow⟩ := compilation.visit_lt isVisit
  have isBytes := follows.rowBytes_eq inRows
  obtain ⟨startDivides, lengthDivides⟩ := Visit.dvd_of_mem compilation.width_dvd
    (show compilation.width ∣ compilation.tourAt.rowBytes by
      rw [isBytes]; exact Nat.dvd_mul_left _ _) isVisit
  have isStart := Nat.div_mul_cancel startDivides
  have isLength := Nat.div_mul_cancel lengthDivides
  refine ⟨inRows, isStart, isLength, ?_, (Visit.of_mem_ofRows isVisit).2.2⟩
  rw [isBytes, ← isStart, ← isLength, ← Nat.add_mul] at inRow
  exact Nat.le_of_mul_le_mul_right inRow compilation.width_pos

end Follows

namespace Traced

variable (traced : compilation.Traced memory states)

include traced

theorem shape {row element : Nat} (inRows : row < compilation.tourAt.rows)
    (inRow : element ≤ site.executor.n.toInt.toNat) :
    memory.SameShape (states row element).memory := by
  have shape := traced.trace.shape_element compilation.checked inRows inRow
  rwa [traced.initial] at shape

theorem covers {row element : Nat} (inRows : row < compilation.tourAt.rows)
    (inRow : element < site.executor.n.toInt.toNat) {write : Bool}
    {index : VarIndex} {distance : Int}
    (accesses : Accesses (compilation.element row element) write index
      distance) :
    memory.Covers ((compilation.element row element).address index distance)
      (compilation.plan.program.var index).size.toNat := by
  rw [← (traced.shape inRows inRow.le).covers]
  have isRun := traced.trace.step row inRows element inRow
  have flat : ∀ entry ∈ resolveCode compilation.plan.program,
      compilation.plan.program.Flat entry :=
    fun entry isEntry => Program.flat_of_mem compilation.planned.lowered isEntry
  cases write with
  | true =>
      obtain ⟨⟨entry, isEntry, writes⟩, isZero⟩ := accesses
      exact @Site.runCode_covers (compilation.element row element) _ _ _ flat
        (fun entry isEntry => isEntry) isRun _ isEntry _ _
        (.inr ⟨writes, isZero⟩)
  | false =>
      obtain ⟨entry, isEntry, reads⟩ := accesses
      exact @Site.runCode_covers (compilation.element row element) _ _ _ flat
        (fun entry isEntry => isEntry) isRun _ isEntry _ _ (.inl reads)

theorem needs_inside {row element : Nat}
    (inRows : row < compilation.tourAt.rows)
    (inRow : element < site.executor.n.toInt.toNat) {place : Nat}
    (needs : (compilation.element row element).Needs place) :
    memory.base.toNat ≤ place ∧
      place < memory.base.toNat + memory.data.size := by
  obtain ⟨write, index, distance, accesses, touches⟩ := needs
  have covers := traced.covers inRows inRow accesses
  obtain ⟨above, upTo⟩ := touches
  change place < _ + (compilation.plan.program.var index).size.toNat at upTo
  unfold FlatMemory.Covers at covers
  omega

end Traced

end Follows

section Bytes

variable {compilation} {visit : Visit} (chunked : compilation.Chunked visit)

include chunked in
theorem Chunked.address {index : VarIndex} {distance : Int} (write : Bool)
    (number place : Nat)
    (isSize : (compilation.plan.program.var index).size =
      (compilation.width : Int)) :
    (compilation.tourAt.region visit ⟨write, index,
      distance * (compilation.width : Int)⟩).start +
        UInt32.ofNat (number * compilation.width + place) =
      (compilation.element visit.row
        (visit.start / compilation.width + number)).address index distance +
          UInt32.ofNat place := by
  change compilation.tourAt.executor.rowStart compilation.plan.program.twoD
    index visit.row + UInt32.ofNat visit.start +
      Core.distance (distance * (compilation.width : Int)) + _ =
    site.executor.rowStart compilation.plan.program.twoD index visit.row +
      Core.distance (((visit.start / compilation.width + number : Nat) +
        distance) *
        (compilation.plan.program.var index).size) + _
  rw [isSize, ← Core.distance_natCast visit.start,
    ← Core.distance_natCast (_ + place), ← Core.distance_natCast place,
    UInt32.add_assoc, UInt32.add_assoc, UInt32.add_assoc]
  change site.executor.rowStart _ index visit.row + _ = _
  rw [UInt32.add_right_inj, ← Core.distance_add, ← Core.distance_add,
    ← Core.distance_add]
  congr 1
  have isStart :
      ((visit.start / compilation.width : Nat) : Int) *
        (compilation.width : Nat) =
      visit.start := by exact_mod_cast chunked.isStart
  rw [Int.natCast_add, Int.add_mul, Int.natCast_add, Int.natCast_mul,
    Int.add_mul, isStart]
  omega

end Bytes

/-- The bytes that an instruction of the body reads. -/
theorem touch_of_reads {entry : Opcode × Instruction}
    (isEntry : entry ∈ compilation.body) {row element : Nat} {index : VarIndex}
    {distance : Int}
    (reads : (compilation.element row element).Reads entry.1 entry.2 index
      distance) :
    entry.1.touch? compilation.plan.program.var entry.2 =
      some ⟨false, index, distance * (compilation.width : Int)⟩ := by
  have flat := compilation.flat isEntry
  obtain ⟨⟨kind, size⟩, instruction⟩ := entry
  obtain ⟨isIndex, ⟨isKind, isDistance⟩ | ⟨isKind, isDistance⟩⟩ :=
    reads_of_flat flat reads
  · obtain rfl : kind = .load := isKind
    rw [isIndex, isDistance, Int.zero_mul]
    rfl
  · obtain rfl : kind = .loadOffset := isKind
    rw [isIndex, isDistance, ← compilation.shift_eq isEntry]
    rfl

theorem isArray_accessed {row element : Nat} {write : Bool} {index : VarIndex}
    {distance : Int}
    (accesses : Accesses (compilation.element row element) write index
      distance) :
    (compilation.plan.program.var index).role.isArray = true := by
  cases write with
  | true =>
      obtain ⟨⟨_, _, _, isDest⟩, _⟩ := accesses
      change (compilation.plan.program.var index).role = .dest at isDest
      rw [isDest]
      rfl
  | false =>
      obtain ⟨⟨⟨kind, size⟩, instruction⟩, isEntry, reads⟩ := accesses
      have flat := Program.flat_of_mem compilation.planned.lowered isEntry
      have isSource :
          (compilation.plan.program.var instruction.firstSource).role =
            .source := by
        obtain ⟨_, ⟨isKind, _⟩ | ⟨isKind, _⟩⟩ := reads_of_flat flat reads
        · obtain rfl : kind = .load := isKind
          exact flat.checked.moves
        · obtain rfl : kind = .loadOffset := isKind
          exact flat.checked.moves
      rw [(reads_of_flat flat reads).1, isSource]
      rfl

theorem size_accessed {row element : Nat} {write : Bool} {index : VarIndex}
    {distance : Int}
    (accesses : Accesses (compilation.element row element) write index
      distance) :
    (compilation.plan.program.var index).size = (compilation.width : Int) :=
  compilation.size_array_lowered (compilation.isArray_accessed accesses)

section Advance

variable {compilation} {memory : FlatMemory} {states : Nat → Nat → State}
  {visit : Visit} (follows : compilation.Follows memory states)
  (chunked : compilation.Chunked visit)

include chunked in
/-- An address of a chunk is a place that an element touches. -/
theorem Chunked.touches {write : Bool} {index : VarIndex} {distance : Int}
    (isSize : (compilation.plan.program.var index).size =
      (compilation.width : Int))
    {address : UInt32}
    (inside : address ∈ compilation.tourAt.region visit
      ⟨write, index, distance * (compilation.width : Int)⟩) :
    ∃ number < visit.length / compilation.width, ∃ place,
      address = UInt32.ofNat place ∧
        (compilation.element visit.row
        (visit.start / compilation.width + number)).Touches index distance
          place := by
  obtain ⟨offset, below, rfl⟩ := Region.mem_iff_exists.mp inside
  change offset < visit.length at below
  rw [← chunked.isLength] at below
  have split := Nat.div_add_mod offset compilation.width
  have rest := Nat.mod_lt offset compilation.width_pos
  refine ⟨offset / compilation.width,
    (Nat.div_lt_iff_lt_mul compilation.width_pos).mpr below,
    ((compilation.element visit.row (visit.start / compilation.width +
      offset / compilation.width)).address index distance).toNat +
        offset % compilation.width,
    ?_, Nat.le_add_right _ _, ?_⟩
  · rw [UInt32.ofNat_add, UInt32.ofNat_toNat,
      ← chunked.address write _ _ isSize, Nat.mul_comm, split]
  · change _ < _ + (compilation.plan.program.var index).size.toNat
    rw [isSize, Int.toNat_natCast]
    omega

variable {entry : Opcode × Instruction} {before after : Core}
  (performed : Performed compilation.tourAt.site site.executor
    compilation.tourAt.stack (compilation.tourAt.region visit) entry.1 entry.2
      before after)
  (isEntry : entry ∈ compilation.body)

theorem writes_of_entry {row element : Nat} {index : VarIndex}
    (isEntry : entry ∈ compilation.body)
    (writes : (compilation.element row element).Writes entry.2 index) :
    Accesses (compilation.element row element) true index 0 :=
  ⟨⟨entry, (compilation.planned.mem_resolveCode isEntry).1, writes⟩, rfl⟩

theorem reads_of_entry {row element : Nat} {index : VarIndex} {distance : Int}
    (isEntry : entry ∈ compilation.body)
    (reads : (compilation.element row element).Reads entry.1 entry.2 index
      distance) :
    Accesses (compilation.element row element) false index distance :=
  ⟨entry, (compilation.planned.mem_resolveCode isEntry).1, reads⟩

include follows in
theorem Follows.not_staged {place : Nat} (above : memory.base.toNat ≤ place)
    (inside : place < memory.base.toNat + memory.data.size) :
    UInt32.ofNat place ∉ compilation.tourAt.stage := by
  intro inStage
  apply follows.apart place above inside
  rw [← compilation.frame_tour]
  exact Tour.mem_stage compilation.planned _ inStage

include follows chunked performed isEntry in
/-- An instruction leaves the bytes that it writes for no element. -/
theorem Follows.peek_performed {place : Nat} (above : memory.base.toNat ≤ place)
    (inside : place < memory.base.toNat + memory.data.size)
    (unwritten : ∀ number < visit.length / compilation.width, ∀ index,
      (compilation.element visit.row
        (visit.start / compilation.width + number)).Writes entry.2 index →
      ¬ (compilation.element visit.row
        (visit.start / compilation.width + number)).Touches index 0 place) :
    after.ram.peek (UInt32.ofNat place) =
      before.ram.peek (UInt32.ofNat place) := by
  apply performed.peek _ (follows.not_staged above inside)
  intro touch isTouch isWrite inRegion
  obtain ⟨⟨kind, size⟩, instruction⟩ := entry
  have flat := compilation.flat isEntry
  have isStore : kind = .store := by
    cases kind <;> first | rfl | (cases isTouch; cases isWrite) | cases isTouch
  subst isStore
  obtain rfl : (⟨true, instruction.target, 0⟩ : Touch) = touch :=
    Option.some.inj isTouch
  have writes : ∀ number,
      (compilation.element visit.row number).Writes instruction
      instruction.target := fun number => ⟨rfl, (flat.store rfl).1⟩
  have accesses := fun number => writes_of_entry isEntry (writes number)
  have isZero : (0 : Int) = 0 * (compilation.width : Int) :=
    (Int.zero_mul _).symm
  rw [isZero] at inRegion
  obtain ⟨number, isNumber, touched, same, touches⟩ :=
    chunked.touches (compilation.size_accessed (accesses 0)) inRegion
  have inChunk := chunked.inRow
  have inMemory := follows.needs_inside chunked.inRows
    (show visit.start / compilation.width + number <
      site.executor.n.toInt.toNat by omega)
    ⟨true, _, 0, accesses _, touches⟩
  have below := follows.below
  have samePlace : place = touched :=
    (Word.ofNat_inj (by omega) (by omega)).mp same
  exact unwritten number isNumber _ (writes _) (samePlace ▸ touches)

variable {number : Nat} {state next : State} (built : program.Built)
  (inStep : compilation.InStep memory visit number before state)
  (isNumber : number < visit.length / compilation.width)

include chunked isNumber in
theorem Chunked.lane_le : (number + 1) * compilation.width ≤ visit.length := by
  rw [← chunked.isLength]
  exact Nat.mul_le_mul_right _ isNumber

include follows chunked performed isEntry inStep isNumber in
/-- A load brings the bytes of an element into its lane. -/
theorem InStep.loads (index : VarIndex) (distance : Int)
    (reads : (compilation.element visit.row
      (visit.start / compilation.width + number)).Reads entry.1 entry.2 index
        distance) (place : Nat) (inElement : place < compilation.width) :
    (compilation.tourAt.site.value after entry.2.target).byte
      (number * compilation.width + place) =
        state.memory.byteAt (((compilation.element visit.row
        (visit.start / compilation.width + number)).address index
          distance).toNat + place) := by
  have accesses := reads_of_entry isEntry reads
  have isSize := compilation.size_accessed accesses
  have isTouch := compilation.touch_of_reads isEntry reads
  have inLane := chunked.lane_le isNumber
  have inChunk := chunked.inRow
  rw [Nat.add_mul, Nat.one_mul] at inLane
  have apart : (compilation.tourAt.region visit
      ⟨false, index, distance * (compilation.width : Int)⟩).Apart
      ⟨Frame.stage compilation.tourAt.stack, 16⟩ := by
    intro address inRegion
    obtain ⟨other, isOther, touched, rfl, touches⟩ :=
      chunked.touches isSize inRegion
    have inMemory := follows.needs_inside chunked.inRows
      (show visit.start / compilation.width + other <
        site.executor.n.toInt.toNat by omega)
      ⟨false, index, distance, accesses.elsewhere, touches⟩
    exact follows.not_staged inMemory.1 inMemory.2
  rw [performed.loaded _ isTouch rfl apart _ (show _ < visit.length by omega),
    chunked.address false number place isSize]
  have needs : (compilation.element visit.row
      (visit.start / compilation.width + number)).Needs
        (((compilation.element visit.row
        (visit.start / compilation.width + number)).address index
          distance).toNat + place) := by
    refine ⟨false, index, distance, accesses, Nat.le_add_right _ _, ?_⟩
    change _ < _ + (compilation.plan.program.var index).size.toNat
    rw [isSize, Int.toNat_natCast]
    omega
  rw [← inStep.bytes _ needs, UInt32.ofNat_add, UInt32.ofNat_toNat]

include follows chunked performed isEntry inStep isNumber in
/-- A store puts the value of every lane into the bytes of its element. -/
theorem InStep.stored (isStore : entry.1.kind = .store)
    (isStep : (compilation.element visit.row
      (visit.start / compilation.width + number)).step state entry.1 entry.2 =
        (next, none)) {place : Nat}
    (needs : (compilation.element visit.row
      (visit.start / compilation.width + number)).Needs place) :
    after.ram.peek (UInt32.ofNat place) = next.memory.byteAt place := by
  have flat := compilation.flat isEntry
  obtain ⟨isDest, isTemp⟩ := flat.store isStore
  have writes : ∀ other,
      (compilation.element visit.row other).Writes entry.2 entry.2.target :=
    fun _ => ⟨rfl, isDest⟩
  have accesses := fun other => writes_of_entry isEntry (writes other)
  have isSize := compilation.size_accessed (accesses 0)
  have inChunk := chunked.inRow
  have inRow : visit.start / compilation.width + number <
      site.executor.n.toInt.toNat := by omega
  have covers := follows.covers chunked.inRows inRow (accesses _)
  obtain ⟨above, inside⟩ := follows.needs_inside chunked.inRows inRow needs
  obtain ⟨word, isWord⟩ := Site.result_of_step isStep
  have isValue : Site.value state entry.2.firstSource = word := by
    obtain ⟨⟨kind, size⟩, instruction⟩ := entry
    obtain rfl : kind = .store := isStore
    change Site.read _ state instruction.firstSource _ _ = _ at isWord
    rw [Site.read_temp isTemp] at isWord
    exact Except.ok.inj isWord
  rw [Site.step_dest isDest isWord] at isStep
  obtain ⟨rfl, _⟩ := Prod.mk.inj isStep
  rw [FlatMemory.byteAt_store (inStep.shape.covers.mpr covers)
    (inStep.shape.base ▸ above)]
  change _ = if _ ∧
    _ < _ + (compilation.plan.program.var entry.2.target).size.toNat then
    Lane.byte (Lane.truncate word
      (compilation.plan.program.var entry.2.target).size.toNat) _ else _
  rw [isSize, Int.toNat_natCast]
  split
  case isTrue inElement =>
    have isSourceSize :
        (compilation.plan.program.var entry.2.firstSource).size =
        (compilation.width : Int) := by
      rw [(flat.checked.readable 0 _ flat.checked.first).size.resolve_left
        (by rw [isTemp]; decide), ← flat.checked.size, isSize]
    have inLane := chunked.lane_le isNumber
    rw [Nat.add_mul, Nat.one_mul] at inLane
    have isTouch : entry.1.touch? compilation.plan.program.var entry.2 =
        some ⟨true, entry.2.target, 0 * (compilation.width : Int)⟩ := by
      rw [Int.zero_mul]
      unfold Opcode.touch?
      rw [isStore]
    obtain ⟨offset, rfl⟩ := Nat.exists_eq_add_of_le inElement.1
    have inside : offset < compilation.width := by omega
    have isByte :=
      performed.stored _ isTouch rfl (number * compilation.width + offset)
      (show _ < visit.length by omega)
    rw [chunked.address true number offset isSize] at isByte
    rw [UInt32.ofNat_add, UInt32.ofNat_toNat, isByte, Nat.add_sub_cancel_left,
      Lane.byte_truncate, if_pos inside, ← isValue,
      inStep.mirrors _ isTemp isSourceSize,
      VectorRegister.byte_lane _ _ _ _ compilation.width_le, if_pos inside]
  case isFalse outside =>
    rw [← inStep.bytes place needs]
    apply follows.peek_performed chunked performed isEntry above inside
    rintro other isOther index ⟨rfl, isIndexDest⟩ touches
    by_cases same : other = number
    · subst same
      apply outside
      obtain ⟨fromStart, upTo⟩ := touches
      change place <
        _ + (compilation.plan.program.var entry.2.target).size.toNat at upTo
      rw [isSize, Int.toNat_natCast] at upTo
      exact ⟨fromStart, upTo⟩
    · exact follows.isolated _ chunked.inRows _ inRow
        (visit.start / compilation.width + other) (by omega)
        (by omega) place needs
        ⟨_, (accesses _).1, touches⟩

include follows chunked performed isEntry inStep isNumber built in
/-- An instruction that the interpreter completes keeps it in step. -/
theorem InStep.step
    (isStep : (compilation.element visit.row
      (visit.start / compilation.width + number)).step state entry.1 entry.2 =
        (next, none)) :
    compilation.InStep memory visit number after next := by
  have flat := compilation.flat isEntry
  have shape := inStep.shape.trans (Site.step_frame flat.checked isStep).1
  have inLane := (chunked.lane_le isNumber).trans chunked.short
  by_cases isStore : entry.1.kind = .store
  · refine ⟨shape, ?_, fun place needs =>
      inStep.stored follows chunked performed isEntry isNumber isStore
        isStep needs⟩
    have isDest := (flat.store isStore).1
    obtain ⟨word, isWord⟩ := Site.result_of_step isStep
    rw [Site.step_dest isDest isWord] at isStep
    obtain ⟨rfl, _⟩ := Prod.mk.inj isStep
    intro index isTemp isSize
    rw [performed.stepped.value index
      (fun same => by rw [same, isDest] at isTemp; cases isTemp)
      (compilation.has_vector built isTemp)]
    exact inStep.mirrors index isTemp isSize
  · obtain ⟨mirrors, sameMemory⟩ :=
      inStep.mirrors.step built flat performed inLane isStore
      (fun index distance reads place inElement =>
        inStep.loads follows chunked performed isEntry isNumber index distance
          reads place inElement)
      isStep
    refine ⟨shape, mirrors, fun place needs => ?_⟩
    have inChunk := chunked.inRow
    obtain ⟨above, inside⟩ := follows.needs_inside chunked.inRows (show
      visit.start / compilation.width + number < site.executor.n.toInt.toNat by
        omega) needs
    rw [sameMemory, ← inStep.bytes place needs]
    apply follows.peek_performed chunked performed isEntry above inside
    rintro other _ index ⟨rfl, isDest⟩
    cases isDest.symm.trans (flat.target isStore)

end Advance

end Compilation

end LaneKernel
