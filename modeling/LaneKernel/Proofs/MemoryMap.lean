import LaneKernel.Proofs.CallResults
import LaneKernel.Proofs.DrawnExecutors

/-!
# The memory map of a verification

Code, record, data and stack of a verification have fixed places, and every
array has a slot of its own.  The places are apart, and no element that the
interpreter touches lies outside the slot of its array, as long as the code ends
in front of the record and the slots have room for the rows of the largest run.
Nothing checks these two conditions: an array of more elements than a slot holds
runs into the slot behind it.
-/

namespace LaneKernel

open Compiler Reference

namespace Compilation

variable {program : Program} {options : CompileOptions} {site : CallSite}
  (compilation : Compilation program options site.kernel)

theorem offset_within {size : Nat} {instruction : Instruction}
    (inCode : (⟨⟨.loadOffset, size⟩, instruction⟩ : Opcode × Instruction) ∈
      resolveCode compilation.plan.program) :
    (compilation.plan.program.var instruction.secondSource).role = .const ∧
      Routines.minOffset ≤ (Lane.signExtend (compilation.plan.program.var
        instruction.secondSource).value.toUInt64 4).toInt ∧
      (Lane.signExtend (compilation.plan.program.var
        instruction.secondSource).value.toUInt64 4).toInt ≤
          Routines.maxOffset := by
  cases isMarked : instruction.invariant with
  | true =>
      have codes := compilation.code.invariantsCode
      rw [compilation.planned.invariants] at codes
      exact codes.offset_within (List.mem_filter.mpr ⟨inCode, isMarked⟩) rfl
  | false =>
      have codes := compilation.code.tailCode
      rw [compilation.planned.isBody] at codes
      have inBody := compilation.planned.reordered.perm.mem_iff.mp
        (List.mem_filter.mpr ⟨inCode, by rw [isMarked]; rfl⟩)
      exact codes.offset_within inBody rfl

/-- No element that a compiled program accesses is more than 512 elements
away. -/
theorem distance_within {row element : Nat} {write : Bool} {index : VarIndex}
    {distance : Int}
    (accesses : Accesses (compilation.element row element) write index
      distance) :
    Routines.minOffset ≤ distance ∧ distance ≤ Routines.maxOffset := by
  cases write with
  | true =>
      obtain ⟨_, rfl⟩ := accesses
      decide
  | false =>
      obtain ⟨⟨⟨kind, size⟩, instruction⟩, inCode, reads⟩ := accesses
      have flat := Program.flat_of_mem compilation.planned.lowered inCode
      obtain ⟨_, ⟨_, isDistance⟩ | ⟨isKind, isDistance⟩⟩ :=
        reads_of_flat flat reads
      · rw [isDistance]
        decide
      · obtain rfl : kind = .loadOffset := isKind
        obtain ⟨isConst, near⟩ := compilation.offset_within inCode
        unfold Instruction.secondSource at isConst near
        rw [isDistance]
        unfold Site.distance Site.scalar
        rw [if_pos isConst]
        exact near

end Compilation

namespace Verify

/-- The slot of the array with a number. -/
def slot (number : Nat) :
    Region := ⟨dataAddress + UInt32.ofNat (number * slotSize), slotSize⟩

/-- The room that an array takes in its slot, from the start of the slot to the
end of the last element that rows of `count` elements reach: the guard, the
skew, the rows in front of the last one, and a row with the elements that a load
at an offset reaches behind it. -/
def room (program : Program) (index : VarIndex) (count : Nat) : Nat :=
  let size := (program.var index).size.toNat
  guardSize + 15
    + (if program.twoD then (maxRows.toInt.toNat - 1) * ((count + 7) * size + 3)
       else 0)
    + (count + Routines.maxOffset.toNat) * size

theorem room_mono {program : Program} {index : VarIndex} {few many : Nat}
    (more : few ≤ many) : room program index few ≤ room program index many := by
  have further : ∀ reach, (few + reach) * (program.var index).size.toNat ≤
      (many + reach) * (program.var index).size.toNat :=
    fun reach => Nat.mul_le_mul_right _ (Nat.add_le_add_right more reach)
  have behind := further 7
  have rows := Nat.mul_le_mul_left (maxRows.toInt.toNat - 1)
    (Nat.add_le_add_right behind 3)
  have last := further Routines.maxOffset.toNat
  unfold room
  simp only
  split <;> omega

theorem le_room {program : Program} {index : VarIndex} (count : Nat)
    (positive : 0 < (program.var index).size.toNat) :
    count ≤ room program index count := by
  have reach : count * 1 ≤
      (count + Routines.maxOffset.toNat) * (program.var index).size.toNat :=
    Nat.mul_le_mul (Nat.le_add_right _ _) positive
  unfold room
  simp only
  omega

section Slot

variable {program : Program} {maxN : Int64} {executor : Executor}

theorem Drawn.rowStart_eq (drawn : Drawn program maxN executor)
    {number row : Nat} {index : VarIndex}
    (isIndex : program.arrays[number]? = some index)
    (inRows : row < rowCount program executor) :
    ∃ offset, executor.rowStart program.twoD index row =
        dataAddress + UInt32.ofNat (number * slotSize) + UInt32.ofNat offset ∧
      guardSize ≤ offset ∧ offset ≤ guardSize + 15
        + (if program.twoD then (maxRows.toInt.toNat - 1) *
            ((executor.n.toInt.toNat + 7) * (program.var index).size.toNat + 3)
              else 0) := by
  obtain ⟨skew, skewBound, isStart⟩ := drawn.arrays number index isIndex
  have isStart : executor.array index =
      dataAddress + UInt32.ofNat (number * slotSize) +
        UInt32.ofNat (guardSize + skew) := by
    apply UInt32.toNat_inj.mp
    have bound := (executor.array index).toNat_lt
    rw [isStart] at bound
    rw [UInt32.toNat_add, UInt32.toNat_add, UInt32.toNat_ofNat',
      UInt32.toNat_ofNat', isStart]
    omega
  unfold Executor.rowStart
  cases isTwoD : program.twoD with
  | false =>
      exact ⟨guardSize + skew, by simpa using isStart, Nat.le_add_right _ _,
        by simp only [Bool.false_eq_true, if_false]; omega⟩
  | true =>
      have rows := drawn.rows isTwoD
      have stride := drawn.strides isTwoD index (List.mem_of_getElem? isIndex)
      unfold rowCount at inRows
      rw [if_pos isTwoD] at inRows
      have few : row ≤ maxRows.toInt.toNat - 1 := by omega
      have rowsInFront := Nat.mul_le_mul few stride
      refine ⟨guardSize + skew + row * (executor.paramWord index).toNat, ?_,
        by omega, ?_⟩
      · simp only [if_true]
        rw [isStart, UInt32.ofNat_add (guardSize + skew), UInt32.ofNat_mul row,
          UInt32.ofNat_toNat, UInt32.mul_comm (UInt32.ofNat row),
          UInt32.add_assoc]
      · simp only [if_true]
        omega

/-- An element that is near enough lies in the slot of its array. -/
theorem Drawn.mem_slot (drawn : Drawn program maxN executor)
    {number row element : Nat} {index : VarIndex} {distance : Int}
    (isIndex : program.arrays[number]? = some index)
    (inRows : row < rowCount program executor)
    (inRow : element < executor.n.toInt.toNat)
    (narrow : (program.var index).size.toNat ≤ 8)
    (notNegative : 0 ≤ (program.var index).size)
    (near : Routines.minOffset ≤ distance ∧ distance ≤ Routines.maxOffset)
    (roomy : room program index executor.n.toInt.toNat ≤ slotSize)
    {address : UInt32}
    (inElement : address ∈
      Site.bytes ⟨program, executor, row, element⟩ index distance) :
    address ∈ slot number := by
  obtain ⟨offset, isStart, behindGuard, inFront⟩ :=
    drawn.rowStart_eq isIndex inRows
  obtain ⟨size, isSize⟩ := Int.eq_ofNat_of_zero_le notNegative
  unfold room at roomy
  simp only at roomy
  rw [isSize, Int.toNat_natCast] at inFront narrow roomy
  have most : Routines.maxOffset = 511 := rfl
  have least : Routines.minOffset = -512 := rfl
  have guarded : guardSize = 4096 := rfl
  -- The guard is as long as the largest reach in front of an array of the
  -- widest elements.
  have first : -512 * (size : Int) ≤ (element + distance) * size :=
    Int.mul_le_mul_of_nonneg_right (by omega) (Int.natCast_nonneg size)
  have last : (element + distance + 1) * (size : Int) ≤
      ((executor.n.toInt.toNat + Routines.maxOffset.toNat : Nat) : Int) *
        size :=
    Int.mul_le_mul_of_nonneg_right (by omega) (Int.natCast_nonneg size)
  rw [Int.add_mul, Int.one_mul, ← Int.natCast_mul] at last
  obtain ⟨reach, isReach⟩ :=
    Int.eq_ofNat_of_zero_le
      (show 0 ≤ (offset : Int) + (element + distance) * size by omega)
  have inReach : reach + size ≤ slotSize := by
    refine le_trans ?_ roomy
    omega
  have isBytes : Site.bytes ⟨program, executor, row, element⟩ index distance =
      ⟨dataAddress + UInt32.ofNat (number * slotSize) + UInt32.ofNat reach,
        size⟩ := by
    have isAddress :
        Site.address ⟨program, executor, row, element⟩ index distance =
        executor.rowStart program.twoD index row +
          Core.distance ((element + distance) * size) := by
      rw [← isSize]
      rfl
    unfold Site.bytes
    rw [isAddress, isStart, isSize, UInt32.add_assoc,
      ← Core.distance_natCast offset, ← Core.distance_add, isReach,
      Core.distance_natCast]
    rfl
  rw [isBytes] at inElement
  exact Region.mem_of_part inElement inReach

end Slot

/-- The call of a kernel in a verification. -/
def call (kernel : CompiledKernel) (executor : Executor) : CallSite :=
  ⟨kernel, executor, codeAddress, recordAddress, stackTop⟩

/-- The slots of all arrays. -/
def data (program : Program) : Region := ⟨dataAddress, dataSize program⟩

/-- The code ends in front of the record, and rows of `maxN` elements fit the
slots. -/
structure Roomy (program : Program) (kernel : CompiledKernel) (maxN : Int64) :
    Prop where
  code : kernel.code.bytes.size ≤ (recordAddress - codeAddress).toNat
  slots : ∀ index ∈ program.arrays,
    room program index maxN.toInt.toNat ≤ slotSize

/-- A call whose places are apart, with the elements of every array in the slot
of the array. -/
structure Mapped (program : Program) (site : CallSite) : Prop where
  codeRecord : site.code.Apart site.record
  codeData : site.code.Apart (data program)
  codeFrame : site.code.Apart site.frame
  recordData : site.record.Apart (data program)
  recordFrame : site.record.Apart site.frame
  dataFrame : (data program).Apart site.frame
  slots : ∀ first < program.arrays.length,
    (∀ address ∈ slot first, address ∈ data program) ∧ ∀ second <
      program.arrays.length, first ≠ second → (slot first).Apart (slot second)
  aligned : checkAligned program site.executor = .ok ()
  elements : ∀ row < rowCount program site.executor,
    ∀ element < site.executor.n.toInt.toNat, ∀ write index distance,
      Accesses ⟨program, site.executor, row, element⟩ write index distance →
        ∃ number, program.arrays[number]? = some index ∧
        ∀ address ∈ Site.bytes ⟨program, site.executor, row, element⟩ index
          distance, address ∈ slot number

section Map

variable {program : Program} {options : CompileOptions}
  {kernel : CompiledKernel}

theorem exists_array (built : program.Built)
    (compiled : program.compile options = .ok kernel) :
    ∃ index, index ∈ program.arrays := by
  obtain ⟨compilation⟩ := Program.compilation compiled
  obtain ⟨_, ⟨index, isAlign, _⟩, _⟩ :=
    elementShift_eq_ok compilation.planned.shift
  have isAlign :=
    (alignmentVariable_lower compilation.planned.lowered).mp isAlign
  have isArray : ∀ index, (Var.roleOf index).isArray = true →
      (program.var index).declared = true →
      index ∈ program.arrays := by
    intro index isArray declared
    exact Program.mem_arrays
      (by rw [(built.slots index).role declared]; exact isArray)
  unfold alignmentVariable at isAlign
  split at isAlign
  case isTrue declared => exact ⟨_, isArray _ (by decide) declared⟩
  case isFalse =>
    split at isAlign
    case isTrue declared => exact ⟨_, isArray _ (by decide) declared⟩
    case isFalse => cases isAlign

theorem width_array (compiled : program.compile options = .ok kernel)
    {index : VarIndex} (isIndex : index ∈ program.arrays) :
    0 < (program.var index).size.toNat ∧
      (program.var index).size.toNat ≤ 8 ∧ 0 ≤ (program.var index).size := by
  obtain ⟨compilation⟩ := Program.compilation compiled
  have isSize := compilation.size_array (List.mem_filter.mp isIndex).2
  have positive := Nat.two_pow_pos compilation.plan.shift
  have narrow :=
    Nat.pow_le_pow_right (show 0 < 2 by decide) compilation.shift_le
  omega

theorem arrays_le : program.arrays.length ≤ 64 := List.length_filter_le _ _

/-- Data that keeps its distance from the stack ends in front of the stack. -/
theorem data_below (fitting : fits program = true) :
    dataAddress.toNat + dataSize program + stackReserve.toNat ≤
      stackTop.toNat := by
  have few := @arrays_le program
  have isStart := toNat_dataAddress
  have isEnd : (stackTop - stackReserve).toNat = 0x7effc0 := by decide
  have isTop : stackTop.toNat = 0x7fffc0 := by decide
  have isReserve : stackReserve.toNat = 0x10000 := by decide
  unfold fits at fitting
  rw [decide_eq_true_iff, UInt32.le_iff_toNat_le, UInt32.toNat_add,
    UInt32.toNat_ofNat'] at fitting
  unfold dataSize slotSize at *
  omega

theorem start_slot {number : Nat} (inTable : number < 64) :
    (slot number).start.toNat = dataAddress.toNat + number * slotSize := by
  have isStart := toNat_dataAddress
  unfold slot
  rw [UInt32.toNat_add, UInt32.toNat_ofNat']
  unfold slotSize
  omega

theorem slot_inside {number : Nat} (isNumber : number < program.arrays.length)
    {address : UInt32} (inSlot : address ∈ slot number) :
    address ∈ data program := by
  refine Region.mem_of_part inSlot ?_
  change number * slotSize + slotSize ≤ program.arrays.length * slotSize
  rw [← Nat.succ_mul]
  exact Nat.mul_le_mul_right _ isNumber

theorem slot_apart {first second : Nat} (firstInTable : first < 64)
    (secondInTable : second < 64) (differ : first ≠ second) :
    (slot first).Apart (slot second) := by
  have isFirst := start_slot firstInTable
  have isSecond := start_slot secondInTable
  have isStart := toNat_dataAddress
  have firstLength : (slot first).length = 0x20000 := rfl
  have secondLength : (slot second).length = 0x20000 := rfl
  unfold slotSize at isFirst isSecond
  rcases Nat.lt_or_gt_of_ne differ with before | behind
  · exact Region.apart_of_le (by omega) (by omega)
  · exact (Region.apart_of_le (by omega) (by omega)).symm

/-- The frame of a kernel stays in the reserve in front of the top of the
stack. -/
theorem start_frame (compiled : program.compile options = .ok kernel)
    (executor : Executor) :
    (call kernel executor).frame.start.toNat + kernel.frameSize =
      stackTop.toNat ∧
      kernel.frameSize ≤ stackReserve.toNat := by
  obtain ⟨compilation⟩ := Program.compilation compiled
  have small := compilation.planned.frame_sound.offsets.2.2
  rw [← compilation.frameSize] at small
  have isTop : stackTop.toNat = 0x7fffc0 := by decide
  have isReserve : stackReserve.toNat = 0x10000 := by decide
  refine ⟨?_, by omega⟩
  change (stackTop - UInt32.ofNat kernel.frameSize).toNat + _ = _
  rw [UInt32.toNat_sub, UInt32.toNat_ofNat']
  omega

variable {σ : Type} (stream : RandomStream σ) {maxN : Int64}

/-- A verification draws executors whose calls are mapped, as long as there is
room. -/
theorem mapped_of_compiled (built : program.Built)
    (compiled : program.compile options = .ok kernel)
    (notNegative : 0 ≤ maxN.toInt) (fitting : fits program = true)
    (roomy : Roomy program kernel maxN) (state : σ) :
    ∃ executor later, randomExecutor stream program maxN state =
      .ok (executor, later) ∧
      Mapped program (call kernel executor) := by
  obtain ⟨align, isAlign⟩ := exists_array built compiled
  have widths := fun index isArray =>
    @width_array program options kernel compiled index isArray
  have few : maxN.toInt ≤ slotSize := by
    have inRoom := le_room maxN.toInt.toNat (widths align isAlign).1
    have inSlot := roomy.slots align isAlign
    omega
  obtain ⟨executor, later, isDrawn, drawn⟩ :=
    randomExecutor_drawn stream built notNegative few state
  obtain ⟨isFrame, inReserve⟩ := start_frame compiled executor
  obtain ⟨codeRoom, slotRoom⟩ := roomy
  have dataBelow := data_below fitting
  have codeStart : (call kernel executor).code.start.toNat = 0x400000 := rfl
  have codeLength :
      (call kernel executor).code.length = kernel.code.bytes.size := rfl
  have recordStart : (call kernel executor).record.start.toNat = 0x410000 := rfl
  have recordLength : (call kernel executor).record.length = 548 := rfl
  have dataStart : (data program).start.toNat = dataAddress.toNat := rfl
  have dataLength : (data program).length = dataSize program := rfl
  have frameLength :
      (call kernel executor).frame.length = kernel.frameSize := rfl
  have isData := toNat_dataAddress
  have isTop : stackTop.toNat = 0x7fffc0 := rfl
  have inFront : (recordAddress - codeAddress).toNat = 0x10000 := rfl
  refine ⟨executor, later, isDrawn, {
    codeRecord := Region.apart_of_le (by omega) (by omega)
    codeData := Region.apart_of_le (by omega) (by omega)
    codeFrame := Region.apart_of_le (by omega) (by omega)
    recordData := Region.apart_of_le (by omega) (by omega)
    recordFrame := Region.apart_of_le (by omega) (by omega)
    dataFrame := Region.apart_of_le (by omega) (by omega)
    slots := ?slots
    aligned := drawn.aligned
    elements := ?elements }⟩
  case slots =>
    have inTable := @arrays_le program
    exact fun first isFirst =>
      ⟨fun address inSlot => slot_inside isFirst inSlot,
      fun second isSecond differ => slot_apart (by omega) (by omega) differ⟩
  case elements =>
    intro row inRows element inRow write index distance accesses
    obtain ⟨compilation⟩ :
        Nonempty (Compilation program options (call kernel executor).kernel) :=
      Program.compilation compiled
    have lowered := compilation.accesses_lowered.mpr accesses
    have isArray := compilation.isArray_accessed lowered
    rw [isArray_lower compilation.planned.lowered] at isArray
    have isIndex := Program.mem_arrays isArray
    obtain ⟨number, isNumber⟩ := List.mem_iff_getElem?.mp isIndex
    refine ⟨number, isNumber, fun address inElement => ?_⟩
    have fewer : executor.n.toInt.toNat ≤ maxN.toInt.toNat :=
      Int.toNat_le_toNat drawn.count.2
    exact drawn.mem_slot isNumber inRows inRow (widths index isIndex).2.1
      (widths index isIndex).2.2 (compilation.distance_within lowered)
      ((room_mono fewer).trans (slotRoom index isIndex))
      inElement

/-- A stream of words that are all the same. -/
def constantStream (word : UInt64) : RandomStream Unit := fun _ => (word, ())

theorem mapped_increment : ∃ kernel, Program.increment.compile {} = .ok kernel ∧
    (0 : Int) ≤ (300 : Int64).toInt ∧ fits Program.increment = true ∧
    Roomy Program.increment kernel 300 ∧ ∃ executor later,
      randomExecutor (constantStream 7) Program.increment 300 () =
        .ok (executor, later) ∧
        Mapped Program.increment (call kernel executor) := by
  obtain ⟨kernel, compiled, _, isSize⟩ := Program.increment_kernel
  have notNegative : (0 : Int) ≤ (300 : Int64).toInt := by decide
  have fitting : fits Program.increment = true := by decide +kernel
  have roomy : Roomy Program.increment kernel 300 :=
    ⟨by rw [isSize]; decide, by decide +kernel⟩
  exact ⟨kernel, compiled, notNegative, fitting, roomy,
    mapped_of_compiled (constantStream 7) Program.built_increment compiled
      notNegative fitting roomy ()⟩

/-- A verification of the increment with more elements than a slot holds: the
last elements lie in the slot of the other array. -/
theorem unmapped_increment :
    ∃ kernel, Program.increment.compile {} = .ok kernel ∧
    fits Program.increment = true ∧ ∃ executor later,
      randomExecutor (constantStream 0xffffffffffffffff) Program.increment
        262143 () = .ok (executor, later) ∧
          ¬ Mapped Program.increment (call kernel executor) := by
  obtain ⟨kernel, compiled, _⟩ := Program.increment_kernel
  have isDrawn :
      (randomExecutor (constantStream 0xffffffffffffffff)
      Program.increment 262143 ()).toOption.isSome = true := by decide +kernel
  obtain ⟨⟨executor, later⟩, isSome⟩ := Option.isSome_iff_exists.mp isDrawn
  refine ⟨kernel, compiled, by decide +kernel, executor, later,
    Outcome.toOption_eq_some.mp isSome, fun mapped => ?_⟩
  have drawn :
      ((randomExecutor (constantStream 0xffffffffffffffff)
      Program.increment 262143 ()).toOption.map fun drawn =>
        (drawn.1.n, drawn.1.array 0)) =
        some (262143, dataAddress + 0x100f) := by decide +kernel
  rw [isSome] at drawn
  obtain ⟨isCount, isStart⟩ := Prod.mk.inj (Option.some.inj drawn)
  change executor.n = 262143 at isCount
  change executor.array 0 = dataAddress + 0x100f at isStart
  have inCode :
      (⟨⟨.arith .add, 1⟩, ⟨"addb", 0, [0], [4, 16]⟩⟩ : Opcode × Instruction) ∈
      resolveCode Program.increment := by decide +kernel
  have isDest : (Program.increment.var 0).role = .dest := by decide +kernel
  have inRow : 262142 < executor.n.toInt.toNat := by
    rw [isCount]
    decide
  have oneRow : rowCount Program.increment executor = 1 :=
    if_neg (show ¬ Program.increment.twoD = true by decide +kernel)
  obtain ⟨number, isNumber, inSlot⟩ := mapped.elements 0
    (by change 0 < rowCount Program.increment executor; omega) 262142
    inRow true 0 0 ⟨⟨_, inCode, rfl, isDest⟩, rfl⟩
  have isArrays : Program.increment.arrays = [0, 4] := by decide +kernel
  rw [isArrays] at isNumber
  have isFirst : number = 0 := by
    rcases number with _ | _ | number
    · rfl
    · exact absurd isNumber (by decide)
    · cases isNumber
  have isSize : (Program.increment.var 0).size.toNat = 1 := by decide +kernel
  have isOneD : Program.increment.twoD = false := by decide +kernel
  have isOffset :
      (((262142 : Nat) : Int) + 0) * (Program.increment.var 0).size =
        262142 := by
    decide +kernel
  have isBytes : Site.bytes ⟨Program.increment, executor, 0, 262142⟩ 0 0 =
      ⟨dataAddress + 0x100f + UInt32.ofNat 262142, 1⟩ := by
    unfold Site.bytes Site.address
    dsimp only
    rw [isOneD, isStart, isSize, isOffset, if_neg Bool.false_ne_true]
    decide
  have outside := inSlot (dataAddress + 0x100f + UInt32.ofNat 262142)
    (by change _ ∈ Site.bytes ⟨Program.increment, executor, 0,
      262142⟩ 0 0; rw [isBytes]; decide)
  rw [isFirst] at outside
  exact absurd outside (by decide)

end Map

end Verify

end LaneKernel
