import LaneKernel.Proofs.Compilations
import LaneKernel.Proofs.ElementRuns

/-!
# Call sites

Where a caller puts the code of a kernel, the record of its executor and its
stack.  What the caller promises is said of its own memory and of the program;
from it follows what a kernel relies on when it is entered.
-/

namespace LaneKernel

open Compiler

/-- Bytes stand in memory from an address on. -/
structure Ram.Holds (ram : Ram) (start : UInt32) (bytes : Array UInt8) :
    Prop where
  serves : ram.Serves ⟨start, bytes.size⟩
  peek : ∀ index (bound : index < bytes.size),
    ram.peek (start + UInt32.ofNat index) = bytes[index]

theorem Ram.Holds.codeAt {ram : Ram} {start : UInt32} {bytes : Array UInt8}
    (holds : ram.Holds start bytes) (small : ram.size < 2 ^ 32)
    (aligned : start.toNat % 4 = 0) : CodeAt ram start bytes :=
  ⟨small, aligned, holds.serves.below, holds.serves.inside, holds.peek⟩

/-- A kernel with the places of its code, its record and its stack. -/
structure CallSite where
  kernel : CompiledKernel
  executor : Executor
  entry : UInt32
  argument : UInt32
  stack : UInt32

namespace CallSite

variable (site : CallSite)

def code : Region := ⟨site.entry, site.kernel.code.bytes.size⟩

def record : Region := ⟨site.argument, Executor.recordSize⟩

def frame : Region :=
  ⟨site.stack - UInt32.ofNat site.kernel.frameSize, site.kernel.frameSize⟩

/-- The bytes of a row of an array, some elements away. -/
def row (program : Program) (index : VarIndex) (distance : Int) (row : Nat) :
    Region :=
  ⟨site.executor.rowStart program.twoD index row
      + Core.distance (distance * (program.var index).size),
    site.executor.n.toInt.toNat * (program.var index).size.toNat⟩

/-- The code and the record are in memory. -/
structure Loaded (ram : Ram) : Prop where
  small : ram.size < 2 ^ 32
  code : ram.Holds site.entry site.kernel.code.bytes
  record : site.executor.HeldAt ram site.argument

/-- Code, record and frame have no address in common with each other or with a
row of an array that the program writes. -/
structure Separate (program : Program) : Prop where
  codeRecord : site.code.Apart site.record
  codeFrame : site.code.Apart site.frame
  recordFrame : site.record.Apart site.frame
  rows : ∀ row < Reference.rowCount program site.executor, ∀ index,
    Reference.WritesArray ⟨program, site.executor, row, 0⟩ index →
    (site.row program index 0 row).Apart site.code ∧
      (site.row program index 0 row).Apart site.record ∧
      (site.row program index 0 row).Apart site.frame

/-- All that a call touches is in memory, and words where the kernel expects
words. -/
structure Served (program : Program) (ram : Ram) : Prop where
  entryAligned : site.entry.toNat % 4 = 0
  argumentAligned : site.argument.toNat % 4 = 0
  stackAligned : site.stack.toNat % 4 = 0
  arraysAligned : Reference.checkAligned program site.executor = .ok ()
  record : ram.Serves site.record
  frame : ram.Serves site.frame
  rows : ∀ row < Reference.rowCount program site.executor,
    ∀ write index distance,
      Reference.Accesses ⟨program, site.executor, row, 0⟩ write index distance →
        ram.Serves (site.row program index distance row)

/-- The core that a kernel is entered with. -/
def origin (core : Core) : Core :=
  ((core.setReg Machine.argumentRegister site.argument).setReg
    Machine.stackRegister site.stack).setReg Machine.returnRegister
      Machine.haltAddress

variable {site}

@[simp] theorem ram_origin (core : Core) :
    (site.origin core).ram = core.ram := by
  simp only [origin, Core.ram_setReg]

@[simp] theorem vector_origin (core : Core) (register : RegNum) :
    (site.origin core).vector register = core.vector register := by
  simp only [origin, Core.vector_setReg]

theorem reg_origin (core : Core) {register : RegNum}
    (other : register ∉ [(4 : RegNum), 29, 31]) :
    (site.origin core).reg register = core.reg register := by
  simp only [List.mem_cons, List.not_mem_nil, or_false, not_or] at other
  exact (Core.reg_setReg_other _ _ _ _ other.2.2).trans
    ((Core.reg_setReg_other _ _ _ _ other.2.1).trans
      (Core.reg_setReg_other _ _ _ _ other.1))

theorem argument_origin (core : Core) :
    (site.origin core).reg 4 = site.argument := by
  unfold origin
  rw [Core.reg_setReg_other _ _ _ _ (by decide),
    Core.reg_setReg_other _ _ _ _ (by decide)]
  exact Core.reg_setReg_same _ _ _ (by decide)

theorem stack_origin (core : Core) :
    (site.origin core).reg 29 = site.stack := by
  unfold origin
  rw [Core.reg_setReg_other _ _ _ _ (by decide)]
  exact Core.reg_setReg_same _ _ _ (by decide)

theorem caller_origin (core : Core) :
    (site.origin core).reg 31 = Machine.haltAddress :=
  Core.reg_setReg_same _ _ _ (by decide)

theorem Loaded.codeAt {ram : Ram} (loaded : site.Loaded ram)
    (aligned : site.entry.toNat % 4 = 0) :
    CodeAt ram site.entry site.kernel.code.bytes :=
  loaded.code.codeAt loaded.small aligned

end CallSite

theorem Reference.rowStart_aligned {program : Program} {executor : Executor}
    (isAligned : checkAligned program executor = .ok ()) {index : VarIndex}
    (isArray : (program.var index).role.isArray = true)
    (promised : (program.var index).aligned = true) (row : Nat) :
    (executor.rowStart program.twoD index row).toNat % 4 = 0 := by
  have passes :=
    Outcome.forM_eq_ok.mp isAligned index (Program.mem_arrays isArray)
  rw [promised, if_neg (by decide), Outcome.ite_error_eq_ok,
    Outcome.ite_error_eq_ok] at passes
  obtain ⟨start, stride, _⟩ := passes
  have isStart : (executor.array index).toNat % 4 = 0 := by
    simpa [arrayAlignment] using congrArg UInt32.toNat (not_not.mp start)
  unfold Executor.rowStart
  split
  case isTrue isTwoD =>
    have isStride : (executor.paramWord index).toNat % 4 = 0 := by
      simpa [arrayAlignment] using
        congrArg UInt32.toNat (not_not.mp fun other => stride ⟨isTwoD, other⟩)
    rw [UInt32.toNat_add, UInt32.toNat_mul]
    have product :
        (executor.paramWord index).toNat * (UInt32.ofNat row).toNat % 4 =
          0 := by
      rw [Nat.mul_mod, isStride, Nat.zero_mul]
    omega
  case isFalse => exact isStart

namespace Compilation

variable {program : Program} {options : CompileOptions} {site : CallSite}
  (compilation : Compilation program options site.kernel)

/-- The tour of a call. -/
abbrev tourAt : Tour := compilation.tour site.executor site.argument site.stack

/-- Where the last words of the code start. -/
abbrev exit : Nat := 4 * compilation.code.body.words

/-- What a call leaves when the machine halts. -/
abbrev Ends (core last : Core) : Prop :=
  compilation.tourAt.Ended site.entry site.kernel.code.bytes compilation.exit
    (site.origin core) last

theorem exit_eq (notClean : options.clean = false) :
    site.kernel.code.bytes.size = compilation.exit + 16 := by
  rw [compilation.unpadded notClean,
    ← compilation.code.body_append compilation.planned.frame_sound,
    Fragment.words_append, Nat.mul_add]
  rfl

theorem stack_tour (core : Core) : (site.origin core).reg 29 =
    compilation.tourAt.stack +
      UInt32.ofNat compilation.tourAt.plan.frame.size := by
  rw [CallSite.stack_origin]
  change site.stack = site.stack - UInt32.ofNat site.kernel.frameSize +
    UInt32.ofNat compilation.plan.frame.size
  rw [compilation.frameSize, UInt32.sub_add_cancel]

theorem frame_tour : compilation.tourAt.frame = site.frame := by
  change (⟨site.stack - UInt32.ofNat site.kernel.frameSize,
    compilation.plan.frame.size⟩ : Region) = _
  rw [← compilation.frameSize]
  rfl

theorem rowStart_tour (index : VarIndex) (row : Nat) :
    compilation.tourAt.rowStart index row =
      site.executor.rowStart program.twoD index row := by
  unfold Tour.rowStart
  rw [show compilation.tourAt.plan.program.twoD = program.twoD from
    (Reference.extends_lower compilation.planned.lowered).twoD]
  rfl

theorem rowCount_lowered (executor : Executor) :
    Reference.rowCount compilation.plan.program executor =
      Reference.rowCount program executor := by
  unfold Reference.rowCount
  rw [(Reference.extends_lower compilation.planned.lowered).twoD]

/-- The loop goes through all rows of the program if they have elements. -/
theorem rows_eq (positive : 0 < site.executor.n.toInt) :
    compilation.tourAt.rows = Reference.rowCount program site.executor := by
  unfold Tour.rows
  rw [if_pos (show 0 < compilation.tourAt.executor.n.toInt from positive)]
  exact compilation.rowCount_lowered site.executor

theorem rows_eq_zero (none : ¬ 0 < site.executor.n.toInt) :
    compilation.tourAt.rows = 0 :=
  if_neg none

theorem row_lt {row : Nat} (isRow : row < compilation.tourAt.rows) :
    0 < site.executor.n.toInt ∧
      row < Reference.rowCount program site.executor := by
  by_cases positive : 0 < site.executor.n.toInt
  · rw [compilation.rows_eq positive] at isRow
    exact ⟨positive, isRow⟩
  · rw [compilation.rows_eq_zero positive] at isRow
    omega

theorem visit_lt {visit : Visit} (isVisit : visit ∈ compilation.tourAt.visits) :
    visit.row < compilation.tourAt.rows ∧
      visit.start + visit.length ≤ compilation.tourAt.rowBytes := by
  obtain ⟨inRows, inRow, _⟩ := Visit.of_mem_ofRows isVisit
  exact ⟨by omega, inRow⟩

theorem rowBytes_eq (positive : 0 < site.executor.n.toInt) :
    compilation.tourAt.rowBytes =
      site.executor.n.toInt.toNat * 2 ^ compilation.plan.shift % 2 ^ 32 := by
  have few := compilation.shift_le
  have isWord : UInt32.ofNat site.executor.n.toInt.toNat =
      site.executor.n.toUInt32 :=
    Word.ofNat_toInt32 (show 0 ≤ site.executor.n.toInt from positive.le)
  change (site.executor.n.toUInt32 <<<
    UInt32.ofNat compilation.plan.shift).toNat = _
  rw [UInt32.toNat_shiftLeft, ← isWord, UInt32.toNat_ofNat',
    UInt32.toNat_ofNat', Nat.shiftLeft_eq,
    Nat.mod_eq_of_lt (show compilation.plan.shift < 2 ^ 32 by omega),
    Nat.mod_eq_of_lt (show compilation.plan.shift < 32 by omega),
    Nat.mod_mul_mod]

/-- What the loop writes on a chunk belongs to a row of an array that the
program writes. -/
theorem mem_row {visit : Visit} {touch : Touch} {address : UInt32}
    (isVisit : visit ∈ compilation.tourAt.visits)
    (touches : compilation.tourAt.Touches touch) (isWrite : touch.write = true)
    (inside : address ∈ compilation.tourAt.region visit touch) :
    visit.row < Reference.rowCount program site.executor ∧
      Reference.WritesArray ⟨program, site.executor, visit.row, 0⟩ touch.array ∧
      address ∈ site.row program touch.array 0 visit.row := by
  obtain ⟨isRow, inRow⟩ := compilation.visit_lt isVisit
  obtain ⟨positive, inRows⟩ := compilation.row_lt isRow
  obtain ⟨noShift, writes⟩ :=
    @Compilation.writes_of_touches _ _ _ compilation _ _ _ visit.row 0 _
      touches isWrite
  refine ⟨inRows, writes, ?_⟩
  obtain ⟨_, _, isTarget, isDest⟩ := writes
  have isSize :=
    compilation.size_array
      (show (program.var touch.array).role.isArray = true by
    rw [isDest]; rfl)
  unfold Tour.region at inside
  unfold CallSite.row
  rw [noShift, compilation.rowStart_tour, Core.distance_zero, UInt32.add_zero]
    at inside
  rw [Int.zero_mul, Core.distance_zero, UInt32.add_zero]
  apply Region.mem_of_part inside
  rw [compilation.rowBytes_eq positive] at inRow
  rw [isSize, Int.toNat_natCast]
  exact inRow.trans (Nat.mod_le _ _)

section Accesses

variable {row element : Nat} {write : Bool} {index : VarIndex} {distance : Int}
  {touch : Touch}

theorem isArray_touched (touches : compilation.tourAt.Touches touch) :
    (compilation.plan.program.var touch.array).role.isArray = true := by
  obtain ⟨⟨⟨kind, size⟩, instruction⟩, isEntry, isTouch⟩ := touches
  have flat := Program.flat_of_mem compilation.planned.lowered
    (compilation.planned.mem_resolveCode isEntry).1
  cases kind with
  | load | loadOffset =>
      cases isTouch
      have isSource :
          (compilation.plan.program.var instruction.firstSource).role =
            .source :=
        flat.checked.moves
      rw [isSource]
      rfl
  | store =>
      cases isTouch
      rw [(flat.store rfl).1]
      rfl
  | loadParam | arith op => cases isTouch

/-- The arrays that the loop touches have elements of one size. -/
theorem size_touched (touches : compilation.tourAt.Touches touch) :
    (program.var touch.array).size = (2 ^ compilation.plan.shift : Nat) := by
  apply compilation.size_array
  rw [← Reference.isArray_lower compilation.planned.lowered]
  exact compilation.isArray_touched touches

theorem accesses_of_touches (row element : Nat)
    (touches : compilation.tourAt.Touches touch) :
    ∃ distance, touch.shift = distance * (program.var touch.array).size ∧
      Reference.Accesses ⟨program, site.executor, row, element⟩ touch.write
        touch.array distance := by
  rw [compilation.size_touched touches]
  cases isWrite : touch.write with
  | true =>
      obtain ⟨noShift, writes⟩ := compilation.writes_of_touches touches isWrite
      exact ⟨0, by rw [noShift, Int.zero_mul], writes, rfl⟩
  | false => exact compilation.reads_of_touches touches isWrite

theorem touches_of_accesses (unmarked : program.Unmarked)
    (accesses : Reference.Accesses ⟨program, site.executor, row, element⟩ write
      index distance) :
    compilation.tourAt.Touches ⟨write, index,
      distance * (program.var index).size⟩ := by
  have touches : compilation.tourAt.Touches
      ⟨write, index, distance * (2 ^ compilation.plan.shift : Nat)⟩ := by
    cases write with
    | true =>
        obtain ⟨writes, rfl⟩ := accesses
        rw [Int.zero_mul]
        exact compilation.touches_of_writes unmarked writes
    | false => exact compilation.touches_of_reads unmarked accesses
  rw [show (program.var index).size = (2 ^ compilation.plan.shift : Nat) from
    compilation.size_touched touches]
  exact touches

end Accesses

theorem stack_aligned (aligned : site.stack.toNat % 4 = 0) :
    compilation.tourAt.stack.toNat % 4 = 0 := by
  have whole := (Frame.whole_blocks compilation.planned.frame_sound.isLayout).2
  change (site.stack - UInt32.ofNat site.kernel.frameSize).toNat % 4 = 0
  rw [compilation.frameSize, UInt32.toNat_sub, UInt32.toNat_ofNat']
  have bound := site.stack.toNat_lt
  omega

theorem serves_region {ram : Ram} (served : site.Served program ram)
    {visit : Visit} {touch : Touch}
    (isVisit : visit ∈ compilation.tourAt.visits)
    (touches : compilation.tourAt.Touches touch) :
    ram.Serves (compilation.tourAt.region visit touch) := by
  obtain ⟨isRow, inRow⟩ := compilation.visit_lt isVisit
  obtain ⟨positive, inRows⟩ := compilation.row_lt isRow
  obtain ⟨distance, isShift, accesses⟩ :=
    compilation.accesses_of_touches visit.row 0 touches
  rw [compilation.rowBytes_eq positive] at inRow
  have part := (served.rows visit.row inRows _ _ _ accesses).part
    (inRow.trans (by
    rw [compilation.size_touched touches, Int.toNat_natCast]
    exact Nat.mod_le _ _))
  unfold Tour.region
  rwa [UInt32.add_assoc, UInt32.add_comm (UInt32.ofNat visit.start),
    ← UInt32.add_assoc, isShift, compilation.rowStart_tour]

theorem start_aligned
    (isAligned : Reference.checkAligned program site.executor = .ok ())
    (row : Nat) {touch : Touch} (touches : compilation.tourAt.Touches touch)
    (isWord : Routines.wordAligned compilation.tourAt.site touch.array
      touch.shift = true) :
    (compilation.tourAt.rowStart touch.array row +
      Core.distance touch.shift).toNat % 4 = 0 := by
  rw [← Reference.checkAligned_lower compilation.planned.lowered] at isAligned
  obtain ⟨promised, whole⟩ := Bool.and_eq_true_iff.mp isWord
  have isStart :=
    Reference.rowStart_aligned isAligned (compilation.isArray_touched touches)
      promised
    row
  have isShift : touch.shift % 4 = 0 := by simpa using whole
  change (site.executor.rowStart compilation.plan.program.twoD touch.array row +
    Core.distance touch.shift).toNat % 4 = 0
  unfold Core.distance
  rw [UInt32.toNat_add, Word.toNat_ofInt]
  omega

section Entry

variable {core : Core} (loaded : site.Loaded core.ram)
  (separate : site.Separate program)

include separate

/-- The code is out of reach. -/
theorem code_safe (address : UInt32) (inCode : address ∈ site.code) :
    ¬ compilation.tourAt.footprint true address := by
  rintro ((⟨impossible, _⟩ | inFrame) |
    ⟨visit, isVisit, touch, touches, isWrite, inside⟩)
  · cases impossible
  · rw [compilation.frame_tour] at inFrame
    exact separate.codeFrame address inCode inFrame
  · obtain ⟨inRows, writes, inRow⟩ :=
      compilation.mem_row isVisit touches isWrite inside
    exact (separate.rows _ inRows _ writes).1 address inRow inCode

include loaded

/-- What a kernel relies on follows from what the caller promises; it traps only
if something is not served. -/
theorem entered :
    compilation.tourAt.Entered (¬ site.Served program core.ram)
      (site.origin core) where
  small := by simpa using loaded.small
  pointer := CallSite.argument_origin core
  isStack := compilation.stack_tour core
  held := by rw [CallSite.ram_origin]; exact loaded.record
  recordServed := by
    rw [CallSite.ram_origin]
    exact not_or_of_imp fun served => ⟨served.argumentAligned, served.record⟩
  frameServed := by
    rw [CallSite.ram_origin, compilation.frame_tour]
    exact not_or_of_imp fun served =>
      ⟨compilation.stack_aligned served.stackAligned, served.frame⟩
  served visit isVisit touch touches := by
    rw [CallSite.ram_origin]
    exact not_or_of_imp fun served =>
      compilation.serves_region served isVisit touches
  aligned row inRows touch touches isWord := not_or_of_imp fun served =>
    compilation.start_aligned served.arraysAligned row touches isWord
  recordFrame := compilation.frame_tour ▸ separate.recordFrame
  recordSafe visit isVisit touch touches isWrite address inside := by
    obtain ⟨inRows, writes, inRow⟩ :=
      compilation.mem_row isVisit touches isWrite inside
    exact (separate.rows _ inRows _ writes).2.1 address inRow
  frameSafe visit isVisit touch touches isWrite address inside := by
    obtain ⟨inRows, writes, inRow⟩ :=
      compilation.mem_row isVisit touches isWrite inside
    rw [compilation.frame_tour]
    exact (separate.rows _ inRows _ writes).2.2 address inRow

end Entry

end Compilation

end LaneKernel
