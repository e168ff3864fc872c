import LaneKernel.Proofs.KernelCalls
import LaneKernel.Proofs.LoweredAccess

/-!
# Compiled programs

What is known of a program that compiled: the plan and the code that its kernel
was assembled from, the one size that all its arrays have, and which elements of
which arrays its loop touches.
-/

namespace LaneKernel

open Asm Contract Compiler

/-- The plan and the code that a kernel was assembled from. -/
structure Compilation (program : Program) (options : CompileOptions)
    (kernel : CompiledKernel)
    where
  plan : CompilePlan Unit
  body : List (Opcode × Instruction)
  fragment : Fragment
  labels : List (Label × Nat)
  planned : Planned program options plan body
  code : KernelCode plan options.unroll.toNat fragment
  placed : Placed fragment kernel.code.bytes labels
  frameSize : kernel.frameSize = plan.frame.size
  unpadded : options.clean = false → kernel.code.bytes.size = 4 * fragment.words

theorem Program.compilation {program : Program} {options : CompileOptions}
    {kernel : CompiledKernel}
    (compiled : program.compile options = .ok kernel) :
    Nonempty (Compilation program options kernel) := by
  unfold Program.compile Compiler.compile at compiled
  cases isPlan : Compiler.plan (Registry.standard : Registry Unit) program
    options with
  | error cause =>
      rw [isPlan] at compiled
      cases compiled
  | ok plan =>
      rw [isPlan] at compiled
      obtain ⟨body, planned⟩ := planned_of_plan isPlan
      simp only at compiled
      split at compiled
      case h_1 => cases compiled
      case h_2 fragment later state isRun =>
        have emits : Emits (emitKernel plan options.unroll.toNat) fragment :=
          ⟨firstFreeLabel, later, congrArg Prod.fst isRun⟩
        obtain ⟨code⟩ := kernelCode_of_emitKernel emits
        unfold finish at compiled
        obtain ⟨machineCode, isCode, compiled⟩ := Outcome.bind_eq_ok.mp compiled
        rw [Outcome.mapError_eq_ok] at isCode
        cases compiled
        obtain ⟨labels, placed, unpadded⟩ := assemble_placed isCode
        exact ⟨⟨plan, body, fragment, labels, planned, code, placed, rfl,
          unpadded⟩⟩

/-- The shift stands for the size of the variable that gives it, and all arrays
have this size. -/
theorem Compiler.elementShift_eq_ok {program : Program} {shift : Nat}
    (isShift : elementShift program = .ok shift) :
    shift ≤ 3 ∧
      (∃ align, alignmentVariable program = .ok align ∧
        (program.var align).size = (2 ^ shift : Nat)) ∧
      ∀ index, (program.var index).role.isArray = true →
        (program.var index).size = (2 ^ shift : Nat) := by
  unfold elementShift at isShift
  obtain ⟨align, isAlign, isShift⟩ := Outcome.bind_eq_ok.mp isShift
  obtain ⟨_, same, isShift⟩ := Outcome.bind_eq_ok.mp isShift
  have sameSize : ∀ index, (program.var index).role.isArray = true →
      (program.var index).size = (program.var align).size := by
    intro index isArray
    have checked :=
      (Outcome.forM_eq_ok.mp same) index (Program.mem_arrays isArray)
    by_contra differs
    rw [if_pos differs] at checked
    cases checked
  have isSize : shift ≤ 3 ∧ (program.var align).size = (2 ^ shift : Nat) := by
    split at isShift
    case isTrue isOne =>
      cases isShift
      exact ⟨by decide, isOne⟩
    case isFalse =>
      split at isShift
      case isTrue isTwo =>
        cases isShift
        exact ⟨by decide, isTwo⟩
      case isFalse =>
        split at isShift
        case isTrue isFour =>
          cases isShift
          exact ⟨by decide, isFour⟩
        case isFalse =>
          split at isShift
          case isTrue isEight =>
            cases isShift
            exact ⟨by decide, isEight⟩
          case isFalse => cases isShift
  exact ⟨isSize.1, ⟨align, isAlign, isSize.2⟩,
    fun index isArray => (sameSize index isArray).trans isSize.2⟩

section Lower

variable {program lowered : Program} (isLowered : program.lower = .ok lowered)

include isLowered

/-- A lowering declares nothing but temporaries. -/
theorem Program.declared_lower {index : VarIndex}
    (other : index ∉ Lowering.tempSlots) :
    (lowered.var index).declared = (program.var index).declared := by
  cases isDeclared : (program.var index).declared with
  | true =>
      rw [(Reference.extends_lower isLowered).var index isDeclared, isDeclared]
  | false =>
      obtain ⟨_, state, chain, rfl⟩ := Program.lower_eq_ok isLowered
      by_contra isNew
      exact other ((chain.sound (.start program)).others index isDeclared
        (Bool.not_eq_false _ ▸ isNew)).2

/-- The role of a slot still follows from its index. -/
theorem Program.role_lower (built : program.Built) {index : VarIndex}
    (declared : (lowered.var index).declared = true) :
    (lowered.var index).role = Var.roleOf index := by
  cases isDeclared : (program.var index).declared with
  | true =>
      rw [(Reference.extends_lower isLowered).var index isDeclared]
      exact (built.slots index).role isDeclared
  | false =>
      obtain ⟨_, state, chain, rfl⟩ := Program.lower_eq_ok isLowered
      obtain ⟨isTemp, isSlot⟩ :=
        (chain.sound (.start program)).others index isDeclared declared
      exact isTemp.trans (Lowering.mem_tempSlots isSlot).2.symm

theorem Program.slot_of_role (built : program.Built) {index : VarIndex}
    {role : Role} (isRole : (lowered.var index).role = role)
    (hasRole : role ≠ .none) :
    ∃ number : Fin 64, index = (number.val : Int) ∧
      Var.roleOf (number.val : Int) = role := by
  have declared : (lowered.var index).declared = true :=
    Program.declared_eq_true.mpr (isRole ▸ hasRole)
  obtain ⟨above, below⟩ := Program.bounds_of_declared declared
  have isNumber : (index.toNat : Int) = index := Int.toNat_of_nonneg above
  refine ⟨⟨index.toNat, (Int.toNat_lt above).2 below⟩, isNumber.symm, ?_⟩
  change Var.roleOf (index.toNat : Int) = role
  rw [isNumber, ← isRole, Program.role_lower isLowered built declared]

theorem Program.param_slot (built : program.Built) {index : VarIndex}
    (isParam : (lowered.var index).role = .param) :
    (0 : Int) ≤ index ∧ index + 8 < (64 : Int) := by
  have all : ∀ number : Fin 64, Var.roleOf (number.val : Int) = .param →
      (0 : Int) ≤ (number.val : Int) ∧ (number.val : Int) + 8 < 64 := by decide
  obtain ⟨number, rfl, isRole⟩ :=
    Program.slot_of_role isLowered built isParam (by decide)
  exact all number isRole

theorem Program.temp_slot (built : program.Built) {index : VarIndex}
    (isTemp : (lowered.var index).role = .temp) :
    index ∈ Lowering.tempSlots := by
  have all : ∀ number : Fin 64, Var.roleOf (number.val : Int) = .temp →
      (number.val : Int) ∈ Lowering.tempSlots := by decide
  obtain ⟨number, rfl, isRole⟩ :=
    Program.slot_of_role isLowered built isTemp (by decide)
  exact all number isRole

theorem Compiler.alignmentVariable_lower {align : VarIndex} :
    alignmentVariable lowered = .ok align ↔
      alignmentVariable program = .ok align := by
  unfold alignmentVariable
  rw [Program.declared_lower isLowered (by decide),
    Program.declared_lower isLowered (by decide)]
  split
  case isTrue => rfl
  case isFalse =>
    split
    case isTrue => rfl
    case isFalse => exact ⟨nofun, nofun⟩

end Lower

theorem Routines.loadOffset_within {site : EmitSite} {param : RuleParam}
    {instruction : Instruction} {offset : Int}
    (isOffset : loadOffset site param instruction = .ok offset)
    (shifted : param.loadsAtOffset = true) :
    (site.var instruction.secondSource).role = .const ∧
      minOffset ≤ (Lane.signExtend
        (site.var instruction.secondSource).value.toUInt64 4).toInt ∧
      (Lane.signExtend (site.var instruction.secondSource).value.toUInt64
        4).toInt ≤ maxOffset := by
  unfold loadOffset at isOffset
  rw [shifted] at isOffset
  simp only [Bool.not_true, Bool.false_eq_true, if_false] at isOffset
  unfold Instruction.secondSource
  split at isOffset
  case h_1 => cases isOffset
  case h_2 second isSecond =>
    rw [isSecond, Option.getD_some]
    split at isOffset
    case isTrue => cases isOffset
    case isFalse isConst =>
      split at isOffset
      case isTrue => cases isOffset
      case isFalse near =>
        rw [not_or, not_lt, not_lt] at near
        exact ⟨Classical.not_not.mp isConst, near⟩

theorem StepsCode.offset_within {site : EmitSite}
    {entries : List (Opcode × Instruction)} {code : Fragment}
    (codes : StepsCode site (entries.map Opcode.step) code)
    {entry : Opcode × Instruction} (isEntry : entry ∈ entries)
    (isOffset : entry.1.kind = .loadOffset) :
    (site.var entry.2.secondSource).role = .const ∧
      Routines.minOffset ≤
        (Lane.signExtend (site.var entry.2.secondSource).value.toUInt64
          4).toInt ∧
      (Lane.signExtend (site.var entry.2.secondSource).value.toUInt64 4).toInt ≤
        Routines.maxOffset := by
  induction entries generalizing code with
  | nil => cases isEntry
  | cons first rest induction =>
      cases codes with
      | @cons _ _ front more stepCodes moreCodes =>
          rcases List.mem_cons.mp isEntry with rfl | isLater
          · obtain ⟨⟨kind, size⟩, instruction⟩ := entry
            obtain rfl : kind = .loadOffset := isOffset
            obtain ⟨label, later, isCode⟩ := stepCodes
            obtain ⟨_, _, _, offset, _, _, _, isOffset, _⟩ :=
              Routines.load_eq_ok isCode
            exact Routines.loadOffset_within isOffset
              (show (RuleParam.flagOffsetLoad &&& RuleParam.flagOffsetLoad !=
                0) = true by decide)
          · exact induction moreCodes isLater

/-- All instructions that are not broadcast belong to the body. -/
theorem Planned.mem_body {program : Program} {options : CompileOptions}
    {plan : CompilePlan Unit} {body : List (Opcode × Instruction)}
    (planned : Planned program options plan body) (unmarked : program.Unmarked)
    {entry : Opcode × Instruction}
    (inCode : entry ∈ Reference.resolveCode plan.program)
    (notParam : entry.1.kind ≠ .loadParam) : entry ∈ body := by
  apply planned.reordered.perm.mem_iff.mp
  refine List.mem_filter.mpr ⟨inCode, ?_⟩
  cases isMarked : entry.2.invariant with
  | false => rfl
  | true =>
      exact absurd (Program.kind_of_marked planned.lowered unmarked inCode
        isMarked) notParam

namespace Compilation

variable {program : Program} {options : CompileOptions}
  {kernel : CompiledKernel} (compilation : Compilation program options kernel)

include compilation in
theorem few : options.unroll.toNat ≤ 2 := by
  have bounds := compilation.planned.unroll
  omega

theorem shift_le : compilation.plan.shift ≤ 3 :=
  (Compiler.elementShift_eq_ok compilation.planned.shift).1

theorem size_array {index : VarIndex}
    (isArray : (program.var index).role.isArray = true) :
    (program.var index).size = (2 ^ compilation.plan.shift : Nat) := by
  have declared := Program.declared_of_isArray isArray
  have isExtended := Reference.extends_lower compilation.planned.lowered
  rw [← isExtended.var index declared]
  apply (Compiler.elementShift_eq_ok compilation.planned.shift).2.2
  rw [isExtended.var index declared]
  exact isArray

theorem params (built : program.Built) (index : VarIndex)
    (isParam : (compilation.plan.program.var index).role = .param) :
    (0 : Int) ≤ index ∧ index + 8 < (64 : Int) :=
  Program.param_slot compilation.planned.lowered built isParam

variable (executor : Executor) (argument stack : UInt32)

/-- The tour of a call. -/
def tour : Tour where
  plan := compilation.plan
  body := compilation.body
  executor := executor
  start := argument
  stack := stack - UInt32.ofNat kernel.frameSize

variable {executor argument stack}

theorem not_marked (unmarked : program.Unmarked) {entry : Opcode × Instruction}
    (inCode : entry ∈ Reference.resolveCode compilation.plan.program)
    (isMarked : entry.2.invariant = true) : entry.1.kind = .loadParam :=
  Program.kind_of_marked compilation.planned.lowered unmarked inCode isMarked

theorem plain (unmarked : program.Unmarked) (entry : Opcode × Instruction)
    (isEntry : entry ∈
      (compilation.tour executor argument stack).preparations) :
    entry.1.kind = .loadParam := by
  obtain ⟨inCode, isMarked⟩ := List.mem_filter.mp isEntry
  exact compilation.not_marked unmarked inCode isMarked

section Touches

variable {row element : Nat} {touch : Touch} {index : VarIndex} {distance : Int}

/-- What the loop writes, the program writes. -/
theorem writes_of_touches
    (touches : (compilation.tour executor argument stack).Touches touch)
    (isWrite : touch.write = true) :
    touch.shift = 0 ∧
      Reference.WritesArray ⟨program, executor, row, element⟩ touch.array := by
  obtain ⟨⟨⟨kind, size⟩, instruction⟩, isEntry, isTouch⟩ := touches
  have inCode := (compilation.planned.mem_resolveCode isEntry).1
  have flat := Program.flat_of_mem compilation.planned.lowered inCode
  rw [← Reference.writesArray_lower compilation.planned.lowered]
  cases kind with
  | store =>
      cases isTouch
      exact ⟨rfl, _, inCode, rfl, (flat.store rfl).1⟩
  | load | loadOffset =>
      cases isTouch
      cases isWrite
  | loadParam | arith op => cases isTouch

theorem touches_of_writes (unmarked : program.Unmarked)
    (writes : Reference.WritesArray ⟨program, executor, row, element⟩ index) :
    (compilation.tour executor argument stack).Touches ⟨true, index, 0⟩ := by
  rw [← Reference.writesArray_lower compilation.planned.lowered] at writes
  obtain ⟨⟨⟨kind, size⟩, instruction⟩, inCode, rfl, isDest⟩ := writes
  have flat := Program.flat_of_mem compilation.planned.lowered inCode
  cases kind with
  | store =>
      exact ⟨_, compilation.planned.mem_body unmarked inCode (by simp), rfl⟩
  | load | loadOffset | loadParam | arith op =>
      cases isDest.symm.trans (flat.target (by simp))

theorem shift_eq {instruction : Instruction} {size : Nat}
    (isEntry : (⟨⟨.loadOffset, size⟩, instruction⟩ : Opcode × Instruction) ∈
      compilation.body) :
    instruction.shift compilation.plan.program.var =
      Reference.Site.distance ⟨compilation.plan.program, executor, row, element⟩
        instruction * (2 ^ compilation.plan.shift : Nat) := by
  have inCode := (compilation.planned.mem_resolveCode isEntry).1
  have flat := Program.flat_of_mem compilation.planned.lowered inCode
  have isSource :
      (compilation.plan.program.var instruction.firstSource).role = .source :=
    flat.checked.moves
  have codes := compilation.code.tailCode
  rw [compilation.planned.isBody] at codes
  have isConst :
      (compilation.plan.program.var instruction.secondSource).role = .const :=
    (codes.offset_within isEntry rfl).1
  unfold Instruction.shift Reference.Site.distance Reference.Site.scalar
  unfold Instruction.secondSource at isConst ⊢
  rw [if_pos isConst,
    (Compiler.elementShift_eq_ok compilation.planned.shift).2.2 _
    (by rw [isSource]; rfl)]

/-- What the loop reads, the program reads. -/
theorem reads_of_touches
    (touches : (compilation.tour executor argument stack).Touches touch)
    (isRead : touch.write = false) :
    ∃ distance, touch.shift = distance * (2 ^ compilation.plan.shift : Nat) ∧
      Reference.ReadsArray ⟨program, executor, row, element⟩ touch.array
        distance := by
  obtain ⟨⟨⟨kind, size⟩, instruction⟩, isEntry, isTouch⟩ := touches
  have inCode := (compilation.planned.mem_resolveCode isEntry).1
  have flat := Program.flat_of_mem compilation.planned.lowered inCode
  cases kind with
  | load =>
      cases isTouch
      refine ⟨0, (Int.zero_mul _).symm,
        (Reference.readsArray_lower compilation.planned.lowered).mp ⟨_, inCode,
          (Reference.Site.reads_element (by simp)).mpr
          ⟨List.mem_of_getElem? flat.checked.first, flat.checked.moves, rfl⟩⟩⟩
  | loadOffset =>
      cases isTouch
      exact ⟨_, compilation.shift_eq isEntry,
        (Reference.readsArray_lower compilation.planned.lowered).mp
          ⟨_, inCode, (Reference.Site.reads_offset rfl).mpr ⟨rfl, rfl⟩⟩⟩
  | store =>
      cases isTouch
      cases isRead
  | loadParam | arith op => cases isTouch

theorem touches_of_reads (unmarked : program.Unmarked)
    (reads : Reference.ReadsArray ⟨program, executor, row, element⟩ index
      distance) :
    (compilation.tour executor argument stack).Touches
      ⟨false, index, distance * (2 ^ compilation.plan.shift : Nat)⟩ := by
  rw [← Reference.readsArray_lower compilation.planned.lowered] at reads
  obtain ⟨⟨⟨kind, size⟩, instruction⟩, inCode, isRead⟩ := reads
  have flat := Program.flat_of_mem compilation.planned.lowered inCode
  obtain ⟨isIndex, ⟨isKind, isDistance⟩ | ⟨isKind, isDistance⟩⟩ :=
    Reference.reads_of_flat flat isRead
  · obtain rfl : kind = .load := isKind
    refine ⟨_, compilation.planned.mem_body unmarked inCode (by simp), ?_⟩
    rw [isDistance, isIndex, Int.zero_mul]
    rfl
  · obtain rfl : kind = .loadOffset := isKind
    have isEntry := compilation.planned.mem_body unmarked inCode (by simp)
    refine ⟨_, isEntry, ?_⟩
    rw [isDistance, isIndex, ← compilation.shift_eq isEntry]
    rfl

end Touches

end Compilation

end LaneKernel
