import LaneKernel.Proofs.Arrangements
import LaneKernel.Proofs.KernelEmission
import LaneKernel.Proofs.PlanConditions

/-!
# Expressible kernels

A program with a plan has a kernel when its offsets are constants near zero and
it moves few vectors.  Nothing else is in the way of a short program: its code
fits the fields of the instructions, the labels fit the table and the branches
reach.  Whatever is not compiled is reported.
-/

namespace LaneKernel

open Outcome Compiler

namespace Program

variable {program lowered : Program}

theorem nearOffset_congr (isExtended : program.Extends lowered)
    {opcode kind : Opcode} {instruction made : Instruction}
    (checked : program.Checked instruction opcode)
    (isOffset : opcode.kind = .loadOffset) (isKind : kind.kind = .loadOffset)
    (sameSources : made.src = instruction.src) :
    lowered.NearOffset (kind, made) ↔
      program.NearOffset (opcode, instruction) := by
  have isSecond := checked.second (by rw [Opcode.sources, isOffset])
  have sameSecond : made.secondSource = instruction.secondSource := by
    unfold Instruction.secondSource Instruction.source?
    rw [sameSources]
  have declared := declared_eq_true.mpr (checked.readable 1 _ isSecond).usable.1
  unfold NearOffset
  simp only [isOffset, isKind, sameSecond, isExtended.var _ declared]

theorem nearOffset_lower (isLowered : program.lower = .ok lowered) :
    (∀ entry ∈ Reference.resolveCode lowered, lowered.NearOffset entry) ↔
      ∀ entry ∈ Reference.resolveCode program, program.NearOffset entry := by
  have isExtended := Reference.extends_lower isLowered
  constructor
  · rintro near ⟨opcode, instruction⟩ isEntry isOffset
    obtain ⟨found, _, inCode⟩ := Reference.opcode_of_mem isEntry
    obtain ⟨_, state, chain, rfl⟩ := lower_eq_ok isLowered
    obtain ⟨other, checked, accesses⟩ := chain.accesses nofun instruction inCode
    obtain rfl : opcode = other :=
      Option.some.inj (found.symm.trans checked.found)
    obtain ⟨⟨kind, made⟩, isMade, _, isKind, _, sameSources, isSources⟩ :=
      Reference.mem_resolveCode_of_has (accesses.offsets isOffset)
    exact (nearOffset_congr isExtended checked isOffset isKind
      (sameSources.trans isSources)).mp (near _ isMade) isOffset
  · rintro near ⟨⟨kind, size⟩, made⟩ isMade isKind
    obtain ⟨instruction, isInstruction, opcode, checked, form⟩ :=
  form_of_mem isLowered isMade
    obtain rfl : kind = .loadOffset := isKind
    obtain ⟨_, isOffset, sameSources⟩ := form
    exact (nearOffset_congr isExtended checked isOffset rfl sameSources).mpr
      (near _ (Reference.mem_resolve isInstruction checked.found)) rfl

end Program

namespace Planned

variable {program : Program} {options : CompileOptions}
  {plan : CompilePlan Unit} {body : List (Opcode × Instruction)}
  (planned : Planned program options plan body)

include planned

/-- Code that was emitted has near offsets. -/
theorem near_of_emitted (unmarked : program.Unmarked) {fragment : Fragment}
    {later : Label}
    (isCode : (emitKernel plan options.unroll.toNat).outcome firstFreeLabel =
      .ok (fragment, later)) :
    ∀ entry ∈ Reference.resolveCode plan.program,
      plan.program.NearOffset entry := by
  intro entry inCode isOffset
  obtain ⟨code⟩ := kernelCode_of_emitKernel ⟨firstFreeLabel, later, isCode⟩
  have codes := code.tailCode
  rw [planned.isBody] at codes
  exact codes.offset_within
    (planned.mem_body unmarked inCode (by rw [isOffset]; decide)) isOffset

theorem labels_of_emitted (built : program.Built) (unmarked : program.Unmarked)
    {fragment : Fragment} {later : Label}
    (isCode : (emitKernel plan options.unroll.toNat).outcome firstFreeLabel =
      .ok (fragment, later)) :
    KernelLabels ((Reference.resolveCode plan.program).countP Opcode.movesArray)
      (Reference.resolveCode plan.program).length fragment := by
  obtain ⟨other, _, isOther, labels⟩ :=
    planned.kernel_code built unmarked (planned.near_of_emitted unmarked isCode)
  cases isCode.symm.trans isOther
  exact labels

end Planned

namespace Program

variable {program : Program} {options : CompileOptions}

theorem compile_eq (program : Program) (options : CompileOptions) :
    program.compile options =
      (plan (Registry.standard : Registry Unit) program options >>= fun plan =>
      ((emitKernel plan options.unroll.toNat).outcome firstFreeLabel).mapError
        CompileError.asProgramError >>=
          fun (fragment, _) => finish plan options fragment) := by
  unfold compile Compiler.compile EmitM.outcome
  cases plan (Registry.standard : Registry Unit) program options with
  | error cause => rfl
  | ok plan =>
      simp only [bind, Except.bind]
      generalize (((emitKernel plan options.unroll.toNat).run
        firstFreeLabel).run).run () = result
      obtain ⟨⟨cause⟩ | ⟨fragment, later⟩, state⟩ := result <;> rfl

/-- What a program has to be for a kernel. -/
structure Expressible (program : Program) (options : CompileOptions) :
    Prop extends
    program.Plannable options where
  offsets : ∀ entry ∈ Reference.resolveCode program, program.NearOffset entry
  moves : ∀ lowered, program.lower = .ok lowered →
    (Reference.resolveCode lowered).countP Opcode.movesArray ≤ 60

variable (built : program.Built) (unmarked : program.Unmarked)

include built unmarked

theorem compile_succeeds
    (short : ∀ lowered, program.lower = .ok lowered → lowered.code.size ≤ 500)
    (expressible : program.Expressible options) :
    ∃ kernel, program.compile options = .ok kernel := by
  obtain ⟨plan, isPlan⟩ := built.plan_succeeds expressible.toPlannable
  obtain ⟨body, planned⟩ := planned_of_plan isPlan
  obtain ⟨fragment, later, isCode, labels⟩ := planned.kernel_code built unmarked
    ((nearOffset_lower planned.lowered).mpr expressible.offsets)
  have length : (Reference.resolveCode plan.program).length ≤ 500 :=
    (List.length_filterMap_le _ _).trans (short _ planned.lowered)
  obtain ⟨result, assembled⟩ :=
    (labels.complete (expressible.moves _ planned.lowered) length).assembles
      options
  rw [compile_eq, isPlan]
  refine ⟨_, bind_eq_ok.mpr ⟨plan, rfl, bind_eq_ok.mpr
    ⟨(fragment, later), mapError_eq_ok.mpr isCode, bind_eq_ok.mpr
      ⟨result, mapError_eq_ok.mpr assembled, rfl⟩⟩⟩⟩

theorem expressible_of_compiled {kernel : CompiledKernel}
    (compiled : program.compile options = .ok kernel) :
    program.Expressible options := by
  rw [compile_eq] at compiled
  obtain ⟨plan, isPlan, compiled⟩ := bind_eq_ok.mp compiled
  obtain ⟨body, planned⟩ := planned_of_plan isPlan
  obtain ⟨⟨fragment, later⟩, isCode, compiled⟩ := bind_eq_ok.mp compiled
  rw [mapError_eq_ok] at isCode
  obtain ⟨result, assembled, _⟩ := bind_eq_ok.mp compiled
  rw [mapError_eq_ok] at assembled
  refine ⟨built.plannable_of_plan isPlan,
    (nearOffset_lower planned.lowered).mp
    (planned.near_of_emitted unmarked isCode), ?_⟩
  intro lowered isLowered
  cases isLowered.symm.trans planned.lowered
  exact (planned.labels_of_emitted built unmarked isCode).few_of_assemble
    assembled

theorem compile_reported :
    FailsOnly CompileError.Reported (program.compile options) := by
  rw [compile_eq]
  refine (plan_reported program options).bind fun plan isPlan => ?_
  obtain ⟨body, planned⟩ := planned_of_plan isPlan
  have few : options.unroll.toNat ≤ 2 := by
    have bounds := planned.unroll
    omega
  refine FailsOnly.bind (.mapError fun cause isError => ?_) fun (fragment,
    later) isCode => ?_
  · exact CompileError.asProgramError_reported
      (planned.kernel_reported built few cause isError).1
  · rw [mapError_eq_ok] at isCode
    have noCrash := (planned.labels_of_emitted built unmarked isCode).noCrash
    refine FailsOnly.bind (.mapError fun cause isError => ?_) fun _ _ =>
      failsOnly_ok _
    exact CompileError.asProgramError_reported
      (assemble_plain noCrash options cause isError)

/-- A program whose lowered code is short is compiled exactly when it is
expressible; otherwise the reason is reported as one of the program or of the
target. -/
theorem compile_accepts (options : CompileOptions)
    (short : ∀ lowered, program.lower = .ok lowered → lowered.code.size ≤ 500) :
    ((∃ kernel, program.compile options = .ok kernel) ↔
      program.Expressible options) ∧
      (¬ program.Expressible options →
        ∃ cause, program.compile options = .error cause ∧
        cause.isCrash = false ∧
        (ErrorClass.program ∈ cause.classes ∨
          ErrorClass.unimplemented ∈ cause.classes)) := by
  have isIff : (∃ kernel, program.compile options = .ok kernel) ↔
      program.Expressible options :=
    ⟨fun ⟨_, compiled⟩ => expressible_of_compiled built unmarked compiled,
      compile_succeeds built unmarked short⟩
  refine ⟨isIff, fun inexpressible => ?_⟩
  cases isOutcome : program.compile options with
  | error cause =>
      exact ⟨cause, rfl, compile_reported built unmarked cause isOutcome⟩
  | ok kernel => exact absurd (isIff.mp ⟨kernel, isOutcome⟩) inexpressible

omit built unmarked in
/-- The increment is compiled, but not with an unrolling of eight copies. -/
theorem compile_accepts_increment : increment.Expressible {} ∧
    ∃ cause, increment.compile { unroll := 3 } = .error cause ∧
      cause.isCrash = false ∧
      (ErrorClass.program ∈ cause.classes ∨
        ErrorClass.unimplemented ∈ cause.classes) := by
  have short : ∀ lowered, increment.lower = .ok lowered →
      lowered.code.size ≤ 500 := by
    have isShort :
        (increment.lower.toOption.all fun lowered => lowered.code.size ≤ 500) =
          true := by
      decide +kernel
    intro lowered isLowered
    rw [isLowered] at isShort
    exact of_decide_eq_true isShort
  obtain ⟨kernel, compiled, _⟩ := increment_kernel
  exact ⟨(compile_accepts built_increment unmarked_increment {} short).1.mp
    ⟨kernel, compiled⟩,
    (compile_accepts built_increment unmarked_increment { unroll := 3 } short).2
      fun expressible => absurd expressible.unroll.2 (by decide)⟩

end Program

end LaneKernel
