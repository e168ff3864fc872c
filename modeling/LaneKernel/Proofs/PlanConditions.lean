import LaneKernel.Proofs.StepEmission
import LaneKernel.Proofs.TemporaryDemand

/-!
# When a kernel is planned

A program has a plan when it is valid, keeps no accumulator, has an array to
align on, gives all its arrays one size, and needs no more temporaries than
there are slots.  Registers and the frame are no condition: there are more
registers than variables.  Whatever else is refused is reported.
-/

namespace LaneKernel

open Outcome Compiler

namespace CompileError

variable {cause : CompileError}

theorem asProgramError_reported (isPlain : cause.isCrash = false) :
    cause.asProgramError.Reported := by
  unfold asProgramError
  split
  case isTrue isClass =>
    rw [Bool.or_eq_true, List.contains_iff_mem, List.contains_iff_mem]
      at isClass
    exact ⟨isPlain, isClass⟩
  case isFalse => exact ⟨isPlain, .inl List.mem_cons_self⟩

theorem invalid_reported (cause : ProgramError) :
    (invalid cause).asProgramError.Reported :=
  asProgramError_reported rfl

end CompileError

theorem Contract.assign_succeeds (what : String) {order : List Reg}
    {indices : List VarIndex} (room : indices.length ≤ order.length) :
    ∃ pairs, assign what order indices = .ok pairs := by
  induction indices generalizing order with
  | nil => cases order <;> exact ⟨[], rfl⟩
  | cons index rest induction =>
      cases order with
      | nil => cases room
      | cons register order =>
          obtain ⟨pairs, isPairs⟩ := induction (Nat.le_of_succ_le_succ room)
          refine ⟨(index, register) :: pairs, ?_⟩
          unfold assign
          rw [isPairs]
          rfl

theorem RegisterFile.alloc_reported (file : RegisterFile) (order : List Reg)
    (what : String) :
    FailsOnly CompileError.Reported (file.alloc order what) := by
  unfold alloc
  cases order.find? file.isFree with
  | none => exact failsOnly_error ⟨rfl, .inl List.mem_cons_self⟩
  | some register => exact failsOnly_ok _

theorem RegisterFile.allocEach_reported (file : RegisterFile) (order : List Reg)
    (what : String) (indices : List VarIndex) :
    FailsOnly CompileError.Reported (file.allocEach order what indices) := by
  induction indices generalizing file with
  | nil => exact failsOnly_ok _
  | cons index rest induction =>
      exact (file.alloc_reported order what).bind fun taken _ =>
        (induction taken.2).bind fun _ _ => failsOnly_ok _

theorem Frame.layout_succeeds {general vector : List Reg}
    (fewGeneral : general.length ≤ 64) (fewVector : vector.length ≤ 64) :
    ∃ frame, layout general vector = .ok frame := by
  unfold layout alignUp saves maxSize
  exact ⟨_, if_neg (by omega)⟩

theorem Frame.layout_reported (general vector : List Reg) :
    FailsOnly CompileError.Reported (layout general vector) :=
  failsOnly_ite_error (fun _ => ⟨rfl, .inl List.mem_cons_self⟩) fun _ =>
    failsOnly_ok _

theorem Contract.length_ascending_le (registers : List Reg) :
    (ascending registers).length ≤ 64 :=
  List.length_filter_le _ _

namespace Compiler

theorem matchRules_succeeds {code : List Instruction}
    (known : ∀ instruction ∈ code, ∃ opcode, Opcode.lookup? instruction.opcode =
      some opcode) :
    ∃ steps, code.mapM (matchRule (Registry.standard : Registry Unit)) =
      .ok steps := by
  induction code with
  | nil => exact ⟨[], rfl⟩
  | cons instruction rest induction =>
      obtain ⟨⟨opcode, found⟩, knownRest⟩ := List.forall_mem_cons.mp known
      obtain ⟨steps, isRest⟩ := induction knownRest
      rw [List.mapM_cons, matchRule_standard found, isRest]
      exact ⟨_, rfl⟩

theorem matchRules_reported (rules : Registry Unit) (code : List Instruction) :
    FailsOnly CompileError.Reported (code.mapM (matchRule rules)) := by
  induction code with
  | nil => exact failsOnly_ok _
  | cons instruction rest induction =>
      rw [List.mapM_cons]
      refine FailsOnly.bind ?_ fun _ _ => induction.bind fun _ _ =>
        failsOnly_ok _
      unfold matchRule
      split
      · exact failsOnly_error ⟨rfl, .inr List.mem_cons_self⟩
      · exact failsOnly_ok _

theorem alignmentVariable_succeeds {program : Program}
    (aligned : (program.var Var.firstDest).declared = true ∨
      (program.var Var.firstSource).declared = true) :
    ∃ align, alignmentVariable program = .ok align ∧
      (program.var align).declared = true ∧
      (Var.roleOf align).isArray = true := by
  unfold alignmentVariable
  by_cases isDest : (program.var Var.firstDest).declared = true
  · exact ⟨_, if_pos isDest, isDest, by decide⟩
  · have isSource := aligned.resolve_left isDest
    exact ⟨_, by rw [if_neg isDest, if_pos isSource], isSource, by decide⟩

theorem aligned_of_alignmentVariable {program : Program} {align : VarIndex}
    (isAlign : alignmentVariable program = .ok align) :
    (program.var Var.firstDest).declared = true ∨
      (program.var Var.firstSource).declared = true := by
  unfold alignmentVariable at isAlign
  split at isAlign
  case isTrue isDest => exact .inl isDest
  case isFalse =>
    split at isAlign
    case isTrue isSource => exact .inr isSource
    case isFalse => cases isAlign

theorem elementShift_of_size {program : Program} {align : VarIndex}
    {shift : Nat} (few : shift ≤ 3)
    (isAlign : alignmentVariable program = .ok align)
    (isSize : (program.var align).size = (2 ^ shift : Nat))
    (same : ∀ index, (program.var index).role.isArray = true →
      (program.var index).size = (2 ^ shift : Nat)) :
    elementShift program = .ok shift := by
  unfold elementShift
  refine bind_eq_ok.mpr ⟨align, isAlign,
    bind_eq_ok.mpr ⟨(), forM_eq_ok.mpr fun index isIndex => ?_, ?_⟩⟩
  · rw [if_neg (not_not.mpr
      ((same index (List.mem_filter.mp isIndex).2).trans isSize.symm))]
  · have isShift : shift = 0 ∨ shift = 1 ∨ shift = 2 ∨ shift = 3 := by omega
    rw [isSize]
    rcases isShift with rfl | rfl | rfl | rfl <;> rfl

theorem elementShift_reported (program : Program) :
    FailsOnly CompileError.Reported (elementShift program) := by
  have isProgram : ∀ {cause : CompileError}, cause.isCrash = false →
      cause.classes = [.program] →
      cause.Reported :=
    fun isPlain isClass => ⟨isPlain, .inl (isClass ▸ List.mem_cons_self)⟩
  unfold elementShift
  refine FailsOnly.bind ?_ fun align _ =>
    FailsOnly.bind (failsOnly_forM fun index _ => ?_)
    fun _ _ => ?_
  · unfold alignmentVariable
    split
    · exact failsOnly_ok _
    · split
      · exact failsOnly_ok _
      · exact failsOnly_error (isProgram rfl rfl)
  · exact failsOnly_ite_error (fun _ => isProgram rfl rfl) fun _ =>
      failsOnly_ok _
  · repeat' split
    all_goals first | exact failsOnly_ok _ |
    exact failsOnly_error (isProgram rfl rfl)

end Compiler

theorem Lane.size_eq_pow {size : Int} (valid : validSize size = true) :
    ∃ shift ≤ 3, size = (2 ^ shift : Nat) := by
  unfold validSize at valid
  simp only [Bool.or_eq_true, beq_iff_eq] at valid
  rcases valid with ((rfl | rfl) | rfl) | rfl
  · exact ⟨0, by decide, rfl⟩
  · exact ⟨1, by decide, rfl⟩
  · exact ⟨2, by decide, rfl⟩
  · exact ⟨3, by decide, rfl⟩

namespace Program

variable {program lowered : Program} (built : program.Built)

include built

theorem Built.accumulators_eq_nil :
    accumulators program = [] ↔
      ∀ index, (program.var index).role ≠ .accumulator := by
  have inRange :
      ∀ number : Fin 64, Var.roleOf (number.val : Int) = .accumulator ↔
      (number.val : Int) ∈ (List.range Var.accumulatorCount).map fun number =>
        Int.ofNat (Var.firstAccumulator + number) := by decide
  have noneDeclared : accumulators program = [] ↔
      ∀ index ∈ (List.range Var.accumulatorCount).map fun number =>
        Int.ofNat (Var.firstAccumulator + number),
          ¬ (program.var index).declared = true :=
    List.filter_eq_nil_iff
  rw [noneDeclared]
  constructor
  · intro unused index isAccumulator
    have declared :=
      declared_eq_true.mpr (show (program.var index).role ≠ .none by
      rw [isAccumulator]
      decide)
    obtain ⟨above, below⟩ := bounds_of_declared declared
    have isNumber : (index.toNat : Int) = index := Int.toNat_of_nonneg above
    refine unused index ?_ declared
    have isSlot := (inRange ⟨index.toNat, (Int.toNat_lt above).2 below⟩).mp
    change Var.roleOf (index.toNat : Int) = .accumulator →
      (index.toNat : Int) ∈ _ at isSlot
    rw [isNumber] at isSlot
    exact isSlot (((built.slots index).role declared).symm.trans isAccumulator)
  · intro noRole index isSlot declared
    have isRole := (built.slots index).role declared
    have all : ∀ index ∈ (List.range Var.accumulatorCount).map fun number =>
        Int.ofNat (Var.firstAccumulator + number),
          Var.roleOf index = .accumulator := by decide
    exact noRole index (isRole.trans (all index isSlot))

theorem Built.length_arrays_le : program.arrays.length ≤ 12 := by
  have slots : Var.indices.countP (fun index => (Var.roleOf index).isArray) =
      12 := by decide
  unfold arrays
  rw [← List.countP_eq_length_filter, ← slots]
  refine List.countP_mono_left fun index _ isArray => ?_
  rwa [(built.slots index).role (declared_of_isArray isArray)] at isArray

section Sizes

variable (isLowered : program.lower = .ok lowered)

include isLowered

/-- The size of the elements is found when all arrays have one size and there is
one to align on. -/
theorem Built.elementShift_lower : (∃ shift, elementShift lowered = .ok shift) ↔
    ((program.var Var.firstDest).declared = true ∨
      (program.var Var.firstSource).declared = true) ∧
      ∃ size, ∀ index, (program.var index).role.isArray = true →
        (program.var index).size = size := by
  have isExtended := Reference.extends_lower isLowered
  have sameArray : ∀ index, (program.var index).role.isArray = true →
      lowered.var index = program.var index :=
    fun index isArray => isExtended.var index (declared_of_isArray isArray)
  constructor
  · rintro ⟨shift, isShift⟩
    obtain ⟨_, ⟨align, isAlign, _⟩, same⟩ := elementShift_eq_ok isShift
    refine ⟨aligned_of_alignmentVariable
      ((alignmentVariable_lower isLowered).mp isAlign), (2 ^ shift : Nat),
      fun index isArray => ?_⟩
    rw [← sameArray index isArray]
    exact same index ((Reference.isArray_lower isLowered index).trans isArray)
  · rintro ⟨aligned, size, same⟩
    obtain ⟨align, isAlign, declared, isRole⟩ :=
  alignmentVariable_succeeds aligned
    have isArray : (program.var align).role.isArray = true :=
      ((built.slots align).role declared) ▸ isRole
    obtain ⟨shift, few, isSize⟩ :=
      Lane.size_eq_pow ((built.slots align).size declared)
    refine ⟨shift,
      elementShift_of_size few
      ((alignmentVariable_lower isLowered).mpr isAlign) ?_ fun index isArray' =>
        ?_⟩
    · rw [sameArray align isArray, isSize]
    · rw [Reference.isArray_lower isLowered] at isArray'
      rw [sameArray index isArray', same index isArray',
        ← same align isArray, isSize]

end Sizes

/-- What a program has to be for a plan. -/
structure Plannable (program : Program) (options : CompileOptions) : Prop where
  unroll : 0 ≤ options.unroll ∧ options.unroll ≤ 2
  valid : program.validate = .ok ()
  noAccumulator : ∀ index, (program.var index).role ≠ .accumulator
  aligned : (program.var Var.firstDest).declared = true ∨
    (program.var Var.firstSource).declared = true
  sameSize : ∃ size, ∀ index, (program.var index).role.isArray = true →
    (program.var index).size = size
  temporaries : program.temporaries ≤ 16

variable {options : CompileOptions}

/-- There are more registers than variables, so handing them out does not
fail. -/
theorem Built.plan_of_prepared {σ : Type} {rules : Registry σ} {shift : Nat}
    {steps : List (BodyStep σ)}
    (prepared : Prepared rules program options lowered shift steps) :
    ∃ made, PlanParts rules program options made steps ∧
      made.program = lowered := by
  have fewArrays :
      (walkedArrays lowered steps).length ≤ Contract.pointerOrder.length := by
    refine (List.length_filter_le _ _).trans ?_
    rw [Reference.arrays_lower prepared.lowers]
    exact built.length_arrays_le.trans (by decide)
  obtain ⟨pointers, isPointers⟩ := Contract.assign_succeeds "pointer" fewArrays
  have fewTemps :
      (declaredTemps lowered).length ≤ Contract.vectorOrder.length :=
    (List.length_filter_le _ _).trans (by decide)
  obtain ⟨vectors, isVectors⟩ := Contract.assign_succeeds "vector" fewTemps
  obtain ⟨frame, isFrame⟩ := Frame.layout_succeeds
    (Contract.length_ascending_le
      (((pointers ++ vectors).map Prod.snd |>.filter
        Contract.calleeSaved).filter Reg.isGeneral))
    (Contract.length_ascending_le
      (((pointers ++ vectors).map Prod.snd |>.filter
        Contract.calleeSaved).filter Reg.isVector))
  let registers := Contract.ascending ((pointers ++ vectors).map Prod.snd)
  exact ⟨⟨lowered, shift, _, _, _, pointers, vectors, registers, frame⟩, {
    prepared := prepared
    invariants := rfl
    body := rfl
    walked := rfl
    pointers := isPointers
    vectors := isVectors
    registers := rfl
    frame := isFrame }, rfl⟩

theorem Built.plan_succeeds (plannable : program.Plannable options) :
    ∃ made, plan (Registry.standard : Registry Unit) program options =
      .ok made := by
  obtain ⟨lowered, isLowered⟩ :=
    (lower_succeeds_iff plannable.valid).mpr plannable.temporaries
  obtain ⟨shift, isShift⟩ :=
    (built.elementShift_lower isLowered).mpr ⟨plannable.aligned,
      plannable.sameSize⟩
  have inOrder := (validate_eq_ok.mp (validate_lower isLowered)).2
  obtain ⟨steps, isSteps⟩ :=
    matchRules_succeeds fun instruction isInstruction =>
    (inOrder.checked isInstruction).imp fun _ checked => checked.found
  have inRange : ¬ (options.unroll < 0 ∨ options.unroll > maxUnroll) := by
    have bounds := plannable.unroll
    unfold maxUnroll
    omega
  obtain ⟨made, parts, -⟩ := built.plan_of_prepared {
    unroll := inRange
    valid := plannable.valid
    accumulators := built.accumulators_eq_nil.mpr plannable.noAccumulator
    lowers := isLowered
    shift := isShift
    matched := isSteps }
  exact ⟨made, plan_eq_ok.mpr ⟨steps, parts⟩⟩

omit built in
theorem plan_reported (program : Program) (options : CompileOptions) :
    FailsOnly CompileError.Reported
      (plan (Registry.standard : Registry Unit) program options) := by
  unfold plan
  refine failsOnly_refuse (fun _ => ⟨rfl, .inl List.mem_cons_self⟩) fun _ => ?_
  refine FailsOnly.bind
    (.mapError fun cause _ => CompileError.invalid_reported cause) fun _ _ => ?_
  cases accumulators program with
  | cons index rest => exact failsOnly_error ⟨rfl, .inr List.mem_cons_self⟩
  | nil =>
      refine FailsOnly.bind
        (.mapError fun cause _ => CompileError.invalid_reported cause)
        fun lowered _ => ?_
      refine FailsOnly.bind (elementShift_reported lowered) fun _ _ => ?_
      refine FailsOnly.bind (matchRules_reported _ _) fun _ _ => ?_
      refine FailsOnly.bind (RegisterFile.allocEach_reported _ _ _ _) fun _ _ =>
        ?_
      refine FailsOnly.bind (RegisterFile.allocEach_reported _ _ _ _) fun _ _ =>
        ?_
      exact FailsOnly.bind (Frame.layout_reported _ _) fun _ _ => failsOnly_ok _

/-- A program with a plan is what it has to be for one. -/
theorem Built.plannable_of_plan {made : CompilePlan Unit}
    (isPlan : plan (Registry.standard : Registry Unit) program options =
      .ok made) :
    program.Plannable options := by
  obtain ⟨body, planned⟩ := planned_of_plan isPlan
  obtain ⟨_, parts⟩ := plan_eq_ok.mp isPlan
  obtain ⟨aligned, sameSize⟩ :=
    (built.elementShift_lower parts.prepared.lowers).mp
    ⟨_, parts.prepared.shift⟩
  exact {
    unroll := planned.unroll
    valid := parts.prepared.valid
    noAccumulator := built.accumulators_eq_nil.mp parts.prepared.accumulators
    aligned := aligned
    sameSize := sameSize
    temporaries := (lower_succeeds_iff parts.prepared.valid).mp ⟨_,
      parts.prepared.lowers⟩ }

end Program

end LaneKernel
