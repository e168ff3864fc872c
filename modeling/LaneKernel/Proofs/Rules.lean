import LaneKernel.Compiler.Basic
import LaneKernel.Proofs.Outcome

/-!
# The rules of the standard registry

`Opcode.rule` gives the rule of each opcode as a function of the opcode.  The
registry finds it under the opcode's name.  `Emits` says that an emission
succeeds with some code, whatever labels it takes.
-/

namespace LaneKernel

/-- The routine of an arithmetic opcode with the reading of its elements and its
flags. -/
def ArithOp.routine : ArithOp → PureRoutine × Semantics × UInt8
  | copy => (Routines.copy, .bitwise, 0)
  | add => (Routines.add, .wrapping, 0)
  | addSS => (Routines.add, .signed, 0)
  | addUS => (Routines.add, .unsigned, 0)
  | sub => (Routines.sub, .wrapping, 0)
  | subSS => (Routines.sub, .signed, 0)
  | subUS => (Routines.sub, .unsigned, 0)
  | and => (Routines.bits .and, .bitwise, 0)
  | andNot => (Routines.bits .and, .bitwise, RuleParam.flagInvertSecond)
  | or => (Routines.bits .or, .bitwise, 0)
  | xor => (Routines.bits .xor, .bitwise, 0)
  | cmpEq => (Routines.compareEqual, .bitwise, 0)
  | cmpGtS => (Routines.compareLess, .signed, RuleParam.flagSwapOperands)
  | mulLow => (Routines.mul, .wrapping, 0)
  | maxS => (Routines.max, .signed, 0)
  | maxU => (Routines.max, .unsigned, 0)
  | minS => (Routines.min, .signed, 0)
  | minU => (Routines.min, .unsigned, 0)
  | avgS => (Routines.average, .signed, 0)
  | avgU => (Routines.average, .unsigned, 0)
  | float .add => (Routines.add, .floating, 0)
  | float _ => (Routines.sub, .floating, 0)

/-- The rule of an opcode. -/
def Opcode.rule {σ : Type} (opcode : Opcode) : Rule σ :=
  match opcode.kind with
  | .load => ⟨opcode.name, Routines.load, ⟨opcode.size, .wrapping, 0⟩⟩
  | .loadOffset =>
      ⟨opcode.name, Routines.load,
        ⟨opcode.size, .wrapping, RuleParam.flagOffsetLoad⟩⟩
  | .loadParam =>
      ⟨opcode.name, .ofPure Routines.loadParam, ⟨opcode.size, .wrapping, 0⟩⟩
  | .store => ⟨opcode.name, Routines.store, ⟨opcode.size, .wrapping, 0⟩⟩
  | .arith op =>
      let (routine, kind, flags) := op.routine
      ⟨opcode.name, .ofPure routine, ⟨opcode.size, kind, flags⟩⟩

namespace Registry

variable {σ : Type}

theorem lookup?_of_mem {registry : Registry σ}
    (nodup : (registry.rules.map Rule.name).Nodup) {rule : Rule σ}
    (isRule : rule ∈ registry.rules) :
    registry.lookup? rule.name = some rule := by
  unfold lookup?
  obtain ⟨rules⟩ := registry
  induction rules with
  | nil => cases isRule
  | cons first rest induction =>
      rw [List.map_cons, List.nodup_cons] at nodup
      rw [List.find?_cons]
      cases isRule with
      | head => simp
      | tail _ isLater =>
          have different : (first.name == rule.name) = false := by
            rw [beq_eq_false_iff_ne]
            intro same
            exact nodup.1 (same ▸ List.mem_map_of_mem isLater)
          rw [different]
          exact induction nodup.2 isLater

theorem nodup_standard :
    ((standard : Registry σ).rules.map Rule.name).Nodup := by
  have isList : (standard : Registry σ).rules.map Rule.name =
      (standard : Registry Unit).rules.map Rule.name := rfl
  rw [isList]
  decide +kernel

theorem rule_mem_standard {opcode : Opcode} (isOpcode : opcode ∈ Opcode.all) :
    (opcode.rule : Rule σ) ∈ (standard : Registry σ).rules := by
  have inAll : ∀ size ∈ [1, 2, 4, 8],
      ∀ rule ∈ (allWidthRules size : List (Rule σ)),
        rule ∈ (standard : Registry σ).rules := by
    intro size isSize rule isRule
    exact List.mem_append_left _ (List.mem_append_left _
      (List.mem_flatMap.mpr ⟨size, isSize, isRule⟩))
  have inNarrow :
      ∀ size ∈ [1, 2, 4], ∀ rule ∈ (narrowRules size : List (Rule σ)),
      rule ∈ (standard : Registry σ).rules := by
    intro size isSize rule isRule
    exact List.mem_append_left _ (List.mem_append_right _
      (List.mem_flatMap.mpr ⟨size, isSize, isRule⟩))
  unfold Opcode.all at isOpcode
  rcases List.mem_append.mp isOpcode with inFirst | isFloat
  · rcases List.mem_append.mp inFirst with isAll | isNarrow
    · obtain ⟨size, isSize, isHere⟩ := List.mem_flatMap.mp isAll
      apply inAll size isSize
      simp only [Opcode.allSizeOps, List.map_cons, List.map_nil,
        List.cons_append, List.nil_append, List.mem_cons, List.not_mem_nil,
        or_false] at isHere
      rcases isHere with rfl | rfl | rfl | rfl | rfl | rfl | rfl | rfl | rfl |
        rfl | rfl | rfl |
        rfl | rfl | rfl | rfl | rfl <;>
        simp [allWidthRules, Opcode.rule, ArithOp.routine, Opcode.name,
          ArithOp.stem]
    · obtain ⟨size, isSize, isHere⟩ := List.mem_flatMap.mp isNarrow
      apply inNarrow size isSize
      simp only [Opcode.narrowOps, List.map_cons, List.map_nil, List.mem_cons,
        List.not_mem_nil, or_false] at isHere
      rcases isHere with rfl | rfl | rfl | rfl | rfl | rfl | rfl <;>
        simp [narrowRules, Opcode.rule, ArithOp.routine, Opcode.name,
          ArithOp.stem]
  · apply List.mem_append_right
    simp only [List.mem_cons, List.not_mem_nil, or_false] at isFloat
    rcases isFloat with rfl | rfl | rfl | rfl <;>
      simp [floatRules, Opcode.rule, ArithOp.routine, Opcode.name, ArithOp.stem]

end Registry

theorem Opcode.lookup?_eq_some {name : String} {opcode : Opcode}
    (found : Opcode.lookup? name = some opcode) :
    opcode ∈ Opcode.all ∧ name = opcode.name := by
  unfold lookup? at found
  obtain ⟨before, behind, isTable, _⟩ := List.lookup_eq_some_iff.mp found
  have isEntry : (name, opcode) ∈ table := by
    rw [isTable]
    simp
  obtain ⟨other, isOther, isPair⟩ := List.mem_map.mp isEntry
  cases isPair
  exact ⟨isOther, rfl⟩

theorem Compiler.matchRule_standard {σ : Type} {instruction : Instruction}
    {opcode : Opcode}
    (found : Opcode.lookup? instruction.opcode = some opcode) :
    matchRule (Registry.standard : Registry σ) instruction =
      .ok ⟨instruction, opcode.rule, opcode.isLoad, opcode.isStore⟩ := by
  obtain ⟨isOpcode, isName⟩ := Opcode.lookup?_eq_some found
  have isRule : (opcode.rule : Rule σ).name = opcode.name := by
    unfold Opcode.rule
    split <;> rfl
  have hasRule := Registry.lookup?_of_mem Registry.nodup_standard
    (Registry.rule_mem_standard isOpcode : (opcode.rule : Rule σ) ∈ _)
  rw [isRule, ← isName] at hasRule
  unfold matchRule
  rw [hasRule, found]
  rfl

theorem Compiler.matchRule_eq_ok {instruction : Instruction}
    {step : BodyStep Unit}
    (isStep : matchRule Registry.standard instruction = .ok step) :
    ∃ opcode, Opcode.lookup? instruction.opcode = some opcode ∧
      step = ⟨instruction, opcode.rule, opcode.isLoad, opcode.isStore⟩ := by
  have everyName :
      ∀ name ∈ (Registry.standard : Registry Unit).rules.map Rule.name,
      (Opcode.lookup? name).isSome = true := by
    decide +kernel
  have hasOpcode : (Opcode.lookup? instruction.opcode).isSome = true := by
    unfold matchRule at isStep
    split at isStep
    case h_1 => cases isStep
    case h_2 rule found =>
      have isRule := List.mem_of_find?_eq_some found
      have isName := beq_iff_eq.mp (List.find?_eq_some_iff_append.mp found).1
      exact isName ▸ everyName rule.name (List.mem_map_of_mem isRule)
  obtain ⟨opcode, found⟩ := Option.isSome_iff_exists.mp hasOpcode
  rw [matchRule_standard found] at isStep
  exact ⟨opcode, found, (Except.ok.inj isStep).symm⟩

namespace EmitM

/-- What an emission that starts with the given label comes to. -/
def outcome {α : Type} (action : EmitM Unit α) (label : Label) :
    Except CompileError (α × Label) :=
  ((action.run label).run.run ()).1

variable {α β : Type} (label : Label)

theorem outcome_bind (action : EmitM Unit α) (next : α → EmitM Unit β) :
    (action >>= next).outcome label =
      (action.outcome label >>=
        fun (value, later) => (next value).outcome later) := by
  unfold outcome
  simp only [StateT.run_bind, ExceptT.run_bind]
  generalize StateT.run (StateT.run action label).run () = result
  obtain ⟨result, _⟩ := result
  cases result <;> rfl

theorem outcome_bind_eq_ok {action : EmitM Unit α} {next : α → EmitM Unit β}
    {label later : Label} {result : β} :
    (action >>= next).outcome label = .ok (result, later) ↔
      ∃ value middle, action.outcome label = .ok (value, middle) ∧
        (next value).outcome middle = .ok (result, later) := by
  rw [outcome_bind, Outcome.bind_eq_ok]
  constructor
  · rintro ⟨⟨value, middle⟩, isFirst, isNext⟩
    exact ⟨value, middle, isFirst, isNext⟩
  · rintro ⟨value, middle, isFirst, isNext⟩
    exact ⟨⟨value, middle⟩, isFirst, isNext⟩

theorem outcome_adapt (change : CompileError → CompileError)
    (action : EmitM Unit α) :
    outcome (fun start => ExceptT.adapt change (action start)) label =
      (action.outcome label).mapError change := by
  unfold outcome
  change (StateT.run (ExceptT.adapt change (action label)) ()).1 =
    (StateT.run (action label) ()).1.mapError change
  generalize isResult : StateT.run (action label) () = result
  have isAdapted : StateT.run (ExceptT.adapt change (action label)) () =
      (result.1.mapError change, result.2) := by
    rw [← isResult]
    rfl
  rw [isAdapted]

theorem outcome_pure (value : α) :
    (pure value : EmitM Unit α).outcome label = .ok (value, label) := rfl

theorem outcome_pure_eq_ok {value result : α} {label later : Label} :
    (pure value : EmitM Unit α).outcome label = .ok (result, later) ↔
      result = value ∧ later = label := by
  rw [outcome_pure, Except.ok.injEq, Prod.mk.injEq, eq_comm, @eq_comm _ label]

theorem outcome_lift (result : Except CompileError α) :
    (liftM result : EmitM Unit α).outcome label = result.map fun value =>
      (value, label) := by
  cases result <;> rfl

theorem outcome_lift_eq_ok {result : Except CompileError α} {value : α}
    {label later : Label} :
    (liftM result : EmitM Unit α).outcome label = .ok (value, later) ↔
      result = .ok value ∧ later = label := by
  rw [outcome_lift]
  cases result with
  | error cause => simp [Except.map]
  | ok found => simp [Except.map, eq_comm]

theorem outcome_ofPure (routine : PureRoutine) (site : EmitSite)
    (param : RuleParam) (instruction : Instruction) :
    ((Routine.ofPure routine : Routine Unit) site param instruction).outcome
      label = (routine site param instruction).map fun code =>
        (code, label) := rfl

end EmitM

/-- An emission succeeds with some code. -/
def Emits (action : EmitM Unit Fragment) (code : Fragment) : Prop :=
  ∃ label later, action.outcome label = .ok (code, later)

/-- The code of a step at a site. -/
def BodyStep.Codes (step : BodyStep Unit) (site : EmitSite)
    (code : Fragment) : Prop :=
  Emits (step.rule.emit site step.rule.param step.instruction) code

/-- The code of steps one after the other. -/
inductive StepsCode (site : EmitSite) : List (BodyStep Unit) → Fragment →
    Prop where
  | nil : StepsCode site [] []
  | cons {step : BodyStep Unit} {steps : List (BodyStep Unit)}
      {code more : Fragment} :
      step.Codes site code → StepsCode site steps more →
        StepsCode site (step :: steps) (code ++ more)

namespace Compiler

theorem stepsCode_of_emitSteps {site : EmitSite} {steps : List (BodyStep Unit)}
    {code : Fragment} (emits : Emits (emitSteps site steps) code) :
    StepsCode site steps code := by
  induction steps generalizing code with
  | nil =>
      obtain ⟨label, later, isOutcome⟩ := emits
      cases isOutcome
      exact .nil
  | cons step steps induction =>
      obtain ⟨label, later, isOutcome⟩ := emits
      unfold emitSteps at isOutcome
      obtain ⟨first, middle, isFirst, isOutcome⟩ :=
        EmitM.outcome_bind_eq_ok.mp isOutcome
      obtain ⟨more, last, isMore, isCode⟩ :=
        EmitM.outcome_bind_eq_ok.mp isOutcome
      rw [EmitM.outcome_adapt, Outcome.mapError_eq_ok] at isFirst
      cases isCode
      exact .cons ⟨label, middle, isFirst⟩ (induction ⟨middle, _, isMore⟩)

/-- The code of unrolled copies of the body from number `copy` on. -/
inductive CopiesCode (plan : CompilePlan Unit) : Nat → Nat → Fragment →
    Prop where
  | none {copy : Nat} : CopiesCode plan 0 copy []
  | more {count copy : Nat} {code rest : Fragment} :
      StepsCode (site plan false (blockBytes * copy)) plan.body code →
      CopiesCode plan count (copy + 1) rest →
        CopiesCode plan (count + 1) copy (code ++ rest)

theorem copiesCode_of_emitCopies {plan : CompilePlan Unit} {count copy : Nat}
    {code : Fragment} (emits : Emits (emitCopies plan count copy) code) :
    CopiesCode plan count copy code := by
  induction count generalizing copy code with
  | zero =>
      obtain ⟨label, later, isOutcome⟩ := emits
      cases isOutcome
      exact .none
  | succ count induction =>
      obtain ⟨label, later, isOutcome⟩ := emits
      unfold emitCopies at isOutcome
      obtain ⟨first, middle, isFirst, isOutcome⟩ :=
        EmitM.outcome_bind_eq_ok.mp isOutcome
      obtain ⟨more, last, isMore, isCode⟩ :=
        EmitM.outcome_bind_eq_ok.mp isOutcome
      cases isCode
      exact .more (stepsCode_of_emitSteps ⟨label, middle, isFirst⟩)
        (induction ⟨middle, _, isMore⟩)

/-- The parts that the code of a kernel is put together from. -/
structure KernelCode (plan : CompilePlan Unit) (unroll : Nat)
    (fragment : Fragment) where
  invariants : Fragment
  tail : Fragment
  main : Fragment
  rest : Fragment
  invariantsCode : StepsCode (site plan false 0) plan.invariants invariants
  tailCode : StepsCode (site plan true 0) plan.body tail
  mainCode : CopiesCode plan (copies unroll) 0 main
  restCode : 0 < unroll → StepsCode (site plan false 0) plan.body rest
  isFragment : fragment = plan.frame.prologue ++ loadPointers plan ++ invariants
    ++ loop plan unroll tail main rest ++ plan.frame.epilogue

theorem kernelCode_of_emitKernel {plan : CompilePlan Unit} {unroll : Nat}
    {fragment : Fragment} (emits : Emits (emitKernel plan unroll) fragment) :
    Nonempty (KernelCode plan unroll fragment) := by
  obtain ⟨label, later, isOutcome⟩ := emits
  unfold emitKernel at isOutcome
  obtain ⟨invariants, first, isInvariants, isOutcome⟩ :=
    EmitM.outcome_bind_eq_ok.mp isOutcome
  obtain ⟨tail, second, isTail, isOutcome⟩ :=
    EmitM.outcome_bind_eq_ok.mp isOutcome
  obtain ⟨main, third, isMain, isOutcome⟩ :=
    EmitM.outcome_bind_eq_ok.mp isOutcome
  obtain ⟨rest, isRest, isFragment⟩ : ∃ rest,
      (0 < unroll → StepsCode (site plan false 0) plan.body rest) ∧
      fragment = plan.frame.prologue ++ loadPointers plan ++ invariants
        ++ loop plan unroll tail main rest ++ plan.frame.epilogue := by
    by_cases unrolled : 0 < unroll
    · simp only [gt_iff_lt, if_pos unrolled] at isOutcome
      obtain ⟨rest, fourth, isRest, isFragment⟩ :=
        EmitM.outcome_bind_eq_ok.mp isOutcome
      cases isFragment
      exact ⟨rest, fun _ => stepsCode_of_emitSteps ⟨third, _, isRest⟩, rfl⟩
    · simp only [gt_iff_lt, if_neg unrolled] at isOutcome
      cases isOutcome
      exact ⟨[], fun isPositive => absurd isPositive unrolled, rfl⟩
  exact ⟨{
    invariants := invariants
    tail := tail
    main := main
    rest := rest
    invariantsCode := stepsCode_of_emitSteps ⟨label, first, isInvariants⟩
    tailCode := stepsCode_of_emitSteps ⟨first, second, isTail⟩
    mainCode := copiesCode_of_emitCopies ⟨second, third, isMain⟩
    restCode := isRest
    isFragment := isFragment }⟩

end Compiler

end LaneKernel
