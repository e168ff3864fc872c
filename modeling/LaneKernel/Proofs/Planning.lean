import LaneKernel.Proofs.RegisterFiles
import LaneKernel.Proofs.Steps
import LaneKernel.Reference
import Mathlib.Data.List.Nodup

/-!
# Plans

What a plan promises once it is made: which registers are handed out, what the
frame keeps, and which instructions the body holds.  The body is the code of the
lowered program without its invariant broadcasts, reordered by exchanges of
neighbours that do not depend on each other.
-/

namespace LaneKernel

open Contract

namespace Contract

/-- The numbers of the registers that walk arrays. -/
def pointerNumbers : List RegNum := pointerOrder.map Reg.index

/-- The numbers of the registers that hold temporaries. -/
def vectorNumbers : List RegNum := vectorOrder.map Reg.index

end Contract

theorem nodup_of_assigned {order : List Reg} {pairs : List (VarIndex × Reg)}
    (distinct : (order.map Reg.index).Nodup)
    (isPrefix : pairs.map Prod.snd <+: order) :
    (pairs.map fun entry => entry.2.index).Nodup := by
  have inOrder : (pairs.map Prod.snd).map Reg.index <+: order.map Reg.index :=
    isPrefix.map Reg.index
  rw [List.map_map] at inOrder
  exact distinct.sublist inOrder.sublist

theorem mem_of_lookup {α β : Type} [BEq α] [LawfulBEq α] {pairs : List (α × β)}
    {key : α} {value : β} (found : pairs.lookup key = some value) :
    (key, value) ∈ pairs := by
  obtain ⟨before, behind, isPairs, _⟩ := List.lookup_eq_some_iff.mp found
  rw [isPairs]
  simp

/-- Whether a load may move above the instruction in front of it. -/
def Opcode.mayPass (previous load : Opcode × Instruction) : Bool :=
  BodyStep.canSwap (Opcode.step previous) (Opcode.step load)

/-- Lists that differ by exchanges of a load with an instruction in front of
it. -/
inductive Reordered : List (Opcode × Instruction) →
    List (Opcode × Instruction) → Prop where
  | refl (entries : List (Opcode × Instruction)) : Reordered entries entries
  | swap {front back : List (Opcode × Instruction)}
      {previous load : Opcode × Instruction} :
      load.1.isLoad = true → Opcode.mayPass previous load = true →
      Reordered (front ++ previous :: load :: back)
        (front ++ load :: previous :: back)
  | trans {first second third : List (Opcode × Instruction)} :
      Reordered first second → Reordered second third → Reordered first third

namespace Reordered

variable {first second : List (Opcode × Instruction)}

theorem append (reordered : Reordered first second)
    (back : List (Opcode × Instruction)) :
    Reordered (first ++ back) (second ++ back) := by
  induction reordered with
  | refl entries => exact .refl _
  | swap isLoad may =>
      rw [List.append_assoc, List.append_assoc]
      exact .swap isLoad may
  | trans _ _ front behind => exact front.trans behind

theorem perm (reordered : Reordered first second) : first.Perm second := by
  induction reordered with
  | refl entries => exact .refl _
  | swap _ _ => exact List.Perm.append_left _ (List.Perm.swap _ _ _)
  | trans _ _ front behind => exact front.trans behind

end Reordered

theorem BodyStep.sink_map {load : Opcode × Instruction}
    (isLoad : load.1.isLoad = true) (placed : List (Opcode × Instruction)) :
    ∃ result : List (Opcode × Instruction),
      BodyStep.sink (Opcode.step load) (placed.map Opcode.step) =
        result.map Opcode.step ∧
      Reordered (placed.reverse ++ [load]) result.reverse := by
  induction placed with
  | nil => exact ⟨[load], rfl, .refl _⟩
  | cons previous rest induction =>
      rw [List.map_cons, BodyStep.sink]
      split
      case isTrue may =>
        obtain ⟨result, isResult, reordered⟩ := induction
        refine ⟨previous :: result, by rw [isResult]; rfl, ?_⟩
        have swapped : Reordered (rest.reverse ++ previous :: load :: [])
            (rest.reverse ++ load :: previous :: []) := .swap isLoad may
        have sunk := reordered.append [previous]
        rw [List.append_assoc] at sunk
        simpa using swapped.trans sunk
      case isFalse =>
        exact ⟨load :: previous :: rest, rfl, by simpa using Reordered.refl _⟩

theorem BodyStep.hoistLoads_map (entries : List (Opcode × Instruction)) :
    ∃ result : List (Opcode × Instruction),
      BodyStep.hoistLoads (entries.map Opcode.step) = result.map Opcode.step ∧
      Reordered entries result := by
  have folds : ∀ (rest placed : List (Opcode × Instruction)),
      ∃ result : List (Opcode × Instruction),
        (rest.map Opcode.step).foldl BodyStep.place (placed.map Opcode.step) =
          result.map Opcode.step ∧
            Reordered (placed.reverse ++ rest) result.reverse := by
    intro rest
    induction rest with
    | nil => exact fun placed => ⟨placed, rfl, by simpa using Reordered.refl _⟩
    | cons entry rest induction =>
        intro placed
        rw [List.map_cons, List.foldl_cons]
        have isPlaced : ∃ middle : List (Opcode × Instruction),
            BodyStep.place (placed.map Opcode.step) (Opcode.step entry) =
              middle.map Opcode.step ∧
                Reordered (placed.reverse ++ [entry]) middle.reverse := by
          unfold BodyStep.place
          split
          case isTrue isLoad => exact BodyStep.sink_map isLoad placed
          case isFalse =>
            exact ⟨entry :: placed, rfl, by simpa using Reordered.refl _⟩
        obtain ⟨middle, isMiddle, toMiddle⟩ := isPlaced
        obtain ⟨result, isResult, toResult⟩ := induction middle
        refine ⟨result, by rw [isMiddle, isResult], ?_⟩
        have front := toMiddle.append rest
        rw [List.append_assoc] at front
        exact front.trans toResult
  obtain ⟨result, isResult, reordered⟩ := folds entries []
  refine ⟨result.reverse, ?_, by simpa using reordered⟩
  unfold BodyStep.hoistLoads
  rw [show ([] : List (BodyStep Unit)) = [].map Opcode.step from rfl, isResult,
    List.map_reverse]

section Parts

variable {σ : Type} {rules : Registry σ} {program : Program}
  {options : CompileOptions} {made : CompilePlan σ}

/-- The registers of a plan that the caller expects back. -/
def CompilePlan.saved (plan : CompilePlan σ) : List Reg :=
  (plan.pointers ++ plan.vectors).map Prod.snd |>.filter Contract.calleeSaved

/-- What is known when registers are handed out: every check in front of that
has passed, and the lowered code is made of the steps. -/
structure Compiler.Prepared (rules : Registry σ) (program : Program)
    (options : CompileOptions) (lowered : Program) (shift : Nat)
    (steps : List (BodyStep σ)) : Prop where
  unroll : ¬ (options.unroll < 0 ∨ options.unroll > Compiler.maxUnroll)
  valid : program.validate = .ok ()
  accumulators : Compiler.accumulators program = []
  lowers : program.lower = .ok lowered
  shift : Compiler.elementShift lowered = .ok shift
  matched : lowered.code.toList.mapM (Compiler.matchRule rules) = .ok steps

/-- How a plan is made of the steps of the lowered code. -/
structure PlanParts (rules : Registry σ) (program : Program)
    (options : CompileOptions) (plan : CompilePlan σ)
    (steps : List (BodyStep σ)) : Prop where
  prepared : Compiler.Prepared rules program options plan.program
    plan.shift steps
  invariants : plan.invariants = steps.filter fun step =>
    step.instruction.invariant
  body : plan.body =
    BodyStep.hoistLoads (steps.filter fun step => !step.instruction.invariant)
  walked : plan.walked = Compiler.walkedArrays plan.program steps
  pointers : Contract.assign "pointer" Contract.pointerOrder plan.walked =
    .ok plan.pointers
  vectors : Contract.assign "vector" Contract.vectorOrder
    (Compiler.declaredTemps plan.program) = .ok plan.vectors
  registers : plan.registers =
    Contract.ascending ((plan.pointers ++ plan.vectors).map Prod.snd)
  frame : Frame.layout (Contract.ascending (plan.saved.filter Reg.isGeneral))
    (Contract.ascending (plan.saved.filter Reg.isVector)) = .ok plan.frame

theorem Compiler.plan_eq_ok : plan rules program options = .ok made ↔
    ∃ steps, PlanParts rules program options made steps := by
  unfold plan
  simp only [Outcome.refuse_eq_ok]
  constructor
  · rintro ⟨unroll, isPlan⟩
    obtain ⟨valid, isPlan⟩ := Outcome.check_eq_ok.mp isPlan
    rw [Outcome.mapError_eq_ok] at valid
    cases isAccumulators : accumulators program with
    | cons index rest =>
        rw [isAccumulators] at isPlan
        cases isPlan
    | nil =>
        rw [isAccumulators] at isPlan
        obtain ⟨lowered, isLowered, isPlan⟩ := Outcome.bind_eq_ok.mp isPlan
        rw [Outcome.mapError_eq_ok] at isLowered
        obtain ⟨shift, isShift, isPlan⟩ := Outcome.bind_eq_ok.mp isPlan
        obtain ⟨steps, isSteps, isPlan⟩ := Outcome.bind_eq_ok.mp isPlan
        obtain ⟨held, isPointers, isPlan⟩ := Outcome.bind_eq_ok.mp isPlan
        rw [RegisterFile.allocEach_fresh, Outcome.map_eq_ok] at isPointers
        obtain ⟨pointers, isPointers, rfl⟩ := isPointers
        obtain ⟨held, isVectors, isPlan⟩ := Outcome.bind_eq_ok.mp isPlan
        rw [RegisterFile.allocEach_vectors (Contract.assign_eq_ok isPointers).2,
          Outcome.map_eq_ok] at isVectors
        obtain ⟨vectors, isVectors, rfl⟩ := isVectors
        obtain ⟨frame, isFrame, isPlan⟩ := Outcome.bind_eq_ok.mp isPlan
        rw [RegisterFile.saved_general, RegisterFile.saved_vectors] at isFrame
        cases isPlan
        exact ⟨steps,
          ⟨unroll, valid, isAccumulators, isLowered, isShift, isSteps⟩, rfl,
          rfl, rfl, isPointers, isVectors, rfl, isFrame⟩
  · rintro ⟨steps, parts⟩
    obtain ⟨lowered, shift, invariants, body, walked, pointers, vectors,
      registers, frame⟩ := made
    obtain ⟨⟨unroll, valid, isAccumulators, isLowered, isShift, isSteps⟩, rfl,
      rfl, isWalked, isPointers, isVectors, isRegisters, isFrame⟩ := parts
    obtain rfl : walked = walkedArrays lowered steps := isWalked
    obtain rfl : registers = Contract.ascending ((pointers ++ vectors).map
      Prod.snd) := isRegisters
    have isFile := RegisterFile.allocEach_vectors
      (Contract.assign_eq_ok isPointers).2 "vector" (declaredTemps lowered)
    refine ⟨unroll,
      Outcome.check_eq_ok.mpr ⟨Outcome.mapError_eq_ok.mpr valid, ?_⟩⟩
    rw [isAccumulators]
    refine Outcome.bind_eq_ok.mpr ⟨_, Outcome.mapError_eq_ok.mpr isLowered,
      Outcome.bind_eq_ok.mpr ⟨_, isShift, Outcome.bind_eq_ok.mpr ⟨_, isSteps,
        Outcome.bind_eq_ok.mpr ⟨_, (RegisterFile.allocEach_fresh _ _).trans
          (Outcome.map_eq_ok.mpr ⟨_, isPointers, rfl⟩), ?_⟩⟩⟩⟩
    refine Outcome.bind_eq_ok.mpr ⟨_, isFile.trans
      (Outcome.map_eq_ok.mpr ⟨_, isVectors, rfl⟩),
      Outcome.bind_eq_ok.mpr ⟨_, ?_, rfl⟩⟩
    rw [RegisterFile.saved_general, RegisterFile.saved_vectors]
    exact isFrame

end Parts

/-- A frame that is laid out has room for the registers behind its fixed
places. -/
theorem Frame.layout_eq_ok {general vector : List Reg} {frame : Frame} :
    layout general vector = .ok frame ↔ frame.generalSaves = general ∧
      frame.vectorSaves = vector ∧
      frame.vectorOffset = alignUp (saves + 4 * general.length) ∧
      frame.size = alignUp (frame.vectorOffset + 16 * vector.length) ∧
        frame.size ≤ maxSize := by
  obtain ⟨size, generalSaves, vectorSaves, vectorOffset⟩ := frame
  unfold layout
  dsimp only
  split
  case isTrue large =>
    refine iff_of_false (fun isFrame => by cases isFrame) ?_
    rintro ⟨rfl, rfl, rfl, rfl, small⟩
    exact Nat.not_le.mpr large small
  case isFalse small =>
    rw [Except.ok.injEq, Frame.mk.injEq]
    constructor
    · rintro ⟨rfl, rfl, rfl, rfl⟩
      exact ⟨rfl, rfl, rfl, rfl, Nat.not_lt.mp small⟩
    · rintro ⟨rfl, rfl, rfl, rfl, -⟩
      exact ⟨rfl, rfl, rfl, rfl⟩

/-- What a plan with a certain body promises. -/
structure Planned (program : Program) (options : CompileOptions)
    (plan : CompilePlan Unit) (body : List (Opcode × Instruction)) : Prop where
  unroll : 0 ≤ options.unroll ∧ options.unroll ≤ 2
  valid : program.validate = .ok ()
  lowered : program.lower = .ok plan.program
  shift : Compiler.elementShift plan.program = .ok plan.shift
  known : ∀ instruction ∈ plan.program.code.toList, ∃ opcode,
    Opcode.lookup? instruction.opcode = some opcode
  invariants : plan.invariants =
    ((Reference.resolveCode plan.program).filter fun entry =>
      entry.2.invariant).map Opcode.step
  isBody : plan.body = body.map Opcode.step
  reordered :
    Reordered ((Reference.resolveCode plan.program).filter fun entry =>
      !entry.2.invariant) body
  pointers : plan.pointers.map Prod.fst =
    Compiler.walkedArrays plan.program
      ((Reference.resolveCode plan.program).map Opcode.step)
  pointerOrder : plan.pointers.map Prod.snd <+: Contract.pointerOrder
  vectors : plan.vectors.map Prod.fst = Compiler.declaredTemps plan.program
  vectorOrder : plan.vectors.map Prod.snd <+: Contract.vectorOrder
  frame : Frame.layout (Contract.ascending (plan.saved.filter Reg.isGeneral))
    (Contract.ascending (plan.saved.filter Reg.isVector)) = .ok plan.frame

namespace Compiler

theorem copies_eq (unroll : Nat) : copies unroll = 2 ^ unroll :=
  Nat.one_shiftLeft unroll

theorem copies_zero : copies 0 = 1 := rfl

theorem copies_le {unroll : Nat} (few : unroll ≤ 2) : copies unroll ≤ 4 := by
  rw [copies_eq]
  exact Nat.pow_le_pow_right (by decide) few

theorem mapM_matchRule {code : List Instruction} {steps : List (BodyStep Unit)}
    (isSteps : code.mapM (matchRule Registry.standard) = .ok steps) :
    (∀ instruction ∈ code, ∃ opcode, Opcode.lookup? instruction.opcode =
      some opcode) ∧
      steps = (code.filterMap fun instruction =>
        (Opcode.lookup? instruction.opcode).map fun opcode =>
          (opcode, instruction)).map
          Opcode.step := by
  induction code generalizing steps with
  | nil =>
      cases isSteps
      exact ⟨fun instruction isInstruction => (by cases isInstruction), rfl⟩
  | cons instruction rest induction =>
      rw [List.mapM_cons] at isSteps
      obtain ⟨step, isStep, isSteps⟩ := Outcome.bind_eq_ok.mp isSteps
      obtain ⟨more, isMore, isSteps⟩ := Outcome.bind_eq_ok.mp isSteps
      cases isSteps
      obtain ⟨opcode, found, rfl⟩ := matchRule_eq_ok isStep
      obtain ⟨restKnown, isRest⟩ := induction isMore
      constructor
      · intro other isOther
        rcases List.mem_cons.mp isOther with rfl | isLater
        · exact ⟨opcode, found⟩
        · exact restKnown other isLater
      · rw [List.filterMap_cons, found, isRest]
        rfl

/-- What is known of a plan that was made. -/
theorem planned_of_plan {program : Program} {options : CompileOptions}
    {made : CompilePlan Unit}
    (isPlan : plan Registry.standard program options = .ok made) :
    ∃ body, Planned program options made body := by
  obtain ⟨steps, parts⟩ := plan_eq_ok.mp isPlan
  obtain ⟨known, rfl⟩ := mapM_matchRule parts.prepared.matched
  obtain ⟨isWalked, pointerOrder⟩ := Contract.assign_eq_ok parts.pointers
  obtain ⟨isTemps, vectorOrder⟩ := Contract.assign_eq_ok parts.vectors
  have filtered : ∀ (keep : Instruction → Bool),
      ((Reference.resolveCode made.program).map Opcode.step).filter
        (fun step => keep step.instruction) =
      ((Reference.resolveCode made.program).filter fun entry =>
        keep entry.2).map Opcode.step := by
    intro keep
    rw [List.filter_map]
    rfl
  obtain ⟨body, isBody, reordered⟩ := BodyStep.hoistLoads_map
    ((Reference.resolveCode made.program).filter fun entry =>
      !entry.2.invariant)
  exact ⟨body, {
    unroll := by
      have unroll := parts.prepared.unroll
      have highest : maxUnroll = 2 := rfl
      rw [highest] at unroll
      omega
    valid := parts.prepared.valid
    lowered := parts.prepared.lowers
    shift := parts.prepared.shift
    known := known
    invariants := parts.invariants.trans (filtered Instruction.invariant)
    isBody := by
      rw [← isBody, parts.body]
      exact congrArg BodyStep.hoistLoads
        (filtered fun instruction => !instruction.invariant)
    reordered := reordered
    pointers := isWalked.trans parts.walked
    pointerOrder := pointerOrder
    vectors := isTemps
    vectorOrder := vectorOrder
    frame := parts.frame }⟩

end Compiler

namespace Planned

variable {program : Program} {options : CompileOptions}
  {plan : CompilePlan Unit} {body : List (Opcode × Instruction)}
  (planned : Planned program options plan body)

include planned

theorem pointers_nodup : (plan.pointers.map fun entry => entry.2.index).Nodup :=
  nodup_of_assigned (by decide) planned.pointerOrder

theorem vectors_nodup : (plan.vectors.map fun entry => entry.2.index).Nodup :=
  nodup_of_assigned (by decide) planned.vectorOrder

theorem pointer_mem {entry : VarIndex × Reg} (isEntry : entry ∈ plan.pointers) :
    entry.2.index ∈ Contract.pointerNumbers :=
  List.mem_map_of_mem
    (planned.pointerOrder.subset (List.mem_map_of_mem isEntry))

theorem vector_mem {entry : VarIndex × Reg} (isEntry : entry ∈ plan.vectors) :
    entry.2.index ∈ Contract.vectorNumbers :=
  List.mem_map_of_mem (planned.vectorOrder.subset (List.mem_map_of_mem isEntry))

theorem pointer_eq {entry : VarIndex × Reg} (isEntry : entry ∈ plan.pointers) :
    entry.2 = .gp entry.2.index := by
  have general : ∀ register ∈ Contract.pointerOrder,
      register = .gp register.index := by decide
  exact general _ (planned.pointerOrder.subset (List.mem_map_of_mem isEntry))

theorem vector_eq {entry : VarIndex × Reg} (isEntry : entry ∈ plan.vectors) :
    entry.2 = .vec entry.2.index := by
  have vector : ∀ register ∈ Contract.vectorOrder,
      register = .vec register.index := by decide
  exact vector _ (planned.vectorOrder.subset (List.mem_map_of_mem isEntry))

theorem pointer_bounds {entry : VarIndex × Reg}
    (isEntry : entry ∈ plan.pointers) :
    (0 : Int) ≤ entry.1 ∧ entry.1 < (64 : Int) := by
  have isIndex : entry.1 ∈ plan.pointers.map Prod.fst :=
    List.mem_map_of_mem isEntry
  rw [planned.pointers] at isIndex
  have inArrays := List.mem_of_mem_filter isIndex
  have inTable := List.mem_of_mem_filter inArrays
  obtain ⟨number, below, isNumber⟩ := List.mem_map.mp inTable
  have bound : number < 64 := List.mem_range.mp below
  rw [← isNumber]
  exact ⟨Int.natCast_nonneg number, Int.ofNat_lt.mpr bound⟩

theorem site_sound (inTail : Bool) (offset : Nat) :
    (Compiler.site plan inTail offset).Sound where
  pointer index register found := by
    have apart : ∀ number ∈ Contract.pointerNumbers,
        number ∉ Contract.working := by decide
    exact apart _ (planned.pointer_mem (mem_of_lookup found))
  vector index register found := by
    have apart : ∀ number ∈ Contract.vectorNumbers, number ≠ 15 := by decide
    exact apart _ (planned.vector_mem (mem_of_lookup found))
  distinct first second register other isFirst isSecond same := by
    have isEntry :=
      List.inj_on_of_nodup_map planned.vectors_nodup (mem_of_lookup isFirst)
      (mem_of_lookup isSecond) same
    exact congrArg Prod.fst isEntry

theorem mem_resolveCode {entry : Opcode × Instruction}
    (isEntry : entry ∈ body) :
    entry ∈ Reference.resolveCode plan.program ∧ entry.2.invariant = false := by
  have isKept := planned.reordered.perm.mem_iff.mpr isEntry
  obtain ⟨isEntry, plain⟩ := List.mem_filter.mp isKept
  exact ⟨isEntry, by simpa using plain⟩

end Planned

theorem Reference.opcode_of_mem {program : Program}
    {entry : Opcode × Instruction}
    (isEntry : entry ∈ Reference.resolveCode program) :
    Opcode.lookup? entry.2.opcode = some entry.1 ∧ entry.1 ∈ Opcode.all ∧
      entry.2 ∈ program.code.toList := by
  obtain ⟨instruction, isInstruction, isSome⟩ := List.mem_filterMap.mp isEntry
  obtain ⟨opcode, found, rfl⟩ := Option.map_eq_some_iff.mp isSome
  exact ⟨found, (Opcode.lookup?_eq_some found).1, isInstruction⟩

theorem StepsCode.pointer {site : EmitSite}
    {entries : List (Opcode × Instruction)} {code : Fragment}
    (codes : StepsCode site (entries.map Opcode.step) code)
    {entry : Opcode × Instruction} (isEntry : entry ∈ entries) {touch : Touch}
    (isTouch : entry.1.touch? site.var entry.2 = some touch) :
    ∃ register, site.pointers.lookup touch.array = some register := by
  induction entries generalizing code with
  | nil => cases isEntry
  | cons first rest induction =>
      cases codes with
      | @cons _ _ front more stepCodes moreCodes =>
          rcases List.mem_cons.mp isEntry with rfl | isLater
          · obtain ⟨⟨kind, size⟩, instruction⟩ := entry
            obtain ⟨label, later, isCode⟩ := stepCodes
            cases kind with
            | load | loadOffset =>
                obtain ⟨_, _, pointer, _, _, _, isPointer, _⟩ :=
                  Routines.load_eq_ok isCode
                cases isTouch
                exact ⟨pointer, isPointer⟩
            | store =>
                obtain ⟨_, pointer, _, _, isPointer, _⟩ :=
                  Routines.store_eq_ok isCode
                cases isTouch
                exact ⟨pointer, isPointer⟩
            | loadParam | arith _ => cases isTouch
          · exact induction moreCodes isLater

end LaneKernel
