import LaneKernel.Proofs.Exchange
import Mathlib.Data.List.Chain

/-!
# Load hoisting

Hoisting loads permutes the steps of a lowered program.  It keeps the order of
everything that touches memory and of everything that is no load, and an element
runs as before: it stops at the same access with the same memory, or it
completes in the same state.  Every load ends up as far up as it goes.
-/

namespace LaneKernel

namespace BodyStep

variable {σ : Type} {steps placed : List (BodyStep σ)}
  {load previous : BodyStep σ} {keep : BodyStep σ → Bool}

theorem canSwap_accesses (swaps : canSwap previous load = true) :
    previous.isLoad = false ∧ previous.isStore = false := by
  unfold canSwap at swaps
  simp only [Bool.and_eq_true, Bool.not_eq_true'] at swaps
  exact ⟨swaps.1.1.1.2, swaps.1.1.1.1⟩

theorem sink_perm (load : BodyStep σ) (placed : List (BodyStep σ)) :
    (sink load placed).Perm (load :: placed) := by
  induction placed with
  | nil => exact .refl _
  | cons previous rest induction =>
      rw [sink]
      split
      case isTrue =>
        exact (induction.cons previous).trans (.swap load previous rest)
      case isFalse => exact .refl _

/-- A load that is kept passes nothing that is kept. -/
theorem filter_sink (passes : keep load = true →
    ∀ previous, canSwap previous load = true → keep previous = false) :
    (sink load placed).filter keep = (load :: placed).filter keep := by
  induction placed with
  | nil => rfl
  | cons previous rest induction =>
      rw [sink]
      split
      case isFalse => rfl
      case isTrue swaps =>
        rw [List.filter_cons, induction]
        cases isKept : keep load with
        | false => simp [List.filter_cons, isKept]
        | true => simp [isKept, passes isKept previous swaps]

theorem foldl_place_perm (steps placed : List (BodyStep σ)) :
    (steps.foldl place placed).Perm (steps.reverse ++ placed) := by
  induction steps generalizing placed with
  | nil => exact .refl _
  | cons step rest induction =>
      rw [List.foldl_cons, List.reverse_cons, List.append_assoc]
      refine (induction _).trans (List.Perm.append_left _ ?_)
      unfold place
      split
      case isTrue => exact sink_perm step placed
      case isFalse => exact .refl _

theorem hoistLoads_perm (steps : List (BodyStep σ)) :
    (hoistLoads steps).Perm steps := by
  unfold hoistLoads
  have folded := foldl_place_perm steps []
  rw [List.append_nil] at folded
  exact (List.reverse_perm _).trans (folded.trans (List.reverse_perm _))

/-- Steps of a kind that no load of the kind passes keep their order. -/
theorem filter_hoistLoads
    (passes : ∀ load previous, load.isLoad = true → keep load = true →
    canSwap previous load = true → keep previous = false)
    (steps : List (BodyStep σ)) :
    (hoistLoads steps).filter keep = steps.filter keep := by
  have folds : ∀ placed : List (BodyStep σ),
      (steps.foldl place placed).filter keep =
        (steps.reverse ++ placed).filter keep := by
    induction steps with
    | nil => exact fun _ => rfl
    | cons step rest induction =>
        intro placed
        rw [List.foldl_cons, induction, List.reverse_cons, List.append_assoc,
          List.filter_append, List.filter_append]
        congr 1
        unfold place
        split
        case isTrue isLoad =>
          exact filter_sink fun isKept previous =>
          passes step previous isLoad isKept
        case isFalse => rfl
  unfold hoistLoads
  rw [List.filter_reverse, folds, List.append_nil, List.filter_reverse,
    List.reverse_reverse]

/-- A step cannot move above the one in front of it; the later one comes
first. -/
def Stays (later previous : BodyStep σ) : Prop :=
  later.isLoad = true → canSwap previous later = false

theorem isChain_sink (settled : placed.IsChain Stays) :
    (sink load placed).IsChain Stays := by
  induction placed with
  | nil => exact .singleton load
  | cons previous rest induction =>
      rw [sink]
      split
      case isFalse stays =>
        exact settled.cons_cons fun _ => by simpa using stays
      case isTrue swaps =>
        -- The step that was passed is no load, so it stays wherever the load
        -- went.
        have stays : ∀ other, Stays previous other := by
          intro other isLoad
          rw [(canSwap_accesses swaps).1] at isLoad
          cases isLoad
        exact (induction settled.tail).cons fun other _ => stays other

theorem isChain_foldl_place (settled : placed.IsChain Stays)
    (steps : List (BodyStep σ)) : (steps.foldl place placed).IsChain Stays := by
  induction steps generalizing placed with
  | nil => exact settled
  | cons step rest induction =>
      apply induction
      unfold place
      split
      case isTrue => exact isChain_sink settled
      case isFalse notLoad =>
        exact settled.cons fun _ _ isLoad => absurd isLoad notLoad

theorem isChain_hoistLoads (steps : List (BodyStep σ)) :
    (hoistLoads steps).reverse.IsChain Stays := by
  unfold hoistLoads
  rw [List.reverse_reverse]
  exact isChain_foldl_place .nil steps

/-- Steps that stay are placed where they are. -/
theorem foldl_place_of_isChain
    (settled : (steps.reverse ++ placed).IsChain Stays) :
    steps.foldl place placed = steps.reverse ++ placed := by
  induction steps generalizing placed with
  | nil => rfl
  | cons step rest induction =>
      rw [List.reverse_cons, List.append_assoc] at settled ⊢
      have isPlaced : place placed step = step :: placed := by
        unfold place
        split
        case isFalse => rfl
        case isTrue isLoad =>
          cases placed with
          | nil => rfl
          | cons previous others =>
              have stays := settled.right_of_append.rel isLoad
              rw [sink, if_neg (by simp [stays])]
      rw [List.foldl_cons, isPlaced]
      exact induction settled

theorem hoistLoads_hoistLoads (steps : List (BodyStep σ)) :
    hoistLoads (hoistLoads steps) = hoistLoads steps := by
  have settled := isChain_hoistLoads steps
  rw [← List.append_nil (hoistLoads steps).reverse] at settled
  have folded := foldl_place_of_isChain settled
  rw [List.append_nil] at folded
  change ((hoistLoads steps).foldl place []).reverse = hoistLoads steps
  rw [folded, List.reverse_reverse]

end BodyStep

namespace Reference

/-- Two runs of an element stop at the same access with the same memory, or
complete in the same state. -/
structure SameEnd (first second : State × Option Error) : Prop where
  stop : second.2 = first.2
  memory : second.1.memory = first.1.memory
  state : first.2 = none → second.1 = first.1

theorem SameEnd.refl (run : State × Option Error) : SameEnd run run :=
  ⟨rfl, rfl, fun _ => rfl⟩

theorem SameEnd.trans {first second third : State × Option Error}
    (front : SameEnd first second) (behind : SameEnd second third) :
    SameEnd first third :=
  ⟨behind.stop.trans front.stop, behind.memory.trans front.memory,
    fun completes =>
    (behind.state (front.stop.trans completes)).trans (front.state completes)⟩

/-- Two pieces of code run an element to the same end. -/
def Site.SameRuns (site : Site) (first second : List (Opcode × Instruction)) :
    Prop :=
  ∀ state, SameEnd (site.runCode state first) (site.runCode state second)

namespace Site.SameRuns

variable {site : Site} {first second third : List (Opcode × Instruction)}

theorem refl (code : List (Opcode × Instruction)) : site.SameRuns code code :=
  fun _ => .refl _

theorem trans (front : site.SameRuns first second)
    (behind : site.SameRuns second third) : site.SameRuns first third :=
  fun state => (front state).trans (behind state)

theorem behind (same : site.SameRuns first second)
    (front : List (Opcode × Instruction)) :
    site.SameRuns (front ++ first) (front ++ second) := by
  intro state
  rw [Site.runCode_append, Site.runCode_append]
  rcases site.runCode state front with ⟨next, _ | cause⟩
  · exact same next
  · exact .refl _

theorem inFront (same : site.SameRuns first second)
    (back : List (Opcode × Instruction)) :
    site.SameRuns (first ++ back) (second ++ back) := by
  intro state
  rw [Site.runCode_append, Site.runCode_append]
  have sameEnd := same state
  generalize site.runCode state first = run at sameEnd
  rcases run with ⟨next, _ | cause⟩
  · rw [show site.runCode state second = (next, none) from
      Prod.ext (sameEnd.state rfl) sameEnd.stop]
    exact .refl _
  · rw [show site.runCode state second =
      ((site.runCode state second).1, some cause) from
      Prod.ext rfl sameEnd.stop]
    exact ⟨rfl, sameEnd.memory, nofun⟩

end Site.SameRuns

section Exchange

variable {site : Site} {previous load : Opcode × Instruction}

theorem Site.result_of_flat (flat : site.program.Flat previous)
    (notLoad : previous.1.isLoad = false)
    (notStore : previous.1.isStore = false) (state : State) :
    ∃ word, site.result state previous.1 previous.2 = .ok word := by
  obtain ⟨⟨kind, size⟩, instruction⟩ := previous
  cases kind with
  | load | loadOffset => cases notLoad
  | store => cases notStore
  | loadParam =>
      have isScalar :
          (site.program.var instruction.firstSource).role.isScalar = true :=
        flat.checked.moves
      exact ⟨_, Site.read_scalar isScalar _ _⟩
  | arith op =>
      have isResult : site.result state ⟨.arith op, size⟩ instruction = _ :=
        Site.result_arith rfl flat.checked.sources
      rw [Site.readTemps (flat.sources op rfl)] at isResult
      exact ⟨_, isResult⟩

/-- A load that moves above an instruction fails as before or leaves the same
state. -/
theorem sameRuns_of_mayPass (flat : site.program.Flat previous)
    (loadFlat : site.program.Flat load) (isLoad : load.1.isLoad = true)
    (mayPass : Opcode.mayPass previous load = true) :
    site.SameRuns [previous, load] [load, previous] := by
  intro state
  have commutes := commutes_of_mayPass flat loadFlat isLoad mayPass
  obtain ⟨notLoad, notStore⟩ := BodyStep.canSwap_accesses mayPass
  obtain ⟨word, isWord⟩ := Site.result_of_flat flat notLoad notStore state
  have isTemp : (site.program.var previous.2.target).role = .temp := by
    apply flat.target
    intro isStore
    have isStep : previous.1.isStore = true := by
      unfold Opcode.isStore
      rw [isStore]
      rfl
    cases isStep.symm.trans notStore
  have isStep := Site.step_temp isTemp isWord
  have sameResult := commutes.result_eq flat.checked loadFlat.checked isStep
  cases isLoaded : site.result state load.1 load.2 with
  | error fault =>
      rw [isLoaded] at sameResult
      have fails : ∀ other, site.result other load.1 load.2 = .error fault →
          site.step other load.1 load.2 = (other, some fault) := by
        intro other isError
        unfold Site.step
        rw [isError]
      rw [Site.runCode, isStep, Site.runCode, fails state isLoaded]
      dsimp only
      rw [Site.runCode, fails _ sameResult]
      exact ⟨rfl, Site.memory_setValue.symm,
        fun completes => by cases completes⟩
  | ok loaded =>
      rw [isLoaded] at sameResult
      have completes : site.runCode state [previous, load] = (_, none) :=
        Site.runCode_cons_eq.mpr ⟨_, isStep,
          Site.runCode_cons_eq.mpr ⟨_,
            Site.step_temp commutes.isTemp sameResult, rfl⟩⟩
      rw [completes, commutes.swap flat.checked loadFlat.checked completes]
      exact .refl _

end Exchange

end Reference

namespace BodyStep

open Reference

variable {σ : Type} {steps placed : List (BodyStep σ)} {load step : BodyStep σ}

/-- The instructions of steps with their opcodes. -/
def entries (steps : List (BodyStep σ)) : List (Opcode × Instruction) :=
  resolve (steps.map instruction)

theorem entries_append (front back : List (BodyStep σ)) :
    entries (front ++ back) = entries front ++ entries back := by
  unfold entries
  rw [List.map_append, resolve_append]

/-- A step that knows its opcode and has one of the forms of lowered code. -/
def Fits (program : Program) (step : BodyStep σ) : Prop :=
  ∃ opcode, Opcode.lookup? step.instruction.opcode = some opcode ∧
    step.isLoad = opcode.isLoad ∧ step.isStore = opcode.isStore ∧
    program.Flat (opcode, step.instruction)

/-- The steps of a lowered program fit. -/
theorem fits_of_matchRule {program lowered : Program}
    (isLowered : program.lower = .ok lowered) {rules : Registry σ}
    {instruction : Instruction}
    (isInstruction : instruction ∈ lowered.code.toList)
    (isStep : Compiler.matchRule rules instruction = .ok step) :
    step.Fits lowered := by
  have valid := (Program.validate_eq_ok.mp (Program.validate_lower isLowered)).2
  obtain ⟨opcode, checked⟩ := valid.checked isInstruction
  have flat := Program.flat_of_mem isLowered
    (mem_resolve isInstruction checked.found)
  unfold Compiler.matchRule at isStep
  split at isStep
  case h_1 => cases isStep
  case h_2 =>
    rw [checked.found] at isStep
    cases isStep
    exact ⟨opcode, checked.found, rfl, rfl, flat⟩

variable {site : Site}

theorem sameRuns_sink (isLoad : load.isLoad = true)
    (loadFits : load.Fits site.program)
    (fits : ∀ step ∈ placed, step.Fits site.program) :
    site.SameRuns (entries (placed.reverse ++ [load]))
      (entries (sink load placed).reverse) := by
  induction placed with
  | nil => exact .refl _
  | cons previous rest induction =>
      rw [sink]
      split
      case isFalse =>
        rw [← List.reverse_cons]
        exact .refl _
      case isTrue swaps =>
        obtain ⟨opcode, found, isLoadOf, isStoreOf, flat⟩ :=
          fits previous List.mem_cons_self
        obtain ⟨loadOpcode, loadFound, loadIsLoad, loadIsStore, loadFlat⟩ :=
          loadFits
        have mayPass :
            Opcode.mayPass (opcode, previous.instruction)
            (loadOpcode, load.instruction) =
            true := by
          unfold Opcode.mayPass Opcode.step canSwap
          unfold canSwap at swaps
          rwa [isLoadOf, isStoreOf] at swaps
        have exchange :=
          sameRuns_of_mayPass flat loadFlat (loadIsLoad ▸ isLoad) mayPass
        have isPair : entries [previous, load] =
            [(opcode, previous.instruction),
              (loadOpcode, load.instruction)] := by
          unfold entries
          rw [List.map_cons, resolve_cons found, List.map_singleton,
            resolve_cons loadFound, resolve_nil]
        have isSwapped : entries [load, previous] =
            [(loadOpcode, load.instruction),
              (opcode, previous.instruction)] := by
          unfold entries
          rw [List.map_cons, resolve_cons loadFound, List.map_singleton,
            resolve_cons found, resolve_nil]
        rw [← isPair, ← isSwapped] at exchange
        have swapped := exchange.behind (entries rest.reverse)
        have sunk := (induction fun step isStep =>
          fits step (List.mem_cons_of_mem _ isStep)).inFront
          (entries [previous])
        rw [← entries_append, ← entries_append] at swapped sunk
        rw [List.reverse_cons, List.reverse_cons, List.append_assoc]
        exact swapped.trans (by simpa using sunk)

/-- Placing steps one after the other runs them as before. -/
theorem sameRuns_foldl_place
    (placedFits : ∀ step ∈ placed, step.Fits site.program)
    (fits : ∀ step ∈ steps, step.Fits site.program) :
    site.SameRuns (entries (placed.reverse ++ steps))
      (entries (steps.foldl place placed).reverse) := by
  induction steps generalizing placed with
  | nil =>
      rw [List.append_nil]
      exact .refl _
  | cons step rest induction =>
      have stepFits := fits step List.mem_cons_self
      have isPlaced : site.SameRuns (entries (placed.reverse ++ [step]))
          (entries (place placed step).reverse) := by
        unfold place
        split
        case isTrue isLoad => exact sameRuns_sink isLoad stepFits placedFits
        case isFalse =>
          rw [List.reverse_cons]
          exact .refl _
      have nextFits : ∀ other ∈ place placed step, other.Fits site.program := by
        intro other isOther
        have isMember := (foldl_place_perm [step] placed).mem_iff.mp isOther
        rcases List.mem_cons.mp isMember with rfl | isEarlier
        · exact stepFits
        · exact placedFits other isEarlier
      have moved := isPlaced.inFront (entries rest)
      rw [← entries_append, ← entries_append, List.append_assoc] at moved
      exact moved.trans (induction nextFits fun other isOther =>
        fits other (List.mem_cons_of_mem _ isOther))

theorem sameRuns_hoistLoads (fits : ∀ step ∈ steps, step.Fits site.program) :
    site.SameRuns (entries steps) (entries (hoistLoads steps)) := by
  have none : ∀ step ∈ ([] : List (BodyStep σ)), step.Fits site.program := nofun
  exact sameRuns_foldl_place none fits

end BodyStep

theorem Compiler.exists_of_mapM {σ : Type} {rules : Registry σ}
    {code : List Instruction} {steps : List (BodyStep σ)}
    (areSteps : code.mapM (matchRule rules) = .ok steps) {step : BodyStep σ}
    (isStep : step ∈ steps) :
    ∃ instruction ∈ code, matchRule rules instruction = .ok step := by
  induction code generalizing steps with
  | nil =>
      cases areSteps
      cases isStep
  | cons instruction code induction =>
      rw [List.mapM_cons] at areSteps
      obtain ⟨first, isFirst, areSteps⟩ := Outcome.bind_eq_ok.mp areSteps
      obtain ⟨others, areOthers, areSteps⟩ := Outcome.bind_eq_ok.mp areSteps
      cases areSteps
      rcases List.mem_cons.mp isStep with rfl | isLater
      · exact ⟨instruction, List.mem_cons_self, isFirst⟩
      · obtain ⟨other, isOther, isRule⟩ := induction areOthers isLater
        exact ⟨other, List.mem_cons_of_mem _ isOther, isRule⟩

namespace BodyStep

open Reference

variable {σ : Type} {steps : List (BodyStep σ)}

/-- What hoisting makes of the steps of a lowered program. -/
structure Hoisted (program : Program) (steps hoisted : List (BodyStep σ)) :
    Prop where
  perm : hoisted.Perm steps
  others : (hoisted.filter fun step => !step.isLoad) = steps.filter fun step =>
    !step.isLoad
  loads : (hoisted.filter fun step => step.isLoad) = steps.filter fun step =>
    step.isLoad
  accesses : (hoisted.filter fun step => step.isLoad || step.isStore) =
    steps.filter fun step => step.isLoad || step.isStore
  /-- An element stops at the same access with the same memory, or completes in
  the same state. -/
  runs : ∀ (executor : Executor) (row element : Nat),
    Site.SameRuns ⟨program, executor, row, element⟩ (entries steps)
      (entries hoisted)
  /-- No load can move further up. -/
  settled : ∀ front previous load back,
    hoisted = front ++ previous :: load :: back → load.isLoad = true →
      canSwap previous load = false
  again : hoistLoads hoisted = hoisted

/-- Hoisting loads is a reordering that keeps the meaning and leaves no load
that could move. -/
theorem hoisted_hoistLoads {program lowered : Program}
    (isLowered : program.lower = .ok lowered) {rules : Registry σ}
    (ofCode : ∀ step ∈ steps, ∃ instruction ∈ lowered.code.toList,
      Compiler.matchRule rules instruction = .ok step) :
    Hoisted lowered steps (hoistLoads steps) := by
  refine ⟨hoistLoads_perm steps, ?_, ?_, ?_, ?_, ?_,
    hoistLoads_hoistLoads steps⟩
  · refine filter_hoistLoads (fun load _ isLoad isKept => ?_) steps
    rw [isLoad] at isKept
    cases isKept
  · exact filter_hoistLoads
      (fun _ _ _ _ swaps => (canSwap_accesses swaps).1) steps
  · refine filter_hoistLoads (fun _ previous _ _ swaps => ?_) steps
    obtain ⟨notLoad, notStore⟩ := canSwap_accesses swaps
    rw [notLoad, notStore]
    rfl
  · intro executor row element
    refine sameRuns_hoistLoads fun step isStep => ?_
    obtain ⟨instruction, isInstruction, isRule⟩ := ofCode step isStep
    exact fits_of_matchRule isLowered isInstruction isRule
  · intro front previous load back isHoisted
    have settled := isChain_hoistLoads steps
    rw [List.isChain_iff_forall_rel_of_append_cons_cons] at settled
    have isReverse : (hoistLoads steps).reverse = back.reverse ++
        load :: previous :: front.reverse := by
      rw [isHoisted]
      simp
    exact settled isReverse

end BodyStep

/-- A program whose second load stands behind an instruction that it may
pass. -/
def Program.sumOfSources : Program :=
  (Program.build "sum" [.declare 0 1, .declare 4 1, .declare 5 1, .declare 32 1,
    .append ⟨"copyb", 0, [32], [4]⟩,
    .append ⟨"addb", 0, [0], [32, 5]⟩]).toOption.getD default

theorem BodyStep.hoisted_sumOfSources :
    ∃ lowered, Program.sumOfSources.lower = .ok lowered ∧
    ∃ steps : List (BodyStep Unit),
      lowered.code.toList.mapM (Compiler.matchRule Registry.standard) =
        .ok steps ∧
      steps.map (fun step => step.instruction.opcode) =
        ["loadb", "copyb", "loadb", "addb", "storeb"] ∧
      (hoistLoads steps).map (fun step => step.instruction.opcode) =
        ["loadb", "loadb", "copyb", "addb", "storeb"] ∧
      Hoisted lowered steps (hoistLoads steps) := by
  have all : (do
      let lowered ← Program.sumOfSources.lower.toOption
      let steps ← (lowered.code.toList.mapM
        (Compiler.matchRule (Registry.standard : Registry Unit))).toOption
      return (steps.map (fun step => step.instruction.opcode),
        (hoistLoads steps).map (fun step => step.instruction.opcode))) =
      some (["loadb", "copyb", "loadb", "addb", "storeb"],
        ["loadb", "loadb", "copyb", "addb", "storeb"]) := by
    decide +kernel
  obtain ⟨lowered, isLowered, all⟩ := Option.bind_eq_some_iff.mp all
  obtain ⟨steps, areSteps, isPair⟩ := Option.bind_eq_some_iff.mp all
  obtain ⟨isBefore, isAfter⟩ := Prod.mk.inj (Option.some.inj isPair)
  have areSteps := Outcome.toOption_eq_some.mp areSteps
  refine ⟨lowered, Outcome.toOption_eq_some.mp isLowered, steps, areSteps,
    isBefore, isAfter, ?_⟩
  exact hoisted_hoistLoads (Outcome.toOption_eq_some.mp isLowered)
    fun step isStep => Compiler.exists_of_mapM areSteps isStep

end LaneKernel
