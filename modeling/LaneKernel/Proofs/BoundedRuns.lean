import LaneKernel.Proofs.Calls

/-!
# Runs with a limit

A run that nobody cancels takes one step after another until a step does not
complete or the step counter is at the limit.  `Machine.spend` takes the steps
one by one from a budget; the batches of a run come to the same, whatever their
size, and a run that stopped at its limit can be taken up again with a larger
one.  The main statement is `Machine.run_iterates_step`.
-/

namespace LaneKernel.Machine

/-- The machine behind a number of steps, if all of them complete. -/
def after? (machine : Machine) : Nat → Option Machine
  | 0 => some machine
  | count + 1 =>
      match machine.step with
      | (next, none) => next.after? count
      | (_, some _) => none

/-- Takes steps until one does not complete or the budget is used up. -/
def spend : Nat → Machine → Machine × RunError
  | 0, machine => (machine, .stepLimit machine.steps machine.core.pc)
  | budget + 1, machine =>
      match machine.step with
      | (next, none) => spend budget next
      | (next, some .halt) => (next, .halt)
      | (next, some (.exception trap)) => (next, .exception next.core.pc trap)

/-- The number of steps in front of the limit. -/
def budget (machine : Machine) :
    Nat := machine.maxSteps.toNat - machine.steps.toNat

/-- The machine with another limit and another number of steps between two looks
for a cancellation. -/
def configured (machine : Machine) (limit : UInt64) (yieldAfter : Int64) :
    Machine :=
  { machine with maxSteps := limit, yieldAfter := yieldAfter }

variable {machine next last : Machine} {count size : Nat}

theorem step_configured (machine : Machine) (limit : UInt64)
    (yieldAfter : Int64) :
    (machine.configured limit yieldAfter).step =
      (machine.step.1.configured limit yieldAfter, machine.step.2) := by
  simp only [step, configured]
  cases fetch machine.core <;> rfl

theorem counted_of_step (isStep : machine.step = (next, none)) :
    next.steps = machine.steps + 1 ∧ next.maxSteps = machine.maxSteps ∧
      next.yieldAfter = machine.yieldAfter := by
  simp only [step] at isStep
  split at isStep
  · cases isStep
  · simp only [Prod.mk.injEq] at isStep
    obtain ⟨rfl, _⟩ := isStep
    exact ⟨rfl, rfl, rfl⟩

theorem step_eq_halt :
    machine.step = (next, some .halt) ↔ machine.core.pc = haltAddress ∧
      next = machine := by
  simp only [step]
  by_cases halts : machine.core.pc = haltAddress
  · have fetched : fetch machine.core = .error .halt := by simp [fetch, halts]
    simp only [fetched, halts, Prod.mk.injEq, and_true, true_and]
    exact eq_comm
  · have running : fetch machine.core ≠ .error .halt := by
      simp only [fetch, halts, if_false]
      split
      · simp
      · split <;> simp
    simp only [halts, false_and, iff_false]
    split
    case h_1 cause isError =>
      rintro ⟨⟩
      exact running isError
    case h_2 =>
      simp only [Prod.mk.injEq, Option.map_eq_some_iff, not_and]
      rintro - ⟨_, _, ⟨⟩⟩

/-- The steps behind a first one that completes. -/
theorem exists_step_of_after (isLast : machine.after? (count + 1) = some last) :
    ∃ next, machine.step = (next, none) ∧ next.after? count = some last := by
  unfold after? at isLast
  rcases isStep : machine.step with ⟨next, _ | cause⟩
  · rw [isStep] at isLast
    exact ⟨next, rfl, isLast⟩
  · rw [isStep] at isLast
    cases isLast

theorem spend_configured (limit : UInt64) (yieldAfter : Int64) (budget : Nat)
    (machine : Machine) :
    spend budget (machine.configured limit yieldAfter) =
      ((spend budget machine).1.configured limit yieldAfter,
        (spend budget machine).2) := by
  induction budget generalizing machine with
  | zero => rfl
  | succ budget induction =>
      rw [spend, spend, step_configured]
      rcases machine.step with ⟨next, _ | _ | trap⟩
      · exact induction next
      · rfl
      · rfl

theorem maxSteps_spend (budget : Nat) (machine : Machine) :
    (spend budget machine).1.maxSteps = machine.maxSteps :=
  congrArg (·.1.maxSteps)
    (spend_configured machine.maxSteps machine.yieldAfter budget machine)

/-- Steps that complete can be taken from the budget in advance. -/
theorem spend_of_after (isLast : machine.after? count = some last)
    (budget : Nat) : spend (count + budget) machine = spend budget last := by
  induction count generalizing machine with
  | zero =>
      cases isLast
      rw [Nat.zero_add]
  | succ count induction =>
      obtain ⟨next, isStep, isLast⟩ := exists_step_of_after isLast
      rw [Nat.add_right_comm, spend, isStep]
      exact induction isLast

/-- The three ways in which a budget is spent. -/
inductive Spent (machine : Machine) (budget : Nat) :
    Machine × RunError → Prop where
  | limit {last : Machine} :
      machine.after? budget = some last →
      Spent machine budget (last, .stepLimit last.steps last.core.pc)
  | halt {count : Nat} {last : Machine} :
      machine.after? count = some last → count < budget →
        last.core.pc = haltAddress →
      Spent machine budget (last, .halt)
  | exception {count : Nat} {before last : Machine} {trap : Exception} :
      machine.after? count = some before → count < budget →
      before.step = (last, some (.exception trap)) →
      Spent machine budget (last, .exception last.core.pc trap)

theorem spent_spend (budget : Nat) (machine : Machine) :
    Spent machine budget (spend budget machine) := by
  induction budget generalizing machine with
  | zero => exact .limit rfl
  | succ budget induction =>
      rw [spend]
      rcases isStep : machine.step with ⟨next, _ | _ | trap⟩
      · have afterNext :
            ∀ count, machine.after? (count + 1) = next.after? count := by
          intro count
          rw [after?, isStep]
        have rest := induction next
        simp only
        generalize spend budget next = ended at rest ⊢
        cases rest with
        | limit isLast => exact .limit ((afterNext _).trans isLast)
        | halt isLast inside halts =>
            exact .halt ((afterNext _).trans isLast)
              (Nat.succ_lt_succ inside) halts
        | exception isBefore inside isTrap =>
            exact .exception ((afterNext _).trans isBefore)
              (Nat.succ_lt_succ inside) isTrap
      · obtain ⟨halts, rfl⟩ := step_eq_halt.mp isStep
        have isFirst : next.after? 0 = some next := rfl
        exact .halt isFirst (Nat.succ_pos budget) halts
      · have isFirst : machine.after? 0 = some machine := rfl
        exact .exception isFirst (Nat.succ_pos budget) isStep

/-- The way in which a budget is spent determines the outcome. -/
theorem Spent.eq_spend {budget : Nat} {ended : Machine × RunError}
    (spent : Spent machine budget ended) : spend budget machine = ended := by
  cases spent with
  | limit isLast => exact spend_of_after isLast 0
  | @halt count last isLast inside halts =>
      obtain ⟨rest, rfl⟩ : ∃ rest, budget = count + (rest + 1) :=
        ⟨budget - count - 1, by omega⟩
      rw [spend_of_after isLast, spend, step_eq_halt.mpr ⟨halts, rfl⟩]
  | @exception count before last trap isBefore inside isTrap =>
      obtain ⟨rest, rfl⟩ : ∃ rest, budget = count + (rest + 1) :=
        ⟨budget - count - 1, by omega⟩
      rw [spend_of_after isBefore, spend, isTrap]

theorem spend_eq_iff {budget : Nat} {ended : Machine × RunError} :
    spend budget machine = ended ↔ Spent machine budget ended :=
  ⟨fun isEnded => isEnded ▸ spent_spend budget machine, Spent.eq_spend⟩

theorem limitReached_iff (limited : machine.maxSteps ≠ 0) :
    machine.limitReached = true ↔ machine.budget = 0 := by
  unfold limitReached budget
  simp only [bne_iff_ne, Bool.and_eq_true, decide_eq_true_eq, ge_iff_le,
    UInt64.le_iff_toNat_le, ne_eq, limited, not_false_iff, true_and]
  omega

theorem budget_of_step (room : machine.budget ≠ 0)
    (isStep : machine.step = (next, none)) :
    next.budget + 1 = machine.budget := by
  obtain ⟨isCount, isLimit, _⟩ := counted_of_step isStep
  have bound := machine.maxSteps.toNat_lt
  unfold budget at room ⊢
  rw [isCount, isLimit, UInt64.toNat_add]
  change machine.maxSteps.toNat - (machine.steps.toNat + 1) % 2 ^ 64 + 1 = _
  omega

/-- The steps inside the budget keep the configuration. -/
theorem configuration_of_after (isLast : machine.after? count = some last)
    (inside : count ≤ machine.budget) :
    last.budget + count = machine.budget ∧ last.maxSteps = machine.maxSteps ∧
      last.yieldAfter = machine.yieldAfter := by
  induction count generalizing machine with
  | zero =>
      cases isLast
      exact ⟨rfl, rfl, rfl⟩
  | succ count induction =>
      obtain ⟨next, isStep, isLast⟩ := exists_step_of_after isLast
      obtain ⟨_, isLimit, isYield⟩ := counted_of_step isStep
      have oneLess := budget_of_step (by omega) isStep
      obtain ⟨rest, sameLimit, sameYield⟩ := induction isLast (by omega)
      exact ⟨by omega, sameLimit.trans isLimit, sameYield.trans isYield⟩

/-- A batch goes through its steps or ends the run as the budget does. -/
theorem runBatch_spends (limited : machine.maxSteps ≠ 0) (size : Nat) :
    (∃ next, machine.after? size = some next ∧ size ≤ machine.budget ∧
      runBatch size machine = (next, none)) ∨
    runBatch size machine =
      ((spend machine.budget machine).1,
        some (spend machine.budget machine).2) := by
  induction size generalizing machine with
  | zero => exact .inl ⟨machine, rfl, Nat.zero_le _, rfl⟩
  | succ size induction =>
      unfold runBatch
      by_cases reached : machine.limitReached = true
      · rw [(limitReached_iff limited).mp reached, if_pos reached]
        exact .inr rfl
      · have room := mt (limitReached_iff limited).mpr reached
        rw [if_neg reached]
        obtain ⟨rest, isBudget⟩ := Nat.exists_eq_succ_of_ne_zero room
        rw [isBudget, spend]
        rcases isStep : machine.step with ⟨next, _ | _ | trap⟩
        · have isRest : next.budget = rest := by
            have oneLess := budget_of_step room isStep
            omega
          obtain ⟨_, isLimit, _⟩ := counted_of_step isStep
          rw [← isRest]
          refine (induction (isLimit ▸ limited)).imp_left ?_
          rintro ⟨middle, isMiddle, inside, isBatch⟩
          refine ⟨middle, ?_, by omega, isBatch⟩
          rw [after?, isStep]
          exact isMiddle
        · exact .inr rfl
        · exact .inr rfl

/-- Batches that follow one another and come to an end. -/
inductive Finishes (cancelled : Nat → Bool) (size : Nat) :
    Nat × Machine → Machine × Option RunError → Prop where
  | last {state : Nat × Machine} {outcome : Machine × Option RunError} :
      nextBatch cancelled size state = .inr outcome →
        Finishes cancelled size state outcome
  | more {state further : Nat × Machine} {outcome : Machine × Option RunError} :
      nextBatch cancelled size state = .inl further →
        Finishes cancelled size further outcome →
      Finishes cancelled size state outcome

theorem runBatches_of_finishes {cancelled : Nat → Bool} {state : Nat × Machine}
    {outcome : Machine × Option RunError}
    (finishes : Finishes cancelled size state outcome) :
    runBatches cancelled size state.1 state.2 = outcome := by
  induction finishes with
  | last ends => rw [runBatches_eq_nextBatch, ends]
  | more continues _ induction =>
      rw [runBatches_eq_nextBatch, continues]
      exact induction

/-- A look for a cancellation that never finds one. -/
def neverCancelled : Nat → Bool := fun _ => false

/-- With a limit there are finitely many batches, since each of them takes its
size from the budget. -/
theorem finishes_spend (positive : 0 < size) (limited : machine.maxSteps ≠ 0)
    (batch : Nat) :
    Finishes neverCancelled size (batch, machine)
      ((spend machine.budget machine).1,
        some (spend machine.budget machine).2) := by
  obtain ⟨budget, isBudget⟩ : ∃ budget, budget = machine.budget := ⟨_, rfl⟩
  induction budget using Nat.strongRecOn generalizing machine batch with
  | ind budget induction =>
      rcases runBatch_spends limited size with
        ⟨next, isNext, inside, isBatch⟩ | isBatch
      · obtain ⟨fewer, isLimit, _⟩ := configuration_of_after isNext inside
        have same := spend_of_after isNext next.budget
        rw [Nat.add_comm, fewer] at same
        rw [same]
        have isNextBatch :
            nextBatch neverCancelled size (batch, machine) =
              .inl (batch + 1, next) := by
          simp only [nextBatch, neverCancelled, Bool.false_eq_true, if_false,
            isBatch]
        exact .more isNextBatch
          (induction next.budget (by omega) (isLimit ▸ limited) (batch + 1) rfl)
      · refine .last ?_
        simp only [nextBatch, neverCancelled, Bool.false_eq_true, if_false,
          isBatch]

theorem run_eq_spend (limited : machine.maxSteps ≠ 0) :
    machine.run neverCancelled =
      ((spend machine.budget machine).1,
        some (spend machine.budget machine).2) :=
  runBatches_of_finishes (finishes_spend machine.batchSize_pos limited 0)

theorem after_configured (limit : UInt64) (yieldAfter : Int64) (count : Nat)
    (machine : Machine) :
    (machine.configured limit yieldAfter).after? count =
      (machine.after? count).map (·.configured limit yieldAfter) := by
  induction count generalizing machine with
  | zero => rfl
  | succ count induction =>
      rw [after?, after?, step_configured]
      rcases machine.step with ⟨next, _ | cause⟩
      · exact induction next
      · rfl

theorem run_yielding (limited : machine.maxSteps ≠ 0) (yieldAfter : Int64) :
    run { machine with yieldAfter := yieldAfter } neverCancelled =
      ({ (machine.run neverCancelled).1 with yieldAfter := yieldAfter },
        (machine.run neverCancelled).2) := by
  have otherRun :
      (machine.configured machine.maxSteps yieldAfter).run neverCancelled =
      ((spend machine.budget
        (machine.configured machine.maxSteps yieldAfter)).1,
          some (spend machine.budget
          (machine.configured machine.maxSteps yieldAfter)).2) :=
    run_eq_spend limited
  have sameLimit :
      (spend machine.budget machine).1.configured machine.maxSteps yieldAfter =
      { (spend machine.budget machine).1 with yieldAfter := yieldAfter } := by
    rw [← maxSteps_spend machine.budget machine]
    rfl
  rw [spend_configured, sameLimit] at otherRun
  rw [run_eq_spend limited]
  exact otherRun

/-- A run that was stopped by its limit continues under a larger one as if it
had had that limit from the start. -/
theorem run_of_stopped (limited : machine.maxSteps ≠ 0)
    (isLast : machine.after? machine.budget = some last) {limit : UInt64}
    (larger : machine.maxSteps ≤ limit) (yieldAfter : Int64) :
    (last.configured limit yieldAfter).run neverCancelled =
      (machine.configured limit yieldAfter).run neverCancelled := by
  rw [UInt64.le_iff_toNat_le] at larger
  have positive : limit ≠ 0 := by
    rintro rfl
    apply limited
    apply UInt64.toNat_inj.mp
    exact Nat.le_zero.mp larger
  have moreRoom :
      machine.budget ≤ (machine.configured limit yieldAfter).budget :=
    Nat.sub_le_sub_right larger _
  have reached := after_configured limit yieldAfter machine.budget machine
  rw [isLast, Option.map_some] at reached
  have remaining := (configuration_of_after reached moreRoom).1
  have same := spend_of_after reached (last.configured limit yieldAfter).budget
  rw [Nat.add_comm, remaining] at same
  rw [run_eq_spend positive, run_eq_spend positive, same]

/-- What a run with a limit comes to when its steps are taken one by one. -/
structure IteratesStep (machine : Machine) (ended : Machine × Option RunError) :
    Prop where
  halt : ∀ last, ended = (last, some .halt) ↔
    ∃ count, machine.after? count = some last ∧
      machine.steps.toNat + count < machine.maxSteps.toNat ∧
        last.core.pc = haltAddress
  exception : ∀ last pc trap, ended = (last, some (.exception pc trap)) ↔
    pc = last.core.pc ∧ ∃ count before, machine.after? count = some before ∧
      machine.steps.toNat + count < machine.maxSteps.toNat ∧
      before.step = (last, some (.exception trap))
  limit : ∀ last steps pc, ended = (last, some (.stepLimit steps pc)) ↔
    steps = last.steps ∧ pc = last.core.pc ∧
      machine.after? (machine.maxSteps.toNat - machine.steps.toNat) = some last
  otherwise : (∀ last, ended ≠ (last, some .halt)) →
    (∀ last pc trap, ended ≠ (last, some (.exception pc trap))) →
    ∃ last, ended = (last, some (.stepLimit last.steps last.core.pc))

theorem iteratesStep_spend (machine : Machine) :
    machine.IteratesStep
      ((spend machine.budget machine).1,
        some (spend machine.budget machine).2) := by
  have isEnded : ∀ last cause,
      ((spend machine.budget machine).1,
        some (spend machine.budget machine).2) = (last, some cause) ↔
          Spent machine machine.budget (last, cause) := by
    intro last cause
    rw [← spend_eq_iff, Prod.ext_iff, Prod.ext_iff, Option.some_inj]
  have inBudget : ∀ count, count < machine.budget ↔
      machine.steps.toNat + count < machine.maxSteps.toNat := by
    intro count
    unfold budget
    omega
  constructor
  · intro last
    rw [isEnded]
    constructor
    · rintro (_ | ⟨isLast, inside, halts⟩)
      exact ⟨_, isLast, (inBudget _).mp inside, halts⟩
    · rintro ⟨count, isLast, inside, halts⟩
      exact .halt isLast ((inBudget _).mpr inside) halts
  · intro last pc trap
    rw [isEnded]
    constructor
    · rintro (_ | _ | ⟨isBefore, inside, isTrap⟩)
      exact ⟨rfl, _, _, isBefore, (inBudget _).mp inside, isTrap⟩
    · rintro ⟨rfl, count, before, isBefore, inside, isTrap⟩
      exact .exception isBefore ((inBudget _).mpr inside) isTrap
  · intro last steps pc
    rw [isEnded]
    constructor
    · rintro ⟨isLast⟩
      exact ⟨rfl, rfl, isLast⟩
    · rintro ⟨rfl, rfl, isLast⟩
      exact .limit isLast
  · intro noHalt noException
    have spent := spent_spend machine.budget machine
    generalize spend machine.budget machine =
      ended at spent noHalt noException ⊢
    cases spent with
    | @limit last isLast => exact ⟨last, rfl⟩
    | @halt count last isLast inside halts => exact absurd rfl (noHalt last)
    | @exception count before last trap isBefore inside isTrap =>
        exact absurd rfl (noException last _ trap)

/-- A run with a limit that nobody cancels is over after finitely many batches.
It is the iteration of single steps up to the limit, the same for every batch
size, and one that was stopped can be continued under a larger limit. -/
theorem run_iterates_step (machine : Machine) (limited : machine.maxSteps ≠ 0) :
    Finishes neverCancelled machine.batchSize (0, machine)
      (machine.run neverCancelled) ∧
    machine.IteratesStep (machine.run neverCancelled) ∧
    (∀ yieldAfter,
      run { machine with yieldAfter := yieldAfter } neverCancelled =
        ({ (machine.run neverCancelled).1 with yieldAfter := yieldAfter },
        (machine.run neverCancelled).2)) ∧
    ∀ last steps pc limit,
      machine.run neverCancelled = (last, some (.stepLimit steps pc)) →
        machine.maxSteps ≤ limit →
      run { last with maxSteps := limit } neverCancelled =
        run { machine with maxSteps := limit } neverCancelled := by
  have isRun := run_eq_spend limited
  refine ⟨?_, ?_, ?_, ?_⟩
  · rw [isRun]
    exact finishes_spend machine.batchSize_pos limited 0
  · rw [isRun]
    exact iteratesStep_spend machine
  · intro yieldAfter
    exact run_yielding limited yieldAfter
  · intro last steps pc limit stopped larger
    rw [isRun] at stopped
    have isLast := (((iteratesStep_spend machine).limit _ _ _).mp stopped).2.2
    have sameYield := (configuration_of_after isLast (Nat.le_refl _)).2.2
    have continued := run_of_stopped limited isLast larger machine.yieldAfter
    rw [sameYield]
    exact continued

/-- Two words at address zero that are executed over and over: a branch to
itself and its delay slot. -/
def spinning : Machine :=
  { core := (Core.reset ⟨0, #[0xff, 0xff, 0x00, 0x10, 0, 0, 0, 0]⟩).setPc 0
    maxSteps := 3
    yieldAfter := 2 }

/-- A loop that is stopped after three steps, in its second batch, and again
after five. -/
theorem run_iterates_step_spinning :
    spinning.maxSteps ≠ 0 ∧
      ∃ last, spinning.run neverCancelled = (last, some (.stepLimit 3 4)) ∧
      run { last with maxSteps := 5 } neverCancelled =
        run { spinning with maxSteps := 5 } neverCancelled := by
  have limited : spinning.maxSteps ≠ 0 := by decide
  obtain ⟨_, iterates, _, resumes⟩ := run_iterates_step spinning limited
  obtain ⟨last, isLast, isCount, isPc⟩ : ∃ last, spinning.after? 3 = some last ∧
      3 = last.steps ∧ 4 = last.core.pc := ⟨_, rfl, rfl, rfl⟩
  have stopped := (iterates.limit last 3 4).mpr ⟨isCount, isPc, isLast⟩
  exact ⟨limited, last, stopped, resumes last 3 4 5 stopped (by decide)⟩

end LaneKernel.Machine
