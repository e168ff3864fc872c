import LaneKernel.Proofs.Simulation

/-!
# Calls

What a call of a function comes to, once it is known which steps the machine
takes.  Batches and looks for a cancellation do not matter: a call that is not
cancelled and not stopped by its step limit ends where the steps end.
-/

namespace LaneKernel

namespace Machine

/-- The machine with another core, some steps later. -/
def later (machine : Machine) (core : Core) (count : Nat) : Machine :=
  { machine with core := core, steps := machine.steps + UInt64.ofNat count }

/-- The outcome of a run whose next step does not complete. -/
def stopped (machine : Machine) : Machine × Option RunError :=
  match machine.step with
  | (next, none) => (next, none)
  | (next, some .halt) => (next, some .halt)
  | (next, some (.exception trap)) =>
      (next, some (.exception next.core.pc trap))

/-- The step limit leaves room for `count` steps and one more look. -/
def Unlimited (machine : Machine) (count : Nat) : Prop :=
  machine.maxSteps = 0 ∨ machine.steps.toNat + count < machine.maxSteps.toNat

theorem later_zero (machine : Machine) :
    machine.later machine.core 0 = machine := by
  simp [later]

theorem later_later (machine : Machine) (core last : Core)
    (first second : Nat) :
    (machine.later core first).later last second =
      machine.later last (first + second) := by
  simp [later, UInt64.add_assoc, UInt64.ofNat_add]

theorem limitReached_of_unlimited {machine : Machine} {count : Nat}
    (unlimited : machine.Unlimited count) : machine.limitReached = false := by
  unfold limitReached
  rcases unlimited with none | below
  · simp [none]
  · have notReached : ¬ machine.steps ≥ machine.maxSteps := by
      rw [ge_iff_le, UInt64.le_iff_toNat_le]
      omega
    simp [notReached]

theorem Unlimited.later {machine : Machine} {core : Core} {first second : Nat}
    (unlimited : machine.Unlimited (first + second)) :
    (machine.later core first).Unlimited second := by
  unfold Unlimited at unlimited ⊢
  refine unlimited.imp id fun below => ?_
  have bound := machine.maxSteps.toNat_lt
  change (machine.steps + UInt64.ofNat first).toNat + second <
    machine.maxSteps.toNat
  rw [UInt64.toNat_add, UInt64.toNat_ofNat']
  omega

theorem step_of_steps {machine : Machine} {next : Core} {word : UInt32}
    {operation : Operation} (fetched : fetch machine.core = .ok word)
    (decoded : Operation.decode? word = some operation)
    (performed : (advance machine.core).perform machine.core.pc operation =
      (next, none)) :
    machine.step = (machine.later next 1, none) := by
  simp only [step, fetched, Core.execute, decoded, performed]
  rfl

/-- A batch goes through the steps, unless the limit stops it. -/
theorem runBatch_of_steps {allowed : Access → Prop} {count : Nat}
    {machine : Machine} {last : Core} {log logged : List Access}
    (steps : Core.Steps allowed count machine.core log last logged)
    (ends : ∀ number, ((machine.later last number).step).2 ≠ none)
    (size : Nat) :
    (∃ middle accesses, size ≤ count ∧
      Core.Steps allowed (count - size) middle accesses last logged ∧
      runBatch size machine = (machine.later middle size, none)) ∨
    (count < size ∧
      runBatch size machine = (machine.later last count).stopped) ∨
    (¬ machine.Unlimited count ∧ ∃ next steps pc,
      runBatch size machine = (next, some (.stepLimit steps pc))) := by
  obtain ⟨core, isCore⟩ : ∃ core, core = machine.core := ⟨_, rfl⟩
  rw [← isCore] at steps
  induction size generalizing machine count core log with
  | zero =>
      refine .inl ⟨core, log, Nat.zero_le _, steps, ?_⟩
      rw [isCore, later_zero]
      rfl
  | succ size induction =>
      unfold runBatch
      cases reached : machine.limitReached with
      | true =>
          refine .inr (.inr ⟨?_, _, _, _, rfl⟩)
          intro unlimited
          rw [limitReached_of_unlimited unlimited] at reached
          cases reached
      | false =>
          cases steps with
          | refl =>
              refine .inr (.inl ⟨Nat.succ_pos size, ?_⟩)
              have notDone := ends 0
              rw [isCore, later_zero] at notDone ⊢
              unfold stopped
              simp only [Bool.false_eq_true, if_false]
              rcases isStep : machine.step with ⟨next, _ | _ | trap⟩
              · exact absurd (by rw [isStep]) notDone
              · rfl
              · rfl
          | @step rest _ next _ _ _ word operation fetched decoded _ performed
              further =>
              rw [isCore] at fetched performed
              simp only [Bool.false_eq_true, if_false,
                step_of_steps fetched decoded performed]
              have laterEnds : ∀ number,
                  (((machine.later next 1).later last number).step).2 ≠
                    none := by
                intro number
                rw [later_later]
                exact ends (1 + number)
              rcases induction laterEnds next further rfl with
                ⟨middle, accesses, fits, remaining, isBatch⟩ |
                ⟨exceeds, isBatch⟩ |
                ⟨limited, isBatch⟩
              · refine .inl ⟨middle, accesses, by omega, ?_, ?_⟩
                · rwa [Nat.add_sub_add_right]
                · rw [isBatch, later_later, Nat.add_comm]
              · refine .inr (.inl ⟨by omega, ?_⟩)
                rw [isBatch, later_later, Nat.add_comm]
              · refine .inr (.inr ⟨?_, isBatch⟩)
                intro unlimited
                rw [Nat.add_comm] at unlimited
                exact limited unlimited.later

theorem runBatches_eq_nextBatch (cancelled : Nat → Bool) (size : Nat)
    (state : Nat × Machine) :
    runBatches cancelled size state.1 state.2 =
      match nextBatch cancelled size state with
      | .inl further => runBatches cancelled size further.1 further.2
      | .inr outcome => outcome := by
  unfold runBatches
  rw [repeatM_eq_of_monadTail, repeatM.body, pure_bind]
  cases nextBatch cancelled size state <;> rfl

theorem runBatches_eq (cancelled : Nat → Bool) (size batch : Nat)
    (machine : Machine) :
    runBatches cancelled size batch machine =
      if cancelled batch then (machine, some .cancelled)
      else
        match runBatch size machine with
        | (next, none) => runBatches cancelled size (batch + 1) next
        | ended => ended := by
  have isRun := runBatches_eq_nextBatch cancelled size (batch, machine)
  unfold nextBatch at isRun
  refine isRun.trans ?_
  simp only
  cases cancelled batch with
  | true => rfl
  | false => rcases runBatch size machine with ⟨next, _ | cause⟩ <;> rfl

/-- A run ends where its steps end, unless it is cancelled or stopped by its
limit. -/
theorem runBatches_of_steps {allowed : Access → Prop} {count : Nat}
    (machine : Machine) {last : Core} {log logged : List Access}
    (steps : Core.Steps allowed count machine.core log last logged)
    (ends : ∀ number, ((machine.later last number).step).2 ≠ none)
    (cancelled : Nat → Bool) (size batch : Nat) (positive : 0 < size) :
    runBatches cancelled size batch machine =
      (machine.later last count).stopped ∨
    ((¬ machine.Unlimited count ∨ ∃ number, cancelled number = true) ∧
      ∃ next cause, runBatches cancelled size batch machine =
        (next, some cause) ∧
        cause ≠ .halt) := by
  induction count using Nat.strongRecOn generalizing machine log batch with
  | ind count induction =>
      rw [runBatches_eq]
      cases isCancelled : cancelled batch with
      | true =>
          exact .inr ⟨.inr ⟨batch, isCancelled⟩, machine, .cancelled, rfl,
            by simp⟩
      | false =>
          simp only [Bool.false_eq_true, if_false]
          rcases runBatch_of_steps steps ends size with
            ⟨middle, accesses, fits, remaining, isBatch⟩ | ⟨exceeds, isBatch⟩ |
            ⟨limited, next, done, pc, isBatch⟩
          · rw [isBatch]
            have laterEnds : ∀ number,
                (((machine.later middle size).later last number).step).2 ≠
                  none := by
              intro number
              rw [later_later]
              exact ends (size + number)
            have whole : size + (count - size) = count := by omega
            rcases induction (count - size) (by omega)
              (machine.later middle size) remaining laterEnds (batch + 1) with
              reached | ⟨why, next, cause, isRun, notHalt⟩
            · refine .inl ?_
              simp only
              rw [reached, later_later, whole]
            · refine .inr ⟨why.imp_left fun limited unlimited => limited ?_,
                next, cause, isRun, notHalt⟩
              rw [← whole] at unlimited
              exact unlimited.later
          · rw [isBatch]
            refine .inl ?_
            have notDone := ends count
            unfold stopped
            rcases isStep : (machine.later last count).step with
              ⟨next, _ | _ | trap⟩
            · exact absurd (by rw [isStep]) notDone
            · rfl
            · rfl
          · rw [isBatch]
            exact .inr ⟨.inl limited, next, _, rfl, by simp⟩

theorem batchSize_pos (machine : Machine) : 0 < machine.batchSize := by
  unfold batchSize
  split
  · decide
  · have positive : 0 < machine.yieldAfter.toInt := by
      rename_i notBelow
      rw [Int64.le_iff_toInt_le] at notBelow
      simpa using notBelow
    omega

/-- The core with which a call starts. -/
def entered (core : Core) (entry argument stack : UInt32) : Core :=
  (((core.setReg argumentRegister argument).setReg stackRegister stack).setReg
    returnRegister haltAddress).setPc entry

section Outcome

variable {allowed : Access → Prop} {count : Nat} {machine : Machine}
  {last : Core} {logged : List Access} {cancelled : Nat → Bool}
  {entry argument stack : UInt32}
  (steps : Core.Steps allowed count (entered machine.core entry argument stack)
    [] last logged)

include steps

/-- A call whose steps come to a step that does not complete ends there, unless
it is cancelled or stopped by its limit. -/
theorem run_of_steps
    (ends : ∀ number,
      (((machine.prepareCall entry argument stack).later last number).step).2 ≠
      none) :
    (machine.prepareCall entry argument stack).run cancelled =
        ((machine.prepareCall entry argument stack).later last count).stopped ∨
    ((¬ machine.Unlimited count ∨ ∃ number, cancelled number = true) ∧
      (machine.call cancelled entry argument stack).2 ≠ none) := by
  rcases runBatches_of_steps (machine.prepareCall entry argument stack) steps
    ends cancelled _ 0 (batchSize_pos _) with
      reached | ⟨why, next, cause, isRun, notHalt⟩
  · exact .inl reached
  · refine .inr ⟨why, ?_⟩
    unfold call run
    rw [isRun]
    cases cause with
    | halt => exact absurd rfl notHalt
    | _ => simp

/-- A call whose steps come to the halt address ends there without an error,
unless it is cancelled or stopped by its limit. -/
theorem call_of_halt (halts : last.pc = haltAddress) :
    machine.call cancelled entry argument stack =
      (machine.later last count, none) ∨
    ((¬ machine.Unlimited count ∨ ∃ number, cancelled number = true) ∧
      (machine.call cancelled entry argument stack).2 ≠ none) := by
  have fetched : fetch last = .error .halt := by
    simp [fetch, halts]
  have isStep : ∀ number,
      ((machine.prepareCall entry argument stack).later last number).step =
        ((machine.prepareCall entry argument stack).later last number,
        some .halt) := by
    intro number
    simp only [step, later, fetched]
  refine (run_of_steps steps fun number => ?_).imp_left fun reached => ?_
  · rw [isStep]
    simp
  · unfold call
    rw [reached, stopped, isStep]
    rfl

theorem call_of_trap (traps : last.Traps allowed) :
    (machine.call cancelled entry argument stack).2 ≠ none := by
  obtain ⟨trap, isStep⟩ : ∃ trap, ∀ number,
      (((machine.prepareCall entry argument stack).later last number).step).2 =
        some (.exception trap) := by
    rcases traps with ⟨trap, fetched⟩ |
      ⟨word, operation, next, trap, fetched, decoded, _, performed⟩
    · exact ⟨trap, fun number => by simp only [step, later, fetched]⟩
    · refine ⟨trap, fun number => ?_⟩
      simp only [step, later, fetched, Core.execute, decoded, performed]
      rfl
  rcases run_of_steps steps fun number =>
    by rw [isStep]; simp with reached | ⟨_, failed⟩
  · have isTrap := isStep count
    unfold call
    rw [reached, stopped]
    rcases isLast :
      ((machine.prepareCall entry argument stack).later last count).step with
      ⟨next, _ | _ | trap⟩
    · rw [isLast] at isTrap
      cases isTrap
    · rw [isLast] at isTrap
      cases isTrap
    · simp
  · exact failed

end Outcome

end Machine

end LaneKernel
