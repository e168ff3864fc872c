import LaneKernel.Text.Number

/-!
# Outcomes of computations that may be refused

How a successful computation is taken apart: every step in front of the result
succeeded, and every check that could have refused passed.
-/

namespace LaneKernel

namespace Outcome

variable {ε δ α β : Type}

theorem bind_eq_ok
    {first : Except ε α} {next : α → Except ε β} {result : β} :
    (first >>= next) = .ok result ↔
      ∃ middle, first = .ok middle ∧ next middle = .ok result := by
  cases first with
  | error cause => simp [bind, Except.bind]
  | ok middle => simp [bind, Except.bind]

theorem check_eq_ok
    {first : Except ε Unit} {next : Unit → Except ε β} {result : β} :
    (first >>= next) = .ok result ↔ first = .ok () ∧ next () = .ok result := by
  cases first with
  | error cause => simp [bind, Except.bind]
  | ok middle => simp [bind, Except.bind]

theorem forM_eq_ok
    {check : α → Except ε Unit} {items : List α} :
    items.forM check = .ok () ↔ ∀ item ∈ items, check item = .ok () := by
  induction items with
  | nil => simp [pure, Except.pure]
  | cons item rest induction =>
      change (check item >>= fun _ => rest.forM check) = .ok () ↔ _
      rw [check_eq_ok, induction]
      simp

theorem forM_congr
    {first second : α → Except ε Unit} {items : List α}
    (same : ∀ item ∈ items, first item = second item) :
    items.forM first = items.forM second := by
  induction items with
  | nil => rfl
  | cons item rest induction =>
      change (first item >>= fun _ => rest.forM first) =
        (second item >>= fun _ => rest.forM second)
      rw [same item List.mem_cons_self,
        induction fun other isOther =>
          same other (List.mem_cons_of_mem item isOther)]

theorem refuse_eq_ok
    {condition : Prop} [Decidable condition] {cause : ε}
    {next : α → Except ε β} {rest : Except ε β} {result : β} :
    (if condition then (throw cause : Except ε α) >>= next else rest) =
      .ok result ↔
      ¬ condition ∧ rest = .ok result := by
  by_cases holds : condition
  · simp [holds, throw, throwThe, MonadExceptOf.throw, bind, Except.bind]
  · simp [holds]

theorem ite_error_eq_ok
    {condition : Prop} [Decidable condition] {cause : ε}
    {rest : Except ε β} {result : β} :
    (if condition then .error cause else rest) = .ok result ↔
      ¬ condition ∧ rest = .ok result := by
  by_cases holds : condition <;> simp [holds]

theorem map_eq_ok
    {change : α → β} {outcome : Except ε α} {result : β} :
    outcome.map change = .ok result ↔ ∃ value, outcome = .ok value ∧
      change value = result := by
  cases outcome <;> simp [Except.map]

theorem eq_ok_of_isSome
    {outcome : Except ε α} {default : α}
    (succeeds : outcome.toOption.isSome = true) :
    outcome = .ok (outcome.toOption.getD default) := by
  cases outcome with
  | error cause => cases succeeds
  | ok value => rfl

theorem toOption_eq_some {outcome : Except ε α} {value : α} :
    outcome.toOption = some value ↔ outcome = .ok value := by
  cases outcome <;> simp [Except.toOption]

theorem mapError_eq_ok
    {change : ε → δ} {outcome : Except ε α} {result : α} :
    outcome.mapError change = .ok result ↔ outcome = .ok result := by
  cases outcome with
  | error cause => exact ⟨nofun, nofun⟩
  | ok value =>
      exact ⟨fun same => congrArg Except.ok (Except.ok.inj same),
        fun same => congrArg Except.ok (Except.ok.inj same)⟩

/-- Every reason for which a computation is refused is of a certain kind. -/
def FailsOnly (allowed : ε → Prop) (outcome : Except ε α) : Prop :=
  ∀ cause, outcome = .error cause → allowed cause

variable {allowed : ε → Prop}

theorem failsOnly_ok (value : α) : FailsOnly allowed (.ok value) :=
  fun _ isError => by cases isError

theorem failsOnly_error {cause : ε} (isAllowed : allowed cause) :
    FailsOnly allowed (.error cause : Except ε α) := by
  intro other isError
  cases isError
  exact isAllowed

theorem FailsOnly.bind {first : Except ε α} {next : α → Except ε β}
    (front : FailsOnly allowed first)
    (back : ∀ value, first = .ok value → FailsOnly allowed (next value)) :
    FailsOnly allowed (first >>= next) := by
  cases first with
  | error cause => exact failsOnly_error (front cause rfl)
  | ok value => exact back value rfl

theorem FailsOnly.mapError {change : ε → δ} {permitted : δ → Prop}
    {outcome : Except ε α}
    (fails : FailsOnly (fun cause => permitted (change cause)) outcome) :
    FailsOnly permitted (outcome.mapError change) := by
  cases outcome with
  | error cause => exact failsOnly_error (fails cause rfl)
  | ok value => exact failsOnly_ok value

theorem FailsOnly.map {change : α → β} {outcome : Except ε α}
    (fails : FailsOnly allowed outcome) :
    FailsOnly allowed (outcome.map change) := by
  cases outcome with
  | error cause => exact failsOnly_error (fails cause rfl)
  | ok value => exact failsOnly_ok _

theorem failsOnly_ite_error {condition : Prop} [Decidable condition] {cause : ε}
    {rest : Except ε β} (isAllowed : condition → allowed cause)
    (back : ¬ condition → FailsOnly allowed rest) :
    FailsOnly allowed (if condition then .error cause else rest) := by
  by_cases holds : condition
  · rw [if_pos holds]
    exact failsOnly_error (isAllowed holds)
  · rw [if_neg holds]
    exact back holds

theorem failsOnly_refuse {condition : Prop} [Decidable condition] {cause : ε}
    {next : α → Except ε β} {rest : Except ε β}
    (isAllowed : condition → allowed cause)
    (back : ¬ condition → FailsOnly allowed rest) :
    FailsOnly allowed (if condition then (throw cause : Except ε α) >>=
      next else rest) := by
  by_cases holds : condition
  · rw [if_pos holds]
    exact failsOnly_error (isAllowed holds)
  · rw [if_neg holds]
    exact back holds

theorem failsOnly_forM {check : α → Except ε Unit} {items : List α}
    (fails : ∀ item ∈ items, FailsOnly allowed (check item)) :
    FailsOnly allowed (items.forM check) := by
  induction items with
  | nil => exact failsOnly_ok ()
  | cons item rest induction =>
      change FailsOnly allowed (check item >>= fun _ => rest.forM check)
      exact (fails item List.mem_cons_self).bind fun _ _ =>
        induction fun other isOther =>
          fails other (List.mem_cons_of_mem item isOther)

end Outcome

end LaneKernel
