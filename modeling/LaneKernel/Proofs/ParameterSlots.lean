import LaneKernel.Proofs.DrawnExecutors
import Mathlib.Data.List.Induction

/-!
# Parameter slots

One table of slots holds the low and the high words of parameters, the row
strides of arrays and the row count.  The slots of the four are different, so
that calls that set them can be mixed in any order: each slot holds what was put
there last.  The main statement is `Executor.settled_after`.
-/

namespace LaneKernel

namespace Var

theorem forall_of_slots {role : Role} {holds : Int → Prop}
    (hasRole : role ≠ .none)
    (slots : ∀ number : Fin 64, roleOf (number.val : Int) = role →
      holds (number.val : Int))
    {index : Int} (isRole : roleOf index = role) : holds index := by
  obtain ⟨above, below⟩ := Program.bounds_of_roleOf (isRole.trans_ne hasRole)
  have isNumber : (index.toNat : Int) = index := Int.toNat_of_nonneg above
  have found := slots ⟨index.toNat, (Int.toNat_lt above).2 below⟩
    ((congrArg roleOf isNumber).trans isRole)
  rwa [isNumber] at found

theorem bounds_of_param {index : Int} (isParam : roleOf index = .param) :
    24 ≤ index ∧ index < 32 :=
  @forall_of_slots _ (fun index => 24 ≤ index ∧ index < 32) (by decide)
    (by decide) _ isParam

theorem bounds_of_array {index : Int}
    (isArray : (roleOf index).isArray = true) : 0 ≤ index ∧ index < 12 := by
  cases isRole : roleOf index with
  | dest | source =>
      exact @forall_of_slots _ (fun index => 0 ≤ index ∧ index < 12) (by decide)
        (by decide) _ isRole
  | none | accumulator | const | param | temp =>
      rw [isRole] at isArray
      cases isArray

end Var

namespace Executor

/-- A call that sets parameter slots. -/
inductive Update where
  | setParam (index : VarIndex) (value : Int64) (size : Int)
  | setRows (rows : Int32) (strides : List (VarIndex × Int32))
deriving DecidableEq, Repr

namespace Update

/-- The executor behind a call; a call that is refused leaves it as it was. -/
def apply (executor : Executor) : Update → Executor
  | setParam index value size =>
    (executor.setParam index value size).toOption.getD executor
  | setRows rows strides => (executor.setRows rows strides).1

/-- A parameter is set with its own size, and strides belong to different
arrays. -/
def Orderly (sizes : VarIndex → Int) : Update → Prop
  | setParam index _ size => Var.roleOf index = .param → size = sizes index
  | setRows _ strides =>
      (∀ entry ∈ strides, (Var.roleOf entry.1).isArray = true) ∧
        (strides.map Prod.fst).Nodup

instance (sizes : VarIndex → Int) : DecidablePred (Orderly sizes)
  | setParam index _ size =>
      inferInstanceAs
        (Decidable (Var.roleOf index = .param → size = sizes index))
  | setRows _ strides =>
      inferInstanceAs
        (Decidable ((∀ entry ∈ strides, (Var.roleOf entry.1).isArray = true) ∧
          (strides.map Prod.fst).Nodup))

/-- The same call, with its strides in another order. -/
inductive Permuted : Update → Update → Prop where
  | setParam (index : VarIndex) (value : Int64) (size : Int) :
      Permuted (.setParam index value size) (.setParam index value size)
  | setRows (rows : Int32) {strides other : List (VarIndex × Int32)} :
      strides.Perm other →
        Permuted (.setRows rows strides) (.setRows rows other)

/-- The value that a call gives a parameter. -/
def value? (index : VarIndex) : Update → Option Int64
  | setParam other value _ =>
    if other = index ∧ Var.roleOf index = .param then some value else none
  | setRows _ _ => none

/-- The row count that a call sets. -/
def rows? : Update → Option Int32
  | setParam _ _ _ => none
  | setRows rows _ => some rows

/-- The row stride that a call gives an array. -/
def stride? (array : VarIndex) : Update → Option Int32
  | setParam _ _ _ => none
  | setRows _ strides => strides.lookup array

/-- What the last of the calls that set something sets. -/
def last? {α : Type} (set? : Update → Option α) (updates : List Update) :
    Option α :=
  updates.reverse.findSome? set?

end Update

/-- The executor behind calls in order. -/
def after (executor : Executor) (updates : List Update) : Executor :=
  updates.foldl Update.apply executor

open Update

/-- The executor with another table of parameter slots. -/
def withParams (executor : Executor) (params : Vector UInt32 64) : Executor :=
  { executor with params := params }

/-- No call sets the slot: neither as a parameter, nor as the high word of a
parameter of eight bytes, nor as the row count, nor as a stride. -/
structure Untouched (sizes : VarIndex → Int) (updates : List Update)
    (slot : VarIndex) : Prop where
  low : last? (value? slot) updates = none
  high : ∀ index, slot = index + highWordDistance → sizes index = 8 →
    last? (value? index) updates = none
  rows : slot = rowCountSlot → last? rows? updates = none
  stride : last? (stride? slot) updates = none

/-- Every slot holds what was put there last, and nothing else of the executor
has changed. -/
structure Settled (executor : Executor) (sizes : VarIndex → Int)
    (updates : List Update) (final : Executor) : Prop where
  param : ∀ index value, last? (value? index) updates = some value →
    final.param index (sizes index) =
      if sizes index = 8 then value.toUInt64
      else value.toUInt64.toUInt32.toUInt64
  rows : ∀ rows, last? rows? updates = some rows →
    final.paramWord rowCountSlot = rows.toUInt32
  stride : ∀ array stride, last? (stride? array) updates = some stride →
    final.paramWord array = stride.toUInt32
  others : ∀ slot, Untouched sizes updates slot →
    final.paramWord slot = executor.paramWord slot
  rest : final.withParams executor.params = executor

section Last

variable {α β : Type} {set? : Update → Option α} {updates : List Update}
  {update : Update}

theorem last?_concat : last? set? (updates ++ [update]) =
    (set? update).or (last? set? updates) := by
  unfold last?
  rw [List.reverse_append, List.reverse_singleton, List.singleton_append,
    List.findSome?_cons]
  cases set? update <;> rfl

theorem last?_eq_none : last? set? updates = none ↔
    ∀ update ∈ updates, set? update = none := by
  unfold last?
  rw [List.findSome?_eq_none_iff]
  simp only [List.mem_reverse]

theorem last?_map {other? : Update → Option β} {convert : β → α}
    (same : ∀ update ∈ updates, set? update = (other? update).map convert) :
    last? set? updates = (last? other? updates).map convert := by
  induction updates using List.reverseRecOn with
  | nil => rfl
  | append_singleton updates update induction =>
      rw [last?_concat, last?_concat, same update (by simp), Option.map_or,
        induction fun other isOther =>
          same other (List.mem_append_left _ isOther)]

end Last

section Rest

variable (executor : Executor) (params : Vector UInt32 64)

@[simp] theorem withParams_setParamWord (index : VarIndex) (word : UInt32) :
    (executor.setParamWord index word).withParams params =
      executor.withParams params := by
  unfold setParamWord
  split <;> rfl

@[simp] theorem withParams_setStrides (strides : List (VarIndex × Int32)) :
    (executor.setStrides strides).1.withParams params =
      executor.withParams params := by
  induction strides generalizing executor with
  | nil => rfl
  | cons entry rest induction =>
      unfold setStrides
      cases place? 64 entry.1 with
      | none => rfl
      | some place =>
          exact (induction _).trans (withParams_setParamWord _ _ _ _)

theorem withParams_apply (update : Update) :
    (update.apply executor).withParams params = executor.withParams params := by
  cases update with
  | setRows rows strides => simp [apply, setRows]
  | setParam index value size =>
      simp only [apply, setParam]
      split
      case isTrue => rfl
      case isFalse =>
        change (if size = 8 then _ else _ : Executor).withParams params = _
        split <;> simp

theorem withParams_after (updates : List Update) :
    (executor.after updates).withParams params =
      executor.withParams params := by
  induction updates generalizing executor with
  | nil => rfl
  | cons update rest induction =>
      exact (induction _).trans (withParams_apply _ _ _)

end Rest

theorem ext_paramWord {first second : Executor}
    (rest : first.withParams second.params = second)
    (same : ∀ slot, first.paramWord slot = second.paramWord slot) :
    first = second := by
  rw [← rest]
  refine congrArg first.withParams (Vector.ext fun place below => ?_)
  have inTable : (0 : Int) ≤ place ∧ (place : Int) < (64 : Nat) := by omega
  have isWord := same place
  unfold paramWord at isWord
  rw [place?_of_bounds inTable] at isWord
  exact isWord

/-- The word that a call puts into a slot. -/
def Update.word? (slot : VarIndex) : Update → Option UInt32
  | setParam index value size =>
      if Var.roleOf index ≠ .param then none
      else if size = 8 ∧ slot = index + highWordDistance then
        some (value.toUInt64 >>> 32).toUInt32
      else if slot = index then some value.toUInt64.toUInt32
      else none
  | setRows rows strides =>
      match strides.lookup slot with
      | some stride => some stride.toUInt32
      | none => if slot = rowCountSlot then some rows.toUInt32 else none

section Step

variable {sizes : VarIndex → Int} {executor : Executor} {index slot : Int}
  {value : Int64} {size : Int} {update : Update}

theorem setParam_eq_error (notParam : Var.roleOf index ≠ .param) :
    executor.setParam index value size = .error (.notParam index) :=
  if_pos notParam

theorem setParam_eq_ok (isParam : Var.roleOf index = .param) :
    executor.setParam index value size = .ok
      (if size = 8 then
        (executor.setParamWord index value.toUInt64.toUInt32).setParamWord
          (index + highWordDistance) (value.toUInt64 >>> 32).toUInt32
      else executor.setParamWord index value.toUInt64.toUInt32) :=
  if_neg (not_not.mpr isParam)

theorem paramWord_setParam (isParam : Var.roleOf index = .param)
    {next : Executor} (isNext : executor.setParam index value size = .ok next) :
    next.paramWord slot =
      if size = 8 ∧ slot = index + highWordDistance then
        (value.toUInt64 >>> 32).toUInt32
      else if slot = index then value.toUInt64.toUInt32
      else executor.paramWord slot := by
  have distance : (highWordDistance : Int) = 8 := rfl
  have bounds := Var.bounds_of_param isParam
  have inTable : 0 ≤ index ∧ index < (64 : Nat) := by omega
  have highInTable : 0 ≤ index + highWordDistance ∧
      index + highWordDistance < (64 : Nat) := by omega
  rw [setParam_eq_ok isParam] at isNext
  rw [← Except.ok.inj isNext]
  by_cases isWide : size = 8
  · simp only [isWide, if_true, true_and]
    rw [paramWord_setParamWord highInTable, paramWord_setParamWord inTable]
  · simp only [isWide, if_false, false_and]
    rw [paramWord_setParamWord inTable]

theorem paramWord_apply (orderly : update.Orderly sizes) :
    (update.apply executor).paramWord slot =
      (update.word? slot).getD (executor.paramWord slot) := by
  cases update with
  | setParam index value size =>
      simp only [apply, word?]
      by_cases isParam : Var.roleOf index = .param
      · have isNext := @setParam_eq_ok executor index value size isParam
        rw [if_neg (not_not.mpr isParam), isNext]
        refine (paramWord_setParam isParam isNext).trans ?_
        split
        · rfl
        · split <;> rfl
      · rw [setParam_eq_error isParam, if_pos isParam]
        rfl
  | setRows rows strides =>
      obtain ⟨areArrays, nodup⟩ := orderly
      have inTable : ∀ entry ∈ strides, 0 ≤ entry.1 ∧ entry.1 < (64 : Nat) := by
        intro entry isEntry
        have bounds := Var.bounds_of_array (areArrays entry isEntry)
        exact ⟨bounds.1, Int.lt_trans bounds.2 (by decide)⟩
      obtain ⟨_, _, isSet, isKept⟩ := @setStrides_spec
        (executor.setParamWord rowCountSlot rows.toUInt32) strides inTable nodup
      simp only [apply, setRows, word?]
      cases isStride : strides.lookup slot with
      | some stride =>
          obtain ⟨front, back, rfl, _⟩ := List.lookup_eq_some_iff.mp isStride
          exact isSet (slot, stride) (by simp)
      | none =>
          have notKey : slot ∉ strides.map Prod.fst := by
            rintro isKey
            obtain ⟨entry, isEntry, rfl⟩ := List.mem_map.mp isKey
            have differs := List.lookup_eq_none_iff.mp isStride entry isEntry
            simp at differs
          rw [isKept slot notKey, paramWord_setParamWord (by decide)]
          split <;> rfl

/-- A call that is no refusal is carried out to its end. -/
theorem setRows_complete {rows : Int32} {strides : List (VarIndex × Int32)}
    (orderly : (Update.setRows rows strides).Orderly sizes) :
    (executor.setRows rows strides).2 = none := by
  have complete : ∀ (entries : List (VarIndex × Int32)) (executor : Executor),
      (∀ entry ∈ entries, (Var.roleOf entry.1).isArray = true) →
        (executor.setStrides entries).2 = none := by
    intro entries
    induction entries with
    | nil => exact fun _ _ => rfl
    | cons entry rest induction =>
        intro executor areArrays
        have bounds := Var.bounds_of_array (areArrays entry List.mem_cons_self)
        unfold setStrides
        rw [place?_of_bounds ⟨bounds.1, Int.lt_trans bounds.2 (by decide)⟩]
        exact induction _ fun other isOther =>
          areArrays other (List.mem_cons_of_mem _ isOther)
  exact complete strides _ orderly.1

end Step

/-- Strides of different arrays can be set in any order. -/
theorem setStrides_perm {executor : Executor}
    {strides other : List (VarIndex × Int32)}
    (areArrays : ∀ entry ∈ strides, (Var.roleOf entry.1).isArray = true)
    (nodup : (strides.map Prod.fst).Nodup) (perm : strides.Perm other) :
    (executor.setStrides other).1 = (executor.setStrides strides).1 := by
  have inTable : ∀ entry ∈ strides, 0 ≤ entry.1 ∧ entry.1 < (64 : Nat) := by
    intro entry isEntry
    have bounds := Var.bounds_of_array (areArrays entry isEntry)
    exact ⟨bounds.1, Int.lt_trans bounds.2 (by decide)⟩
  obtain ⟨_, _, isSet, isKept⟩ :=
    @setStrides_spec executor strides inTable nodup
  obtain ⟨_, _, otherSet, otherKept⟩ := @setStrides_spec executor other
    (fun entry isEntry => inTable entry (perm.mem_iff.mpr isEntry))
    ((perm.map Prod.fst).nodup_iff.mp nodup)
  have keys : ∀ slot, slot ∈ other.map Prod.fst ↔ slot ∈ strides.map Prod.fst :=
    fun slot => (perm.map Prod.fst).mem_iff.symm
  refine ext_paramWord ?_ fun slot => ?_
  · rw [withParams_setStrides, ← withParams_setStrides _ _ strides]
    rfl
  · by_cases isKey : slot ∈ strides.map Prod.fst
    · obtain ⟨entry, isEntry, rfl⟩ := List.mem_map.mp isKey
      rw [isSet entry isEntry, otherSet entry (perm.mem_iff.mp isEntry)]
    · rw [isKept slot isKey, otherKept slot (mt (keys slot).mp isKey)]

section Run

variable {sizes : VarIndex → Int} {executor : Executor} {updates : List Update}

/-- A slot holds the word that was put there last. -/
theorem paramWord_after (orderly : ∀ update ∈ updates, update.Orderly sizes)
    (slot : VarIndex) :
    (executor.after updates).paramWord slot =
      (last? (word? slot) updates).getD (executor.paramWord slot) := by
  induction updates using List.reverseRecOn with
  | nil => rfl
  | append_singleton updates update induction =>
      have isLast : executor.after (updates ++ [update]) =
          update.apply (executor.after updates) :=
        List.foldl_append
      rw [isLast, paramWord_apply (orderly update (by simp)), last?_concat,
        Option.getD_or, induction fun other isOther =>
          orderly other (List.mem_append_left _ isOther)]

theorem after_permuted {other : List Update}
    (orderly : ∀ update ∈ updates, update.Orderly sizes)
    (permuted : List.Forall₂ Permuted updates other) :
    executor.after other = executor.after updates := by
  induction permuted generalizing executor with
  | nil => rfl
  | @cons update _ updates rest isPermuted _ induction =>
      have later := @induction (update.apply executor)
        fun other isOther => orderly other (List.mem_cons_of_mem _ isOther)
      have here := orderly update List.mem_cons_self
      cases isPermuted with
      | setParam index value size => exact later
      | setRows rows perm =>
          have same := @setStrides_perm
            (executor.setParamWord rowCountSlot rows.toUInt32) _ _ here.1
            here.2 perm
          exact (congrArg (after · rest) same).trans later

end Run

section Slots

variable {sizes : VarIndex → Int} {index slot : Int} {update : Update}
  {updates : List Update}

theorem param_ne_high (isParam : Var.roleOf slot = .param)
    (isOther : Var.roleOf index = .param) :
    slot ≠ index + highWordDistance := by
  have bounds := Var.bounds_of_param isParam
  have otherBounds := Var.bounds_of_param isOther
  change slot ≠ index + (8 : Int)
  omega

theorem param_ne_rowCount (isParam : Var.roleOf slot = .param) :
    slot ≠ rowCountSlot := by
  have bounds := Var.bounds_of_param isParam
  change slot ≠ (12 : Int)
  omega

theorem high_ne_rowCount (isParam : Var.roleOf index = .param) :
    index + highWordDistance ≠ rowCountSlot := by
  have bounds := Var.bounds_of_param isParam
  change index + (8 : Int) ≠ (12 : Int)
  omega

theorem array_ne_rowCount (isArray : (Var.roleOf slot).isArray = true) :
    slot ≠ rowCountSlot := by
  have bounds := Var.bounds_of_array isArray
  change slot ≠ (12 : Int)
  omega

theorem array_ne_param (isArray : (Var.roleOf slot).isArray = true)
    (isParam : Var.roleOf index = .param) : slot ≠ index := by
  rintro rfl
  rw [isParam] at isArray
  cases isArray

theorem array_ne_high (isArray : (Var.roleOf slot).isArray = true)
    (isParam : Var.roleOf index = .param) :
    slot ≠ index + highWordDistance := by
  have bounds := Var.bounds_of_array isArray
  have otherBounds := Var.bounds_of_param isParam
  change slot ≠ index + (8 : Int)
  omega

theorem lookup_eq_none {rows : Int32} {strides : List (VarIndex × Int32)}
    (orderly : (Update.setRows rows strides).Orderly sizes)
    (other : ∀ array, (Var.roleOf array).isArray = true → array ≠ slot) :
    strides.lookup slot = none := by
  cases isStride : strides.lookup slot with
  | none => rfl
  | some stride =>
      obtain ⟨front, back, rfl, _⟩ := List.lookup_eq_some_iff.mp isStride
      exact absurd rfl (other slot (orderly.1 (slot, stride) (by simp)))

theorem word?_param (isParam : Var.roleOf slot = .param)
    (orderly : update.Orderly sizes) :
    update.word? slot =
      (update.value? slot).map fun value : Int64 =>
        value.toUInt64.toUInt32 := by
  cases update with
  | setRows rows strides =>
      have noStride := lookup_eq_none orderly fun array isArray =>
        array_ne_param isArray isParam
      simp only [word?, value?, noStride]
      exact if_neg (param_ne_rowCount isParam)
  | setParam other value size =>
      simp only [word?, value?, isParam, and_true]
      by_cases isOther : Var.roleOf other = .param
      · rw [if_neg (not_not.mpr isOther),
          if_neg fun both => param_ne_high isParam isOther both.2]
        by_cases same : other = slot
        · rw [if_pos same, if_pos same.symm]
          rfl
        · rw [if_neg same, if_neg (Ne.symm same)]
          rfl
      · rw [if_pos isOther, if_neg]
        · rfl
        · rintro rfl
          exact isOther isParam

theorem word?_high (isParam : Var.roleOf index = .param)
    (isWide : sizes index = 8) (orderly : update.Orderly sizes) :
    update.word? (index + highWordDistance) =
      (update.value? index).map fun value : Int64 =>
        (value.toUInt64 >>> 32).toUInt32 := by
  cases update with
  | setRows rows strides =>
      have noStride := lookup_eq_none orderly fun array isArray =>
        array_ne_high isArray isParam
      simp only [word?, value?, noStride]
      exact if_neg (high_ne_rowCount isParam)
  | setParam other value size =>
      simp only [word?, value?, isParam, and_true]
      by_cases same : other = index
      · subst same
        have isSize : size = 8 := (orderly isParam).trans isWide
        rw [if_pos rfl, if_neg (not_not.mpr isParam), if_pos ⟨isSize, rfl⟩]
        rfl
      · rw [if_neg same]
        by_cases isOther : Var.roleOf other = .param
        · rw [if_neg (not_not.mpr isOther),
            if_neg fun both => same ((Int.add_left_inj _).mp both.2).symm,
            if_neg (param_ne_high isOther isParam).symm]
          rfl
        · rw [if_pos isOther]
          rfl

theorem word?_rows (orderly : update.Orderly sizes) :
    update.word? rowCountSlot = update.rows?.map Int32.toUInt32 := by
  cases update with
  | setRows rows strides =>
      have noStride := lookup_eq_none orderly fun array => array_ne_rowCount
      simp only [word?, rows?, noStride]
      rfl
  | setParam other value size =>
      simp only [word?, rows?]
      by_cases isOther : Var.roleOf other = .param
      · rw [if_neg (not_not.mpr isOther),
          if_neg fun both => high_ne_rowCount isOther both.2.symm,
          if_neg (param_ne_rowCount isOther).symm]
        rfl
      · rw [if_pos isOther]
        rfl

theorem word?_stride (isArray : (Var.roleOf slot).isArray = true) :
    update.word? slot = (update.stride? slot).map Int32.toUInt32 := by
  cases update with
  | setRows rows strides =>
      simp only [word?, stride?]
      cases strides.lookup slot with
      | some stride => rfl
      | none => exact if_neg (array_ne_rowCount isArray)
  | setParam other value size =>
      simp only [word?, stride?]
      by_cases isOther : Var.roleOf other = .param
      · rw [if_neg (not_not.mpr isOther),
          if_neg fun both => array_ne_high isArray isOther both.2,
          if_neg (array_ne_param isArray isOther)]
        rfl
      · rw [if_pos isOther]
        rfl

theorem word?_untouched (orderly : ∀ update ∈ updates, update.Orderly sizes)
    (untouched : Untouched sizes updates slot) (isUpdate : update ∈ updates) :
    update.word? slot = none := by
  have noRows :=
    fun isRows => last?_eq_none.mp (untouched.rows isRows) update isUpdate
  have noStride := last?_eq_none.mp untouched.stride update isUpdate
  have noValue := last?_eq_none.mp untouched.low update isUpdate
  have isOrderly := orderly update isUpdate
  cases update with
  | setRows rows strides =>
      simp only [word?, show strides.lookup slot = none from noStride]
      exact if_neg fun isRows => by cases noRows isRows
  | setParam index value size =>
      simp only [word?]
      split
      · rfl
      · have isParam := not_not.mp ‹_›
        have isValue :
            (Update.setParam index value size).value? index = some value :=
          if_pos ⟨rfl, isParam⟩
        rw [if_neg, if_neg]
        · rintro rfl
          rw [isValue] at noValue
          cases noValue
        · rintro ⟨isSize, isHigh⟩
          have noHigh := last?_eq_none.mp
            (untouched.high index isHigh
              ((isOrderly isParam).symm.trans isSize)) _ isUpdate
          rw [isValue] at noHigh
          cases noHigh

theorem param_of_last? {value : Int64}
    (isLast : last? (value? index) updates = some value) :
    Var.roleOf index = .param := by
  obtain ⟨update, _, isValue⟩ := List.exists_of_findSome?_eq_some isLast
  cases update with
  | setRows rows strides => cases isValue
  | setParam other value size =>
      simp only [value?] at isValue
      split at isValue
      case isTrue both => exact both.2
      case isFalse => cases isValue

theorem array_of_last? {stride : Int32}
    (orderly : ∀ update ∈ updates, update.Orderly sizes)
    (isLast : last? (stride? slot) updates = some stride) :
    (Var.roleOf slot).isArray = true := by
  obtain ⟨update, isUpdate, isStride⟩ := List.exists_of_findSome?_eq_some isLast
  have isOrderly := orderly update (List.mem_reverse.mp isUpdate)
  cases update with
  | setParam index value size => cases isStride
  | setRows rows strides =>
      obtain ⟨front, back, rfl, _⟩ := List.lookup_eq_some_iff.mp isStride
      exact isOrderly.1 (slot, stride) (by simp)

end Slots

theorem join_halves (word : UInt64) :
    word.toUInt32.toUInt64 ||| (word >>> 32).toUInt32.toUInt64 <<< 32 =
      word := by
  have bound := word.toNat_lt
  apply UInt64.toNat_inj.mp
  rw [UInt64.toNat_or, UInt64.toNat_shiftLeft, UInt32.toNat_toUInt64,
    UInt32.toNat_toUInt64, UInt64.toNat_toUInt32, UInt64.toNat_toUInt32,
    Random.toNat_high_half]
  change word.toNat % 2 ^ 32 ||| (word.toNat / 2 ^ 32 % 2 ^ 32) <<<
    (32 % 64) % 2 ^ 64 = _
  have low : word.toNat % 2 ^ 32 < 2 ^ 32 := Nat.mod_lt _ (by decide)
  have high : word.toNat / 2 ^ 32 < 2 ^ 32 := by omega
  rw [Nat.mod_eq_of_lt (show 32 < 64 by decide), Nat.mod_eq_of_lt high,
    Nat.shiftLeft_eq,
    Nat.mod_eq_of_lt (show word.toNat / 2 ^ 32 * 2 ^ 32 < 2 ^ 64 by omega),
    Nat.or_comm, Nat.mul_comm, ← Nat.two_pow_add_eq_or_of_lt low]
  omega

/-- Calls that set parameters, strides and the row count do not interfere,
whatever their order is and in whatever order the strides of a call are set. -/
theorem settled_after (executor : Executor) (sizes : VarIndex → Int)
    (updates : List Update)
    (orderly : ∀ update ∈ updates, update.Orderly sizes) :
    Settled executor sizes updates (executor.after updates) ∧
      (∀ other, List.Forall₂ Permuted updates other →
        executor.after other = executor.after updates) ∧
      (∀ rows strides, Update.setRows rows strides ∈ updates →
        (executor.setRows rows strides).2 = none) ∧
      (∀ index value size, Var.roleOf index = .param →
        ∃ next, executor.setParam index value size = .ok next) ∧
      ∀ index value size, Var.roleOf index ≠ .param →
        executor.setParam index value size = .error (.notParam index) ∧
          (Update.setParam index value size).apply executor = executor := by
  have slot := @paramWord_after sizes executor updates orderly
  refine ⟨⟨?_, ?_, ?_, ?_, withParams_after executor executor.params updates⟩,
    fun other => after_permuted orderly, fun rows strides isUpdate =>
      setRows_complete (orderly _ isUpdate),
    fun index value size isParam => ⟨_, setParam_eq_ok isParam⟩,
    fun index value size notParam => ?_⟩
  · intro index value isLast
    have isParam := param_of_last? isLast
    have low := slot index
    rw [last?_map fun update isUpdate =>
      word?_param isParam (orderly update isUpdate), isLast] at low
    unfold param
    split
    case isTrue isWide =>
      have high := slot (index + highWordDistance)
      rw [last?_map fun update isUpdate =>
        word?_high isParam isWide (orderly update isUpdate),
        isLast] at high
      rw [low, high]
      exact join_halves value.toUInt64
    case isFalse =>
      rw [low]
      rfl
  · intro rows isLast
    rw [slot, last?_map fun update isUpdate =>
      word?_rows (orderly update isUpdate), isLast]
    rfl
  · intro array stride isLast
    have isArray := array_of_last? orderly isLast
    rw [slot, last?_map fun update _ => word?_stride isArray, isLast]
    rfl
  · intro other untouched
    rw [slot, last?_eq_none.mpr fun update => word?_untouched orderly untouched]
    rfl
  · refine ⟨setParam_eq_error notParam, ?_⟩
    rw [apply, setParam_eq_error notParam]
    rfl

/-- A wide parameter set twice around a row count, strides and a refused
call. -/
theorem settled_after_mixed :
    let final := ({ n := 5 } : Executor).after
      [.setParam 24 (-1) 8, .setRows 3 [(4, -8), (0, 16)], .setParam 32 9 8,
        .setParam 25 (-2) 2, .setParam 24 0x700000005 8]
    final.param 24 8 = 0x700000005 ∧ final.param 25 2 = 0xfffffffe ∧
      final.paramWord 12 = 3 ∧ final.paramWord 4 = 0xfffffff8 ∧
        final.paramWord 33 = 0 := by
  have settled :=
    (settled_after { n := 5 } (fun index => if index = 24 then 8 else 2)
    [.setParam 24 (-1) 8, .setRows 3 [(4, -8), (0, 16)], .setParam 32 9 8,
      .setParam 25 (-2) 2, .setParam 24 0x700000005 8]
    (by decide)).1
  refine ⟨settled.param 24 _ rfl, settled.param 25 _ rfl, settled.rows 3 rfl,
    settled.stride 4 _ rfl, settled.others 33 ⟨rfl, ?_, by decide, rfl⟩⟩
  intro index isHigh isWide
  have isIndex : index = 25 := (Int.add_left_inj 8).mp isHigh.symm
  subst isIndex
  cases isWide

end Executor

end LaneKernel
