import LaneKernel.Proofs.CallSites

/-!
# Runs in parts

A run of the interpreter is the run of its first elements followed by one that
starts with the arrays moved on, and a run over rows is one run for each row.
Only the memory is carried over: what the temporaries hold in front of an
element does not change how a run ends, for every executor and however its
arrays overlap.
-/

namespace LaneKernel

namespace Executor

/-- The record with each array moved. -/
def mapArrays (executor : Executor) (move : VarIndex → UInt32 → UInt32) :
    Executor :=
  { executor with
    arrays := Vector.ofFn fun place =>
      move place.val (executor.arrays.get place) }

theorem array_mapArrays {executor : Executor}
    {move : VarIndex → UInt32 → UInt32}
    (outside : ∀ index, place? 64 index = none → move index 0 = 0)
    (index : VarIndex) :
    (executor.mapArrays move).array index =
      move index (executor.array index) := by
  unfold array
  by_cases inTable : 0 ≤ index ∧ index < (64 : Nat)
  · rw [place?_of_bounds inTable]
    have isIndex : ((index.toNat : Nat) : Int) = index :=
      Int.toNat_of_nonneg inTable.1
    refine (Vector.getElem_ofFn _).trans ?_
    rw [isIndex]
  · have isOutside : place? 64 index = none := dif_neg inTable
    rw [isOutside]
    exact (outside index isOutside).symm

section MapArrays

variable (executor : Executor) (move : VarIndex → UInt32 → UInt32)
  (index : VarIndex)

@[simp] theorem n_mapArrays : (executor.mapArrays move).n = executor.n := by
  unfold mapArrays
  rfl

@[simp] theorem paramWord_mapArrays :
    (executor.mapArrays move).paramWord index = executor.paramWord index := by
  unfold paramWord mapArrays
  rfl

@[simp] theorem param_mapArrays (size : Int) :
    (executor.mapArrays move).param index size = executor.param index size := by
  unfold param
  simp only [paramWord_mapArrays]

end MapArrays

/-- The record for the elements behind the first `count` ones. -/
def advanced (executor : Executor) (program : Program) (count : Int32) :
    Executor :=
  { executor with n := executor.n - count }.mapArrays fun index start =>
    start + UInt32.ofInt (count.toInt * (program.var index).size)

/-- The record for a single row. -/
def atRow (executor : Executor) (row : Nat) : Executor :=
  executor.mapArrays fun index start =>
    start + executor.paramWord index * UInt32.ofNat row

theorem array_advanced (executor : Executor) (program : Program) (count : Int32)
    (index : VarIndex) :
    (executor.advanced program count).array index =
      executor.array index +
        UInt32.ofInt (count.toInt * (program.var index).size) := by
  unfold advanced
  rw [array_mapArrays]
  · rfl
  · intro outside isOutside
    have notInTable : ¬ (0 ≤ outside ∧ outside < 64) := by
      intro inTable
      rw [place?_of_bounds inTable] at isOutside
      cases isOutside
    have noSize : (program.var outside).size = 0 := by
      unfold Program.var
      rw [dif_neg notInTable]
    rw [noSize, Int.mul_zero]
    rfl

theorem n_advanced (executor : Executor) (program : Program) (count : Int32) :
    (executor.advanced program count).n = executor.n - count :=
  n_mapArrays _ _

theorem param_advanced (executor : Executor) (program : Program) (count : Int32)
    (index : VarIndex) (size : Int) :
    (executor.advanced program count).param index size =
      executor.param index size :=
  param_mapArrays _ _ index size

theorem n_atRow (executor : Executor) (row : Nat) :
    (executor.atRow row).n = executor.n :=
  n_mapArrays _ _

theorem param_atRow (executor : Executor) (row : Nat) (index : VarIndex)
    (size : Int) :
    (executor.atRow row).param index size = executor.param index size :=
  param_mapArrays _ _ index size

theorem array_atRow (executor : Executor) (row : Nat) (index : VarIndex) :
    (executor.atRow row).array index = executor.rowStart true index row := by
  apply array_mapArrays
  intro outside isOutside
  unfold paramWord
  rw [isOutside, UInt32.zero_mul]
  rfl

end Executor

namespace Program

/-- The program without its rows. -/
def singleRow (program : Program) : Program := { program with twoD := false }

variable {program : Program}

theorem Checked.singleRow {instruction : Instruction} {opcode : Opcode}
    (checked : program.Checked instruction opcode) :
    program.singleRow.Checked instruction opcode :=
  { checked with
    readable := fun place index isIndex =>
      let readable := checked.readable place index isIndex
      ⟨readable.role, readable.size, readable.offset⟩ }

theorem Valid.singleRow {written : VarIndex → Prop} {code : List Instruction}
    (valid : program.Valid written code) :
    program.singleRow.Valid written code := by
  induction valid with
  | nil => exact .nil
  | cons checked reads _ induction =>
      exact .cons checked.singleRow reads induction

theorem validate_singleRow (valid : program.validate = .ok ()) :
    program.singleRow.validate = .ok () := by
  obtain ⟨notEmpty, inOrder⟩ := validate_eq_ok.mp valid
  exact validate_eq_ok.mpr ⟨notEmpty, inOrder.singleRow⟩

end Program

namespace Reference

/-- The failure of an element that has another place. -/
def Error.relocate (place : Nat → Nat → Nat × Nat) : Error → Error
  | .invalid cause => .invalid cause
  | .access instruction row element cause =>
      .access instruction (place row element).1 (place row element).2 cause

/-- An outcome whose failures have another place. -/
def relocated {α : Type} (place : Nat → Nat → Nat × Nat)
    (outcome : α × Option Error) : α × Option Error :=
  (outcome.1, outcome.2.map (Error.relocate place))

theorem relocated_self {α : Type} (outcome : α × Option Error) :
    relocated (fun row element => (row, element)) outcome = outcome := by
  obtain ⟨final, _ | ⟨cause | ⟨instruction, row, element, cause⟩⟩⟩ :=
    outcome <;> rfl

/-- Goes on with the memory unless there was a failure. -/
def andThen (outcome : FlatMemory × Option Error)
    (next : FlatMemory → FlatMemory × Option Error) :
    FlatMemory × Option Error :=
  match outcome with
  | (memory, none) => next memory
  | stopped => stopped

/-- Two sites give the same meaning to all operands; the failures of the second
are told in the places of the first. -/
structure Site.Like (place : Nat → Nat → Nat × Nat) (first second : Site) :
    Prop where
  place_eq : place second.row second.element = (first.row, first.element)
  var : ∀ index, second.program.var index = first.program.var index
  address : ∀ index distance,
    second.address index distance = first.address index distance
  scalar : ∀ index, second.scalar index = first.scalar index

section Like

variable {place : Nat → Nat → Nat × Nat}

theorem Site.Like.step {first second : Site}
    (like : Site.Like place first second) (state : State) (opcode : Opcode)
    (instruction : Instruction) :
    second.step state opcode instruction =
      first.step state opcode instruction := by
  have isRead : second.read state = first.read state := by
    funext index size lanes
    unfold Site.read
    simp only [like.var, like.address, like.scalar]
  have isResult : second.result state opcode instruction =
      first.result state opcode instruction := by
    unfold Site.result
    simp only [isRead, like.var, like.address, like.scalar]
  have isWrite : second.write = first.write := by
    funext state index word
    unfold Site.write
    simp only [like.var, like.address]
  unfold Site.step
  rw [isResult, isWrite]

theorem Site.Like.runCode {first second : Site}
    (like : Site.Like place first second) (state : State)
    (code : List (Opcode × Instruction)) :
    first.runCode state code = relocated place (second.runCode state code) := by
  induction code generalizing state with
  | nil => rfl
  | cons entry rest induction =>
    obtain ⟨opcode, instruction⟩ := entry
    rw [Site.runCode, Site.runCode, like.step]
    rcases first.step state opcode instruction with ⟨next, _ | fault⟩
    · exact induction next
    · simp [relocated, Error.relocate, like.place_eq]

variable {program other : Program} {executor otherExecutor : Executor}
  {code : List (Opcode × Instruction)} {row otherRow : Nat}

theorem runElements_like {count element otherElement : Nat}
    (like : ∀ number < count,
      Site.Like place ⟨program, executor, row, element + number⟩ ⟨other,
        otherExecutor, otherRow, otherElement + number⟩) (state : State) :
    runElements program executor code row count element state =
      relocated place
        (runElements other otherExecutor code otherRow count otherElement
          state) := by
  induction count generalizing element otherElement state with
  | zero => rfl
  | succ count induction =>
    have here := (like 0 (Nat.zero_lt_succ count)).runCode state code
    rw [runElements, runElements]
    rw [Nat.add_zero, Nat.add_zero] at here
    rw [here]
    rcases Site.runCode ⟨other, otherExecutor, otherRow, otherElement⟩ state
      code with
      ⟨next, _ | fault⟩
    · apply induction
      intro number below
      have later := like (number + 1) (Nat.succ_lt_succ below)
      rwa [Nat.add_comm number 1, ← Nat.add_assoc, ← Nat.add_assoc] at later
    · rfl

end Like

theorem runElements_add {program : Program} {executor : Executor}
    {code : List (Opcode × Instruction)} {row : Nat} (count more element : Nat)
    (state : State) :
    runElements program executor code row (count + more) element state =
      match runElements program executor code row count element state with
      | (next, none) =>
        runElements program executor code row more (element + count) next
      | stopped => stopped := by
  rw [runElements_eq, repeated_add, runElements_eq]
  generalize repeated _ count element state = outcome
  rcases outcome with ⟨next, _ | fault⟩
  · exact (runElements_eq _ _ _).symm
  · rfl

/-- Runs elements of a row, with the temporaries replaced in front of each. -/
def refillElements (refill : Nat → Nat → Vector UInt64 64 → Vector UInt64 64)
    (program : Program) (executor : Executor)
    (code : List (Opcode × Instruction)) (row : Nat) :
    Nat → Nat → State → State × Option Error
  | 0, _, state => (state, none)
  | count + 1, element, state =>
      match Site.runCode ⟨program, executor, row, element⟩
          ⟨refill row element state.values, state.memory⟩ code with
      | (next, none) =>
          refillElements refill program executor code row count
            (element + 1) next
      | stopped => stopped

/-- Runs rows, with the temporaries replaced in front of each element. -/
def refillRows (refill : Nat → Nat → Vector UInt64 64 → Vector UInt64 64)
    (program : Program) (executor : Executor)
    (code : List (Opcode × Instruction)) (elements : Nat) :
    Nat → Nat → State → State × Option Error
  | 0, _, state => (state, none)
  | count + 1, row, state =>
      match refillElements refill program executor code row elements 0
        state with
      | (next, none) =>
          refillRows refill program executor code elements count (row + 1) next
      | stopped => stopped

/-- Runs a program on a memory, with the temporaries replaced in front of each
element. -/
def runRefilled (refill : Nat → Nat → Vector UInt64 64 → Vector UInt64 64)
    (program : Program) (executor : Executor) (memory : FlatMemory) :
    FlatMemory × Option Error :=
  match (do program.validate; checkAligned program executor : Except
    ProgramError Unit) with
  | .error cause => (memory, some (.invalid cause))
  | .ok () =>
      ending (refillRows refill program executor (resolveCode program)
        executor.n.toInt.toNat (rowCount program executor) 0
          ⟨Vector.replicate 64 0, memory⟩)

section Refilled

variable (refill : Nat → Nat → Vector UInt64 64 → Vector UInt64 64)
  {program : Program} (executor : Executor) (valid : program.validate = .ok ())

include valid

/-- Every temporary is written before it is read, so only the memory is carried
to the next element. -/
theorem ending_refillElements (row count element : Nat) {first second : State}
    (memory : second.memory = first.memory) :
    ending (refillElements refill program executor (resolveCode program) row
      count element second) =
        ending (runElements program executor (resolveCode program) row count
        element first) := by
  induction count generalizing element first second with
  | zero => exact congrArg (·, none) memory
  | succ count induction =>
    have here := @ending_runCode ⟨program, executor, row, element⟩ _ _
      (Program.validate_eq_ok.mp valid).2
      first ⟨refill row element second.values, second.memory⟩
      memory fun _ impossible => impossible.elim
    rw [refillElements, runElements, resolveCode_eq]
    generalize Site.runCode ⟨program, executor, row, element⟩ first _ =
      outcome at here ⊢
    generalize Site.runCode ⟨program, executor, row, element⟩ ⟨_, _⟩ _ =
      refilled at here ⊢
    obtain ⟨next, stopped⟩ := outcome
    obtain ⟨refilledNext, refilledStopped⟩ := refilled
    obtain ⟨sameMemory, rfl⟩ := Prod.mk.inj here
    cases refilledStopped with
    | none => exact induction (element + 1) sameMemory
    | some fault => exact here

theorem ending_refillRows (elements count row : Nat) {first second : State}
    (memory : second.memory = first.memory) :
    ending (refillRows refill program executor (resolveCode program) elements
      count row second) =
        ending (runRows program executor (resolveCode program) elements count
        row first) := by
  induction count generalizing row first second with
  | zero => exact congrArg (·, none) memory
  | succ count induction =>
    have here := ending_refillElements refill executor valid row elements
      0 memory
    rw [refillRows, runRows]
    generalize runElements program executor _ row elements 0 first =
      outcome at here ⊢
    generalize refillElements refill program executor _ row elements 0 second =
      refilled at here ⊢
    obtain ⟨next, stopped⟩ := outcome
    obtain ⟨refilledNext, refilledStopped⟩ := refilled
    obtain ⟨sameMemory, rfl⟩ := Prod.mk.inj here
    cases refilledStopped with
    | none => exact induction (row + 1) sameMemory
    | some fault => exact here

theorem runRefilled_eq (memory : FlatMemory) :
    runRefilled refill program executor memory =
      run program executor memory := by
  rw [run_eq valid, runRefilled, valid]
  change (match checkAligned program executor with
    | .error cause => _
    | .ok () => _) = _
  cases checkAligned program executor with
  | error cause => rfl
  | ok done => exact ending_refillRows refill executor valid _ _ 0 rfl

theorem ending_runElements (row count element : Nat) {first second : State}
    (memory : second.memory = first.memory) :
    ending (runElements program executor (resolveCode program) row count element
      second) = ending
        (runElements program executor (resolveCode program) row count element
        first) :=
  (ending_refillElements (fun _ _ values => values) executor valid row count
    element rfl).symm.trans
      (ending_refillElements _ executor valid row count element memory)

end Refilled

/-- Runs a program for a number of rows from `row` on, one run for each row. -/
def runEachRow (program : Program) (executor : Executor) :
    Nat → Nat → FlatMemory → FlatMemory × Option Error
  | 0, _, memory => (memory, none)
  | count + 1, row, memory =>
      andThen (relocated (fun _ element => (row, element))
          (run program.singleRow (executor.atRow row) memory))
        (runEachRow program executor count (row + 1))

variable {program : Program} {executor : Executor}

theorem checkAligned_of_flat (flat : program.twoD = false)
    (starts : ∀ index, (program.var index).role.isArray = true →
      (program.var index).aligned = true →
      (executor.array index).toNat % 4 = 0) :
      checkAligned program executor = .ok () := by
  apply Outcome.forM_eq_ok.mpr
  intro index isIndex
  have isArray := (List.mem_filter.mp isIndex).2
  cases isPromised : (program.var index).aligned with
  | false => rfl
  | true =>
    have isStart : executor.array index % arrayAlignment = 0 := by
      apply UInt32.toNat_inj.mp
      rw [UInt32.toNat_mod]
      exact starts index isArray isPromised
    simp [isStart, flat]

theorem run_of_flat (valid : program.validate = .ok ())
    (isAligned : checkAligned program executor = .ok ())
    (flat : program.twoD = false) (memory : FlatMemory) :
    run program executor memory =
      ending (runElements program executor (resolveCode program) 0
        executor.n.toInt.toNat 0 ⟨Vector.replicate 64 0, memory⟩) := by
  have oneRow : rowCount program executor = 1 := by
    unfold rowCount
    rw [flat]
    rfl
  have isRow : runRows program executor (resolveCode program)
      executor.n.toInt.toNat 1 0 ⟨Vector.replicate 64 0, memory⟩ =
        runElements program executor (resolveCode program) 0
          executor.n.toInt.toNat 0 ⟨Vector.replicate 64 0, memory⟩ := by
    rw [runRows]
    rcases runElements program executor _ 0 _ 0 _ with ⟨next, _ | fault⟩ <;> rfl
  rw [run_eq valid, isAligned, oneRow, isRow]
  rfl

theorem ending_relocated (place : Nat → Nat → Nat × Nat)
    (outcome : State × Option Error) :
    ending (relocated place outcome) = relocated place (ending outcome) := rfl

section Elements

variable {count : Int32}

theorem like_advanced (flat : program.twoD = false) (notNegative : 0 ≤ count)
    (number : Nat) :
    Site.Like (fun row element => (row, element + count.toInt.toNat))
      ⟨program, executor, 0, count.toInt.toNat + number⟩
      ⟨program, executor.advanced program count, 0, number⟩ where
  place_eq := Prod.ext rfl (Nat.add_comm _ _)
  var _ := rfl
  scalar index := by
    unfold Site.scalar
    simp only [Executor.param_advanced]
  address index distance := by
    have isCount : ((count.toInt.toNat : Nat) : Int) = count.toInt :=
      Int.toNat_of_nonneg (Int32.le_iff_toInt_le.mp notNegative)
    have isSum : ((count.toInt.toNat + number : Nat) + distance) *
        (program.var index).size =
        count.toInt * (program.var index).size + (number + distance) *
          (program.var index).size := by
      push_cast
      rw [isCount, Int.add_assoc, Int.add_mul]
    unfold Site.address
    simp only [flat, Bool.false_eq_true, if_false, Executor.array_advanced]
    rw [isSum, UInt32.ofInt_add, UInt32.add_assoc]

theorem checkAligned_advanced
    (isAligned : checkAligned program executor = .ok ())
    (flat : program.twoD = false)
    (whole : ∀ index, (program.var index).role.isArray = true →
      (program.var index).aligned = true →
      count.toInt * (program.var index).size % 4 = 0) :
    checkAligned program (executor.advanced program count) = .ok () := by
  apply checkAligned_of_flat flat
  intro index isArray promised
  have isStart := rowStart_aligned isAligned isArray promised 0
  rw [Executor.rowStart_zero] at isStart
  have isWhole := whole index isArray promised
  rw [Executor.array_advanced, UInt32.toNat_add, Word.toNat_ofInt]
  omega

theorem count_advanced (notNegative : 0 ≤ count) (within : count ≤ executor.n) :
    executor.n.toInt.toNat =
      count.toInt.toNat + (executor.advanced program count).n.toInt.toNat := by
  have isDifference : (executor.advanced program count).n.toInt =
      executor.n.toInt - count.toInt := by
    have high := executor.n.toInt_lt
    have low := Int32.le_iff_toInt_le.mp notNegative
    have bound := Int32.le_iff_toInt_le.mp within
    rw [Int32.toInt_zero] at low
    rw [Executor.n_advanced, Int32.toInt_sub]
    apply Int.bmod_eq_of_le <;> omega
  have low := Int32.le_iff_toInt_le.mp notNegative
  have bound := Int32.le_iff_toInt_le.mp within
  rw [Int32.toInt_zero] at low
  omega

/-- The first elements of a run and the others. -/
theorem run_split (valid : program.validate = .ok ())
    (isAligned : checkAligned program executor = .ok ())
    (flat : program.twoD = false) (notNegative : 0 ≤ count)
    (within : count ≤ executor.n)
    (whole : ∀ index, (program.var index).role.isArray = true →
      (program.var index).aligned = true →
      count.toInt * (program.var index).size % 4 = 0) (memory : FlatMemory) :
    run program executor memory =
      andThen (run program { executor with n := count } memory) fun middle =>
        relocated (fun row element => (row, element + count.toInt.toNat))
          (run program (executor.advanced program count) middle) := by
  have restAligned := checkAligned_advanced isAligned flat whole
  have isTotal : executor.n.toInt.toNat =
      count.toInt.toNat + (executor.advanced program count).n.toInt.toNat :=
    count_advanced notNegative within
  have isFirst :
      runElements program executor (resolveCode program) 0 count.toInt.toNat 0
        ⟨Vector.replicate 64 0, memory⟩ =
      runElements program { executor with n := count } (resolveCode program) 0
        count.toInt.toNat 0 ⟨Vector.replicate 64 0, memory⟩ := by
    have alike : ∀ number < count.toInt.toNat,
        Site.Like (fun row element => (row, element)) ⟨program, executor, 0,
          0 + number⟩ ⟨program, { executor with n := count }, 0, 0 + number⟩ :=
      fun _ _ => ⟨rfl, fun _ => rfl, fun _ _ => rfl, fun _ => rfl⟩
    rw [runElements_like alike, relocated_self]
  have isRest : ∀ next, runElements program executor (resolveCode program) 0
        (executor.advanced program count).n.toInt.toNat count.toInt.toNat next =
      relocated (fun row element => (row, element + count.toInt.toNat))
        (runElements program (executor.advanced program count)
          (resolveCode program) 0
          (executor.advanced program count).n.toInt.toNat 0 next) := by
    apply runElements_like
    intro number _
    rw [Nat.zero_add]
    exact like_advanced flat notNegative number
  rw [run_of_flat valid isAligned flat, isTotal, runElements_add, Nat.zero_add,
    isFirst, run_of_flat valid
      (show checkAligned program { executor with n := count } =
      .ok () from isAligned)
      flat]
  rcases runElements program { executor with n := count } _ 0 _ 0 _ with
    ⟨next, _ | fault⟩
  · simp only [isRest, ending_relocated]
    change _ = relocated _
      (run program (executor.advanced program count) next.memory)
    rw [run_of_flat valid restAligned flat]
    exact congrArg (relocated _) (ending_runElements _ valid 0 _ 0 rfl)
  · rfl

end Elements

section Rows

variable (twoD : program.twoD = true) (row : Nat)

include twoD

theorem like_atRow (element : Nat) :
    Site.Like (fun _ element => (row, element)) ⟨program, executor, row,
      element⟩ ⟨program.singleRow, executor.atRow row, 0, element⟩ where
  place_eq := rfl
  var _ := rfl
  scalar index := by
    unfold Site.scalar
    simp only [Executor.param_atRow]
    rfl
  address index distance := by
    have isFlat : program.singleRow.twoD = false := rfl
    have isVar : program.singleRow.var index = program.var index := rfl
    unfold Site.address
    simp only [Executor.array_atRow, Executor.rowStart, twoD, isFlat, isVar,
      if_true, Bool.false_eq_true, if_false]

theorem checkAligned_atRow
    (isAligned : checkAligned program executor = .ok ()) :
    checkAligned program.singleRow (executor.atRow row) = .ok () := by
  apply checkAligned_of_flat rfl
  intro index isArray promised
  have isStart := rowStart_aligned isAligned isArray promised row
  rw [twoD] at isStart
  rw [Executor.array_atRow]
  exact isStart

theorem ending_runRows (valid : program.validate = .ok ())
    (isAligned : checkAligned program executor = .ok ()) (count : Nat)
    (state : State) :
    ending (runRows program executor (resolveCode program)
      executor.n.toInt.toNat count row state) =
        runEachRow program executor count row state.memory := by
  induction count generalizing row state with
  | zero => rfl
  | succ count induction =>
    have isRow : runElements program executor (resolveCode program) row
        executor.n.toInt.toNat 0 state =
          relocated (fun _ element => (row, element))
          (runElements program.singleRow (executor.atRow row)
            (resolveCode program) 0 executor.n.toInt.toNat 0 state) :=
      runElements_like (fun number _ => like_atRow twoD row (0 + number)) state
    have isRun : run program.singleRow (executor.atRow row) state.memory =
        ending (runElements program.singleRow (executor.atRow row)
          (resolveCode program) 0 executor.n.toInt.toNat 0 state) := by
      rw [run_of_flat (Program.validate_singleRow valid)
        (checkAligned_atRow twoD row isAligned) rfl, Executor.n_atRow]
      exact ending_runElements _ (Program.validate_singleRow valid) 0 _ 0 rfl
    rw [runRows, runEachRow, isRow, isRun]
    rcases runElements program.singleRow (executor.atRow row) _ 0 _ 0 state with
      ⟨next, _ | fault⟩
    · exact induction (row + 1) next
    · rfl

theorem run_rows (valid : program.validate = .ok ())
    (isAligned : checkAligned program executor = .ok ()) (memory : FlatMemory) :
    run program executor memory =
      runEachRow program executor (rowCount program executor) 0 memory := by
  have isEnding :=
    ending_runRows twoD 0 valid isAligned (rowCount program executor)
    ⟨Vector.replicate 64 0, memory⟩
  rw [run_eq valid, isAligned]
  exact isEnding

end Rows

/-- Runs come apart.  On one row, a run is that of its first elements and then,
unless it failed, that of the others with the arrays moved on.  Over rows, it is
one run on one row for each, up to the first failure.  The temporaries in front
of an element do not matter. -/
theorem run_decomposes (valid : program.validate = .ok ())
    (isAligned : checkAligned program executor = .ok ()) (memory : FlatMemory) :
    (program.twoD = false → ∀ count : Int32, 0 ≤ count → count ≤ executor.n →
      (∀ index, (program.var index).role.isArray = true →
        (program.var index).aligned = true →
        count.toInt * (program.var index).size % 4 = 0) →
      run program executor memory =
        andThen (run program { executor with n := count } memory) fun middle =>
          relocated (fun row element => (row, element + count.toInt.toNat))
            (run program (executor.advanced program count) middle)) ∧
    (program.twoD = true →
      run program executor memory =
        runEachRow program executor (rowCount program executor) 0 memory) ∧
    ∀ refill, runRefilled refill program executor memory =
      run program executor memory := by
  refine ⟨?elements, ?rows, ?refilled⟩
  case elements =>
    intro flat count notNegative within whole
    exact run_split valid isAligned flat notNegative within whole memory
  case rows =>
    intro twoD
    exact run_rows twoD valid isAligned memory
  case refilled =>
    intro refill
    exact runRefilled_eq refill executor valid memory

/-- Copies words to an array that promises to be aligned. -/
def copiedWords (twoD : Bool) : Program :=
  (Program.build "copied" [.declare 0 4, .declare 4 4, .setAligned 0,
    .rows twoD, .append ⟨"copyl", 0, [0], [4]⟩]).toOption.getD default

/-- The destination is one word behind the source, and two rows are one word
apart. -/
def shiftedByWord : Executor :=
  { n := 2
    arrays := ((Vector.replicate 64 0).setIfInBounds 0 0x104).setIfInBounds 4
      0x100
    params :=
      (((Vector.replicate 64 0).setIfInBounds 0 4).setIfInBounds 4
        4).setIfInBounds 12 2 }

def oneWord : FlatMemory :=
  ⟨0x100, #[1, 2, 3, 4, 0, 0, 0, 0, 0, 0, 0, 0, 0, 0, 0, 0]⟩

/-- A word is copied over the ones behind it, in parts and row by row. -/
theorem run_decomposes_copiedWords :
    run (copiedWords false) shiftedByWord oneWord =
        andThen (run (copiedWords false) { shiftedByWord with n := 1 } oneWord)
          (fun middle =>
          relocated (fun row element =>
            (row, element + (1 : Int32).toInt.toNat))
            (run (copiedWords false)
              (shiftedByWord.advanced (copiedWords false) 1) middle)) ∧
      run (copiedWords true) shiftedByWord oneWord =
        runEachRow (copiedWords true) shiftedByWord
          (rowCount (copiedWords true) shiftedByWord) 0 oneWord ∧
      runRefilled (fun _ _ _ => Vector.replicate 64 7)
        (copiedWords true) shiftedByWord oneWord =
          run (copiedWords true) shiftedByWord oneWord := by
  have onRow := run_decomposes (show (copiedWords false).validate = .ok () by
    decide +kernel)
    (show checkAligned (copiedWords false) shiftedByWord = .ok () by
      decide +kernel) oneWord
  have onRows :=
    run_decomposes (show (copiedWords true).validate = .ok () by decide +kernel)
    (show checkAligned (copiedWords true) shiftedByWord = .ok () by
      decide +kernel) oneWord
  have whole : ∀ index ∈ (copiedWords false).arrays,
      ((copiedWords false).var index).aligned = true →
        (1 : Int32).toInt * ((copiedWords false).var index).size % 4 = 0 := by
    decide +kernel
  refine ⟨?_, onRows.2.1 (by decide +kernel), onRows.2.2 _⟩
  apply onRow.1 (by decide +kernel) 1 (by decide) (by decide)
  intro index isArray promised
  exact whole index (Program.mem_arrays isArray) promised

/-- Each row of two elements fills two words. -/
example : run (copiedWords true) shiftedByWord oneWord =
    (⟨0x100, #[1, 2, 3, 4, 1, 2, 3, 4, 1, 2, 3, 4, 1, 2, 3, 4]⟩, none) := by
  decide +kernel

end Reference

end LaneKernel
