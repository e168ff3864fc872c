import LaneKernel.Proofs.Checking
import LaneKernel.Proofs.FlatBytes
import LaneKernel.Proofs.Planning

/-!
# Runs of the reference interpreter

Which bytes an element reads and writes, what one instruction changes, and how
two runs are compared: they end alike if both go on in related states or both
stop with the same memory.
-/

namespace LaneKernel.Reference

namespace Site

/-- The place holds a byte of the element that is `distance` away from the
current one. -/
def Touches (site : Site) (index : VarIndex) (distance : Int)
    (place : Nat) : Prop :=
  (site.address index distance).toNat ≤ place ∧
    place < (site.address index distance).toNat +
      (site.program.var index).size.toNat

/-- The current elements of two arrays have no byte in common. -/
def Apart (site : Site) (first second : VarIndex) : Prop :=
  ∀ place, site.Touches first 0 place → ¬ site.Touches second 0 place

theorem apart_iff {site : Site} {first second : VarIndex} :
    site.Apart first second ↔
      (site.address first 0).toNat + (site.program.var first).size.toNat ≤
          (site.address second 0).toNat ∨
        (site.address second 0).toNat + (site.program.var second).size.toNat ≤
          (site.address first 0).toNat ∨
        (site.program.var first).size.toNat = 0 ∨
          (site.program.var second).size.toNat = 0 := by
  unfold Apart Touches
  constructor
  · intro apart
    have atFirst := apart (site.address first 0).toNat
    have atSecond := apart (site.address second 0).toNat
    omega
  · omega

instance (site : Site) (first second : VarIndex) :
    Decidable (site.Apart first second) :=
  decidable_of_iff _ apart_iff.symm

/-- The distance of a load with an offset, in elements. -/
def distance (site : Site) (instruction : Instruction) : Int :=
  (Lane.signExtend (site.scalar ((instruction.source? 1).getD 0)) 4).toInt

/-- An instruction reads the element of an array that is a number of elements
away. -/
def Reads (site : Site) (opcode : Opcode) (instruction : Instruction)
    (index : VarIndex) (distance : Int) : Prop :=
  match opcode.kind with
  | .loadOffset =>
      index = instruction.firstSource ∧ distance = site.distance instruction
  | _ =>
      index ∈ instruction.src ∧ (site.program.var index).role = .source ∧
        distance = 0

/-- An instruction writes the current element of an array. -/
def Writes (site : Site) (instruction : Instruction)
    (index : VarIndex) : Prop :=
  index = instruction.target ∧ (site.program.var index).role = .dest

end Site

namespace Site

variable {site : Site} {state : State} {index other : VarIndex} {word : UInt64}

theorem setValue_eq {place : Fin 64}
    (isPlace : Executor.place? 64 index = some place) :
    setValue state index word =
      ⟨state.values.set place.val word place.isLt, state.memory⟩ := by
  unfold setValue
  dsimp only
  rw [isPlace]

theorem value_setValue (inTable : 0 ≤ index ∧ index < 64) :
    value (setValue state index word) other = if other = index then word
      else value state other := by
  have isPlace : Executor.place? 64 index =
      some ⟨index.toNat, (Int.toNat_lt inTable.1).2 inTable.2⟩ :=
    dif_pos inTable
  rw [setValue_eq isPlace]
  unfold value
  by_cases same : other = index
  · rw [same, if_pos rfl, isPlace]
    exact Vector.getElem_set_self _
  · rw [if_neg same]
    by_cases otherInTable : 0 ≤ other ∧ other < 64
    · have isOther : Executor.place? 64 other =
          some ⟨other.toNat, (Int.toNat_lt otherInTable.1).2 otherInTable.2⟩ :=
        dif_pos otherInTable
      rw [isOther]
      have differ : index.toNat ≠ other.toNat := by
        intro equal
        rw [← Int.toNat_of_nonneg inTable.1,
          ← Int.toNat_of_nonneg otherInTable.1, equal] at same
        exact same rfl
      exact Vector.getElem_set_ne ((Int.toNat_lt inTable.1).2 inTable.2)
        _ differ
    · have isOther : Executor.place? 64 other = none := dif_neg otherInTable
      rw [isOther]

@[simp] theorem memory_setValue :
    (setValue state index word).memory = state.memory := by
  unfold setValue
  dsimp only
  split <;> rfl

theorem write_temp (isTemp : (site.program.var index).role = .temp) :
    site.write state index word =
      (setValue state index
        (Lane.truncate word (site.program.var index).size.toNat), none) := by
  unfold write
  rw [if_neg (by rw [isTemp]; decide)]

theorem write_dest (isDest : (site.program.var index).role = .dest) :
    site.write state index word =
      (⟨state.values,
        (state.memory.store (site.address index 0)
        (site.program.var index).size.toNat
          (Lane.truncate word (site.program.var index).size.toNat)).1⟩,
      (state.memory.store (site.address index 0)
        (site.program.var index).size.toNat
          (Lane.truncate word (site.program.var index).size.toNat)).2) := by
  unfold write
  rw [if_pos isDest]
  rfl

end Site

/-- The instructions of a list with their opcodes. -/
def resolve (code : List Instruction) : List (Opcode × Instruction) :=
  code.filterMap fun instruction =>
    (Opcode.lookup? instruction.opcode).map fun opcode => (opcode, instruction)

theorem resolveCode_eq (program : Program) :
    resolveCode program = resolve program.code.toList := rfl

@[simp] theorem resolve_nil : resolve [] = [] := rfl

theorem resolve_append (front back : List Instruction) :
    resolve (front ++ back) = resolve front ++ resolve back :=
  List.filterMap_append

theorem resolve_cons {instruction : Instruction} {opcode : Opcode}
    {rest : List Instruction}
    (found : Opcode.lookup? instruction.opcode = some opcode) :
    resolve (instruction :: rest) = (opcode, instruction) :: resolve rest := by
  unfold resolve
  rw [List.filterMap_cons, found]
  rfl

namespace Site

variable {site : Site} {state : State} {opcode : Opcode}
  {instruction : Instruction}

/-- The same element of another program. -/
def within (site : Site) (program : Program) :
    Site := { site with program := program }

section Extended

variable {final : Program} (isExtended : site.program.Extends final)
  {index : VarIndex} (declared : (site.program.var index).declared = true)

include isExtended declared

theorem address_within (distance : Int) :
    (site.within final).address index distance =
      site.address index distance := by
  unfold address within
  simp only [isExtended.twoD, isExtended.var index declared]

theorem scalar_within :
    (site.within final).scalar index = site.scalar index := by
  unfold scalar within
  simp only [isExtended.var index declared]

end Extended

theorem read_source {index : VarIndex}
    (isSource : (site.program.var index).role = .source) (size lanes : Nat) :
    site.read state index size lanes =
      state.memory.load (site.address index 0)
        (site.program.var index).size.toNat := by
  unfold read
  dsimp only
  rw [isSource]

theorem read_scalar {index : VarIndex}
    (isScalar : (site.program.var index).role.isScalar = true)
    (size lanes : Nat) :
    site.read state index size lanes =
      .ok (Lane.replicate (site.scalar index) size lanes) := by
  unfold read
  dsimp only
  cases isRole : (site.program.var index).role with
  | const | param => rfl
  | none | dest | source | accumulator | temp =>
      rw [isRole] at isScalar
      cases isScalar

theorem read_temp {index : VarIndex}
    (isTemp : (site.program.var index).role = .temp) (size lanes : Nat) :
    site.read state index size lanes = .ok (value state index) := by
  unfold read
  dsimp only
  rw [isTemp]

theorem readTemps {temps : List VarIndex} {size lanes : Nat}
    (areTemps : ∀ index ∈ temps, (site.program.var index).role = .temp) :
    (temps.mapM fun index => site.read state index size lanes) =
      .ok (temps.map (value state)) := by
  induction temps with
  | nil => rfl
  | cons index rest induction =>
      rw [List.mapM_cons, read_temp (areTemps index List.mem_cons_self),
        induction fun other isOther =>
          areTemps other (List.mem_cons_of_mem _ isOther)]
      rfl

/-- The value of an arithmetic instruction from the values of its sources. -/
def combine (op : ArithOp) (size lanes : Nat) (words : List UInt64) : UInt64 :=
  op.evalLanes size (words.headD 0) (words[1]?.getD 0) lanes

theorem result_arith {op : ArithOp} (isArith : opcode.kind = .arith op)
    (count : instruction.src.length = opcode.sources) :
    site.result state opcode instruction =
      (instruction.src.mapM fun index =>
        site.read state index opcode.size instruction.lanes).map
        (combine op opcode.size instruction.lanes) := by
  unfold result
  rw [Opcode.sources, isArith] at count
  rw [isArith]
  dsimp only at count ⊢
  have isArity : op.arity = 1 ∨ op.arity = 2 := by
    cases op with
    | copy => exact .inl rfl
    | _ => exact .inr rfl
  unfold Instruction.firstSource Instruction.source?
  rcases isSrc : instruction.src with
    _ | ⟨first, _ | ⟨second, _ | ⟨third, rest⟩⟩⟩
  · rw [isSrc, List.length_nil] at count
    omega
  · rw [isSrc, List.length_singleton] at count
    rw [← count]
    rw [List.mapM_cons, List.mapM_nil]
    cases isFirst : site.read state first opcode.size instruction.lanes with
    | error cause => simp [isFirst, bind, Except.bind, Except.map]
    | ok word =>
        simp [isFirst, bind, Except.bind, Except.map, pure, Except.pure,
          combine]
  · rw [isSrc, List.length_cons, List.length_singleton] at count
    rw [← count]
    simp only [List.mapM_cons, List.mapM_nil]
    cases isFirst : site.read state first opcode.size instruction.lanes with
    | error cause => simp [isFirst, bind, Except.bind, Except.map]
    | ok word =>
        cases isSecond : site.read state second opcode.size
          instruction.lanes with
        | error cause => simp [isFirst, isSecond, bind, Except.bind, Except.map]
        | ok other =>
            simp [isFirst, isSecond, bind, Except.bind, Except.map, pure,
              Except.pure, combine]
  · rw [isSrc] at count
    simp only [List.length_cons] at count
    omega

end Site

/-- Both runs go on in related states, or both stop with the same memory. -/
inductive Alike {α β : Type} (related : State → State → Prop) :
    State × Option α → State × Option β → Prop where
  | onward {first second : State} : related first second →
      Alike related (first, none) (second, none)
  | stopped {first second : State} {cause : α} {other : β} : second.memory =
      first.memory →
      Alike related (first, some cause) (second, some other)

namespace Alike

variable {related further : State → State → Prop}

theorem mono {α β : Type} {first : State × Option α} {second : State × Option β}
    (alike : Alike related first second)
    (weaker : ∀ first second, related first second → further first second) :
    Alike further first second := by
  cases alike with
  | onward isRelated => exact .onward (weaker _ _ isRelated)
  | stopped same => exact .stopped same

end Alike

theorem Site.runCode_append (site : Site) (state : State)
    (front back : List (Opcode × Instruction)) :
    site.runCode state (front ++ back) =
      match site.runCode state front with
      | (next, none) => site.runCode next back
      | stopped => stopped := by
  induction front generalizing state with
  | nil => rfl
  | cons entry rest induction =>
      obtain ⟨opcode, instruction⟩ := entry
      rw [List.cons_append, runCode, runCode]
      rcases site.step state opcode instruction with ⟨next, _ | fault⟩
      · exact induction next
      · rfl

/-- Runs a step with `count` numbers from `first` on, up to the first one that
fails.  The elements of a row are run so, and so are the rows. -/
def repeated {ε : Type} (step : Nat → State → State × Option ε) :
    Nat → Nat → State → State × Option ε
  | 0, _, state => (state, none)
  | count + 1, first, state =>
      match step first state with
      | (next, none) => repeated step count (first + 1) next
      | stopped => stopped

section Repeated

variable {ε : Type} {step : Nat → State → State × Option ε}

theorem repeated_add (count more first : Nat) (state : State) :
    repeated step (count + more) first state =
      match repeated step count first state with
      | (next, none) => repeated step more (first + count) next
      | stopped => stopped := by
  induction count generalizing first state with
  | zero => simp [repeated]
  | succ count induction =>
      rw [Nat.succ_add, repeated, repeated]
      rcases step first state with ⟨next, _ | fault⟩
      · simp only [induction, Nat.add_assoc, Nat.add_comm 1]
      · rfl

theorem repeated_one (first : Nat) (state : State) :
    repeated step 1 first state = step first state := by
  rw [repeated]
  rcases step first state with ⟨next, _ | fault⟩ <;> rfl

/-- Steps that all succeed are those in front and those behind. -/
theorem repeated_add_eq {count more first : Nat} {state last : State} :
    repeated step (count + more) first state = (last, none) ↔
      ∃ middle, repeated step count first state = (middle, none) ∧
        repeated step more (first + count) middle = (last, none) := by
  rw [repeated_add]
  rcases repeated step count first state with ⟨next, _ | fault⟩ <;> simp

theorem Alike.repeated {ζ : Type} {related : State → State → Prop}
    {other : Nat → State → State × Option ζ} {count first : Nat}
    {state otherState : State}
    (alike : ∀ place, first ≤ place → place < first + count →
      ∀ state otherState,
      related state otherState →
        Alike related (step place state) (other place otherState))
    (isRelated : related state otherState) :
    Alike related (repeated step count first state)
      (repeated other count first otherState) := by
  induction count generalizing first state otherState with
  | zero => exact .onward isRelated
  | succ count induction =>
      have here := alike first (Nat.le_refl _) (by omega) state otherState
        isRelated
      rw [Reference.repeated, Reference.repeated]
      generalize step first state = outcome at here
      generalize other first otherState = otherOutcome at here
      cases here with
      | onward isNext =>
          exact induction (fun place above below =>
            alike place (by omega) (by omega)) isNext
      | stopped same => exact .stopped same

end Repeated

section Runs

variable {related : State → State → Prop} {program other : Program}
  {executor : Executor} {code otherCode : List (Opcode × Instruction)}
  {row : Nat}

theorem runElements_eq (count element : Nat) (state : State) :
    runElements program executor code row count element state =
      repeated (fun place start =>
        Site.runCode ⟨program, executor, row, place⟩ start code) count
        element state := by
  induction count generalizing element state with
  | zero => rfl
  | succ count induction =>
      rw [runElements, repeated]
      rcases Site.runCode ⟨program, executor, row, element⟩ state code with
        ⟨next, _ | fault⟩
      · exact induction _ _
      · rfl

theorem runRows_eq (elements count first : Nat) (state : State) :
    runRows program executor code elements count first state =
      repeated (fun place start =>
        runElements program executor code place elements 0 start) count
        first state := by
  induction count generalizing first state with
  | zero => rfl
  | succ count induction =>
      rw [runRows, repeated]
      rcases runElements program executor code first elements 0 state with
        ⟨next, _ | fault⟩
      · exact induction _ _
      · rfl

/-- Rows whose elements run alike run alike. -/
theorem Alike.runElements {count element : Nat} {first second : State}
    (alike : ∀ place, element ≤ place → place < element + count →
      ∀ first second,
      related first second →
      Alike related (Site.runCode ⟨program, executor, row, place⟩ first code)
        (Site.runCode ⟨other, executor, row, place⟩ second otherCode))
    (isRelated : related first second) :
    Alike related (runElements program executor code row count element first)
      (runElements other executor otherCode row count element second) := by
  rw [runElements_eq, runElements_eq]
  exact .repeated alike isRelated

/-- Runs whose rows run alike run alike. -/
theorem Alike.runRows {elements count first : Nat} {state otherState : State}
    (alike : ∀ place, first ≤ place → place < first + count →
      ∀ state otherState,
      related state otherState →
      Alike related (Reference.runElements program executor code place elements
        0 state) (Reference.runElements other executor otherCode place elements
          0 otherState))
    (isRelated : related state otherState) :
    Alike related (runRows program executor code elements count first state)
      (runRows other executor otherCode elements count first otherState) := by
  rw [runRows_eq, runRows_eq]
  exact .repeated alike isRelated

end Runs

theorem run_eq {program : Program} (valid : program.validate = .ok ())
    (executor : Executor) (memory : FlatMemory) :
    run program executor memory =
      match checkAligned program executor with
      | .error cause => (memory, some (.invalid cause))
      | .ok () =>
          ((runRows program executor (resolveCode program)
            executor.n.toInt.toNat
              (rowCount program executor) 0 ⟨Vector.replicate 64 0,
                memory⟩).1.memory,
            (runRows program executor (resolveCode program)
              executor.n.toInt.toNat (rowCount program executor) 0
                ⟨Vector.replicate 64 0, memory⟩).2) := by
  unfold run
  rw [valid]
  change (match checkAligned program executor with
    | .error cause => _
    | .ok () => _) = _
  cases checkAligned program executor <;> rfl

end LaneKernel.Reference
