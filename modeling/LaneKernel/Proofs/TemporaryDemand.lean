import LaneKernel.Proofs.LoweredPrograms
import Mathlib.Data.Finset.Card

/-!
# The temporaries that a lowering needs

A lowering keeps the temporaries of the program and takes a new one for every
source array and every broadcast that arithmetic or a store reads, and for every
result that goes to an array.  `Lowering.cost` is what a state has taken and
what the rest of the code will take; no step changes it, so a lowering succeeds
exactly when the number for the whole program is not above the number of slots.
-/

namespace LaneKernel

/-- The operands that have to be temporaries. -/
def Opcode.placed (entry : Opcode × Instruction) : List VarIndex :=
  match entry.1.kind with
  | .arith _ | .store => entry.2.src
  | .load | .loadOffset | .loadParam => []

namespace Program

variable (program : Program)

/-- The source arrays among operands. -/
def loadsOf (indices : List VarIndex) : List VarIndex :=
  indices.filter fun index => (program.var index).role = .source

/-- The broadcasts among operands for lanes of `size` bytes: constants and
parameters with the lanes that they fill. -/
def broadcastsOf (size lanes : Nat) (indices : List VarIndex) :
    List (VarIndex × Nat × Nat) :=
  (indices.filter fun index => (program.var index).role.isScalar).map
    fun index =>
    (index, size, lanes)

/-- The source arrays that arithmetic and stores read. -/
def readArrays (code : List (Opcode × Instruction)) : List VarIndex :=
  code.flatMap fun entry => program.loadsOf (Opcode.placed entry)

/-- The constants and parameters that arithmetic and stores read, with the lanes
that they fill. -/
def readScalars (code : List (Opcode × Instruction)) :
    List (VarIndex × Nat × Nat) :=
  code.flatMap fun entry =>
    program.broadcastsOf entry.1.size entry.2.lanes (Opcode.placed entry)

/-- Whether an instruction other than a store writes an array. -/
def writesArray (entry : Opcode × Instruction) : Bool :=
  entry.1.kind != .store && (program.var entry.2.target).role == .dest

/-- The number of temporaries that the lowered program has. -/
def temporaries : Nat :=
  (Compiler.declaredTemps program).length
    + (program.readArrays (Reference.resolveCode program)).toFinset.card
    + (program.readScalars (Reference.resolveCode program)).toFinset.card
    + (Reference.resolveCode program).countP program.writesArray

end Program

namespace Lowering

variable {program : Program} {state middle next : Lowering}
  {instruction : Instruction} {opcode : Opcode} {size lanes width : Nat}
  {index temp : VarIndex}

/-- The number of declared temporaries. -/
def used (state : Lowering) : Nat := (Compiler.declaredTemps state.out).length

theorem nodup_tempSlots : tempSlots.Nodup := by decide

theorem Free.mem (free : state.Free temp) : temp ∈ tempSlots :=
  List.mem_of_find?_eq_some free

theorem Free.used_withTemp (free : state.Free temp) (width : Nat) :
    (state.withTemp temp width).used = state.used + 1 := by
  have asSet : ∀ state : Lowering,
      state.used = (Compiler.declaredTemps state.out).toFinset.card :=
    fun state => (List.toFinset_card_of_nodup (nodup_tempSlots.filter _)).symm
  have isInsert :
      (Compiler.declaredTemps (state.withTemp temp width).out).toFinset =
      insert temp (Compiler.declaredTemps state.out).toFinset := by
    ext other
    unfold Compiler.declaredTemps
    simp only [List.mem_toFinset, List.mem_filter, Finset.mem_insert]
    rw [free.var]
    by_cases same : other = temp
    · rw [same, if_pos rfl]
      exact ⟨fun _ => .inl rfl, fun _ => ⟨free.mem, rfl⟩⟩
    · rw [if_neg same]
      simp [same]
  have isNew : temp ∉ (Compiler.declaredTemps state.out).toFinset := by
    rw [List.mem_toFinset]
    intro isDeclared
    have declared := (List.mem_filter.mp isDeclared).2
    rw [free.undeclared] at declared
    cases declared
  rw [asSet, asSet, isInsert, Finset.card_insert_of_notMem isNew]

theorem exists_free (room : state.used < 16) : ∃ temp, state.Free temp := by
  cases isFree : tempSlots.find? fun index =>
    !(state.out.var index).declared with
  | some temp => exact ⟨temp, isFree⟩
  | none =>
      have all : ∀ index ∈ tempSlots,
          (state.out.var index).declared = true := by
        intro index isSlot
        simpa using List.find?_eq_none.mp isFree index isSlot
      have isFull : state.used = tempSlots.length :=
        congrArg List.length (List.filter_eq_self.mpr all)
      rw [isFull] at room
      exact absurd room (by decide)

/-- How many wanted things are not held yet. -/
def missing {α : Type} [DecidableEq α] (held wanted : List α) : Nat :=
  (wanted.toFinset \ held.toFinset).card

section Missing

variable {α : Type} [DecidableEq α] {held wanted : List α} {item : α}

theorem missing_nil : missing held [] = 0 := by
  unfold missing
  simp

theorem missing_of_held (isHeld : item ∈ held) :
    missing held (item :: wanted) = missing held wanted := by
  unfold missing
  rw [List.toFinset_cons,
    Finset.insert_sdiff_of_mem _ (List.mem_toFinset.mpr isHeld)]

theorem missing_of_new (isNew : item ∉ held) :
    missing held (item :: wanted) = missing (item :: held) wanted + 1 := by
  have isInsert : (item :: wanted).toFinset \ held.toFinset =
      insert item (wanted.toFinset \ (item :: held).toFinset) := by
    ext other
    by_cases same : other = item
    · simp [same, isNew]
    · simp [same]
  unfold missing
  rw [isInsert, Finset.card_insert_of_notMem (by simp)]

end Missing

/-- What a state has taken and what code that asks for the given arrays,
broadcasts and results will take. -/
def cost (state : Lowering) (arrays : List VarIndex)
    (scalars : List (VarIndex × Nat × Nat)) (results : Nat) : Nat :=
  state.used + missing (state.loaded.map Prod.fst) arrays
    + missing (state.broadcast.map Prod.fst) scalars + results

theorem not_mem_keys {α : Type} {pairs : List (α × VarIndex)} {key : α}
    (isNew : ∀ value, (key, value) ∉ pairs) : key ∉ pairs.map Prod.fst := by
  intro isMember
  obtain ⟨⟨_, value⟩, isPair, rfl⟩ := List.mem_map.mp isMember
  exact isNew value isPair

section Requests

variable (size lanes)

theorem requests_of_temp (isTemp : (program.var index).role = .temp) :
    program.loadsOf [index] = [] ∧
      program.broadcastsOf size lanes [index] = [] := by
  unfold Program.loadsOf Program.broadcastsOf
  simp [isTemp, Role.isScalar]

theorem requests_of_source (isSource : (program.var index).role = .source) :
    program.loadsOf [index] = [index] ∧
      program.broadcastsOf size lanes [index] = [] := by
  unfold Program.loadsOf Program.broadcastsOf
  simp [isSource, Role.isScalar]

theorem requests_of_scalar
    (isScalar : (program.var index).role.isScalar = true) :
    program.loadsOf [index] = [] ∧
      program.broadcastsOf size lanes [index] = [(index, size, lanes)] := by
  have notSource : (program.var index).role ≠ .source := by
    intro isSource
    rw [isSource] at isScalar
    cases isScalar
  unfold Program.loadsOf Program.broadcastsOf
  simp [isScalar, notSource]

theorem loadsOf_cons (rest : List VarIndex) :
    program.loadsOf (index :: rest) = program.loadsOf [index] ++
      program.loadsOf rest := by
  unfold Program.loadsOf
  rw [← List.filter_append]
  rfl

theorem broadcastsOf_cons (rest : List VarIndex) :
    program.broadcastsOf size lanes (index :: rest) =
      program.broadcastsOf size lanes [index] ++
        program.broadcastsOf size lanes rest := by
  unfold Program.broadcastsOf
  rw [← List.map_append, ← List.filter_append]
  rfl

end Requests

section Steps

variable {arrays : List VarIndex} {scalars : List (VarIndex × Nat × Nat)}
  {results : Nat}

theorem cost_nil : state.cost [] [] 0 = state.used := by
  unfold cost
  rw [missing_nil, missing_nil]
  rfl

theorem cost_emit (name : String) (flags : UInt8) (dest : VarIndex)
    (src : List VarIndex) :
    (state.emit name flags dest src).cost arrays scalars results =
      state.cost arrays scalars results := rfl

theorem Free.cost_withTemp (free : state.Free temp) :
    (state.withTemp temp width).cost arrays scalars results =
      state.cost arrays scalars (results + 1) := by
  have sameLoaded : (state.withTemp temp width).loaded = state.loaded := rfl
  have sameBroadcast :
      (state.withTemp temp width).broadcast = state.broadcast := rfl
  unfold cost
  rw [free.used_withTemp, sameLoaded, sameBroadcast]
  omega

/-- A temporary for an operand is paid for by what the operand asks for. -/
theorem Operand.cost_eq
    (operand : Operand program size lanes state index temp next) :
    next.cost arrays scalars results =
      state.cost (program.loadsOf [index] ++ arrays)
        (program.broadcastsOf size lanes [index] ++ scalars) results := by
  cases operand with
  | temp isTemp =>
      obtain ⟨noLoad, noBroadcast⟩ := requests_of_temp size lanes isTemp
      rw [noLoad, noBroadcast, List.nil_append, List.nil_append]
  | loaded isSource isLoaded =>
      obtain ⟨isLoad, noBroadcast⟩ := requests_of_source size lanes isSource
      rw [isLoad, noBroadcast, List.singleton_append, List.nil_append]
      unfold cost
      rw [missing_of_held (List.mem_map_of_mem isLoaded)]
  | load isSource isNew free =>
      obtain ⟨isLoad, noBroadcast⟩ := requests_of_source size lanes isSource
      rw [isLoad, noBroadcast, List.singleton_append, List.nil_append]
      have isUsed : (state.withLoad index temp (size * lanes)).used =
          state.used + 1 :=
        free.used_withTemp (size * lanes)
      have isHeld : (state.withLoad index temp (size * lanes)).loaded.map
          Prod.fst = index :: state.loaded.map Prod.fst := rfl
      have sameBroadcast :
          (state.withLoad index temp (size * lanes)).broadcast =
          state.broadcast := rfl
      unfold cost
      rw [isUsed, isHeld, sameBroadcast, missing_of_new (not_mem_keys isNew)]
      omega
  | filled isScalar isKept =>
      obtain ⟨noLoad, isBroadcast⟩ := requests_of_scalar size lanes isScalar
      rw [noLoad, isBroadcast, List.singleton_append, List.nil_append]
      unfold cost
      rw [missing_of_held (List.mem_map_of_mem isKept)]
  | broadcast isScalar isNew free =>
      obtain ⟨noLoad, isBroadcast⟩ := requests_of_scalar size lanes isScalar
      rw [noLoad, isBroadcast, List.singleton_append, List.nil_append]
      have isUsed : (state.withBroadcast index temp size lanes).used =
          state.used + 1 :=
        free.used_withTemp (size * lanes)
      have isHeld : (state.withBroadcast index temp size lanes).broadcast.map
          Prod.fst = (index, size, lanes) :: state.broadcast.map Prod.fst := rfl
      have sameLoaded : (state.withBroadcast index temp size lanes).loaded =
          state.loaded := rfl
      unfold cost
      rw [isUsed, isHeld, sameLoaded, missing_of_new (not_mem_keys isNew)]
      omega

theorem Operands.cost_eq {indices temps : List VarIndex}
    (operands : Operands program size lanes state indices temps next) :
    next.cost arrays scalars results =
      state.cost (program.loadsOf indices ++ arrays)
        (program.broadcastsOf size lanes indices ++ scalars) results := by
  induction operands with
  | nil => rfl
  | @cons _ _ _ index _ rest _ first _ induction =>
      rw [induction, first.cost_eq, loadsOf_cons rest,
        broadcastsOf_cons _ _ rest, List.append_assoc, List.append_assoc]

theorem Result.cost_eq {src : List VarIndex}
    (result : Result program instruction width src state next) :
    next.cost arrays scalars results =
      state.cost arrays scalars
        (results + if (program.var instruction.target).role = .dest then 1
          else 0) := by
  cases result with
  | temp isTemp =>
      rw [if_neg (by rw [isTemp]; decide), cost_emit]
      rfl
  | array isDest free =>
      rw [if_pos isDest, cost_emit, cost_emit, free.cost_withTemp]

theorem cost_cons (rest : List (Opcode × Instruction)) :
    state.cost (program.readArrays ((opcode, instruction) :: rest))
        (program.readScalars ((opcode, instruction) :: rest))
        (((opcode, instruction) :: rest).countP program.writesArray) =
      state.cost (program.loadsOf (Opcode.placed (opcode, instruction)) ++
        program.readArrays rest)
        (program.broadcastsOf opcode.size instruction.lanes
          (Opcode.placed (opcode, instruction))
          ++ program.readScalars rest)
        (rest.countP program.writesArray +
          if opcode.kind ≠ .store ∧
            (program.var instruction.target).role = .dest then 1
          else 0) := by
  rw [List.countP_cons]
  simp only [Program.writesArray, Bool.and_eq_true, bne_iff_ne, beq_iff_eq]
  rfl

/-- An instruction takes what it asks for. -/
theorem Lowers.cost_eq {rest : List (Opcode × Instruction)}
    (checked : program.Checked instruction opcode)
    (lowers : Lowers program instruction opcode state next) :
    next.cost (program.readArrays rest) (program.readScalars rest)
        (rest.countP program.writesArray) =
      state.cost (program.readArrays ((opcode, instruction) :: rest))
        (program.readScalars ((opcode, instruction) :: rest))
        (((opcode, instruction) :: rest).countP program.writesArray) := by
  rw [cost_cons]
  cases lowers with
  | move isMove result =>
      have isKind : opcode.kind ≠ .store ∧
          Opcode.placed (opcode, instruction) = [] := by
        unfold Opcode.isLoad at isMove
        unfold Opcode.placed
        cases isKind : opcode.kind <;> simp [isKind] at isMove ⊢
      rw [result.cost_eq, isKind.2]
      simp only [isKind.1, ne_eq, not_false_eq_true, true_and]
      rfl
  | store isStore operand =>
      have isPlaced :
          Opcode.placed (opcode, instruction) = instruction.src := by
        unfold Opcode.placed
        simp only [isStore]
      have isSingle := checked.single (by rw [Opcode.sources, isStore])
      rw [cost_emit, operand.cost_eq, isPlaced, isSingle,
        if_neg (by simp [isStore])]
      rfl
  | arith isArith operands result =>
      have isPlaced :
          Opcode.placed (opcode, instruction) = instruction.src := by
        unfold Opcode.placed
        simp only [isArith]
      rw [result.cost_eq, operands.cost_eq, isPlaced]
      simp only [isArith, ne_eq, reduceCtorEq, not_false_eq_true, true_and]

/-- What the code asks for is what its lowering takes. -/
theorem Chain.cost_eq {code : List Instruction}
    (chain : Chain program state code next)
    {entries : List (Opcode × Instruction)}
    (isEntries : entries = code.filterMap fun instruction =>
      (Opcode.lookup? instruction.opcode).map fun opcode =>
        (opcode, instruction)) :
    state.cost (program.readArrays entries) (program.readScalars entries)
      (entries.countP program.writesArray) = next.used := by
  induction chain generalizing entries with
  | nil =>
      rw [isEntries]
      exact cost_nil
  | @cons _ _ _ instruction rest opcode checked lowers _ induction =>
      rw [List.filterMap_cons, checked.found] at isEntries
      rw [isEntries]
      exact (lowers.cost_eq checked).symm.trans (induction rfl)

end Steps

section Succeeds

variable {arrays : List VarIndex} {scalars : List (VarIndex × Nat × Nat)}
  {results : Nat} (isSound : Sound program state)

theorem newTemp_succeeds (state : Lowering)
    (valid : Lane.validSize ↑width = true) (room : state.used < 16) :
    ∃ temp, state.newTemp width = .ok (temp, state.withTemp temp width) := by
  obtain ⟨temp, free⟩ := exists_free room
  exact ⟨temp, (newTemp_eq_ok valid).mpr ⟨free, rfl⟩⟩

include isSound

theorem operand_succeeds {place : Nat}
    (valid : Lane.validSize ↑(size * lanes) = true)
    (readable : program.Readable opcode (size * lanes) place index)
    (room : state.cost (program.loadsOf [index] ++ arrays)
      (program.broadcastsOf size lanes [index] ++ scalars) results ≤ 16) :
    ∃ temp next, state.operand index size lanes = .ok (temp, next) := by
  have same := isSound.isExtended.var index
    (Program.declared_eq_true.mpr readable.usable.1)
  have role := readable.role
  unfold operand
  rw [same]
  cases isRole : (program.var index).role with
  | none | dest | accumulator => simp [isRole, Role.isScalar] at role
  | temp => exact ⟨_, _, rfl⟩
  | source =>
      cases isLoaded : state.loaded.lookup index with
      | some kept => exact ⟨_, _, rfl⟩
      | none =>
          rw [(requests_of_source size lanes isRole).1] at room
          unfold cost at room
          rw [List.singleton_append,
            missing_of_new (not_mem_keys (not_mem_of_lookup isLoaded))] at room
          obtain ⟨temp, isNew⟩ := newTemp_succeeds state valid (by omega)
          simp only [isNew, bind, Except.bind]
          exact ⟨_, _, rfl⟩
  | const | param =>
      cases isKept : state.broadcast.lookup (index, size, lanes) with
      | some kept => exact ⟨_, _, rfl⟩
      | none =>
          have isScalar : (program.var index).role.isScalar = true := by
            rw [isRole]; rfl
          rw [(requests_of_scalar size lanes isScalar).2] at room
          unfold cost at room
          rw [List.singleton_append,
            missing_of_new (not_mem_keys (not_mem_of_lookup isKept))] at room
          obtain ⟨temp, isNew⟩ := newTemp_succeeds state valid (by omega)
          simp only [isNew, bind, Except.bind]
          exact ⟨_, _, rfl⟩

theorem operands_succeeds (place : Nat) {indices : List VarIndex}
    (valid : Lane.validSize ↑(size * lanes) = true)
    (readable : ∀ number index, indices[number]? = some index →
      program.Readable opcode (size * lanes) (place + number) index)
    (room : state.cost (program.loadsOf indices ++ arrays)
      (program.broadcastsOf size lanes indices ++ scalars) results ≤ 16) :
    ∃ temps next, state.operands size lanes indices = .ok (temps, next) := by
  induction indices generalizing state place with
  | nil => exact ⟨_, _, rfl⟩
  | cons index rest induction =>
      rw [loadsOf_cons rest, broadcastsOf_cons _ _ rest, List.append_assoc,
        List.append_assoc] at room
      have readFirst := readable 0 index rfl
      obtain ⟨temp, middle, isFirst⟩ :=
        operand_succeeds isSound valid readFirst room
      have first := operand_eq_ok isSound valid readFirst isFirst
      rw [← first.cost_eq] at room
      obtain ⟨temps, next, isRest⟩ :=
        induction (first.sound isSound valid readFirst) (place + 1) (by
          intro number other isOther
          rw [Nat.add_assoc, Nat.add_comm 1]
          exact readable (number + 1) other
            (by rw [List.getElem?_cons_succ]; exact isOther)) room
      unfold operands
      simp only [isFirst, bind, Except.bind, isRest]
      exact ⟨_, _, rfl⟩

theorem writeResult_succeeds {src : List VarIndex}
    (checked : program.Checked instruction opcode)
    (room : state.cost arrays scalars
      (results + if (program.var instruction.target).role = .dest then 1
        else 0) ≤ 16) :
    ∃ next, state.writeResult instruction (opcode.size * instruction.lanes)
      src = .ok next := by
  have same := isSound.isExtended.var _ checked.target_declared
  unfold writeResult
  simp only [same]
  by_cases isDest : (program.var instruction.target).role = .dest
  · rw [if_pos isDest] at room ⊢
    unfold cost at room
    obtain ⟨temp, isNew⟩ := newTemp_succeeds state checked.valid (by omega)
    simp only [isNew, bind, Except.bind]
    exact ⟨_, rfl⟩
  · rw [if_neg isDest]
    exact ⟨_, rfl⟩

theorem lower_succeeds (checked : program.Checked instruction opcode)
    {rest : List (Opcode × Instruction)}
    (room : state.cost (program.readArrays ((opcode, instruction) :: rest))
      (program.readScalars ((opcode, instruction) :: rest))
      (((opcode, instruction) :: rest).countP program.writesArray) ≤ 16) :
    ∃ next, state.lower instruction = .ok next := by
  rw [cost_cons] at room
  unfold lower
  rw [checked.found]
  cases isKind : opcode.kind with
  | load | loadOffset | loadParam =>
      simp only [isKind, ne_eq, reduceCtorEq, not_false_eq_true, true_and]
        at room ⊢
      exact writeResult_succeeds isSound checked room
  | store =>
      have isPlaced :
          Opcode.placed (opcode, instruction) = [instruction.firstSource] := by
        unfold Opcode.placed
        simp only [isKind]
        exact checked.single (by rw [Opcode.sources, isKind])
      rw [isPlaced] at room
      obtain ⟨temp, middle, isOperand⟩ := operand_succeeds isSound checked.valid
        (checked.readable 0 _ checked.first) room
      simp only [isKind, isOperand, bind, Except.bind]
      exact ⟨_, rfl⟩
  | arith op =>
      have isPlaced :
          Opcode.placed (opcode, instruction) = instruction.src := by
        unfold Opcode.placed
        simp only [isKind]
      rw [isPlaced] at room
      obtain ⟨temps, middle, isOperands⟩ :=
        operands_succeeds isSound 0 checked.valid
        checked.readableFrom room
      have operands :=
        operands_eq_ok isSound 0 checked.valid checked.readableFrom isOperands
      rw [← operands.cost_eq] at room
      simp only [isKind, ne_eq, reduceCtorEq, not_false_eq_true,
        true_and] at room
      obtain ⟨next, isResult⟩ : ∃ next, middle.writeResult instruction
          (opcode.size * instruction.lanes) temps = .ok next :=
        writeResult_succeeds
          (operands.sound isSound 0 checked.valid checked.readableFrom)
          checked room
      simp only [isKind, isOperands, bind, Except.bind]
      exact ⟨next, isResult⟩

/-- Code is lowered as long as what it asks for can be taken. -/
theorem foldlM_succeeds {code : List Instruction}
    (checked : ∀ instruction ∈ code, ∃ opcode,
      program.Checked instruction opcode)
    {entries : List (Opcode × Instruction)}
    (isEntries : entries = code.filterMap fun instruction =>
      (Opcode.lookup? instruction.opcode).map fun opcode =>
        (opcode, instruction))
    (room : state.cost (program.readArrays entries)
      (program.readScalars entries) (entries.countP program.writesArray) ≤ 16) :
    ∃ next, code.foldlM Lowering.lower state = .ok next := by
  induction code generalizing state entries with
  | nil => exact ⟨_, rfl⟩
  | cons instruction rest induction =>
      obtain ⟨opcode, isChecked⟩ := checked instruction List.mem_cons_self
      rw [List.filterMap_cons, isChecked.found] at isEntries
      rw [isEntries] at room
      obtain ⟨middle, isFirst⟩ := lower_succeeds isSound isChecked room
      have lowers := lower_eq_ok isSound isChecked isFirst
      have paid := (lowers.cost_eq isChecked).trans_le room
      obtain ⟨next, isRest⟩ := induction (lowers.sound isSound isChecked)
        (fun other isOther => checked other (List.mem_cons_of_mem _ isOther))
        rfl paid
      rw [List.foldlM_cons, isFirst]
      exact ⟨next, isRest⟩

end Succeeds

end Lowering

namespace Program

variable {program lowered : Program}

theorem cost_start : (Lowering.start program).cost
      (program.readArrays (Reference.resolveCode program))
      (program.readScalars (Reference.resolveCode program))
      ((Reference.resolveCode program).countP program.writesArray) =
        program.temporaries := by
  unfold Lowering.cost Lowering.missing temporaries
  simp [Lowering.start, Lowering.used]
  rfl

theorem temporaries_lower (isLowered : program.lower = .ok lowered) :
    (Compiler.declaredTemps lowered).length = program.temporaries := by
  obtain ⟨_, state, chain, rfl⟩ := lower_eq_ok isLowered
  exact (chain.cost_eq rfl).symm.trans cost_start

/-- A valid program is lowered exactly when its temporaries fit the slots. -/
theorem lower_succeeds_iff (valid : program.validate = .ok ()) :
    (∃ lowered, program.lower = .ok lowered) ↔ program.temporaries ≤ 16 := by
  constructor
  · rintro ⟨lowered, isLowered⟩
    rw [← temporaries_lower isLowered]
    exact List.length_filter_le _ _
  · intro room
    have inOrder := (validate_eq_ok.mp valid).2
    obtain ⟨state, isState⟩ := Lowering.foldlM_succeeds (.start program)
      (fun instruction isInstruction => inOrder.checked isInstruction) rfl
      (cost_start.trans_le room)
    refine ⟨{ state.out with
      code := (markInvariants state.out.code.toList).toArray }, ?_⟩
    unfold lower
    rw [valid]
    simp only [bind, Except.bind]
    rw [isState]
    rfl

end Program

end LaneKernel
