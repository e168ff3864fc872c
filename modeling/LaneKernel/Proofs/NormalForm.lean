import LaneKernel.Proofs.LoweredAccess

/-!
# The normal form of lowered programs

An instruction of lowered code moves an array element or a scalar into a
temporary, moves a temporary into an array, or works on temporaries alone.  The
temporaries that a lowering adds are written by one instruction each.  Lowering
a program that has this form and its marks gives the program back.
-/

namespace LaneKernel

namespace Program

/-- The instruction has one of the forms of lowered code. -/
def NormalForm (program : Program) (instruction : Instruction) : Prop :=
  instruction.dest = [instruction.target] ∧
  ∃ opcode, Opcode.lookup? instruction.opcode = some opcode ∧
    match opcode.kind with
    | .load => (program.var instruction.target).role = .temp ∧
        ∃ source, instruction.src = [source] ∧
          (program.var source).role = .source
    | .loadOffset => (program.var instruction.target).role = .temp ∧
        ∃ source offset, instruction.src = [source, offset] ∧
          (program.var source).role = .source ∧
            (program.var offset).role.isScalar = true
    | .loadParam => (program.var instruction.target).role = .temp ∧
        ∃ scalar, instruction.src = [scalar] ∧
          (program.var scalar).role.isScalar = true
    | .store => (program.var instruction.target).role = .dest ∧
        ∃ temp, instruction.src = [temp] ∧ (program.var temp).role = .temp
    | .arith _ => (program.var instruction.target).role = .temp ∧
        ∀ index ∈ instruction.src, (program.var index).role = .temp

/-- The second program is valid, in normal form and lowered to itself.  It keeps
the declarations of the first one; every slot that it declares besides is a
temporary with one writer, and as wide as the element that this instruction
writes. -/
structure Normalizes (program lowered : Program) : Prop where
  valid : lowered.validate = .ok ()
  forms : ∀ instruction ∈ lowered.code.toList, lowered.NormalForm instruction
  name : lowered.name = program.name
  twoD : lowered.twoD = program.twoD
  declarations : ∀ index, (program.var index).declared = true →
    lowered.var index = program.var index
  added : ∀ temp, (program.var temp).declared = false →
    (lowered.var temp).declared = true →
    (lowered.var temp).role = .temp ∧
      ∃ instruction opcode,
        lowered.code.toList.filter (fun entry => entry.target == temp) =
          [instruction] ∧
        Opcode.lookup? instruction.opcode = some opcode ∧
        (lowered.var temp).size = ↑(opcode.size * instruction.lanes)
  fixed : lowered.lower = .ok lowered

theorem Flat.normalForm {program : Program} {entry : Opcode × Instruction}
    (flat : program.Flat entry) : program.NormalForm entry.2 := by
  obtain ⟨⟨kind, size⟩, instruction⟩ := entry
  have checked := flat.checked
  have count := checked.sources
  have isFirst := checked.first
  have moves := checked.moves
  refine ⟨checked.dest, _, checked.found, ?_⟩
  cases kind with
  | load =>
    obtain ⟨source, isSource⟩ := List.length_eq_one_iff.mp count
    rw [isSource] at isFirst
    cases isFirst
    exact ⟨flat.target nofun, _, isSource, moves⟩
  | loadOffset =>
    obtain ⟨source, offset, areSources⟩ := List.length_eq_two.mp count
    rw [areSources] at isFirst
    cases isFirst
    have readable := checked.readable 1 offset (by rw [areSources]; rfl)
    exact ⟨flat.target nofun, _, offset, areSources, moves,
      readable.offset rfl rfl⟩
  | loadParam =>
    obtain ⟨scalar, isScalar⟩ := List.length_eq_one_iff.mp count
    rw [isScalar] at isFirst
    cases isFirst
    exact ⟨flat.target nofun, _, isScalar, moves⟩
  | store =>
    obtain ⟨temp, isTemp⟩ := List.length_eq_one_iff.mp count
    rw [isTemp] at isFirst
    cases isFirst
    exact ⟨(flat.store rfl).1, _, isTemp, (flat.store rfl).2⟩
  | arith op => exact ⟨flat.target nofun, flat.sources op rfl⟩

end Program

namespace Lowering

variable {program : Program} {state next : Lowering} {instruction : Instruction}
  {opcode : Opcode} {index temp : VarIndex} {size lanes width : Nat}

/-- Of the slots that the program leaves free, the code so far writes those once
that are declared by now, and the others not at all. -/
structure Single (program : Program) (state : Lowering) : Prop where
  name : state.out.name = program.name
  writers : ∀ index, (program.var index).declared = false →
    Program.writers state.out.code.toList index =
      if (state.out.var index).declared then 1 else 0

theorem writers_emit (name : String) (flags : UInt8) (dest : VarIndex)
    (src : List VarIndex) :
    Program.writers (state.emit name flags dest src).out.code.toList index =
      Program.writers state.out.code.toList index + if dest = index then 1
        else 0 := by
  rw [emit_code]
  simp [Program.writers, Instruction.target, List.countP_append,
    List.countP_singleton]

theorem withTemp_name :
    (state.withTemp temp width).out.name = state.out.name := by
  unfold withTemp Program.setVar
  split <;> rfl

namespace Single

theorem start (program : Program) :
    Single program (Lowering.start program) where
  name := rfl
  writers index new := by
    have stillFree :
        ((Lowering.start program).out.var index).declared = false := new
    rw [stillFree]
    rfl

variable (single : Single program state)

include single

theorem emit {dest : VarIndex} (declared : (program.var dest).declared = true)
    (name : String) (flags : UInt8) (src : List VarIndex) :
    Single program (state.emit name flags dest src) where
  name := single.name
  writers index new := by
    have differ : dest ≠ index := by
      intro same
      rw [same, new] at declared
      cases declared
    rw [writers_emit, if_neg differ]
    exact single.writers index new

theorem fresh (free : state.Free temp) (width : Nat) (name : String)
    (flags : UInt8) (src : List VarIndex) :
    Single program ((state.withTemp temp width).emit name flags temp src) where
  name := withTemp_name.trans single.name
  writers index new := by
    have before := single.writers index new
    rw [writers_emit, withTemp_code, before, emit_var, free.var]
    by_cases same : index = temp
    · subst same
      rw [free.undeclared, if_pos rfl, if_pos rfl]
      rfl
    · rw [if_neg (Ne.symm same), if_neg same]
      rfl

end Single

section Moves

variable (isSingle : Single program state)
  (checked : program.Checked instruction opcode)

include isSingle

theorem Operand.single
    (operand : Operand program size lanes state index temp next) :
    Single program next := by
  cases operand with
  | temp _ | loaded _ _ | filled _ _ => exact isSingle
  | load _ _ free =>
    have fresh := isSingle.fresh free (size * lanes)
      (Lane.sizedName "load" ↑(size * lanes)) 0 [index]
    exact ⟨fresh.name, fresh.writers⟩
  | broadcast _ _ free =>
    have fresh := isSingle.fresh free (size * lanes)
      (Lane.sizedName "loadp" size) (Instruction.laneFlags lanes) [index]
    exact ⟨fresh.name, fresh.writers⟩

theorem Operands.single {indices temps : List VarIndex}
    (operands : Operands program size lanes state indices temps next) :
    Single program next := by
  induction operands with
  | nil => exact isSingle
  | cons first _ induction => exact induction (first.single isSingle)

include checked

theorem Result.single {src : List VarIndex}
    (result : Result program instruction width src state next) :
    Single program next := by
  have declared := checked.target_declared
  cases result with
  | temp _ => exact isSingle.emit declared _ _ _
  | array _ free => exact (isSingle.fresh free width _ _ _).emit declared _ _ _

theorem Lowers.single (lowers : Lowers program instruction opcode state next) :
    Single program next := by
  cases lowers with
  | move _ result => exact result.single isSingle checked
  | store _ operand =>
      exact (operand.single isSingle).emit checked.target_declared _ _ _
  | arith _ operands result =>
      exact result.single (operands.single isSingle) checked

end Moves

theorem Chain.single {code : List Instruction} (isSingle : Single program state)
    (chain : Chain program state code next) : Single program next := by
  induction chain with
  | nil => exact isSingle
  | cons checked lowers _ induction =>
      exact induction (lowers.single isSingle checked)

theorem operands_of_temps {indices : List VarIndex}
    (areTemps : ∀ index ∈ indices, (state.out.var index).role = .temp) :
    state.operands size lanes indices = .ok (indices, state) := by
  induction indices with
  | nil => rfl
  | cons index rest induction =>
    have isFirst : state.operand index size lanes = .ok (index, state) := by
      unfold operand
      rw [areTemps index List.mem_cons_self]
    have isRest := induction fun other isOther =>
      areTemps other (List.mem_cons_of_mem _ isOther)
    rw [operands, isFirst]
    simp only [bind, Except.bind, isRest]
    rfl

theorem writeResult_of_temp {src : List VarIndex}
    (isTemp : (state.out.var instruction.target).role = .temp) :
    state.writeResult instruction width src =
      .ok (state.emit instruction.opcode instruction.flags instruction.target
        src) := by
  unfold writeResult
  simp only [isTemp, reduceCtorEq, if_false]

theorem lower_of_normalForm (normal : state.out.NormalForm instruction) :
    state.lower instruction = .ok
      { state with
        out := { state.out with
          code := state.out.code.push instruction } } := by
  obtain ⟨isDest, ⟨kind, size⟩, found, form⟩ := normal
  have isEmitted :
      state.emit instruction.opcode instruction.flags instruction.target
          instruction.src =
        { state with
          out := { state.out with
            code := state.out.code.push instruction } } := by
    unfold emit
    rw [← isDest]
  rw [← isEmitted]
  unfold lower
  rw [found]
  cases kind with
  | load | loadOffset | loadParam => exact writeResult_of_temp form.1
  | store =>
    obtain ⟨_, temp, isSource, isTemp⟩ := form
    have isFirst : instruction.firstSource = temp := by
      unfold Instruction.firstSource
      rw [isSource]
      rfl
    have isOperand :
        state.operand temp size instruction.lanes = .ok (temp, state) := by
      unfold operand
      rw [isTemp]
    simp only [isFirst, isOperand, bind, Except.bind, isSource]
    rfl
  | arith op =>
    simp only [operands_of_temps form.2, bind, Except.bind]
    exact writeResult_of_temp form.1

theorem foldlM_of_normalForm (before : List Instruction)
    {code : List Instruction}
    (normal : ∀ instruction ∈ code, program.NormalForm instruction) :
    code.foldlM lower { out := { program with code := before.toArray } } =
      .ok { out := { program with code := (before ++ code).toArray } } := by
  induction code generalizing before with
  | nil =>
    rw [List.append_nil]
    rfl
  | cons instruction rest induction =>
    have isFirst :
        lower { out := { program with code := before.toArray } } instruction =
          .ok { out := { program with
            code := (before ++ [instruction]).toArray } } := by
      rw [← List.push_toArray]
      exact lower_of_normalForm (normal instruction List.mem_cons_self)
    have isRest := induction (before ++ [instruction])
      fun other isOther => normal other (List.mem_cons_of_mem _ isOther)
    rw [List.append_assoc] at isRest
    rw [List.foldlM_cons, isFirst]
    exact isRest

end Lowering

namespace Program

variable {program lowered : Program}

theorem markInvariants_markInvariants (code : List Instruction) :
    markInvariants (markInvariants code) = markInvariants code := by
  rw [markInvariants_eq (markInvariants code), markInvariants_eq code,
    List.map_map]
  apply List.map_congr_left
  intro instruction _
  rw [← markInvariants_eq, Function.comp_apply, mark, isBroadcast_mark,
    mark_target, writers_marked]
  split
  case isFalse => rfl
  case isTrue sole =>
    have isMarked : mark code instruction =
        { instruction with
          flags := instruction.flags ||| Instruction.flagInvariant } := by
      rw [mark, if_pos sole]
    rw [isMarked, UInt8.or_assoc, UInt8.or_self]

theorem lower_of_normalForm (valid : program.validate = .ok ())
    (normal : ∀ instruction ∈ program.code.toList,
      program.NormalForm instruction)
    (isMarked : markInvariants program.code.toList = program.code.toList) :
    program.lower = .ok program := by
  have isFold := Lowering.foldlM_of_normalForm [] normal
  unfold lower
  simp only [valid, bind, Except.bind]
  rw [show (#[] : Array Instruction) = [].toArray from rfl, isFold]
  simp only [List.nil_append, Array.toArray_toList, isMarked]
  rfl

section Lowered

variable (isLowered : program.lower = .ok lowered)

include isLowered

theorem normalForm_lower {instruction : Instruction}
    (isInstruction : instruction ∈ lowered.code.toList) :
    lowered.NormalForm instruction := by
  obtain ⟨opcode, checked⟩ :=
    (validate_eq_ok.mp (validate_lower isLowered)).2.checked isInstruction
  exact (flat_of_mem isLowered
    (Reference.mem_resolve isInstruction checked.found)).normalForm

theorem markInvariants_lower :
    markInvariants lowered.code.toList = lowered.code.toList := by
  obtain ⟨_, state, _, rfl⟩ := lower_eq_ok isLowered
  exact markInvariants_markInvariants _

theorem name_lower : lowered.name = program.name := by
  obtain ⟨_, state, chain, rfl⟩ := lower_eq_ok isLowered
  exact (chain.single (.start program)).name

/-- The only writer of a temporary that the lowering added. -/
theorem sole_writer {temp : VarIndex}
    (new : (program.var temp).declared = false)
    (declared : (lowered.var temp).declared = true) :
    ∃ instruction,
      lowered.code.toList.filter (fun entry => entry.target == temp) =
      [instruction] := by
  obtain ⟨_, state, chain, rfl⟩ := lower_eq_ok isLowered
  have once := (chain.single (.start program)).writers temp new
  rw [show (state.out.var temp).declared = true from declared, if_pos rfl,
    ← writers_marked, writers, List.countP_eq_length_filter] at once
  exact List.length_eq_one_iff.mp once

theorem added_temp {temp : VarIndex} (new : (program.var temp).declared = false)
    (declared : (lowered.var temp).declared = true) :
    (lowered.var temp).role = .temp ∧
      ∃ instruction opcode,
        lowered.code.toList.filter (fun entry => entry.target == temp) =
          [instruction] ∧
        Opcode.lookup? instruction.opcode = some opcode ∧
        (lowered.var temp).size = ↑(opcode.size * instruction.lanes) := by
  obtain ⟨instruction, isSole⟩ := sole_writer isLowered new declared
  have isWriter : instruction ∈ lowered.code.toList.filter fun entry =>
      entry.target == temp := by
    rw [isSole]
    exact List.mem_cons_self
  obtain ⟨isInstruction, isTarget⟩ := List.mem_filter.mp isWriter
  obtain rfl := beq_iff_eq.mp isTarget
  obtain ⟨opcode, checked⟩ :=
    (validate_eq_ok.mp (validate_lower isLowered)).2.checked isInstruction
  refine ⟨?_, instruction, opcode, isSole, checked.found, checked.size⟩
  obtain ⟨_, state, chain, rfl⟩ := lower_eq_ok isLowered
  exact ((chain.sound (.start program)).others _ new declared).1

/-- A lowered program is in the normal form of its program. -/
theorem lower_normal_form : program.Normalizes lowered where
  valid := validate_lower isLowered
  forms _ := normalForm_lower isLowered
  name := name_lower isLowered
  twoD := (Reference.extends_lower isLowered).twoD
  declarations := (Reference.extends_lower isLowered).var
  added _ := added_temp isLowered
  fixed := lower_of_normalForm (validate_lower isLowered)
    (fun _ => normalForm_lower isLowered) (markInvariants_lower isLowered)

end Lowered

/-- Packed bytes and whole words that share a source and a constant. -/
def mixedLanes : Program :=
  (build "mixed" [.declare 0 4, .declare 4 4, .declareConst 16 1 3,
    .append ⟨"addb", Instruction.flagX4, [0], [4, 16]⟩,
    .append ⟨"addl", 0, [0], [4, 16]⟩]).toOption.getD default

theorem lower_normal_form_mixedLanes :
    ∃ lowered, mixedLanes.lower = .ok lowered ∧
      mixedLanes.Normalizes lowered := by
  have isLowered :
      mixedLanes.lower = .ok (mixedLanes.lower.toOption.getD default) :=
    Outcome.eq_ok_of_isSome (by decide +kernel)
  exact ⟨_, isLowered, lower_normal_form isLowered⟩

/-- The source is loaded once, the constant filled into each kind of lane. -/
example : (mixedLanes.lower.toOption.getD default).code.toList.map
    Instruction.opcode =
      ["loadl", "loadpb", "addb", "storel", "loadpl", "addl", "storel"] := by
  decide +kernel

end Program

end LaneKernel
