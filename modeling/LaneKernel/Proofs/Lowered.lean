import LaneKernel.Proofs.Checking
import LaneKernel.Proofs.Planning

/-!
# The moves of a lowering

A lowering declares temporaries and appends instructions.  `Lowering.Operand`,
`Lowering.Result` and `Lowering.Lowers` say what it does for an operand, for a
result and for an instruction; everything else about lowered programs follows
from these moves.
-/

namespace LaneKernel

theorem Lane.validSize_iff {size : Nat} :
    validSize ↑size = true ↔ size = 1 ∨ size = 2 ∨ size = 4 ∨ size = 8 := by
  unfold validSize
  simp only [Bool.or_eq_true, beq_iff_eq]
  omega

theorem Lane.toNat_le_of_valid {size : Int} (valid : validSize size = true) :
    size.toNat ≤ 8 := by
  unfold validSize at valid
  simp only [Bool.or_eq_true, beq_iff_eq] at valid
  omega

theorem Instruction.lanes_cases (instruction : Instruction) :
    instruction.lanes = 1 ∨ instruction.lanes = 2 ∨ instruction.lanes = 4 := by
  unfold lanes
  split
  · exact .inr (.inr rfl)
  · split
    · exact .inr (.inl rfl)
    · exact .inl rfl

theorem Lane.validSize_of_width {size lanes : Nat}
    (isLanes : lanes = 1 ∨ lanes = 2 ∨ lanes = 4)
    (valid : validSize ↑(size * lanes) = true) : validSize ↑size = true := by
  rw [validSize_iff] at valid ⊢
  rcases isLanes with rfl | rfl | rfl <;> omega

namespace Opcode

variable {size : Nat} (valid : Lane.validSize ↑size = true)

include valid

theorem lookup?_load :
    lookup? (Lane.sizedName "load" size) = some ⟨.load, size⟩ := by
  rcases Lane.validSize_iff.mp valid with rfl | rfl | rfl | rfl <;> decide

theorem lookup?_loadParam :
    lookup? (Lane.sizedName "loadp" size) = some ⟨.loadParam, size⟩ := by
  rcases Lane.validSize_iff.mp valid with rfl | rfl | rfl | rfl <;> decide

theorem lookup?_store :
    lookup? (Lane.sizedName "store" size) = some ⟨.store, size⟩ := by
  rcases Lane.validSize_iff.mp valid with rfl | rfl | rfl | rfl <;> decide

end Opcode

theorem Instruction.lanes_laneFlags (opcode : String) (dest src : List VarIndex)
    {lanes : Nat} (isLanes : lanes = 1 ∨ lanes = 2 ∨ lanes = 4) :
    (Instruction.mk opcode (laneFlags lanes) dest src).lanes = lanes ∧
      ((Instruction.mk opcode (laneFlags lanes) dest src).x2 &&
        (Instruction.mk opcode (laneFlags lanes) dest src).x4) = false := by
  have flags : ∀ count ∈ [1, 2, 4],
      (if laneFlags count &&& flagX4 != 0 then 4
       else if laneFlags count &&& flagX2 != 0 then 2
        else 1) = count ∧
      (laneFlags count &&& flagX2 != 0 && laneFlags count &&& flagX4 != 0) =
        false := by decide
  exact flags lanes (by simp [isLanes])

namespace Lowering

/-- The state with one more temporary. -/
def withTemp (state : Lowering) (temp : VarIndex) (size : Nat) : Lowering :=
  { state with
    out := state.out.setVar temp ⟨Var.nameOf temp, .temp, size, 0, false⟩ }

/-- The state with a source array in a new temporary. -/
def withLoad (state : Lowering) (index temp : VarIndex) (width : Nat) :
    Lowering :=
  { (state.withTemp temp width).emit (Lane.sizedName "load" width) 0 temp
    [index] with
    loaded := (index, temp) :: state.loaded }

/-- The state with a constant or parameter in a new temporary. -/
def withBroadcast (state : Lowering) (index temp : VarIndex)
    (size lanes : Nat) : Lowering :=
  { (state.withTemp temp (size * lanes)).emit (Lane.sizedName "loadp" size)
      (Instruction.laneFlags lanes) temp [index] with
    broadcast := ((index, size, lanes), temp) :: state.broadcast }

/-- The first temporary that is not declared. -/
def Free (state : Lowering) (temp : VarIndex) : Prop :=
  tempSlots.find? (fun index => !(state.out.var index).declared) = some temp

variable {state next middle : Lowering} {index temp : VarIndex}
  {size lanes width : Nat}

@[simp] theorem emit_var (opcode : String) (flags : UInt8) (dest : VarIndex)
    (src : List VarIndex) :
    (state.emit opcode flags dest src).out.var index = state.out.var index :=
  rfl

@[simp] theorem emit_twoD (opcode : String) (flags : UInt8) (dest : VarIndex)
    (src : List VarIndex) :
    (state.emit opcode flags dest src).out.twoD = state.out.twoD :=
  rfl

@[simp] theorem emit_code (opcode : String) (flags : UInt8) (dest : VarIndex)
    (src : List VarIndex) : (state.emit opcode flags dest src).out.code.toList =
      state.out.code.toList ++ [⟨opcode, flags, [dest], src⟩] :=
  Array.toList_push

theorem mem_tempSlots (isSlot : temp ∈ tempSlots) :
    (0 ≤ temp ∧ temp < 64) ∧ Var.roleOf temp = .temp := by
  have all : ∀ slot ∈ tempSlots, (0 ≤ slot ∧ slot < 64) ∧
      Var.roleOf slot = .temp := by decide
  exact all temp isSlot

namespace Free

variable (free : state.Free temp)

include free

theorem inTable : 0 ≤ temp ∧ temp < 64 :=
  (mem_tempSlots (List.mem_of_find?_eq_some free)).1

theorem undeclared : (state.out.var temp).declared = false := by
  simpa using List.find?_some free

theorem var (other : VarIndex) :
    (state.withTemp temp size).out.var other =
      if other = temp then ⟨Var.nameOf temp, .temp, size, 0, false⟩
      else state.out.var other :=
  Program.var_setVar _ _ free.inTable other

theorem isExtended : state.out.Extends (state.withTemp temp size).out where
  var other declared := by
    rw [free.var, if_neg]
    rintro rfl
    rw [free.undeclared] at declared
    cases declared
  twoD := by
    unfold withTemp Program.setVar
    split <;> rfl

theorem others (new : (state.out.var index).declared = false)
    (declared : ((state.withTemp temp size).out.var index).declared = true) :
    ((state.withTemp temp size).out.var index).role = .temp ∧
      index ∈ tempSlots := by
  rw [free.var] at declared ⊢
  split
  case isTrue isTemp => exact ⟨rfl, isTemp ▸ List.mem_of_find?_eq_some free⟩
  case isFalse differs =>
    rw [if_neg differs, new] at declared
    cases declared

end Free

@[simp] theorem withTemp_code :
    (state.withTemp temp size).out.code = state.out.code := by
  unfold withTemp Program.setVar
  split <;> rfl

theorem newTemp_eq_ok (valid : Lane.validSize ↑size = true) :
    state.newTemp size = .ok (temp, next) ↔ state.Free temp ∧
      next = state.withTemp temp size := by
  unfold newTemp Free
  cases isFree : tempSlots.find? fun index =>
    !(state.out.var index).declared with
  | none => simp
  | some found =>
      have free : state.Free found := isFree
      obtain ⟨⟨above, below⟩, isRole⟩ :=
        mem_tempSlots (List.mem_of_find?_eq_some isFree)
      have declares : state.out.declare found size =
          .ok (state.withTemp found size).out := by
        have inRange : ¬ (found < 0 ∨ found ≥ (Var.count : Int)) :=
          not_or.mpr ⟨Int.not_lt.mpr above, Int.not_le.mpr below⟩
        unfold Program.declare
        rw [isRole, free.undeclared, valid, if_neg inRange]
        rfl
      simp only [declares, Option.some.injEq]
      constructor
      · intro isOk
        cases isOk
        exact ⟨rfl, rfl⟩
      · rintro ⟨rfl, rfl⟩
        rfl

/-- What happens for an operand: it becomes a temporary, which may be new. -/
inductive Operand (program : Program) (size lanes : Nat) :
    Lowering → VarIndex → VarIndex → Lowering → Prop where
  | temp {state : Lowering} {index : VarIndex} :
      (program.var index).role = .temp →
        Operand program size lanes state index index state
  | loaded {state : Lowering} {index temp : VarIndex} :
      (program.var index).role = .source → (index, temp) ∈ state.loaded →
      Operand program size lanes state index temp state
  | load {state : Lowering} {index temp : VarIndex} :
      (program.var index).role = .source →
        (∀ other, (index, other) ∉ state.loaded) →
      state.Free temp →
      Operand program size lanes state index temp
        (state.withLoad index temp (size * lanes))
  | filled {state : Lowering} {index temp : VarIndex} :
      (program.var index).role.isScalar = true →
      ((index, size, lanes), temp) ∈ state.broadcast →
      Operand program size lanes state index temp state
  | broadcast {state : Lowering} {index temp : VarIndex} :
      (program.var index).role.isScalar = true →
      (∀ other, ((index, size, lanes), other) ∉ state.broadcast) →
        state.Free temp →
      Operand program size lanes state index temp
        (state.withBroadcast index temp size lanes)

/-- What happens for a list of operands. -/
inductive Operands (program : Program) (size lanes : Nat) :
    Lowering → List VarIndex → List VarIndex → Lowering → Prop where
  | nil {state : Lowering} : Operands program size lanes state [] [] state
  | cons {state middle next : Lowering} {index temp : VarIndex}
      {rest temps : List VarIndex} :
      Operand program size lanes state index temp middle →
      Operands program size lanes middle rest temps next →
      Operands program size lanes state (index :: rest) (temp :: temps) next

/-- What happens for the result of an instruction: a temporary is written, an
array stored to. -/
inductive Result (program : Program) (instruction : Instruction) (width : Nat)
    (src : List VarIndex) : Lowering → Lowering → Prop where
  | temp {state : Lowering} :
      (program.var instruction.target).role = .temp →
      Result program instruction width src state
        (state.emit instruction.opcode instruction.flags instruction.target src)
  | array {state : Lowering} {temp : VarIndex} :
      (program.var instruction.target).role = .dest → state.Free temp →
      Result program instruction width src state
        (((state.withTemp temp width).emit instruction.opcode instruction.flags
          temp src).emit (Lane.sizedName "store" width) 0
            instruction.target [temp])

/-- What happens for an instruction. -/
inductive Lowers (program : Program) (instruction : Instruction)
    (opcode : Opcode) :
    Lowering → Lowering → Prop where
  | move {state next : Lowering} :
      opcode.isLoad = true ∨ opcode.kind = .loadParam →
      Result program instruction (opcode.size * instruction.lanes)
        instruction.src state next →
      Lowers program instruction opcode state next
  | store {state next : Lowering} {temp : VarIndex} :
      opcode.kind = .store →
      Operand program opcode.size instruction.lanes state
        instruction.firstSource temp next →
      Lowers program instruction opcode state
        (next.emit instruction.opcode instruction.flags
          instruction.target [temp])
  | arith {state middle next : Lowering} {op : ArithOp}
      {temps : List VarIndex} :
      opcode.kind = .arith op →
      Operands program opcode.size instruction.lanes state instruction.src temps
        middle →
      Result program instruction (opcode.size * instruction.lanes) temps
        middle next →
      Lowers program instruction opcode state next

/-- A temporary that the lowering declared. -/
structure Fresh (program : Program) (state : Lowering) (temp : VarIndex)
    (length : Int) : Prop where
  new : (program.var temp).declared = false
  role : (state.out.var temp).role = .temp
  size : (state.out.var temp).size = length
  valid : Lane.validSize length = true

/-- What is true of the states of a lowering: declarations of the program stay,
and what is kept for later lives in temporaries of the lowering. -/
structure Sound (program : Program) (state : Lowering) : Prop where
  isExtended : program.Extends state.out
  others : ∀ index, (program.var index).declared = false →
    (state.out.var index).declared = true →
    (state.out.var index).role = .temp ∧ index ∈ tempSlots
  loaded : ∀ index temp, (index, temp) ∈ state.loaded →
    (program.var index).role = .source ∧
      Fresh program state temp (program.var index).size
  broadcast : ∀ index size lanes temp,
    ((index, size, lanes), temp) ∈ state.broadcast →
      (program.var index).role.isScalar = true ∧
      Fresh program state temp ↑(size * lanes)

variable {program : Program} {instruction : Instruction} {opcode : Opcode}

theorem Fresh.declared {length : Int}
    (fresh : Fresh program state temp length) :
    (state.out.var temp).declared = true := by
  rw [Program.declared_eq_true, fresh.role]
  decide

theorem Fresh.extended {length : Int} (fresh : Fresh program state temp length)
    (isExtended : state.out.Extends next.out) :
    Fresh program next temp length := by
  have same := isExtended.var temp fresh.declared
  exact ⟨fresh.new, by rw [same]; exact fresh.role,
    by rw [same]; exact fresh.size, fresh.valid⟩

theorem Fresh.within {length : Int} {final : Program}
    (fresh : Fresh program state temp length)
    (isExtended : state.out.Extends final) :
    (final.var temp).role = .temp ∧ (final.var temp).size = length := by
  rw [isExtended.var temp fresh.declared]
  exact ⟨fresh.role, fresh.size⟩

theorem Sound.start (program : Program) :
    Sound program { out := { program with code := #[] } } where
  isExtended := ⟨fun _ _ => rfl, rfl⟩
  others _ new declared :=
    absurd ((show _ = false from new).symm.trans declared) nofun
  loaded index temp isLoaded := by cases isLoaded
  broadcast index size lanes temp isKept := by cases isKept

namespace Sound

variable (sound : Sound program state)

include sound

theorem new (free : state.Free temp) : (program.var temp).declared = false := by
  cases isDeclared : (program.var temp).declared with
  | false => rfl
  | true =>
      have same := sound.isExtended.var temp isDeclared
      have undeclared := free.undeclared
      rw [same, isDeclared] at undeclared
      cases undeclared

theorem fresh (free : state.Free temp) (valid : Lane.validSize ↑width = true) :
    Fresh program (state.withTemp temp width) temp width := by
  refine ⟨sound.new free, ?_, ?_, valid⟩ <;> rw [free.var, if_pos rfl]

theorem grow (isExtended : state.out.Extends next.out)
    (others : ∀ index, (state.out.var index).declared = false →
      (next.out.var index).declared = true →
      (next.out.var index).role = .temp ∧ index ∈ tempSlots)
    (loaded : ∀ index temp, (index, temp) ∈ next.loaded →
      (index, temp) ∈ state.loaded ∨
      (program.var index).role = .source ∧
        Fresh program next temp (program.var index).size)
    (broadcast : ∀ index size lanes temp,
      ((index, size, lanes), temp) ∈ next.broadcast →
        ((index, size, lanes), temp) ∈ state.broadcast ∨
      (program.var index).role.isScalar = true ∧
        Fresh program next temp ↑(size * lanes)) :
    Sound program next where
  isExtended := sound.isExtended.trans isExtended
  others index new declared := by
    cases isDeclared : (state.out.var index).declared with
    | false => exact others index isDeclared declared
    | true =>
        rw [isExtended.var index isDeclared]
        exact sound.others index new isDeclared
  loaded index temp isLoaded := (loaded index temp isLoaded).elim
    (fun isEarlier =>
      (sound.loaded index temp isEarlier).imp_right (·.extended isExtended)) id
  broadcast index size lanes temp isKept :=
    (broadcast index size lanes temp isKept).elim
    (fun isEarlier =>
      (sound.broadcast index size lanes temp isEarlier).imp_right
        (·.extended isExtended)) id

theorem emit (opcode : String) (flags : UInt8) (dest : VarIndex)
    (src : List VarIndex) : Sound program (state.emit opcode flags dest src) :=
  sound.grow ⟨fun _ _ => rfl, rfl⟩
    (fun _ new declared => absurd (new.symm.trans declared) nofun)
    (fun _ _ => .inl) fun _ _ _ _ => .inl

theorem withTemp (free : state.Free temp) (size : Nat) :
    Sound program (state.withTemp temp size) :=
  sound.grow free.isExtended (fun _ => free.others) (fun _ _ => .inl) fun _ _ _
    _ => .inl

theorem withLoad (free : state.Free temp) (valid : Lane.validSize ↑width = true)
    (isSource : (program.var index).role = .source)
    (isWidth : (program.var index).size = ↑width) :
    Sound program (state.withLoad index temp width) := by
  have fresh := sound.fresh free valid
  refine sound.grow ⟨free.isExtended.var, free.isExtended.twoD⟩
    (fun _ => free.others) (fun other kept isLoaded => ?_) fun _ _ _ _ => .inl
  rcases List.mem_cons.mp isLoaded with same | isEarlier
  · cases same
    exact .inr ⟨isSource, fresh.new, fresh.role, fresh.size.trans isWidth.symm,
      isWidth ▸ valid⟩
  · exact .inl isEarlier

theorem withBroadcast (free : state.Free temp)
    (valid : Lane.validSize ↑(size * lanes) = true)
    (isScalar : (program.var index).role.isScalar = true) :
    Sound program (state.withBroadcast index temp size lanes) := by
  have fresh := sound.fresh free valid
  refine sound.grow ⟨free.isExtended.var, free.isExtended.twoD⟩
    (fun _ => free.others) (fun _ _ => .inl) fun other otherSize otherLanes kept
    isKept => ?_
  rcases List.mem_cons.mp isKept with same | isEarlier
  · cases same
    exact .inr ⟨isScalar, fresh.new, fresh.role, fresh.size, valid⟩
  · exact .inl isEarlier

end Sound

/-- The second state declares, appends and keeps more. -/
structure Grows (state next : Lowering) (emitted : List Instruction) :
    Prop where
  isExtended : state.out.Extends next.out
  code : next.out.code.toList = state.out.code.toList ++ emitted
  loaded : state.loaded ⊆ next.loaded

namespace Grows

variable {emitted more : List Instruction}

theorem refl (state : Lowering) : Grows state state [] :=
  ⟨.refl _, by simp, List.Subset.refl _⟩

theorem trans (front : Grows state middle emitted)
    (behind : Grows middle next more) : Grows state next (emitted ++ more) :=
  ⟨front.isExtended.trans behind.isExtended,
    by rw [behind.code, front.code, List.append_assoc],
    List.Subset.trans front.loaded behind.loaded⟩

theorem emit (opcode : String) (flags : UInt8) (dest : VarIndex)
    (src : List VarIndex) :
    Grows state (state.emit opcode flags dest src)
      [⟨opcode, flags, [dest], src⟩] :=
  ⟨⟨fun _ _ => rfl, rfl⟩, emit_code opcode flags dest src, List.Subset.refl _⟩

theorem withTemp (free : state.Free temp) (width : Nat) :
    Grows state (state.withTemp temp width) [] :=
  ⟨free.isExtended, by simp, List.Subset.refl _⟩

theorem withLoad (free : state.Free temp) (index : VarIndex) (width : Nat) :
    Grows state (state.withLoad index temp width)
      [⟨Lane.sizedName "load" width, 0, [temp], [index]⟩] :=
  let grows := (withTemp free width).trans
    (emit (Lane.sizedName "load" width) 0 temp [index])
  ⟨⟨grows.isExtended.var, grows.isExtended.twoD⟩, grows.code,
    List.subset_cons_self _ _⟩

theorem withBroadcast (free : state.Free temp) (index : VarIndex)
    (size lanes : Nat) :
    Grows state (state.withBroadcast index temp size lanes)
      [⟨Lane.sizedName "loadp" size, Instruction.laneFlags lanes, [temp],
        [index]⟩] :=
  let grows := (withTemp free (size * lanes)).trans
    (emit (Lane.sizedName "loadp" size) (Instruction.laneFlags lanes) temp
      [index])
  ⟨⟨grows.isExtended.var, grows.isExtended.twoD⟩, grows.code,
    List.Subset.refl _⟩

theorem unique (first : Grows state next emitted)
    (second : Grows state next more) : emitted = more :=
  List.append_cancel_left (first.code.symm.trans second.code)

end Grows

section Moves

variable (isSound : Sound program state)

theorem not_mem_of_lookup {α β : Type} [BEq α] [LawfulBEq α]
    {pairs : List (α × β)} {key : α} (missing : pairs.lookup key = none)
    (value : β) : (key, value) ∉ pairs := by
  intro isPair
  have := List.lookup_eq_none_iff.mp missing (key, value) isPair
  simp at this

include isSound

theorem operand_eq_ok {place : Nat}
    (valid : Lane.validSize ↑(size * lanes) = true)
    (readable : program.Readable opcode (size * lanes) place index)
    (isOk : state.operand index size lanes = .ok (temp, next)) :
    Operand program size lanes state index temp next := by
  have same := isSound.isExtended.var index
    (Program.declared_eq_true.mpr readable.usable.1)
  unfold operand at isOk
  rw [same] at isOk
  have role := readable.role
  cases isRole : (program.var index).role with
  | none | dest | accumulator => simp [isRole, Role.isScalar] at role
  | temp =>
      rw [isRole] at isOk
      cases isOk
      exact .temp isRole
  | source =>
      rw [isRole] at isOk
      cases isLoaded : state.loaded.lookup index with
      | some kept =>
          rw [isLoaded] at isOk
          cases isOk
          exact .loaded isRole (mem_of_lookup isLoaded)
      | none =>
          rw [isLoaded] at isOk
          obtain ⟨⟨found, withNew⟩, isNew, isOk⟩ := Outcome.bind_eq_ok.mp isOk
          obtain ⟨free, rfl⟩ := (newTemp_eq_ok valid).mp isNew
          cases isOk
          exact .load isRole (not_mem_of_lookup isLoaded) free
  | const | param =>
      have isScalar : (program.var index).role.isScalar = true := by
        rw [isRole]; rfl
      rw [isRole] at isOk
      cases isKept : state.broadcast.lookup (index, size, lanes) with
      | some kept =>
          rw [isKept] at isOk
          cases isOk
          exact .filled isScalar (mem_of_lookup isKept)
      | none =>
          rw [isKept] at isOk
          obtain ⟨⟨found, withNew⟩, isNew, isOk⟩ := Outcome.bind_eq_ok.mp isOk
          obtain ⟨free, rfl⟩ := (newTemp_eq_ok valid).mp isNew
          cases isOk
          exact .broadcast isScalar (not_mem_of_lookup isKept) free

theorem Operand.sound {place : Nat}
    (valid : Lane.validSize ↑(size * lanes) = true)
    (readable : program.Readable opcode (size * lanes) place index)
    (operand : Operand program size lanes state index temp next) :
    Sound program next := by
  cases operand with
  | temp _ | loaded _ _ | filled _ _ => exact isSound
  | load isSource _ free =>
      refine isSound.withLoad free valid isSource
        (readable.size.resolve_left ?_)
      rw [isSource]
      decide
  | broadcast isScalar _ free => exact isSound.withBroadcast free valid isScalar

theorem Operand.role {place : Nat}
    (valid : Lane.validSize ↑(size * lanes) = true)
    (readable : program.Readable opcode (size * lanes) place index)
    (operand : Operand program size lanes state index temp next) :
    (next.out.var temp).role = .temp := by
  cases operand with
  | temp isTemp =>
      rw [isSound.isExtended.var index
        (Program.declared_eq_true.mpr readable.usable.1)]
      exact isTemp
  | loaded _ isLoaded => exact (isSound.loaded index temp isLoaded).2.role
  | filled _ isKept =>
      exact (isSound.broadcast index size lanes temp isKept).2.role
  | load _ _ free | broadcast _ _ free => exact (isSound.fresh free valid).role

theorem operands_eq_ok (place : Nat) {indices temps : List VarIndex}
    (valid : Lane.validSize ↑(size * lanes) = true)
    (readable : ∀ number index, indices[number]? = some index →
      program.Readable opcode (size * lanes) (place + number) index)
    (isOk : state.operands size lanes indices = .ok (temps, next)) :
    Operands program size lanes state indices temps next := by
  induction indices generalizing state temps place with
  | nil =>
      cases isOk
      exact .nil
  | cons index rest induction =>
      rw [operands] at isOk
      obtain ⟨⟨temp, middle⟩, isFirst, isOk⟩ := Outcome.bind_eq_ok.mp isOk
      obtain ⟨⟨more, last⟩, isRest, isOk⟩ := Outcome.bind_eq_ok.mp isOk
      cases isOk
      have first := operand_eq_ok isSound valid (readable 0 index rfl) isFirst
      refine .cons first
        (induction (first.sound isSound valid (readable 0 index rfl))
          (place + 1) ?_ isRest)
      intro number other isOther
      rw [Nat.add_assoc, Nat.add_comm 1]
      exact readable (number + 1) other
        (by rw [List.getElem?_cons_succ]; exact isOther)

theorem Operands.sound (place : Nat) {indices temps : List VarIndex}
    (valid : Lane.validSize ↑(size * lanes) = true)
    (readable : ∀ number index, indices[number]? = some index →
      program.Readable opcode (size * lanes) (place + number) index)
    (operands : Operands program size lanes state indices temps next) :
    Sound program next := by
  induction operands generalizing place with
  | nil => exact isSound
  | cons first _ induction =>
      refine induction (first.sound isSound valid (readable 0 _ rfl))
        (place + 1) ?_
      intro number other isOther
      rw [Nat.add_assoc, Nat.add_comm 1]
      exact readable (number + 1) other
        (by rw [List.getElem?_cons_succ]; exact isOther)

theorem writeResult_eq_ok {src : List VarIndex}
    (checked : program.Checked instruction opcode)
    (isOk : state.writeResult instruction (opcode.size * instruction.lanes)
      src = .ok next) :
    Result program instruction (opcode.size * instruction.lanes) src state
      next := by
  have same := isSound.isExtended.var _ checked.target_declared
  unfold writeResult at isOk
  simp only [same] at isOk
  rcases checked.target with isDest | isTemp
  · rw [if_pos isDest] at isOk
    obtain ⟨⟨found, withNew⟩, isNew, isOk⟩ := Outcome.bind_eq_ok.mp isOk
    obtain ⟨free, rfl⟩ := (newTemp_eq_ok checked.valid).mp isNew
    cases isOk
    exact .array isDest free
  · rw [if_neg (by rw [isTemp]; decide)] at isOk
    cases isOk
    exact .temp isTemp

theorem Result.sound {src : List VarIndex}
    (result : Result program instruction width src state next) :
    Sound program next := by
  cases result with
  | temp _ => exact isSound.emit _ _ _ _
  | array _ free =>
      exact ((isSound.withTemp free width).emit _ _ _ _).emit _ _ _ _

theorem lower_eq_ok (checked : program.Checked instruction opcode)
    (isOk : state.lower instruction = .ok next) :
    Lowers program instruction opcode state next := by
  unfold lower at isOk
  rw [checked.found] at isOk
  cases isKind : opcode.kind with
  | load | loadOffset | loadParam =>
      simp only [isKind] at isOk
      exact .move (by simp [Opcode.isLoad, isKind])
        (writeResult_eq_ok isSound checked isOk)
  | store =>
      simp only [isKind] at isOk
      obtain ⟨⟨temp, middle⟩, isOperand, isOk⟩ := Outcome.bind_eq_ok.mp isOk
      cases isOk
      exact .store isKind
        (operand_eq_ok isSound checked.valid
        (checked.readable 0 _ checked.first) isOperand)
  | arith op =>
      simp only [isKind] at isOk
      obtain ⟨⟨temps, middle⟩, isOperands, isOk⟩ := Outcome.bind_eq_ok.mp isOk
      have operands :=
        operands_eq_ok isSound 0 checked.valid checked.readableFrom isOperands
      exact .arith isKind operands
        (writeResult_eq_ok
          (operands.sound isSound 0 checked.valid checked.readableFrom)
          checked isOk)

theorem Lowers.sound (checked : program.Checked instruction opcode)
    (lowers : Lowers program instruction opcode state next) :
    Sound program next := by
  cases lowers with
  | move _ result => exact result.sound isSound
  | store _ operand =>
      exact (operand.sound isSound checked.valid
        (checked.readable 0 _ checked.first)).emit _ _ _ _
  | arith _ operands result =>
      exact result.sound
        (operands.sound isSound 0 checked.valid checked.readableFrom)

end Moves

end Lowering

end LaneKernel
