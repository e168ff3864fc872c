import LaneKernel.Program.Parser
import LaneKernel.Proofs.Checking

/-!
# Programs that are built

`Program.Built` holds of the programs that the building operations reach.  In
such a program the role of every declared slot follows from its index, and every
declared size is one of the four.
-/

namespace LaneKernel.Program

/-- The programs that the building operations reach. -/
inductive Built : Program → Prop where
  | named (name : String) : Built (named name)
  | declare {program next : Program} {index : VarIndex} {size : Int} :
      Built program → program.declare index size = .ok next → Built next
  | declareConst {program next : Program} {index : VarIndex} {size : Int}
      {value : Int64} :
      Built program → program.declareConst index size value = .ok next →
        Built next
  | setAligned {program next : Program} {index : VarIndex} :
      Built program → program.setAligned index = .ok next → Built next
  | rows {program : Program} (twoD : Bool) :
      Built program → Built { program with twoD := twoD }
  | append {program next : Program} {instruction : Instruction} :
      Built program → program.appendInstruction instruction = .ok next →
        Built next

/-- No instruction is marked by hand. -/
def Unmarked (program : Program) : Prop :=
  ∀ instruction ∈ program.code.toList, instruction.invariant = false

variable {program next : Program} {index : VarIndex}

theorem Built.parseLines (built : program.Built) (number : Nat)
    (lines : List (List Char)) : (program.parseLines number lines).1.Built := by
  induction lines generalizing program number with
  | nil => exact built
  | cons line rest induction =>
      rw [Program.parseLines]
      cases isLine : program.parseLine line with
      | error cause => exact built
      | ok next =>
          refine induction ?_ (number + 1)
          unfold parseLine at isLine
          dsimp only at isLine
          split at isLine
          case isTrue =>
            cases isLine
            exact built
          case isFalse =>
            obtain ⟨instruction, _, isNext⟩ := Outcome.bind_eq_ok.mp isLine
            exact .append built isNext

theorem Built.parseCode (built : program.Built) (text : String) :
    (program.parseCode text).1.Built :=
  built.parseLines 1 _

/-- One building operation. -/
inductive Edit where
  | declare (index : VarIndex) (size : Int)
  | declareConst (index : VarIndex) (size : Int) (value : Int64)
  | setAligned (index : VarIndex)
  | rows (twoD : Bool)
  | append (instruction : Instruction)

/-- Carries out a building operation. -/
def Edit.apply (program : Program) : Edit → Except ProgramError Program
  | declare index size => program.declare index size
  | declareConst index size value => program.declareConst index size value
  | setAligned index => program.setAligned index
  | rows twoD => .ok { program with twoD := twoD }
  | append instruction => program.appendInstruction instruction

/-- The program that a list of building operations makes. -/
def build (name : String) (edits : List Edit) : Except ProgramError Program :=
  edits.foldlM Edit.apply (Program.named name)

theorem Built.edit {edit : Edit} (built : program.Built)
    (isNext : edit.apply program = .ok next) : next.Built := by
  cases edit with
  | declare index size => exact .declare built isNext
  | declareConst index size value => exact .declareConst built isNext
  | setAligned index => exact .setAligned built isNext
  | rows twoD =>
      cases isNext
      exact .rows twoD built
  | append instruction => exact .append built isNext

theorem Built.edits {edits : List Edit} (built : program.Built)
    (isNext : edits.foldlM Edit.apply program = .ok next) : next.Built := by
  induction edits generalizing program with
  | nil =>
      cases isNext
      exact built
  | cons edit rest induction =>
      rw [List.foldlM_cons] at isNext
      obtain ⟨middle, isMiddle, isNext⟩ := Outcome.bind_eq_ok.mp isNext
      exact induction (built.edit isMiddle) isNext

theorem built_of_build {name : String} {edits : List Edit}
    (isBuilt : build name edits = .ok program) : program.Built :=
  (Built.named name).edits isBuilt

/-- A slot as the building operations leave it. -/
structure SlotSound (index : VarIndex) (declaration : Variable) : Prop where
  role : declaration.declared = true → declaration.role = Var.roleOf index
  size : declaration.declared = true → Lane.validSize declaration.size = true
  aligned : declaration.aligned = true → declaration.role.isArray = true

theorem var_named (name : String) (index : VarIndex) :
    (named name).var index = {} := by
  unfold var
  split
  · exact Vector.getElem_replicate _
  · rfl

theorem bounds_of_declared (declared : (program.var index).declared = true) :
    0 ≤ index ∧ index < 64 := by
  unfold var at declared
  split at declared
  case isTrue inTable => exact inTable
  case isFalse => cases declared

theorem bounds_of_roleOf (isRole : Var.roleOf index ≠ .none) :
    0 ≤ index ∧ index < 64 := by
  unfold Var.roleOf at isRole
  cases isRange : Var.range? index with
  | none =>
      rw [isRange] at isRole
      exact absurd rfl isRole
  | some range =>
      have isMember := List.mem_of_find?_eq_some isRange
      have inside := List.find?_some isRange
      have bounds : ∀ entry ∈ Var.ranges, entry.base + entry.count ≤ 64 := by
        decide
      have top := bounds range isMember
      simp only [Bool.and_eq_true, decide_eq_true_eq] at inside
      obtain ⟨above, below⟩ := inside
      have fromZero : (0 : Int) ≤ range.base := Int.natCast_nonneg _
      have toTop : (range.base : Int) + range.count ≤ 64 := by
        exact_mod_cast top
      exact ⟨Int.le_trans fromZero above, Int.lt_of_lt_of_le below toTop⟩

/-- Every slot of a built program is sound. -/
theorem Built.slots (built : program.Built) (index : VarIndex) :
    SlotSound index (program.var index) := by
  induction built with
  | named name =>
      rw [var_named]
      exact ⟨nofun, nofun, nofun⟩
  | @declare program next changed size _ isNext induction =>
      unfold Program.declare at isNext
      simp only [Outcome.ite_error_eq_ok] at isNext
      obtain ⟨inTable, hasRole, notConst, valid, _, isNext⟩ := isNext
      cases isNext
      rw [var_setVar _ _ (bounds_of_roleOf hasRole)]
      split
      case isTrue same =>
        subst same
        exact ⟨fun _ => rfl, fun _ => by simpa using valid, nofun⟩
      case isFalse => exact induction
  | @declareConst program next changed size value _ isNext induction =>
      unfold Program.declareConst at isNext
      simp only [Outcome.ite_error_eq_ok] at isNext
      obtain ⟨isConst, valid, _, isNext⟩ := isNext
      cases isNext
      have isRole := Classical.not_not.mp isConst
      rw [var_setVar _ _ (bounds_of_roleOf (by rw [isRole]; decide))]
      split
      case isTrue same =>
        subst same
        exact ⟨fun _ => isRole.symm, fun _ => by simpa using valid, nofun⟩
      case isFalse => exact induction
  | @setAligned program next changed _ isNext induction =>
      unfold Program.setAligned at isNext
      split at isNext
      case isFalse => cases isNext
      case isTrue isArray =>
        cases isNext
        rw [var_setVar _ _ (bounds_of_declared (declared_of_isArray isArray))]
        split
        case isTrue same =>
          subst same
          exact ⟨induction.role, induction.size, fun _ => isArray⟩
        case isFalse => exact induction
  | rows twoD _ induction => exact induction
  | append _ isNext induction =>
      unfold appendInstruction at isNext
      obtain ⟨_, isNext⟩ := Outcome.check_eq_ok.mp isNext
      cases isNext
      exact induction

theorem mem_arrays (isArray : (program.var index).role.isArray = true) :
    index ∈ program.arrays := by
  obtain ⟨above, below⟩ := bounds_of_declared (declared_of_isArray isArray)
  refine List.mem_filter.mpr
    ⟨List.mem_map.mpr ⟨index.toNat, ?_, Int.toNat_of_nonneg above⟩, isArray⟩
  exact List.mem_range.mpr ((Int.toNat_lt above).2 below)

theorem nodup_arrays (program : Program) : program.arrays.Nodup :=
  List.Pairwise.filter _ (by decide)

/-- The program that adds a constant to every byte of an array. -/
def increment : Program :=
  (build "increment" [.declare 0 1, .declare 4 1, .declareConst 16 1 3,
    .append ⟨"addb", 0, [0], [4, 16]⟩]).toOption.getD default

theorem built_increment : increment.Built :=
  built_of_build (Outcome.eq_ok_of_isSome (by decide +kernel))

end LaneKernel.Program
