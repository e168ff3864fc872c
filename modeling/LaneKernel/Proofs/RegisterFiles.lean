import LaneKernel.Compiler.Contract
import LaneKernel.Proofs.Outcome
import Mathlib.Data.List.Nodup

/-!
# Register files

The compiler searches its register file for the first free register of an order.
A file that starts fresh and only hands out registers is determined by the list
of those it has handed out (`RegisterFile.holding`), and what the search finds
is the next register of the order.  So a list of variables gets a front of the
order (`Contract.assign`), which is what the other modules work with.
-/

namespace LaneKernel

namespace Contract

/-- Gives each variable the next register of an order. -/
def assign (what : String) :
    List Reg → List VarIndex → Except CompileError (List (VarIndex × Reg))
  | _, [] => .ok []
  | [], _ :: _ => .error (.outOfRegisters what)
  | register :: order, index :: rest => do
      let assigned ← assign what order rest
      return (index, register) :: assigned

/-- The members of a list of registers in ascending order. -/
def ascending (registers : List Reg) : List Reg :=
  allRegisters.filter registers.contains

theorem assign_eq_ok {what : String} {order : List Reg}
    {indices : List VarIndex} {pairs : List (VarIndex × Reg)}
    (isAssigned : assign what order indices = .ok pairs) :
    pairs.map Prod.fst = indices ∧ pairs.map Prod.snd <+: order := by
  induction indices generalizing order pairs with
  | nil =>
      cases order <;> cases isAssigned <;> exact ⟨rfl, List.nil_prefix⟩
  | cons index rest induction =>
      cases order with
      | nil => cases isAssigned
      | cons register order =>
          unfold assign at isAssigned
          obtain ⟨assigned, isRest, isPairs⟩ :=
            Outcome.bind_eq_ok.mp isAssigned
          cases isPairs
          obtain ⟨isIndices, isPrefix⟩ := induction isRest
          refine ⟨by simp [isIndices], ?_⟩
          rw [List.map_cons]
          exact (List.prefix_cons_inj register).mpr isPrefix

end Contract

namespace RegisterFile

open Contract

/-- The file that has handed out the given registers and no others. -/
def holding (given : List Reg) : RegisterFile where
  state register := {
    valid := pointerOrder.contains register || vectorOrder.contains register
    calleeSave := calleeSaved register
    allocated := given.contains register
    used := given.contains register }

theorem take_holding (given : List Reg) (register : Reg) :
    (holding given).take register = holding (given ++ [register]) := by
  unfold take holding
  congr 1
  funext other
  by_cases same : other = register <;> simp [same]

/-- The registers of an order that are left, where some have been given away. -/
def left (order given : List Reg) : List Reg :=
  order.filter fun register => !given.contains register

theorem left_append (order given : List Reg) (register : Reg) :
    left order (given ++ [register]) =
      (left order given).filter (· ≠ register) := by
  unfold left
  rw [List.filter_filter]
  refine List.filter_congr fun other _ => ?_
  simp [Bool.and_comm]

theorem left_nil (order : List Reg) : left order [] = order :=
  List.filter_eq_self.mpr fun _ _ => rfl

theorem left_of_disjoint {order given : List Reg}
    (apart : ∀ register ∈ order, register ∉ given) : left order given = order :=
  List.filter_eq_self.mpr fun register isMember => by
    simpa using apart register isMember

variable {order given : List Reg}

/-- The search finds the first register that is left. -/
theorem alloc_holding (what : String)
    (allocatable : ∀ register ∈ order,
      register ∈ pointerOrder ∨ register ∈ vectorOrder) :
    (holding given).alloc order what =
      match left order given with
      | [] => .error (.outOfRegisters what)
      | register :: _ => .ok (register, holding (given ++ [register])) := by
  have search : order.find? (holding given).isFree =
      (left order given).head? := by
    rw [← List.head?_filter]
    refine congrArg List.head? (List.filter_congr fun register isMember => ?_)
    simp [isFree, holding, allocatable register isMember]
  unfold alloc
  rw [search]
  cases left order given with
  | nil => rfl
  | cons register rest =>
      exact congrArg (fun file => Except.ok (register, file)) (take_holding _ _)

/-- A file hands out what is left of an order, front first. -/
theorem allocEach_holding (what : String) (distinct : order.Nodup)
    (allocatable : ∀ register ∈ order,
      register ∈ pointerOrder ∨ register ∈ vectorOrder)
    (indices : List VarIndex) :
    (holding given).allocEach order what indices =
      (assign what (left order given) indices).map fun pairs =>
        (pairs, holding (given ++ pairs.map Prod.snd)) := by
  induction indices generalizing given with
  | nil =>
      rw [allocEach, assign]
      simp [Except.map]
  | cons index rest induction =>
      rw [allocEach, alloc_holding what allocatable]
      cases isLeft : left order given with
      | nil => rfl
      | cons register others =>
          have isNew : register ∉ others :=
            (List.nodup_cons.mp (isLeft ▸ distinct.filter _)).1
          have isRest : left order (given ++ [register]) = others := by
            rw [left_append, isLeft, List.filter_cons_of_neg (by simp)]
            refine List.filter_eq_self.mpr fun other isOther => ?_
            simpa using ne_of_mem_of_not_mem isOther isNew
          change ((holding (given ++ [register])).allocEach order what rest >>=
            fun result => pure ((index, register) :: result.1, result.2)) = _
          rw [induction, isRest, assign]
          cases assign what others rest with
          | error cause => rfl
          | ok pairs => simp [Except.map, bind, Except.bind, pure, Except.pure]

theorem used_holding (given : List Reg) :
    (holding given).used = ascending given := rfl

theorem saved_holding {vector : Bool} {bank : Reg → Bool}
    (isBank : ∀ register ∈ allRegisters,
      (register.isVector == vector) = bank register) :
    (holding given).saved vector =
      ascending ((given.filter calleeSaved).filter bank) := by
  unfold saved ascending
  rw [used_holding, ascending, List.filter_filter]
  refine List.filter_congr fun register isRegister => ?_
  rw [Bool.eq_iff_iff]
  simp [holding, isBank register isRegister, and_comm, and_left_comm]

theorem saved_general :
    (holding given).saved false =
      ascending ((given.filter calleeSaved).filter Reg.isGeneral) :=
  saved_holding (by decide)

theorem saved_vectors :
    (holding given).saved true =
      ascending ((given.filter calleeSaved).filter Reg.isVector) :=
  saved_holding (by decide)

/-- A fresh file hands out a front of the pointers. -/
theorem allocEach_fresh (what : String) (indices : List VarIndex) :
    fresh.allocEach pointerOrder what indices =
      (assign what pointerOrder indices).map fun pairs =>
        (pairs, holding (pairs.map Prod.snd)) := by
  have handsOut := @allocEach_holding pointerOrder [] what (by decide)
    (fun _ => .inl) indices
  rw [left_nil] at handsOut
  exact handsOut

/-- Whatever pointers are handed out, every vector is still there. -/
theorem allocEach_vectors {pairs : List (VarIndex × Reg)}
    (isFront : pairs.map Prod.snd <+: pointerOrder) (what : String)
    (indices : List VarIndex) :
    (holding (pairs.map Prod.snd)).allocEach vectorOrder what indices =
      (assign what vectorOrder indices).map fun vectors =>
        (vectors, holding ((pairs ++ vectors).map Prod.snd)) := by
  have apart : ∀ register ∈ vectorOrder, register ∉ pointerOrder := by decide
  have noneGiven : ∀ register ∈ vectorOrder, register ∉ pairs.map Prod.snd :=
    fun register isVector isGiven =>
      apart register isVector (isFront.subset isGiven)
  rw [allocEach_holding what (show vectorOrder.Nodup by decide)
    (fun _ => .inr) indices, left_of_disjoint noneGiven]
  simp only [List.map_append]

end RegisterFile

end LaneKernel
