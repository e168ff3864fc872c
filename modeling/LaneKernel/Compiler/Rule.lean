import LaneKernel.Compiler.Contract
import LaneKernel.Instruction

/-!
# Rules and registries

A rule says how an opcode is turned into machine code: an emission routine and
the parameters it is called with.  A registry holds the rules by opcode name.
Routines may carry a state of type `σ` from call to call; the rules of this
library use none.
-/

namespace LaneKernel

/-- What an emission routine sees of the kernel and of the place that code is
emitted for. -/
structure EmitSite where
  /-- The declarations. -/
  var : VarIndex → Variable
  pointers : List (VarIndex × Reg)
  vectors : List (VarIndex × Reg)
  /-- Code is emitted for the bytes that do not fill a vector. -/
  inTail : Bool := false
  /-- The byte offset of the unrolled copy that code is emitted for. -/
  offset : Nat := 0

namespace EmitSite

/-- The vector register that holds a variable. -/
def vectorReg (site : EmitSite) (index : VarIndex) : Except CompileError Reg :=
  match site.vectors.lookup index with
  | some register => .ok register
  | none => .error (.noVectorRegister index)

/-- The register that walks an array. -/
def pointerReg (site : EmitSite) (index : VarIndex) : Except CompileError Reg :=
  match site.pointers.lookup index with
  | some register => .ok register
  | none => .error (.noPointerRegister index)

end EmitSite

/-- Emission with a supply of labels and the state of the routines, which
outlives an error. -/
abbrev EmitM (σ : Type) := StateT Label (ExceptT CompileError (StateM σ))

/-- Takes `count` labels from the supply and returns the first. -/
def EmitM.takeLabels {σ : Type} (count : Nat) : EmitM σ Label := do
  let first ← get
  set (first + count)
  return first

/-- Appends the machine code of one instruction. -/
abbrev Routine (σ : Type) := EmitSite → RuleParam → Instruction →
    EmitM σ Fragment

structure Rule (σ : Type) where
  name : String
  emit : Routine σ
  param : RuleParam

/-- Why a rule is refused. -/
inductive RuleError where
  | emptyName
  | noRoutine (name : String)
  | badWidth (name : String) (width : Int)
deriving DecidableEq, Repr

def RuleError.message : RuleError → String
  | emptyName => "msa: malformed rule: empty name"
  | noRoutine name =>
      "msa: malformed rule: " ++ name ++ " has no emission routine"
  | badWidth name width =>
      "msa: malformed rule: " ++ name ++ " has width " ++ toString width

structure Registry (σ : Type) where
  rules : List (Rule σ) := []

namespace Registry

variable {σ : Type}

/-- Installs a rule in place of an earlier one of its name. -/
def insert (registry : Registry σ) (rule : Rule σ) : Registry σ :=
  ⟨rule :: registry.rules.filter fun other => other.name != rule.name⟩

/-- Installs a rule if it is well formed. -/
def register (registry : Registry σ) (name : String) (emit : Option (Routine σ))
    (param : RuleParam) : Except RuleError (Registry σ) :=
  if name = "" then .error .emptyName
  else
    match emit with
    | none => .error (.noRoutine name)
    | some emit =>
        if !Lane.validSize param.width then .error (.badWidth name param.width)
        else .ok (registry.insert ⟨name, emit, param⟩)

def lookup? (registry : Registry σ) (name : String) : Option (Rule σ) :=
  registry.rules.find? fun rule => rule.name == name

/-- The names of the rules in ascending order. -/
def names (registry : Registry σ) : List String :=
  (registry.rules.map Rule.name).mergeSort fun a b => decide (a ≤ b)

end Registry

end LaneKernel
