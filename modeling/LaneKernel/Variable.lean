import LaneKernel.Lane
import LaneKernel.Text.Blank
import LaneKernel.Text.Lowercase
import LaneKernel.Text.Number

/-!
# Kernel variables

A kernel has 64 variable slots.  The index of a slot fixes its role, so that
slots line up with the executor record: four destination arrays, eight source
arrays, four accumulators, eight constants, eight parameters and sixteen
temporaries.  The remaining slots have no role.
-/

namespace LaneKernel

/-- What a variable is for. -/
inductive Role where
  | none | dest | source | accumulator | const | param | temp
deriving DecidableEq, Repr, Inhabited

/-- An index into the variable table.  Every integer can be written; only those
of a role's range name a variable. -/
abbrev VarIndex := Int

namespace Role

def name : Role → String
  | none => "none" | dest => "dest" | source => "source"
  | accumulator => "accumulator"
  | const => "const" | param => "param" | temp => "temp"

/-- Whether variables of the role live in memory and are walked by a pointer. -/
def isArray : Role → Bool
  | dest | source => true
  | _ => false

/-- Whether variables of the role are broadcast into every lane. -/
def isScalar : Role → Bool
  | const | param => true
  | _ => false

end Role

/-- The slots of one role. -/
structure RoleRange where
  role : Role
  letter : Char
  base : Nat
  count : Nat
deriving DecidableEq, Repr

namespace Var

/-- The size of the variable table. -/
def count : Nat := 64

/-- Every index of the table, in order. -/
def indices : List VarIndex := (List.range count).map Int.ofNat

def firstDest : Nat := 0
def firstSource : Nat := 4
def firstAccumulator : Nat := 12
def accumulatorCount : Nat := 4
def firstConst : Nat := 16
def firstParam : Nat := 24
def paramCount : Nat := 8
def firstTemp : Nat := 32
def tempCount : Nat := 16

/-- The roles with their slots, in index order. -/
def ranges : List RoleRange :=
  [⟨.dest, 'd', firstDest, 4⟩, ⟨.source, 's', firstSource, 8⟩,
    ⟨.accumulator, 'a', firstAccumulator, accumulatorCount⟩,
    ⟨.const, 'c', firstConst, 8⟩, ⟨.param, 'p', firstParam, paramCount⟩,
    ⟨.temp, 't', firstTemp, tempCount⟩]

/-- The range that holds an index. -/
def range? (index : VarIndex) : Option RoleRange :=
  ranges.find? fun range =>
    range.base ≤ index && index < range.base + range.count

/-- The role that an index implies. -/
def roleOf (index : VarIndex) : Role :=
  match range? index with
  | some range => range.role
  | none => .none

/-- The name of a slot: the letter of its role and its number in the role, from
one. -/
def nameOf (index : VarIndex) : String :=
  match range? index with
  | some range => range.letter.toString ++ toString (index - range.base + 1)
  | none => "var" ++ toString index

/-- A trimmed name in lower case, the form in which names are compared and
reported. -/
def normalize (name : List Char) : List Char :=
  (Text.trimChars name).map Text.lowerChar

/-- The slot of a name in lower case. -/
def ofNormalized? (name : List Char) : Option VarIndex :=
  match name with
  | [] => none
  | letter :: digits => do
      let range ← ranges.find? (·.letter == letter)
      let number ← Text.decimal? digits
      if 1 ≤ number ∧ number ≤ range.count then some (range.base + number - 1)
      else none

end Var

/-- Arrays that promise alignment start at a multiple of this many bytes and
keep it from row to row. -/
def arrayAlignment : UInt32 := 4

/-- A declaration.  The slot is free while its role is `none`. -/
structure Variable where
  name : String := ""
  role : Role := .none
  size : Int := 0
  value : Int64 := 0
  aligned : Bool := false
deriving DecidableEq, Repr, Inhabited

/-- Whether the slot is taken. -/
def Variable.declared (declaration : Variable) :
    Bool := declaration.role != .none

end LaneKernel
