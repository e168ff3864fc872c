import LaneKernel.Machine.Basic

/-!
# Register access by identifier

Identifiers 1 to 32 are the general purpose registers, 33 the program counter
and 34 to 65 the vector registers.
-/

namespace LaneKernel

/-- A register identifier; every 64-bit number can be asked for. -/
abbrev RegisterId := UInt64

/-- A value of one of the two register widths. -/
inductive RegisterValue where
  | word (word : UInt32)
  | vector (register : VectorRegister)
deriving DecidableEq, Repr

def RegisterValue.typeName : RegisterValue → String
  | word _ => "hv.Register32"
  | vector _ => "hv.Register128"

/-- What an identifier stands for. -/
inductive RegisterName where
  | general (index : RegNum)
  | pc
  | vector (index : RegNum)
deriving DecidableEq, Repr

inductive RegisterError where
  | unsupported (id : RegisterId)
  | wrongKind (name : RegisterName) (value : RegisterValue)
deriving DecidableEq, Repr

def RegisterError.message : RegisterError → String
  | unsupported id => "mipsle: unsupported register " ++ toString id.toNat
  | wrongKind .pc value => "mipsle: pc wants Register32, got " ++ value.typeName
  | wrongKind (.general _) value =>
      "mipsle: general register wants Register32, got " ++ value.typeName
  | wrongKind (.vector _) value =>
      "mipsle: vector register wants Register128, got " ++ value.typeName

namespace RegisterName

/-- The identifier of general purpose register `index`, modulo `2 ^ 64`. -/
def generalId (index : Int) : RegisterId := UInt64.ofInt (1 + index)

/-- The identifier of vector register `index`, modulo `2 ^ 64`. -/
def vectorId (index : Int) : RegisterId := UInt64.ofInt (34 + index)

/-- The register of an identifier. -/
def ofId? (id : RegisterId) : Option RegisterName :=
  if id = 33 then some .pc
  else if 1 ≤ id ∧ id ≤ 32 then some (.general (Fin.ofNat 32 (id.toNat - 1)))
  else if 34 ≤ id ∧ id ≤ 65 then some (.vector (Fin.ofNat 32 (id.toNat - 34)))
  else none

end RegisterName

namespace Machine

/-- Writes one register. -/
def setRegister (machine : Machine) (id : RegisterId) (value : RegisterValue) :
    Except RegisterError Machine :=
  match RegisterName.ofId? id, value with
  | none, _ => .error (.unsupported id)
  | some .pc, .word word => .ok (machine.setPc word)
  | some (.general index), .word word =>
      .ok (machine.mapCore (·.setReg index word))
  | some (.vector index), .vector register =>
      .ok (machine.mapCore (·.setVector index register))
  | some name, value => .error (.wrongKind name value)

/-- Writes registers in order, up to the first that is refused. -/
def setRegisters (machine : Machine) :
    List (RegisterId × RegisterValue) → Machine × Option RegisterError
  | [] => (machine, none)
  | (id, value) :: rest =>
      match machine.setRegister id value with
      | .ok next => next.setRegisters rest
      | .error cause => (machine, some cause)

/-- Reads one register. -/
def getRegister (machine : Machine) (id : RegisterId) :
    Except RegisterError RegisterValue :=
  match RegisterName.ofId? id with
  | none => .error (.unsupported id)
  | some .pc => .ok (.word machine.core.pc)
  | some (.general index) => .ok (.word (machine.core.reg index))
  | some (.vector index) => .ok (.vector (machine.core.vector index))

/-- Reads registers in order. -/
def getRegisters (machine : Machine) (ids : List RegisterId) :
    Except RegisterError (List (RegisterId × RegisterValue)) :=
  ids.mapM fun id => (machine.getRegister id).map fun value => (id, value)

end Machine

end LaneKernel
