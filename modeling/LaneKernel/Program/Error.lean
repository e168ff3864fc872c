import LaneKernel.AsmError
import LaneKernel.Text.Quoted
import LaneKernel.Variable

/-!
# Program errors

Every reason for which a kernel program, its text or its executor is not well
formed.
-/

namespace LaneKernel

inductive ProgramError where
  | variableIndex (index : VarIndex)
  | noRole (index : VarIndex)
  | needsValue (index : VarIndex)
  | badSize (index : VarIndex) (size : Int)
  | declaredTwice (index : VarIndex)
  | notAlignable (index : VarIndex)
  | notConst (index : VarIndex)
  | notParam (index : VarIndex)
  | noOperands (opcode : String)
  | unknownOpcode (opcode : String)
  | destinations (opcode : String)
  | sources (opcode : String) (wanted got : Nat)
  | bothLaneFlags (opcode : String)
  | laneWidth (lanes : Nat) (opcode : String) (width : Nat)
  | undeclared (opcode : String) (index : VarIndex)
  | accumulator (opcode : String) (index : VarIndex)
  | readOnly (opcode name : String)
  | destSize (opcode name : String) (size : Int) (width : Nat)
  | readsDest (opcode name : String)
  | offsetOperand (opcode name : String)
  | sourceSize (opcode name : String) (size : Int) (width : Nat)
  | wantsSourceArray (opcode : String)
  | wantsScalar (opcode : String)
  | wantsDestArray (opcode : String)
  | empty (name : String)
  | readBeforeWritten (index : VarIndex)
  | tooManyTemps (name : String)
  | unknownVariable (name : String)
  | missingOpcode (line : String)
  | misalignedArray (index : VarIndex) (address : UInt32)
  | misalignedStride (index : VarIndex) (stride : Int32)
  | unnamedKernel
  | atLine (line : Nat) (cause : ProgramError)
deriving DecidableEq, Repr

namespace ProgramError

/-- What is wrong, without the class of the error. -/
def detail : ProgramError → String
  | variableIndex index => "variable index " ++ toString index
  | noRole index => "variable index " ++ toString index ++ " has no role"
  | needsValue index =>
      Var.nameOf index ++ " must be declared with DeclareConst"
  | badSize index size => Var.nameOf index ++ " has size " ++ toString size
  | declaredTwice index => Var.nameOf index ++ " declared twice"
  | notAlignable index =>
      "only a declared array can be aligned, not " ++ Var.nameOf index
  | notConst index => Var.nameOf index ++ " is not a constant slot"
  | notParam index => Var.nameOf index ++ " is not a parameter"
  | noOperands opcode => opcode ++ " has no operands"
  | unknownOpcode opcode => "unknown opcode " ++ Text.quote opcode
  | destinations opcode => opcode ++ " wants one destination"
  | sources opcode wanted got =>
      opcode ++ " wants " ++ toString wanted ++ " sources, got " ++ toString got
  | bothLaneFlags opcode => opcode ++ " has both x2 and x4"
  | laneWidth lanes opcode width =>
      "x" ++ toString lanes ++ " " ++ opcode ++ " needs " ++ toString width ++
        " byte elements"
  | undeclared opcode index => opcode ++ " uses undeclared " ++ Var.nameOf index
  | accumulator opcode index =>
      opcode ++ " does not accept accumulator " ++ Var.nameOf index
  | readOnly opcode name => opcode ++ " writes read-only " ++ name
  | destSize opcode name size width =>
      opcode ++ " writes " ++ name ++ " of size " ++ toString size ++
        ", want " ++ toString width
  | readsDest opcode name => opcode ++ " reads destination " ++ name
  | offsetOperand opcode name =>
      opcode ++ " offset " ++ name ++ " must be a constant or parameter"
  | sourceSize opcode name size width =>
      opcode ++ " reads " ++ name ++ " of size " ++ toString size ++
        ", want " ++ toString width
  | wantsSourceArray opcode => opcode ++ " must read a source array"
  | wantsScalar opcode => opcode ++ " must read a constant or parameter"
  | wantsDestArray opcode => opcode ++ " must write a destination array"
  | empty name => Text.quote name ++ " has no instructions"
  | readBeforeWritten index => Var.nameOf index ++ " read before written"
  | tooManyTemps name => Text.quote name ++ " needs more than 16 temporaries"
  | unknownVariable name => "unknown variable " ++ Text.quote name
  | missingOpcode line => "missing opcode in " ++ Text.quote line
  | misalignedArray index address =>
      "aligned " ++ Var.nameOf index ++ " at " ++ Text.hex address.toNat
  | misalignedStride index stride =>
      "aligned " ++ Var.nameOf index ++ " has row stride " ++
        toString stride.toInt
  | unnamedKernel => "kernel has no name"
  | atLine _ cause => cause.detail

def message : ProgramError → String
  | atLine line cause => "line " ++ toString line ++ ": " ++ cause.message
  | cause => "ir: invalid program: " ++ cause.detail

end ProgramError

end LaneKernel
