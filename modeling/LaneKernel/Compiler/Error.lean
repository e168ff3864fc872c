import LaneKernel.Compiler.Semantics
import LaneKernel.Program.Error

/-!
# Compile errors

Every reason for which a kernel is not compiled.  Errors of the assembler and of
the program keep their own classes when they are reported as a problem of the
kernel.
-/

namespace LaneKernel

inductive CompileError where
  | missingProgram
  | missingRegistry
  | unrollShift (shift : Int)
  | accumulator (index : VarIndex)
  | noAlignmentVariable (name : String)
  | elementSizes (index : VarIndex) (size : Int) (align : VarIndex)
      (alignSize : Int)
  | elementSize (size : Int)
  | noRule (opcode : String)
  | outOfRegisters (what : String)
  | frameTooLarge (size : Nat)
  | noVectorRegister (index : VarIndex)
  | noPointerRegister (index : VarIndex)
  | parameterOffset (opcode : String)
  | loadOffset (opcode : String) (offset : Int)
  | broadcast (opcode : String) (index : VarIndex)
  | wantsTwoSources (opcode : String)
  | semantics (opcode : String) (kind : Semantics)
  | floatWidth (opcode : String) (width : Int)
  /-- The rule looks at an operand that the instruction does not have; nothing
  is reported. -/
  | missingOperand
  | invalid (cause : ProgramError)
  | assembly (cause : AsmError)
  | atInstruction (text : String) (cause : CompileError)
  | ofProgram (cause : CompileError)
deriving DecidableEq, Repr

namespace CompileError

private def programText (detail : String) :
    String := "msa: program error: " ++ detail

private def unimplementedText (detail : String) : String :=
  "msa: unimplemented operation for target: " ++ detail

def message : CompileError → String
  | missingProgram => programText "nil program"
  | missingRegistry => "msa: registry must be non-nil"
  | unrollShift shift =>
      programText ("unroll shift " ++ toString shift ++ " outside 0..2")
  | accumulator index => unimplementedText ("accumulator " ++ Var.nameOf index)
  | noAlignmentVariable name =>
      programText (Text.quote name ++ " has neither d1 nor s1 to align on")
  | elementSizes index size align alignSize =>
      programText (Var.nameOf index ++ " has element size "
        ++ toString size ++ ", "
        ++ Var.nameOf align ++ " has " ++ toString alignSize)
  | elementSize size => programText ("element size " ++ toString size)
  | noRule opcode => unimplementedText opcode
  | outOfRegisters what => programText ("out of " ++ what ++ " registers")
  | frameTooLarge size => programText ("frame of " ++ toString size ++ " bytes")
  | noVectorRegister index =>
      programText (Var.nameOf index ++ " has no vector register")
  | noPointerRegister index =>
      programText (Var.nameOf index ++ " is not an array")
  | parameterOffset opcode =>
      unimplementedText (opcode ++ " with a parameter offset")
  | loadOffset opcode offset =>
      programText (opcode ++ " offset " ++ toString offset ++
        " outside -512..511")
  | broadcast opcode index =>
      programText (opcode ++ " broadcasts " ++ Var.nameOf index)
  | wantsTwoSources opcode => programText (opcode ++ " wants two sources")
  | semantics opcode kind =>
      unimplementedText (opcode ++ " with " ++ kind.name ++ " semantics")
  | floatWidth opcode width =>
      unimplementedText (opcode ++ " on " ++ toString width ++ " byte floats")
  | missingOperand => ""
  | invalid cause => cause.message
  | assembly cause => cause.message
  | atInstruction text cause => text ++ ": " ++ cause.message
  | ofProgram cause => programText cause.message

def classes : CompileError → List ErrorClass
  | missingRegistry | missingOperand => []
  | accumulator _ | noRule _ | parameterOffset _ | semantics _ _
  | floatWidth _ _ =>
      [.unimplemented]
  | invalid _ => [.invalidProgram]
  | assembly cause => cause.classes
  | atInstruction _ cause => cause.classes
  | ofProgram cause => .program :: cause.classes
  | _ => [.program]

/-- Whether the error stops the compiler without a report. -/
def isCrash : CompileError → Bool
  | missingOperand => true
  | assembly cause => cause.isCrash
  | atInstruction _ cause => cause.isCrash
  | ofProgram cause => cause.isCrash
  | _ => false

/-- An error of the assembler or of the program is reported as a problem of the
kernel; an error that already names the kernel or the target is kept. -/
def asProgramError (cause : CompileError) : CompileError :=
  if cause.classes.contains .program ||
    cause.classes.contains .unimplemented then cause
  else .ofProgram cause

end CompileError

end LaneKernel
