import LaneKernel.Program.Basic

/-!
# Program text

One instruction a line: lane flags, the opcode, and the operands with commas
between them.  A `#` starts a comment and lines without an instruction are
skipped.  Letter case and the amount of white space do not matter.
-/

namespace LaneKernel

namespace Var

/-- Reads a variable name. -/
def parse (name : List Char) : Except ProgramError VarIndex :=
  let normalized := normalize name
  match ofNormalized? normalized with
  | some index => .ok index
  | none => .error (.unknownVariable (String.ofList normalized))

end Var

namespace Instruction

/-- The flag that a word stands for, in any letter case. -/
def flagWord? (word : List Char) : Option UInt8 :=
  match word.map Text.lowerChar with
  | ['x', '2'] => some flagX2
  | ['x', '4'] => some flagX4
  | _ => none

/-- Takes the leading flag words off a line. -/
def takeFlags (flags : UInt8) : List (List Char) → UInt8 × List (List Char)
  | [] => (flags, [])
  | word :: rest =>
      match flagWord? word with
      | some flag => takeFlags (flags ||| flag) rest
      | none => (flags, word :: rest)

/-- Reads one instruction: `[x2|x4] opcode dest, src, …`. -/
def parse (line : List Char) : Except ProgramError Instruction :=
  match takeFlags 0 (Text.words line) with
  | (_, []) => .error (.missingOpcode (String.ofList line))
  | (flags, word :: rest) =>
      let opcode := String.ofList (word.map Text.lowerChar)
      if rest.isEmpty then .error (.noOperands opcode)
      else do
        let operands ← (Text.split ',' (Text.join [' '] rest)).mapM Var.parse
        return ⟨opcode, flags, operands.take 1, operands.drop 1⟩

end Instruction

namespace Program

/-- A line without its comment and without white space at its ends. -/
def stripLine (line : List Char) : List Char :=
  Text.trimChars (line.takeWhile (· ≠ '#'))

/-- Appends the instruction on a line, if there is one. -/
def parseLine (program : Program) (line : List Char) :
    Except ProgramError Program :=
  let stripped := stripLine line
  if stripped.isEmpty then .ok program
  else do
    let instruction ← Instruction.parse stripped
    program.appendInstruction instruction

/-- Appends the instructions of the lines up to the first that fails; `number`
is that of the first line. -/
def parseLines (program : Program) (number : Nat) :
    List (List Char) → Program × Option ProgramError
  | [] => (program, none)
  | line :: rest =>
      match program.parseLine line with
      | .ok next => next.parseLines (number + 1) rest
      | .error cause => (program, some (.atLine number cause))

/-- Appends one instruction for every line of a text that holds one.
Instructions of the lines in front of a failing one stay. -/
def parseCode (program : Program) (text : String) :
    Program × Option ProgramError :=
  program.parseLines 1 (Text.split '\n' text.toList)

end Program

end LaneKernel
