import LaneKernel.Text.Lines
import LaneKernel.Text.Lowercase
import LaneKernel.Text.Quoted

/-!
# Disassembly

The output of a disassembler as a list of instructions, and what is expected of
an instruction.
-/

namespace LaneKernel.Disassembly

/-- One instruction of a disassembly. -/
structure Line where
  text : String
  /-- The words of the text with one space between neighbours. -/
  normalized : String
  /-- The first word in lower case. -/
  mnemonic : String
deriving DecidableEq, Repr

/-- The texts behind an address that are no instruction begin with one of
these. -/
def otherTexts : List String := ["<", ".", "file format"]

/-- The instruction of an output line: the text behind the first colon, unless
it is empty or belongs to a heading. -/
def Line.ofOutput? (line : List Char) : Option Line := do
  let (_, behind) ← Text.cut? ':' line
  let text := Text.trimChars behind
  if otherTexts.any fun other => other.toList.isPrefixOf text then none
  else
    match Text.words text with
    | [] => none
    | first :: rest =>
        some {
          text := String.ofList text
          normalized := String.ofList (Text.join [' '] (first :: rest))
          mnemonic := String.ofList (first.map Text.lowerChar) }

/-- A line of the output does not fit the line buffer. -/
structure LineTooLong where
deriving DecidableEq, Repr

def LineTooLong.message (_ : LineTooLong) : String :=
  "scanner error: bufio.Scanner: token too long"

/-- The instructions of an output. -/
def parse (output : List Char) : Except LineTooLong (List Line) :=
  let read := Text.Lines.ofText output
  if read.complete then .ok (read.lines.filterMap Line.ofOutput?) else .error {}

/-- What is expected of an instruction; an empty mnemonic expects nothing of
it. -/
structure Expectation where
  mnemonic : String := ""
  contains : List String := []
deriving DecidableEq, Repr

/-- Whether a text occurs in another. -/
def occursIn (part : List Char) : List Char → Bool
  | [] => part.isEmpty
  | character :: rest =>
      part.isPrefixOf (character :: rest) || occursIn part rest

inductive Mismatch where
  | mnemonic (found wanted : String)
  | missing (part text : String)
deriving DecidableEq, Repr

def Mismatch.message : Mismatch → String
  | mnemonic found wanted => "mnemonic=" ++ found ++ ", want " ++ wanted
  | missing part text =>
      "missing " ++ Text.quote part ++ " in " ++ Text.quote text

/-- The first expectation that an instruction does not meet. -/
def Expectation.check (expected : Expectation) (line : Line) :
    Except Mismatch Unit :=
  if expected.mnemonic ≠ "" ∧ line.mnemonic ≠ expected.mnemonic then
    .error (.mnemonic line.mnemonic expected.mnemonic)
  else
    match expected.contains.find? fun part =>
      !occursIn part.toList line.normalized.toList with
    | some part => .error (.missing part line.normalized)
    | none => .ok ()

end LaneKernel.Disassembly
