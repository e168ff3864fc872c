import LaneKernel.Text.Blank

/-!
# Lines

A text read line by line through a buffer of fixed size.  A line that fills the
buffer ends the reading: the lines before it are kept and the text counts as not
read to its end.
-/

namespace LaneKernel.Text

/-- The size of the line buffer in bytes; a line must be shorter. -/
def lineLimit : Nat := 65536

/-- The number of bytes of a text in its encoded form. -/
def encodedSize (text : List Char) : Nat :=
  text.foldl (fun size character => size + character.utf8Size) 0

/-- A line without the carriage return at its end. -/
def dropReturn (line : List Char) : List Char :=
  if line.getLast? = some '\r' then line.dropLast else line

/-- The lines that were read, and whether the text was read to its end. -/
structure Lines where
  lines : List (List Char)
  complete : Bool
deriving DecidableEq, Repr

/-- Takes lines as long as they fit the buffer. -/
def Lines.ofPieces : List (List Char) → Lines
  | [] => ⟨[], true⟩
  | piece :: rest =>
      if lineLimit ≤ encodedSize piece then ⟨[], false⟩
      else
        let following := ofPieces rest
        ⟨dropReturn piece :: following.lines, following.complete⟩

/-- The lines of a text; a line feed at the end of the text starts no further
line. -/
def Lines.ofText (text : List Char) : Lines :=
  let pieces := split '\n' text
  Lines.ofPieces (if pieces.getLast? = some [] then pieces.dropLast else pieces)

end LaneKernel.Text
