/-!
# Cursors

A place in the text of a document: the characters that follow, with the line and
the column.  A cursor is fresh while only blanks stand in front of it on its
line; block structure is read off the columns of fresh cursors.
-/

namespace LaneKernel.Document

structure Cursor where
  rest : List Char
  line : Nat := 0
  column : Nat := 0
  fresh : Bool := true
deriving DecidableEq, Repr

/-- Characters between words of a line. -/
def isSpace (character : Char) : Bool := character = ' ' || character = '\t'

/-- Whether a text ends here or goes on with a blank or a line break. -/
def startsBlank : List Char → Bool
  | [] => true
  | character :: _ => isSpace character || character = '\n'

/-- Whether a text starts with an indicator that stands alone. -/
def startsWith (indicator : Char) : List Char → Bool
  | [] => false
  | character :: rest => character = indicator && startsBlank rest

namespace Cursor

/-- The cursor behind one character that is not a line break. -/
def pass (cursor : Cursor) : Cursor :=
  { cursor with rest := cursor.rest.drop 1, column := cursor.column + 1,
                fresh := false }

/-- Passes blanks, line breaks and comments.  `tabs` tells whether a tab is a
blank here; after a line break it is one in flow context only. -/
def skipFrom (flow : Bool) : List Char → Bool → Bool → Nat → Nat → Bool → Cursor
  | [], _, _, line, column, fresh => ⟨[], line, column, fresh⟩
  | character :: rest, comment, tabs, line, column, fresh =>
      if character = '\n' then skipFrom flow rest false flow (line + 1) 0 true
      else if comment then skipFrom flow rest true tabs line (column + 1) fresh
      else if character = ' ' ∨ (character = '\t' ∧ tabs) then
        skipFrom flow rest false tabs line (column + 1) fresh
      else if character = '#' then
        skipFrom flow rest true tabs line (column + 1) fresh
      else ⟨character :: rest, line, column, fresh⟩

/-- The next place with content in block context. -/
def skip (cursor : Cursor) (tabs : Bool) : Cursor :=
  skipFrom false cursor.rest false tabs cursor.line cursor.column cursor.fresh

/-- The next place with content in flow context. -/
def skipFlow (cursor : Cursor) : Cursor :=
  skipFrom true cursor.rest false true cursor.line cursor.column cursor.fresh

def atEnd (cursor : Cursor) : Bool := cursor.rest.isEmpty

end Cursor

end LaneKernel.Document
