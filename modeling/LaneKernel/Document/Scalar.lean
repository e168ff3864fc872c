import LaneKernel.Document.Cursor
import LaneKernel.Text.Blank
import LaneKernel.Text.Number

/-!
# Scalars

The three ways to write a scalar: plain, in quotes, and as a block of indented
lines.  Plain and quoted scalars may go over several lines; a line break then
counts as a space, and further line breaks count as themselves.
-/

namespace LaneKernel.Document

/-- What stands between two words of a scalar. -/
inductive Gap where
  /-- Blanks on one line, kept backwards. -/
  | blanks (reversed : List Char)
  /-- Line breaks: whether the first one counts, and how many follow it. -/
  | breaks (counts : Bool) (further : Nat)
deriving DecidableEq, Repr

namespace Gap

def none : Gap := blanks []

/-- The gap with one more blank; blanks around line breaks do not count. -/
def blank (gap : Gap) (character : Char) : Gap :=
  match gap with
  | blanks reversed => blanks (character :: reversed)
  | breaks counts further => breaks counts further

/-- The gap with one more line break. -/
def lineBreak : Gap → Gap
  | blanks _ => breaks true 0
  | breaks counts further => breaks counts (further + 1)

/-- Puts what the gap stands for behind a text that is kept backwards. -/
def fill (gap : Gap) (reversed : List Char) : List Char :=
  match gap with
  | blanks spaces => spaces ++ reversed
  | breaks true 0 => ' ' :: reversed
  | breaks _ further => List.replicate further '\n' ++ reversed

def isBroken : Gap → Bool
  | blanks _ => false
  | breaks _ _ => true

end Gap

/-- A scalar being read: its text backwards and the gap behind it. -/
structure Draft where
  reversed : List Char := []
  gap : Gap := .none
deriving DecidableEq, Repr

namespace Draft

def text (draft : Draft) : String := String.ofList draft.reversed.reverse

/-- The gap becomes part of the text. -/
def close (draft : Draft) : Draft := ⟨draft.gap.fill draft.reversed, .none⟩

def push (draft : Draft) (character : Char) : Draft :=
  ⟨character :: draft.gap.fill draft.reversed, .none⟩

def blank (draft : Draft) (character : Char) : Draft :=
  { draft with gap := draft.gap.blank character }

def lineBreak (draft : Draft) :
    Draft := { draft with gap := draft.gap.lineBreak }

/-- A line break that joins the two lines without a space. -/
def joinLines (draft : Draft) :
    Draft := ⟨draft.gap.fill draft.reversed, .breaks false 0⟩

end Draft

/-- The characters that end a plain scalar in flow context. -/
def flowIndicators : List Char := [',', '?', '[', ']', '{', '}']

/-- The characters that cannot start a plain scalar. -/
def indicators : List Char :=
  ['-', '?', ':', ',', '[', ']', '{', '}', '#', '&', '*', '!', '|', '>', '\'',
    '"', '%', '@', '\x60']

/-- Whether a plain scalar starts here. -/
def startsPlain (flow : Bool) : List Char → Bool
  | [] => false
  | character :: rest =>
      if isSpace character || character = '\n' then false
      else if character = '-' then !startsBlank rest
      else if character = '?' || character = ':' then !flow && !startsBlank rest
      else !indicators.contains character

/-- Reads a plain scalar.  Outside flow context a further line must start at
column `indent`. -/
def plainFrom (flow : Bool) (indent : Int) : List Char → Draft → Nat → Nat →
    Option (String × Cursor)
  | [], draft, line, column =>
    some (draft.text, ⟨[], line, column, draft.gap.isBroken⟩)
  | character :: rest, draft, line, column =>
      if character = '\n' then
        plainFrom flow indent rest draft.lineBreak (line + 1) 0
      else if isSpace character then
        if character = '\t' ∧ draft.gap.isBroken ∧
          (column : Int) < indent then none
        else plainFrom flow indent rest (draft.blank character) line
          (column + 1)
      else
        let afterGap := draft.gap ≠ .none
        let ends :=
          (afterGap && character = '#')
            || (draft.gap.isBroken && !flow && decide ((column : Int) < indent))
            || (character = ':' && startsBlank rest)
            || (flow && flowIndicators.contains character)
        if ends then
          some (draft.text,
            ⟨character :: rest, line, column, draft.gap.isBroken⟩)
        else plainFrom flow indent rest (draft.push character) line (column + 1)

/-- Reads a scalar up to the closing quote; a quote inside is written twice. -/
def singleFrom : List Char → Draft → Nat → Nat → Option (String × Cursor)
  | [], _, _, _ => none
  | '\'' :: '\'' :: rest, draft, line, column =>
      singleFrom rest (draft.push '\'') line (column + 2)
  | character :: rest, draft, line, column =>
      if character = '\'' then
        some (draft.close.text, ⟨rest, line, column + 1, false⟩)
      else if character = '\n' then singleFrom rest draft.lineBreak (line + 1) 0
      else if isSpace character then
        singleFrom rest (draft.blank character) line (column + 1)
      else singleFrom rest (draft.push character) line (column + 1)

/-- The character that an escape of one letter stands for. -/
def escapes : List (Char × Char) :=
  [('0', '\x00'), ('a', '\x07'), ('b', '\x08'), ('t', '\t'), ('\t', '\t'),
    ('n', '\n'), ('v', '\x0b'), ('f', '\x0c'), ('r', '\r'), ('e', '\x1b'),
    (' ', ' '), ('"', '"'), ('\'', '\''), ('\\', '\\'), ('N', '\u0085'),
    ('_', '\u00a0'), ('L', '\u2028'), ('P', '\u2029')]

/-- The number of digits behind an escape that gives a character by its
number. -/
def escapeDigits : List (Char × Nat) := [('x', 2), ('u', 4), ('U', 8)]

/-- What the next character of a scalar in double quotes belongs to. -/
inductive QuoteMode where
  | text
  | escape
  | digits (left : Nat) (value : Nat)
deriving DecidableEq, Repr

/-- The character with a number, if there is one. -/
def character? (number : Nat) : Option Char :=
  if number.isValidChar then some (Char.ofNat number) else none

/-- Reads a scalar up to the closing quote, with escapes. -/
def doubleFrom : List Char → QuoteMode → Draft → Nat → Nat →
    Option (String × Cursor)
  | [], _, _, _, _ => none
  | character :: rest, .text, draft, line, column =>
      if character = '"' then
        some (draft.close.text, ⟨rest, line, column + 1, false⟩)
      else if character = '\\' then
        doubleFrom rest .escape draft line (column + 1)
      else if character = '\n' then
        doubleFrom rest .text draft.lineBreak (line + 1) 0
      else if isSpace character then
        doubleFrom rest .text (draft.blank character) line (column + 1)
      else doubleFrom rest .text (draft.push character) line (column + 1)
  | character :: rest, .escape, draft, line, column =>
      if character = '\n' then
        doubleFrom rest .text draft.joinLines (line + 1) 0
      else
        match escapes.lookup character, escapeDigits.lookup character with
        | some meant, _ =>
            doubleFrom rest .text (draft.push meant) line (column + 1)
        | none, some digits =>
            doubleFrom rest (.digits digits 0) draft line (column + 1)
        | none, none => none
  | character :: rest, .digits left value, draft, line, column =>
      match Text.hexDigit? character with
      | none => none
      | some digit =>
          let value := 16 * value + digit
          if left ≤ 1 then
            match character? value with
            | none => none
            | some meant =>
                doubleFrom rest .text (draft.push meant) line (column + 1)
          else doubleFrom rest (.digits (left - 1) value) draft line
            (column + 1)

/-- What happens to the line breaks at the end of a block. -/
inductive Chomp where
  | strip
  | clip
  | keep
deriving DecidableEq, Repr

/-- How a block is written. -/
structure BlockStyle where
  folded : Bool
  chomp : Chomp := .clip
  /-- The indentation relative to the surrounding block, if it is given. -/
  indent : Option Nat := none
deriving DecidableEq, Repr

/-- Reads the marks behind the block indicator: at most one digit and one
sign. -/
def BlockStyle.ofMarks? (folded : Bool) : List Char → Option BlockStyle
  | [] => some ⟨folded, .clip, none⟩
  | [mark] =>
      match chomp? mark, digit? mark with
      | some chomp, _ => some ⟨folded, chomp, none⟩
      | none, some digit => some ⟨folded, .clip, some digit⟩
      | none, none => none
  | [first, second] =>
      match chomp? first, digit? second, digit? first, chomp? second with
      | some chomp, some digit, _, _ => some ⟨folded, chomp, some digit⟩
      | _, _, some digit, some chomp => some ⟨folded, chomp, some digit⟩
      | _, _, _, _ => none
  | _ => none
where
  chomp? (mark : Char) : Option Chomp :=
    if mark = '-' then some .strip else if mark = '+' then some .keep else none
  digit? (mark : Char) : Option Nat :=
    if '1' ≤ mark ∧ mark ≤ '9' then some (mark.toNat - '0'.toNat) else none

/-- The style of a block from the rest of the line behind the block
indicator. -/
def BlockStyle.ofHeader? (folded : Bool) (header : List Char) :
    Option BlockStyle :=
  let (marks, behind) :=
    header.span fun character => !isSpace character && character ≠ '#'
  match behind.dropWhile isSpace with
  | [] => ofMarks? folded marks
  | character :: _ => if character = '#' then ofMarks? folded marks else none

/-- A block being read. -/
structure BlockDraft where
  reversed : List Char := []
  /-- The line break behind the last line with text. -/
  lastBreak : Bool := false
  /-- The line breaks of the empty lines behind it. -/
  emptyLines : Nat := 0
  /-- The last line with text starts with a blank. -/
  startsBlank : Bool := false
deriving DecidableEq, Repr

/-- The block with one more line of text. -/
def BlockDraft.addLine (draft : BlockDraft) (folded : Bool) (line : List Char)
    (ended : Bool) :
    BlockDraft :=
  let blank := match line with
    | [] => false
    | character :: _ => isSpace character
  let joined :=
    if folded && !draft.startsBlank && !blank && draft.lastBreak then
      if draft.emptyLines = 0 then ' ' :: draft.reversed else draft.reversed
    else if draft.lastBreak then '\n' :: draft.reversed
    else draft.reversed
  { reversed := line.reverse ++ (List.replicate draft.emptyLines '\n' ++ joined)
    lastBreak := ended
    emptyLines := 0
    startsBlank := blank }

def BlockDraft.text (draft : BlockDraft) (chomp : Chomp) : String :=
  let clipped :=
    if draft.lastBreak && chomp ≠ .strip then '\n' :: draft.reversed
    else draft.reversed
  let kept := if chomp = .keep then List.replicate draft.emptyLines '\n' ++
    clipped else clipped
  String.ofList kept.reverse

/-- The number of spaces in front of a line. -/
def leadingSpaces (line : List Char) : Nat := (line.takeWhile (· = ' ')).length

/-- The indentation of a block that gives none: the most spaces in front of its
first line with text or of an empty line before it.  A tab in front of the text
is refused. -/
def detectIndent (most : Nat) : List (List Char) → Option Nat
  | [] => some most
  | line :: rest =>
      let spaces := leadingSpaces line
      match line.drop spaces with
      | [] => detectIndent (max most spaces) rest
      | character :: _ =>
          if character = '\t' then none else some (max most spaces)

/-- Reads the lines of a block; answers the lines that follow it and how many
were read. -/
def blockLines (folded : Bool) (indent : Nat) (count : Nat) :
    List (List Char) → BlockDraft → Option (BlockDraft × List (List Char) × Nat)
  | [], draft => some (draft, [], count)
  | line :: rest, draft =>
      let spaces := min (leadingSpaces line) indent
      match line.drop spaces with
      | [] =>
          if rest.isEmpty then some (draft, [], count)
          else
            blockLines folded indent (count + 1) rest
              { draft with emptyLines := draft.emptyLines + 1 }
      | character :: text =>
          if spaces < indent then
            if character = '\t' then none else some (draft, line :: rest, count)
          else
            blockLines folded indent (count + 1) rest
              (draft.addLine folded (character :: text) !rest.isEmpty)

/-- Reads a block behind its indicator, inside a block collection at column
`parent`. -/
def blockScalar (folded : Bool) (parent : Int) (cursor : Cursor) :
    Option (String × Cursor) :=
  match Text.split '\n' cursor.rest with
  | [] => none
  | header :: lines => do
      let style ← BlockStyle.ofHeader? folded header
      let indent ← match style.indent with
        | some digit => some (max parent 0 + digit).toNat
        | none =>
            (detectIndent 0 lines).map fun most =>
            max (max most (parent + 1).toNat) 1
      let (draft, rest, count) ← blockLines folded indent 0 lines {}
      return (draft.text style.chomp,
        ⟨Text.join ['\n'] rest, cursor.line + 1 + count, 0, true⟩)

end LaneKernel.Document
