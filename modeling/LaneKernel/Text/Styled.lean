/-!
# Styled text

Text for a terminal, in which escape sequences change the style and take no
room.  `width` counts the printed columns, `truncate` cuts a text to a number of
columns and `plain` removes the escape sequences.  All three follow one
automaton that tells what each character does.
-/

namespace LaneKernel.Text.Styled

/-- Where a character stands relative to escape sequences. -/
inductive Mode where
  /-- Outside any sequence. -/
  | ground
  /-- After the escape character. -/
  | escape
  /-- Inside a short sequence with intermediate characters. -/
  | intermediate
  /-- Inside a control sequence, which ends with a letter or another final
  character. -/
  | control
  /-- Inside a command string, which ends with a bell or an escape. -/
  | command
  /-- Inside another string, which ends with an escape. -/
  | payload
deriving DecidableEq, Repr

/-- What a character does. -/
inductive Effect where
  /-- It is printed and takes a column. -/
  | print
  /-- It is a control character outside the text of a sequence. -/
  | control
  /-- It belongs to an escape sequence. -/
  | sequence
deriving DecidableEq, Repr

/-- The effect of a character and the mode after it. -/
def step (mode : Mode) (character : Char) : Effect × Mode :=
  let code := character.toNat
  if code = 0x1b then (.sequence, .escape)
  else if code = 0x18 ∨ code = 0x1a then (.control, .ground)
  else
    match mode with
    | .ground =>
        if code < 0x20 ∨ code = 0x7f then (.control, .ground)
          else (.print, .ground)
    | .escape =>
        if code < 0x20 then (.control, .escape)
        else if code = 0x7f then (.sequence, .escape)
        else if code < 0x30 then (.sequence, .intermediate)
        else if character = '[' then (.sequence, .control)
        else if character = ']' then (.sequence, .command)
        else if character = 'P' ∨ character = 'X' ∨ character = '^' ∨
          character = '_' then
          (.sequence, .payload)
        else (.sequence, .ground)
    | .intermediate =>
        if code < 0x20 then (.control, .intermediate)
        else if code < 0x30 ∨ code = 0x7f then (.sequence, .intermediate)
        else (.sequence, .ground)
    | .control =>
        if code < 0x20 then (.control, .control)
        else if 0x40 ≤ code ∧ code ≤ 0x7e then (.sequence, .ground)
        else (.sequence, .control)
    | .command =>
        if code = 7 then (.sequence, .ground) else (.sequence, .command)
    | .payload => (.sequence, .payload)

/-- The columns that the rest of a text takes. -/
def widthFrom (mode : Mode) : List Char → Nat
  | [] => 0
  | character :: rest =>
      let (effect, next) := step mode character
      (if effect = .print then 1 else 0) + widthFrom next rest

/-- The number of columns of a text. -/
def width (text : List Char) : Nat := widthFrom .ground text

/-- The rest of a text without its escape sequences. -/
def plainFrom (mode : Mode) : List Char → List Char
  | [] => []
  | character :: rest =>
      let (effect, next) := step mode character
      if effect = .sequence then plainFrom next rest
      else character :: plainFrom next rest

/-- A text without its escape sequences. -/
def plain (text : List Char) : List Char := plainFrom .ground text

/-- The escape sequences of a text, without what stands between them. -/
def sequencesFrom (mode : Mode) : List Char → List Char
  | [] => []
  | character :: rest =>
      let (effect, next) := step mode character
      if effect = .sequence then character :: sequencesFrom next rest
      else sequencesFrom next rest

/-- The first `columns` columns of a text; if more follow, the mark stands in
their place and the escape sequences behind it are kept. -/
def cutFrom (columns : Nat) (mark : List Char) (mode : Mode) :
    List Char → List Char
  | [] => []
  | character :: rest =>
      let (effect, next) := step mode character
      if effect = .print then
        match columns with
        | 0 => mark ++ sequencesFrom next rest
        | columns + 1 => character :: cutFrom columns mark next rest
      else character :: cutFrom columns mark next rest

/-- The mark that stands for what was cut off. -/
def ellipsis : List Char := ['…']

/-- A text of at most `columns` columns, where the last one holds the mark if
the text was cut. -/
def truncate (columns : Nat) (text : List Char) : List Char :=
  if width text ≤ columns then text
  else cutFrom (columns - 1) ellipsis .ground text

/-- A text in bold. -/
def bold (text : List Char) : List Char :=
  '\x1b' :: '[' :: '1' :: 'm' :: (text ++ ['\x1b', '[', '0', 'm'])

end LaneKernel.Text.Styled
