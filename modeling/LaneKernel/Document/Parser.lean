import LaneKernel.Document.Node
import LaneKernel.Document.Scalar

/-!
# Reading documents

A document is one node.  Block collections show their structure by columns, flow
collections by brackets; both can be nested, and a flow collection holds flow
nodes only.

Every function that descends takes the number of calls that are left.  `parse?`
gives more of them than any text of that length can use: a call either passes a
character or descends at most three times at the same place.
-/

namespace LaneKernel.Document

/-- Reads a scalar on the same line or over several lines, other than a
block. -/
def inlineScalar (flow : Bool) (indent : Int) (cursor : Cursor) :
    Option (Node × Cursor) :=
  match cursor.rest with
  | [] => none
  | character :: rest =>
      if character = '"' then
        (doubleFrom rest .text {} cursor.line (cursor.column + 1)).map
          fun (text, behind) =>
          (.scalar text true, behind)
      else if character = '\'' then
        (singleFrom rest {} cursor.line (cursor.column + 1)).map fun (text,
          behind) =>
          (.scalar text true, behind)
      else if startsPlain flow cursor.rest then
        (plainFrom flow indent cursor.rest {} cursor.line cursor.column).map
          fun (text, behind) =>
          (.scalar text false, behind)
      else none

mutual

/-- Reads a node inside brackets or a collection in brackets. -/
def flowNode (indent : Int) : Nat → Cursor → Option (Node × Cursor)
  | 0, _ => none
  | calls + 1, cursor =>
      match cursor.rest with
      | '{' :: _ =>
          (flowMapping indent calls cursor.pass).map fun (entries, behind) =>
          (.mapping entries, behind)
      | '[' :: _ =>
          (flowSequence indent calls cursor.pass).map fun (items, behind) =>
          (.sequence items, behind)
      | _ => inlineScalar true indent cursor

/-- Reads a node and, if a colon follows on the line where it starts, the value
behind it. -/
def flowEntry (indent : Int) :
    Nat → Cursor → Option (Node × Option Node × Cursor)
  | 0, _ => none
  | calls + 1, cursor => do
      let (key, behind) ← flowNode indent calls cursor
      let next := behind.skipFlow
      match next.rest with
      | ':' :: _ =>
          if next.line ≠ cursor.line then none
          else
            let start := next.pass.skipFlow
            match start.rest with
            | ',' :: _ | ']' :: _ | '}' :: _ => return (key, some .null, start)
            | _ =>
                let (value, behind) ← flowNode indent calls start
                return (key, some value, behind.skipFlow)
      | _ => return (key, none, next)

/-- Reads the entries of a mapping up to its closing bracket.  A comma may stand
behind the last entry. -/
def flowMapping (indent : Int) :
    Nat → Cursor → Option (List (Node × Node) × Cursor)
  | 0, _ => none
  | calls + 1, cursor =>
      let start := cursor.skipFlow
      match start.rest with
      | '}' :: _ => some ([], start.pass)
      | _ => do
          let (key, value, next) ← flowEntry indent calls start
          let entry := (key, value.getD .null)
          match next.rest with
          | ',' :: _ =>
              let (entries, behind) ← flowMapping indent calls next.pass
              return (entry :: entries, behind)
          | '}' :: _ => return ([entry], next.pass)
          | _ => none

/-- Reads the items of a sequence up to its closing bracket.  An item with a
value is a mapping of its own. -/
def flowSequence (indent : Int) : Nat → Cursor → Option (List Node × Cursor)
  | 0, _ => none
  | calls + 1, cursor =>
      let start := cursor.skipFlow
      match start.rest with
      | ']' :: _ => some ([], start.pass)
      | _ => do
          let (key, value, next) ← flowEntry indent calls start
          let item := match value with
            | none => key
            | some value => .mapping [(key, value)]
          match next.rest with
          | ',' :: _ =>
              let (items, behind) ← flowSequence indent calls next.pass
              return (item :: items, behind)
          | ']' :: _ => return ([item], next.pass)
          | _ => none

end

/-- Reads a collection in brackets or a scalar other than a block: what can be a
key. -/
def inlineNode (indent : Int) (calls : Nat) (cursor : Cursor) :
    Option (Node × Cursor) :=
  match cursor.rest with
  | '{' :: _ | '[' :: _ => flowNode (indent + 1) calls cursor
  | _ => inlineScalar false (indent + 1) cursor

/-- Whether a key that starts at `start` is followed by its colon. -/
def isKey (start next : Cursor) : Bool :=
  startsWith ':' next.rest && next.line == start.line

/-- Whether a colon stands where none is allowed. -/
def strayColon (next : Cursor) : Bool := startsWith ':' next.rest && !next.fresh

mutual

/-- Reads a node inside a block collection at column `indent`.  Where `keys` is
false the node stands on the line of its key and cannot be a block
collection. -/
def blockNode (indent : Int) (keys : Bool) :
    Nat → Cursor → Option (Node × Cursor)
  | 0, _ => none
  | calls + 1, cursor =>
      if startsWith '-' cursor.rest then
        if keys then
          (blockSequence cursor.column true calls cursor).map fun (items,
            behind) =>
            (.sequence items, behind)
        else none
      else
        match cursor.rest with
        | '|' :: _ =>
            (blockScalar false indent cursor.pass).map fun (text, behind) =>
            (.scalar text true, behind)
        | '>' :: _ =>
            (blockScalar true indent cursor.pass).map fun (text, behind) =>
            (.scalar text true, behind)
        | _ => do
            let (node, behind) ← inlineNode indent calls cursor
            let next := behind.skip true
            if isKey cursor next && keys then
              let (entries, behind) ←
                  blockEntries cursor.column calls node next.pass
              return (.mapping entries, behind)
            else if strayColon next then none
            else return (node, behind)

/-- Reads the value behind a colon and the entries that follow in the mapping at
`column`. -/
def blockEntries (column : Nat) :
    Nat → Node → Cursor → Option (List (Node × Node) × Cursor)
  | 0, _, _ => none
  | calls + 1, key, cursor => do
      let (value, behind) ← blockValue column calls (cursor.skip true)
      let next := behind.skip true
      if next.atEnd then return ([(key, value)], next)
      else if !next.fresh then none
      else if next.column < column then return ([(key, value)], next)
      else if column < next.column then none
      else
        let (following, afterKey) ← inlineNode column calls next
        let colon := afterKey.skip true
        if isKey next colon then
          let (entries, behind) ← blockEntries column calls following colon.pass
          return ((key, value) :: entries, behind)
        else none

/-- Reads the value of a key in the mapping at `column`.  A sequence may stand
at the column of the mapping itself. -/
def blockValue (column : Nat) : Nat → Cursor → Option (Node × Cursor)
  | 0, _ => none
  | calls + 1, cursor =>
      if cursor.atEnd then some (.null, cursor)
      else if !cursor.fresh then blockNode column false calls cursor
      else if column < cursor.column then blockNode column true calls cursor
      else if cursor.column = column ∧ startsWith '-' cursor.rest then
        (blockSequence column false calls cursor).map fun (items, behind) =>
          (.sequence items, behind)
      else some (.null, cursor)

/-- Reads the items of a sequence whose dashes stand at `column`.  A sequence of
its own ends where the column gets smaller; one at the column of a mapping also
ends at the next key. -/
def blockSequence (column : Nat) (own : Bool) :
    Nat → Cursor → Option (List Node × Cursor)
  | 0, _ => none
  | calls + 1, cursor => do
      let start := cursor.pass.skip false
      let (item, behind) ←
        if start.atEnd || (start.fresh && start.column ≤ column) then
          some (Node.null, start)
        else blockNode column true calls start
      let next := behind.skip true
      if next.atEnd then return ([item], next)
      else if !next.fresh then none
      else if next.column < column then return ([item], next)
      else if column < next.column then none
      else if startsWith '-' next.rest then
        let (items, behind) ← blockSequence column own calls next
        return (item :: items, behind)
      else if own then none
      else return ([item], next)

end

/-- Characters that may stand in a document. -/
def isAllowed (character : Char) : Bool :=
  let code := character.toNat
  code == 0x09 || code == 0x0a || code == 0x0d || (0x20 ≤ code && code ≤ 0x7e)
    || code == 0x85
    || (0xa0 ≤ code && code ≤ 0xfffd) || 0x10000 ≤ code

/-- Every line break becomes a line feed. -/
def normalizeBreaks : List Char → List Char
  | [] => []
  | '\r' :: '\n' :: rest => '\n' :: normalizeBreaks rest
  | character :: rest =>
      (if character = '\r' || character = '\u0085' then '\n' else character) ::
        normalizeBreaks rest

/-- Whether a line is a document marker: three of the characters, and nothing
else up to a blank. -/
def isMarker (mark : Char) : List Char → Bool
  | first :: second :: third :: rest =>
      first = mark && second = mark && third = mark && startsBlank rest
  | _ => false

/-- Whether a line has no content. -/
def isEmptyLine (line : List Char) : Bool :=
  match line.dropWhile (· = ' ') with
  | [] => true
  | character :: _ => character = '#'

/-- The lines up to the next marker; a last empty line stands for the line break
before it. -/
def untilMarker : List (List Char) → List (List Char)
  | [] => []
  | line :: rest =>
      if isMarker '-' line || isMarker '.' line then [[]]
      else line :: untilMarker rest

/-- The first document of a text: where its content starts and whether that is
on a line of its own, if the text has one. -/
def body? (text : List Char) : Option (Cursor × Bool) :=
  match (Text.split '\n' text).dropWhile isEmptyLine with
  | [] => some (⟨[], 0, 0, true⟩, true)
  | line :: rest =>
      if isMarker '.' line then none
      else if isMarker '-' line then
        some (⟨Text.join ['\n'] (line.drop 3 :: untilMarker rest), 0, 3, false⟩,
          false)
      else some (⟨Text.join ['\n'] (line :: untilMarker rest), 0, 0, true⟩,
        true)

/-- The mark that may stand in front of a text to show its encoding. -/
def byteOrderMark : Char := '\ufeff'

/-- The node of a document; a document without content has the node of a value
left out.  Text behind the node is not looked at. -/
def parse? (text : List Char) : Option Node := do
  let text := if text.head? = some byteOrderMark then text.drop 1 else text
  if text.all isAllowed then
    let (start, ownLine) ← body? (normalizeBreaks text)
    let next := start.skip !ownLine
    if next.atEnd then return .null
    else
      let (node, _) ←
          blockNode (-1) (ownLine || next.fresh) (4 * text.length + 16) next
      return node
  else none

end LaneKernel.Document
