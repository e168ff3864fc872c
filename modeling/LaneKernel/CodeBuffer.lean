import LaneKernel.Fragment

/-!
# Code buffers

A `CodeBuffer` collects machine code.  A branch to a label that is already bound
is written with its offset; any other branch leaves an empty offset and a fixup,
which `CodeBuffer.resolve` fills in once.  Emission of one item either appends
all of it or leaves the buffer as it was.
-/

namespace LaneKernel

/-- A branch at `position` that waits for its label. -/
structure Fixup where
  position : Nat
  label : Label
deriving DecidableEq, Repr

/-- A line of the listing: a label, or the text of the word at a position. -/
inductive ListingEntry where
  | label (label : Label)
  | word (position : Nat) (text : String)
deriving DecidableEq, Repr

structure CodeBuffer where
  text : Array UInt8 := #[]
  /-- Bound labels with their positions. -/
  labels : List (Label × Nat) := []
  fixups : Array Fixup := #[]
  resolved : Bool := false
  listing : Bool := false
  entries : Array ListingEntry := #[]

/-- Finished code with one listing line for every word and label. -/
structure MachineCode where
  bytes : Array UInt8 := #[]
  listing : List String := []
deriving DecidableEq, Repr, Inhabited

/-- The listing as one text, every line ended by a newline. -/
def MachineCode.listingText (code : MachineCode) : String :=
  code.listing.foldl (fun text line => text ++ line ++ "\n") ""

namespace CodeBuffer

/-- An empty buffer. -/
def empty (listing : Bool) : CodeBuffer := { listing := listing }

/-- The cursor position in bytes. -/
def size (buffer : CodeBuffer) : Nat := buffer.text.size

def pending (buffer : CodeBuffer) : Nat := buffer.fixups.size

/-- The position of a bound label. -/
def position? (buffer : CodeBuffer) (label : Label) : Option Nat :=
  buffer.labels.lookup label

/-- Appends raw bytes, which the listing does not show. -/
def appendBytes (buffer : CodeBuffer) (bytes : Array UInt8) : CodeBuffer :=
  { buffer with text := buffer.text ++ bytes }

/-- Appends a word and, if a listing is kept, its line. -/
def appendWord : CodeBuffer → UInt32 → String → CodeBuffer
  | ⟨text, labels, fixups, resolved, listing, entries⟩, word, line =>
      let position := text.size
      ⟨text ++ Word.bytes word, labels, fixups, resolved, listing,
        if listing then entries.push (.word position line) else entries⟩

/-- Records a branch that waits for its label. -/
def addFixup : CodeBuffer → Fixup → CodeBuffer
  | ⟨text, labels, fixups, resolved, listing, entries⟩, fixup =>
      ⟨text, labels, fixups.push fixup, resolved, listing, entries⟩

/-- Why a label cannot be bound now. -/
def bindError? (buffer : CodeBuffer) (label : Label) : Option AsmError :=
  if buffer.resolved then some .fixupsResolved
  else if (buffer.position? label).isSome then some (.labelBound label)
  else none

/-- Binds a label to the cursor without a check. -/
def place : CodeBuffer → Label → CodeBuffer
  | ⟨text, labels, fixups, resolved, listing, entries⟩, label =>
      let position := text.size
      ⟨text, (label, position) :: labels, fixups, resolved, listing,
        if listing then entries.push (.label label) else entries⟩

/-- Binds a label to the cursor. -/
def bind (buffer : CodeBuffer) (label : Label) : CodeBuffer × Option AsmError :=
  match buffer.bindError? label with
  | some cause => (buffer, some cause)
  | none => (buffer.place label, none)

/-- The word of a branch at the cursor, and whether its label is bound. -/
def branchWord (buffer : CodeBuffer) (condition : Condition) (ra rb : Reg)
    (label : Label) : Except AsmError (UInt32 × Bool) := do
  let word ← Item.branchWord condition ra rb
  if buffer.resolved then throw .fixupsResolved
  if !label.valid then throw (.outOfRange (.label label))
  match buffer.position? label with
  | some target =>
      let offset ← Word.branchOffset buffer.size target
      return (word ||| offset, true)
  | none => return (word, false)

/-- Appends one item, or leaves the buffer as it was and says why. -/
def emitItem (buffer : CodeBuffer) (item : Item) :
    CodeBuffer × Option AsmError :=
  match item with
  | .insn instruction =>
      match instruction.encode with
      | .ok word => (buffer.appendWord word instruction.text, none)
      | .error cause => (buffer, some cause)
  | .branch condition ra rb label =>
      match buffer.branchWord condition ra rb label with
      | .error cause => (buffer, some cause)
      | .ok (word, bound) =>
          let position := buffer.size
          let emitted :=
            buffer.appendWord word (Item.branchText condition ra rb label)
          let waiting :=
            if bound then emitted else emitted.addFixup ⟨position, label⟩
          (waiting.appendWord 0 Insn.nop.text, none)
  | .mark label =>
      if !label.valid then (buffer, some (.labelOutside label))
      else if (buffer.position? label).isSome then
        (buffer, some (.labelDefined label))
      else buffer.bind label

/-- Appends the items in order up to the first that fails. -/
def emitItems (buffer : CodeBuffer) : Fragment → CodeBuffer × Option AsmError
  | [] => (buffer, none)
  | item :: rest =>
      match buffer.emitItem item with
      | (next, none) => next.emitItems rest
      | (next, some cause) => (next, some cause)

/-- Appends a fragment.  An item whose element size does not exist stops the
assembler before anything is appended; any other failing item leaves the items
in front of it. -/
def emit (buffer : CodeBuffer) (fragment : Fragment) :
    CodeBuffer × Option AsmError :=
  if fragment.crashes then (buffer, some .zeroElementSize)
  else buffer.emitItems fragment

/-- The word at a fixup with its offset filled in. -/
def patchedWord (text : Array UInt8) (labels : List (Label × Nat))
    (fixup : Fixup) : Except AsmError UInt32 :=
  match labels.lookup fixup.label with
  | none => .error (.unresolvedLabel fixup.label)
  | some target => do
      let offset ← Word.branchOffset fixup.position target
      return (Word.ofBytes text fixup.position &&& 0xffff0000) ||| offset

/-- Fills in the fixups in order up to the first that fails. -/
def patchAll (labels : List (Label × Nat)) :
    Array UInt8 → List Fixup → Array UInt8 × Option AsmError
  | text, [] => (text, none)
  | text, fixup :: rest =>
      match patchedWord text labels fixup with
      | .ok word => patchAll labels (Word.write text fixup.position word) rest
      | .error cause => (text, some cause)

/-- Fills in every waiting branch.  This succeeds at most once; words in front
of a failing branch stay filled in. -/
def resolve (buffer : CodeBuffer) : CodeBuffer × Option AsmError :=
  if buffer.resolved then (buffer, some .fixupsResolved)
  else
    match patchAll buffer.labels buffer.text buffer.fixups.toList with
    | (text, none) =>
        ({ buffer with text := text, fixups := #[], resolved := true }, none)
    | (text, some cause) => ({ buffer with text := text }, some cause)

/-- Searches the fewest words that bring `length` to a multiple of `boundary`,
from `words` on. -/
def searchPadding (length boundary : Nat) : Nat → Nat → Option Nat
  | 0, _ => none
  | fuel + 1, words =>
      if (length + 4 * words) % boundary = 0 then some words
      else searchPadding length boundary fuel (words + 1)

/-- The fewest words that bring `length` to a multiple of `boundary`.
Remainders repeat after at most `boundary` words, so `none` means that no number
of words does. -/
def padding? (length : Nat) (boundary : Int) : Option Nat :=
  if boundary ≤ 0 then some 0
  else searchPadding length boundary.toNat boundary.toNat 0

/-- Appends `count` words that do nothing. -/
def appendNops (buffer : CodeBuffer) : Nat → CodeBuffer
  | 0 => buffer
  | count + 1 => (buffer.appendWord 0 Insn.nop.text).appendNops count

/-- Pads the code up to the boundary; `none` when no number of words reaches
it. -/
def alignTo? (buffer : CodeBuffer) (boundary : Int) : Option CodeBuffer :=
  (padding? buffer.size boundary).map buffer.appendNops

/-- A listing line: the position, the word that stands there now, and its
text. -/
def renderEntry (text : Array UInt8) : ListingEntry → String
  | .label label => label.name ++ ":"
  | .word position line =>
      Text.padLeft 6 ' ' (Text.hexDigits position) ++ ":  "
        ++ Text.hexPadded 8 (Word.ofBytes text position).toNat ++ "    " ++ line

/-- The finished code, once every branch is filled in. -/
def finish (buffer : CodeBuffer) : Except AsmError MachineCode :=
  if buffer.resolved then
    .ok ⟨buffer.text, buffer.entries.toList.map (renderEntry buffer.text)⟩
  else .error .unresolvedProgram

end CodeBuffer

namespace Fragment

/-- Assembles a fragment on its own; `none` stands for a missing fragment. -/
def assemble (fragment : Option Fragment) (listing : Bool) :
    Except AsmError MachineCode :=
  match fragment with
  | none => .error .missingFragment
  | some items =>
      match (CodeBuffer.empty listing).emit items with
      | (_, some cause) => .error cause
      | (buffer, none) =>
          match buffer.resolve with
          | (_, some cause) => .error cause
          | (resolved, none) => resolved.finish

end Fragment

end LaneKernel
