import LaneKernel.Register

/-!
# Assembler errors

Every reason for which an operand has no encoding or a fragment cannot be
emitted, with its text.  `AsmError.classes` tells which of the caller-visible
classes an error belongs to; a context put in front of an error keeps its
classes.
-/

namespace LaneKernel

/-- A number that does not fit the place it is meant for. -/
inductive RangeFault where
  | opcode (value : UInt32)
  | shiftAmount (value : UInt32)
  | function (value : UInt32)
  | signed16 (value : Int)
  | unsigned16 (value : Int)
  | signed10 (value : Int)
  | field (name : String) (value : UInt32) (bits : Nat)
  | lane (lane : Int) (format : DataFormat)
  | elementSize (size : Int)
  | label (label : Int)
  | offsetMultiple (offset size : Int)
  | branchAlignment (distance : Int)
  | branchWords (words : Int)
  | doubleShuffle
deriving DecidableEq, Repr

def RangeFault.message : RangeFault → String
  | opcode value => "opcode " ++ Text.hex value.toNat
  | shiftAmount value => "shift amount " ++ toString value.toNat
  | function value => "function " ++ Text.hex value.toNat
  | signed16 value =>
      toString value ++ " does not fit a signed 16-bit immediate"
  | unsigned16 value =>
      toString value ++ " does not fit an unsigned 16-bit immediate"
  | signed10 value => toString value ++ " does not fit a signed 10-bit field"
  | field name value bits =>
      name ++ " " ++ Text.hex value.toNat ++ " exceeds " ++
        toString bits ++ " bits"
  | lane index format => "lane " ++ toString index ++ " for ." ++ format.suffix
  | elementSize size => "element size " ++ toString size
  | label id => "label " ++ toString id
  | offsetMultiple offset size =>
      "offset " ++ toString offset ++ " not a multiple of " ++ toString size
  | branchAlignment distance =>
      "branch distance " ++ toString distance ++ " not word aligned"
  | branchWords words => "branch distance " ++ toString words ++ " words"
  | doubleShuffle => "no doubleword form"

/-- The classes of error that callers tell apart. -/
inductive ErrorClass where
  | program
  | unimplemented
  | malformedRule
  | invalidProgram
  | badRegister
  | outOfRange
  | unresolvedLabel
  | fixupsResolved
  | halt
  | stepLimit
  | cancelled
  | exception
  | document
deriving DecidableEq, Repr

/-- Why an instruction has no word or a fragment was not emitted. -/
inductive AsmError where
  | badRegister (register : Reg) (wanted : Bank)
  | outOfRange (fault : RangeFault)
  | unresolvedLabel (label : Int)
  | fixupsResolved
  | labelOutside (label : Int)
  | labelDefined (label : Int)
  | labelBound (label : Int)
  | unknownCondition (tag : UInt8)
  | unresolvedProgram
  | missingFragment
  | unexpectedSink (name : String)
  /-- The element size is zero, so the number of lanes does not exist; nothing
  is reported. -/
  | zeroElementSize
  | within (context : String) (cause : AsmError)
deriving DecidableEq, Repr

namespace AsmError

def message : AsmError → String
  | badRegister register .general =>
      "mips asm: bad register: " ++ register.name ++
        " is not a general purpose register"
  | badRegister register .vector =>
      "mips asm: bad register: " ++ register.name ++ " is not a vector register"
  | outOfRange fault => "mips asm: value out of range: " ++ fault.message
  | unresolvedLabel label => "mips asm: unresolved label: L" ++ toString label
  | fixupsResolved => "mips asm: fixups already resolved"
  | labelOutside label => "label " ++ toString label ++ " outside [0, 256)"
  | labelDefined label => "label " ++ toString label ++ " already defined"
  | labelBound label => "mips asm: label " ++ toString label ++ " already bound"
  | unknownCondition tag =>
      "mips asm: unknown branch condition " ++ toString tag.toNat
  | unresolvedProgram =>
      "mips asm: program requested before fixups were resolved"
  | missingFragment => "mips asm: fragment is nil"
  | unexpectedSink name => "mips asm: unexpected context " ++ name
  | zeroElementSize => ""
  | within context cause => context ++ ": " ++ cause.message

def classes : AsmError → List ErrorClass
  | badRegister _ _ => [.badRegister]
  | outOfRange _ => [.outOfRange]
  | unresolvedLabel _ => [.unresolvedLabel]
  | fixupsResolved => [.fixupsResolved]
  | within _ cause => cause.classes
  | _ => []

/-- Whether the error stops the assembler before anything is emitted, without a
report. -/
def isCrash : AsmError → Bool
  | zeroElementSize => true
  | within _ cause => cause.isCrash
  | _ => false

end AsmError

end LaneKernel
