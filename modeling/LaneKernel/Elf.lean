import LaneKernel.CodeBuffer

/-!
# ELF images

Two little-endian ELF32 files: an executable with one load segment that holds
the code (`Elf.image`), and a relocatable object with one text section
(`Elf.object`).
-/

namespace LaneKernel.Elf

/-- The value of `count` bytes, low byte first. -/
def littleEndian : Nat → Nat → List UInt8
  | 0, _ => []
  | count + 1, value => UInt8.ofNat value :: littleEndian count (value / 256)

/-- Bytes of a file and where they stand in it. -/
structure Field where
  offset : Nat
  bytes : List UInt8

def half (offset value : Nat) : Field := ⟨offset, littleEndian 2 value⟩
def word (offset value : Nat) : Field := ⟨offset, littleEndian 4 value⟩

/-- Writes bytes over those that stand from a position on. -/
def put (file : Array UInt8) (position : Nat) : List UInt8 → Array UInt8
  | [] => file
  | byte :: rest => put (file.setIfInBounds position byte) (position + 1) rest

/-- Writes fields, whose offsets count from `start`. -/
def fill (file : Array UInt8) (start : Nat) (fields : List Field) :
    Array UInt8 :=
  fields.foldl (fun file field => put file (start + field.offset) field.bytes)
    file

/-- Where the code of an executable is placed. -/
structure Config where
  base : UInt32 := 0
  offset : UInt32 := 0
  align : UInt32 := 0
  flags : UInt32 := 0
deriving DecidableEq, Repr

namespace Config

/-- A page-aligned, readable and executable segment. -/
def standard : Config := ⟨0x400000, 0x1000, 0x1000, 5⟩

/-- Zero fields take the value of the standard placement. -/
def withDefaults (config : Config) : Config where
  base := if config.base = 0 then standard.base else config.base
  offset := if config.offset = 0 then standard.offset else config.offset
  align := if config.align = 0 then standard.align else config.align
  flags := if config.flags = 0 then standard.flags else config.flags

end Config

def headerSize : Nat := 52
def programHeaderSize : Nat := 32

inductive ConfigError where
  | offsetTooSmall (offset : UInt32)
  | alignNotPowerOfTwo (align : UInt32)
  | offsetUnaligned (offset align : UInt32)
  | baseUnaligned (base align : UInt32)
deriving DecidableEq, Repr

def ConfigError.message : ConfigError → String
  | offsetTooSmall offset =>
      "segment offset " ++ Text.hex offset.toNat
        ++ " too small for ELF headers ("
        ++ Text.hex (headerSize + programHeaderSize) ++ ")"
  | alignNotPowerOfTwo align =>
      "segment alignment " ++ Text.hex align.toNat ++ " is not a power of two"
  | offsetUnaligned offset align =>
      "segment offset " ++ Text.hex offset.toNat ++ " must be aligned to " ++
        Text.hex align.toNat
  | baseUnaligned base align =>
      "base address " ++ Text.hex base.toNat ++ " must be aligned to " ++
        Text.hex align.toNat

/-- The first rule that a placement without zero fields breaks. -/
def Config.check (config : Config) : Except ConfigError Unit :=
  if config.offset.toNat < headerSize + programHeaderSize then
    .error (.offsetTooSmall config.offset)
  else if config.align &&& (config.align - 1) ≠ 0 then
    .error (.alignNotPowerOfTwo config.align)
  else if config.offset % config.align ≠ 0 then
    .error (.offsetUnaligned config.offset config.align)
  else if config.base % config.align ≠ 0 then
    .error (.baseUnaligned config.base config.align)
  else .ok ()

/-- The sixteen identification bytes of a little-endian 32-bit file. -/
def identification : List UInt8 :=
  [0x7f, 0x45, 0x4c, 0x46, 1, 1, 1] ++ List.replicate 9 0

/-- Position-independent flags of the processor: no reordering, 32-bit calling
convention, second release of the architecture. -/
def processorFlags : Nat := 0x70001001

/-- The processor number in the file header. -/
def processorMips : Nat := 8

def fileHeader (config : Config) : List Field :=
  [⟨0, identification⟩, half 16 2, half 18 processorMips, word 20 1,
    word 24 config.base.toNat, word 28 headerSize, word 32 0,
    word 36 processorFlags, half 40 headerSize, half 42 programHeaderSize,
    half 44 1]

def programHeader (config : Config) (codeSize : Nat) : List Field :=
  [word 0 1, word 4 config.offset.toNat, word 8 config.base.toNat,
    word 12 config.base.toNat, word 16 codeSize, word 20 codeSize,
    word 24 config.flags.toNat, word 28 config.align.toNat]

/-- An executable whose entry point is the first instruction of the code. -/
def image (code : Array UInt8) (config : Config) :
    Except ConfigError (Array UInt8) := do
  let config := config.withDefaults
  config.check
  let empty := Array.replicate config.offset.toNat 0
  let headed := fill empty 0 (fileHeader config)
  return fill headed headerSize (programHeader config code.size) ++ code

/-- The least multiple of `boundary` that is not below `value` (for `value` not
negative); any value when there is no boundary. -/
def alignUp (value boundary : Int) : Int :=
  if boundary ≤ 0 then value
  else
    let rest := Int.tmod value boundary
    if rest = 0 then value else value + boundary - rest

def sectionHeaderSize : Nat := 40

/-- A relocatable object with the code in its text section. -/
def object (code : Array UInt8) (processor : UInt16) : Array UInt8 :=
  let textOffset : Nat := 64
  let names : List UInt8 :=
    [0] ++ ".text".toUTF8.toList ++ [0] ++ ".shstrtab".toUTF8.toList ++ [0]
  let namesOffset := (alignUp (textOffset + code.size) 16).toNat
  let sectionOffset := (alignUp (namesOffset + names.length) 4).toNat
  let flags := if processor.toNat = processorMips then processorFlags else 0
  let header :=
    [⟨0, identification⟩, half 16 1, half 18 processor.toNat, word 20 1,
      word 32 sectionOffset, word 36 flags, half 40 headerSize,
      half 46 sectionHeaderSize, half 48 3, half 50 2]
  let textSection :=
    [word 0 1, word 4 1, word 8 6, word 16 textOffset, word 20 code.size,
      word 32 16]
  let namesSection :=
    [word 0 7, word 4 3, word 16 namesOffset, word 20 names.length, word 32 1]
  let empty := Array.replicate (sectionOffset + 3 * sectionHeaderSize) 0
  let contents := put (put empty textOffset code.toList) namesOffset names
  let headed := fill contents 0 header
  let named := fill headed (sectionOffset + sectionHeaderSize) textSection
  fill named (sectionOffset + 2 * sectionHeaderSize) namesSection

end LaneKernel.Elf
