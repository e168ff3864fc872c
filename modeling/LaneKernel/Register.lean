import LaneKernel.Text.Number

/-!
# Registers and element formats

The two register banks share one number space: numbers 32 to 63 are the general
purpose registers and 64 to 95 the vector registers.  Every other number names
no register; zero in particular is never one, so that a field nobody assigned is
told apart.
-/

namespace LaneKernel

/-- A bank has registers.  Every numeral that stands for a register number is
read through this instance, in the definitions and in the proofs alike. -/
instance neZeroBank : @NeZero Nat Zero.ofOfNat0 32 := ⟨by decide⟩

/-- The two register banks. -/
inductive Bank where
  | general
  | vector
deriving DecidableEq, Repr, Inhabited

/-- A register operand: a member of one of the banks, or a number outside
both. -/
inductive Reg where
  | gp (index : Fin 32)
  | vec (index : Fin 32)
  | unknown (number : Int)
deriving DecidableEq, Repr

namespace Reg

instance : Inhabited Reg := ⟨.unknown 0⟩

/-- The operand that a number of the shared space stands for. -/
def ofNumber (number : Int) : Reg :=
  if 32 ≤ number ∧ number < 64 then .gp (Fin.ofNat 32 (number - 32).toNat)
  else if 64 ≤ number ∧ number < 96 then .vec (Fin.ofNat 32 (number - 64).toNat)
  else .unknown number

/-- The number of an operand in the shared space. -/
def number : Reg → Int
  | gp index => 32 + index.val
  | vec index => 64 + index.val
  | unknown number => number

def isGeneral : Reg → Bool
  | gp _ => true
  | _ => false

def isVector : Reg → Bool
  | vec _ => true
  | _ => false

def zero : Reg := .gp 0
def at' : Reg := .gp 1
def v0 : Reg := .gp 2
def v1 : Reg := .gp 3
def a0 : Reg := .gp 4
def a1 : Reg := .gp 5
def a2 : Reg := .gp 6
def a3 : Reg := .gp 7
def t0 : Reg := .gp 8
def t1 : Reg := .gp 9
def t2 : Reg := .gp 10
def t3 : Reg := .gp 11
def t4 : Reg := .gp 12
def t5 : Reg := .gp 13
def t6 : Reg := .gp 14
def t7 : Reg := .gp 15
def s0 : Reg := .gp 16
def s1 : Reg := .gp 17
def s2 : Reg := .gp 18
def s3 : Reg := .gp 19
def s4 : Reg := .gp 20
def s5 : Reg := .gp 21
def s6 : Reg := .gp 22
def s7 : Reg := .gp 23
def t8 : Reg := .gp 24
def t9 : Reg := .gp 25
def k0 : Reg := .gp 26
def k1 : Reg := .gp 27
def globalPointer : Reg := .gp 28
def sp : Reg := .gp 29
def fp : Reg := .gp 30
def ra : Reg := .gp 31

/-- The conventional names of the general purpose registers, in order. -/
def generalNames : Vector String 32 := #v[
  "zero", "at", "v0", "v1", "a0", "a1", "a2", "a3",
  "t0", "t1", "t2", "t3", "t4", "t5", "t6", "t7",
  "s0", "s1", "s2", "s3", "s4", "s5", "s6", "s7",
  "t8", "t9", "k0", "k1", "gp", "sp", "fp", "ra"]

/-- The name of an operand in listings and error texts. -/
def name : Reg → String
  | gp index => "$" ++ generalNames[index]
  | vec index => "$w" ++ toString index.val
  | unknown number => "reg(" ++ toString number ++ ")"

end Reg

/-- The tag of an element size in vector instructions.  Tags `0` to `3` are the
byte, half word, word and double word formats; instruction words hold the two
low bits of the tag. -/
structure DataFormat where
  tag : UInt8
deriving DecidableEq, Repr, Inhabited

namespace DataFormat

def byte : DataFormat := ⟨0⟩
def half : DataFormat := ⟨1⟩
def word : DataFormat := ⟨2⟩
def double : DataFormat := ⟨3⟩

/-- The element size in bytes: one shifted left by the tag in a signed 64-bit
word, so tag 63 gives the least word and every larger tag gives zero. -/
def size (format : DataFormat) : Int :=
  if format.tag.toNat < 63 then ((1 <<< format.tag.toNat : Nat) : Int)
  else if format.tag.toNat = 63 then -0x8000000000000000
  else 0

/-- The two bits that instruction words hold. -/
def bits (format : DataFormat) : UInt32 :=
  (format.tag &&& 3).toUInt32

/-- The letter of the format in mnemonics. -/
def suffix (format : DataFormat) : String :=
  match (format.tag &&& 3).toNat with
  | 0 => "b"
  | 1 => "h"
  | 2 => "w"
  | _ => "d"

/-- The format whose elements have the given number of bytes. -/
def ofSize? (size : Int) : Option DataFormat :=
  if size = 1 then some byte
  else if size = 2 then some half
  else if size = 4 then some word
  else if size = 8 then some double
  else none

end DataFormat

end LaneKernel
