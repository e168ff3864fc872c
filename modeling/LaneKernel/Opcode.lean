import LaneKernel.FloatOp
import LaneKernel.Lane

/-!
# Kernel opcodes

An opcode is a kind of operation at an element size.  Its name is a stem
followed by the letter of the size, apart from the floating point opcodes, whose
stem implies it.  `Opcode.evalLanes` is the scalar meaning of the arithmetic
opcodes.
-/

namespace LaneKernel

/-- Operations that compute a value from one or two values. -/
inductive ArithOp where
  | copy | add | sub | addSS | addUS | subSS | subUS
  | and | andNot | or | xor | cmpEq | cmpGtS
  | mulLow | maxS | maxU | minS | minU | avgS | avgU
  | float (op : FloatOp)
deriving DecidableEq, Repr

/-- How an opcode gets its operands and what it does with them. -/
inductive OpKind where
  | arith (op : ArithOp)
  | load
  | loadOffset
  | loadParam
  | store
deriving DecidableEq, Repr

structure Opcode where
  kind : OpKind
  size : Nat
deriving DecidableEq, Repr

namespace ArithOp

/-- The name in front of the size letter. -/
def stem : ArithOp → String
  | copy => "copy" | add => "add" | sub => "sub"
  | addSS => "addss" | addUS => "addus" | subSS => "subss" | subUS => "subus"
  | and => "and" | andNot => "andn" | or => "or" | xor => "xor"
  | cmpEq => "cmpeq" | cmpGtS => "cmpgts" | mulLow => "mull"
  | maxS => "maxs" | maxU => "maxu" | minS => "mins" | minU => "minu"
  | avgS => "avgs" | avgU => "avgu"
  | float .add => "add" | float .sub => "sub"
  | float .mul => "mul" | float .div => "div"

/-- The number of values the operation reads. -/
def arity : ArithOp → Nat
  | copy => 1
  | _ => 2

/-- One element of `size` bytes.  Operands are used as given: an operation looks
at bits above the element only where its definition does. -/
def eval (op : ArithOp) (size : Nat) (a b : UInt64) : UInt64 :=
  match op with
  | copy => a
  | add => Lane.truncate (a + b) size
  | sub => Lane.truncate (a - b) size
  | addSS => Lane.addSaturatingSigned a b size
  | addUS => Lane.addSaturatingUnsigned a b size
  | subSS => Lane.subSaturatingSigned a b size
  | subUS => Lane.subSaturatingUnsigned a b size
  | and => a &&& b
  | andNot => Lane.truncate (a &&& ~~~b) size
  | or => a ||| b
  | xor => a ^^^ b
  | cmpEq => Lane.mask (a == b) size
  | cmpGtS => Lane.mask (Lane.signExtend a size > Lane.signExtend b size) size
  | mulLow => Lane.truncate (a * b) size
  | maxS => if Lane.signExtend a size ≥ Lane.signExtend b size then a else b
  | maxU => max a b
  | minS => if Lane.signExtend a size ≤ Lane.signExtend b size then a else b
  | minU => min a b
  | avgS =>
      Lane.truncate ((Lane.signExtend a size + Lane.signExtend b size + 1) >>>
        1).toUInt64 size
  | avgU => (a + b + 1) >>> 1
  | float op =>
      if size = 4 then (op.single a.toUInt32 b.toUInt32).toUInt64
      else op.double a b

/-- The operation on lane number `index` of the packed operands, put back in its
place. -/
def evalLane (op : ArithOp) (size : Nat) (a b : UInt64) (index : Nat) :
    UInt64 :=
  let shift := 8 * size * index
  let x := Lane.truncate (Lane.shiftRight a shift) size
  let y := Lane.truncate (Lane.shiftRight b shift) size
  Lane.shiftLeft (Lane.truncate (op.eval size x y) size) shift

/-- The operation on each of the `count` lanes packed into the operands.  With
one lane or fewer the operands are used whole. -/
def evalLanes (op : ArithOp) (size : Nat) (a b : UInt64) (count : Int) :
    UInt64 :=
  if count ≤ 1 then op.eval size a b
  else (List.range count.toNat).foldl
    (fun out index => out ||| op.evalLane size a b index) 0

end ArithOp

namespace Opcode

/-- The name in programs. -/
def name (opcode : Opcode) : String :=
  match opcode.kind with
  | .arith (.float op) =>
      (ArithOp.float op).stem ++ (if opcode.size = 4 then "f" else "d")
  | .arith op => Lane.sizedName op.stem opcode.size
  | .load => Lane.sizedName "load" opcode.size
  | .loadOffset => Lane.sizedName "loadoff" opcode.size
  | .loadParam => Lane.sizedName "loadp" opcode.size
  | .store => Lane.sizedName "store" opcode.size

/-- The number of source operands. -/
def sources (opcode : Opcode) : Nat :=
  match opcode.kind with
  | .arith op => op.arity
  | .loadOffset => 2
  | _ => 1

/-- Whether the opcode reads an array. -/
def isLoad (opcode : Opcode) : Bool :=
  opcode.kind == .load || opcode.kind == .loadOffset

def isStore (opcode : Opcode) : Bool := opcode.kind == .store

/-- Arithmetic opcodes that come in all four sizes. -/
def allSizeOps : List ArithOp :=
  [.copy, .add, .sub, .addSS, .addUS, .subSS, .subUS, .and, .andNot, .or, .xor,
    .cmpEq, .cmpGtS]

/-- Arithmetic opcodes without a form on eight bytes. -/
def narrowOps : List ArithOp :=
  [.mulLow, .maxS, .maxU, .minS, .minU, .avgS, .avgU]

/-- Every opcode. -/
def all : List Opcode :=
  [1, 2, 4, 8].flatMap (fun size =>
      [⟨.load, size⟩, ⟨.loadOffset, size⟩, ⟨.loadParam, size⟩, ⟨.store, size⟩]
        ++ allSizeOps.map fun op => ⟨.arith op, size⟩)
    ++ [1, 2, 4].flatMap (fun size => narrowOps.map fun op => ⟨.arith op, size⟩)
    ++ [⟨.arith (.float .add), 4⟩, ⟨.arith (.float .sub), 4⟩,
      ⟨.arith (.float .add), 8⟩, ⟨.arith (.float .sub), 8⟩]

/-- Every opcode by name. -/
def table : List (String × Opcode) :=
  all.map fun opcode => (opcode.name, opcode)

/-- The opcode of a name. -/
def lookup? (name : String) : Option Opcode := table.lookup name

/-- Every opcode name in ascending order. -/
def names : List String := (all.map name).mergeSort (fun a b => decide (a ≤ b))

/-- The arithmetic operation on each of `count` lanes; opcodes that move data
have no value. -/
def evalLanes? (opcode : Opcode) (a b : UInt64) (count : Int) : Option UInt64 :=
  match opcode.kind with
  | .arith op => some (op.evalLanes opcode.size a b count)
  | _ => none

end Opcode

end LaneKernel
