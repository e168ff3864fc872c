import LaneKernel.Program.Error
import LaneKernel.Word.Scalar

/-!
# Executor records

The record that a compiled kernel receives: the number of elements, the array
addresses and the parameters.  In memory every slot is one little-endian word.
An eight-byte parameter keeps its high word eight slots further on; the row
count of a two-dimensional run lives in the slot of the first accumulator and
the row stride of an array in the parameter slot of its own index.
-/

namespace LaneKernel

structure Executor where
  program : UInt32 := 0
  n : Int32 := 0
  counters : Vector Int32 3 := Vector.replicate 3 0
  arrays : Vector UInt32 64 := Vector.replicate 64 0
  params : Vector UInt32 64 := Vector.replicate 64 0
  accums : Vector UInt32 4 := Vector.replicate 4 0
deriving DecidableEq, Repr

namespace Executor

instance : Inhabited Executor := ⟨{}⟩

def programOffset : Nat := 0
def countOffset : Nat := 4
def countersOffset : Nat := 8
def arraysOffset : Nat := 20
def paramsOffset : Nat := arraysOffset + 4 * Var.count
def accumsOffset : Nat := paramsOffset + 4 * Var.count
def recordSize : Nat := accumsOffset + 4 * Var.accumulatorCount

/-- The distance from a parameter to the slot of its high word. -/
def highWordDistance : Nat := 8

/-- The parameter slot that holds the row count. -/
def rowCountSlot : VarIndex := Var.firstAccumulator

/-- The byte offset of an array address in the record. -/
def arraySlotOffset (index : VarIndex) : Int := arraysOffset + 4 * index

/-- The byte offset of a parameter slot in the record. -/
def paramSlotOffset (index : VarIndex) : Int := paramsOffset + 4 * index

/-- The place of an index in a table, if it is inside. -/
def place? (size : Nat) (index : Int) : Option (Fin size) :=
  if h : 0 ≤ index ∧
    index < size then some ⟨index.toNat, (Int.toNat_lt h.1).2 h.2⟩ else none

/-- A place is inside the tables of variables. -/
theorem place_lt (place : Fin 64) : place.val < 64 := place.isLt

/-- The address of an array; zero outside the table. -/
def array (executor : Executor) (index : VarIndex) : UInt32 :=
  match place? 64 index with
  | some place => executor.arrays.get place
  | none => 0

/-- The word of a parameter slot; zero outside the table. -/
def paramWord (executor : Executor) (index : VarIndex) : UInt32 :=
  match place? 64 index with
  | some place => executor.params.get place
  | none => 0

/-- Overwrites a parameter slot; a slot outside the table is ignored. -/
def setParamWord (executor : Executor) (index : VarIndex) (word : UInt32) :
    Executor :=
  match place? 64 index with
  | some place =>
      { executor with
        params := executor.params.set place.val word (place_lt place) }
  | none => executor

/-- The four tables of a record. -/
inductive Table where
  | counters | arrays | params | accums
deriving DecidableEq, Repr

/-- Overwrites a slot of a table, if the index is inside. -/
def set? (executor : Executor) (table : Table) (index : Int) (word : UInt32) :
    Option Executor :=
  match table with
  | .counters => (place? 3 index).map fun place =>
      { executor with
        counters := executor.counters.set place.val word.toInt32 place.isLt }
  | .arrays => (place? 64 index).map fun place =>
      { executor with
        arrays := executor.arrays.set place.val word (place_lt place) }
  | .params => (place? 64 index).map fun place =>
      { executor with
        params := executor.params.set place.val word (place_lt place) }
  | .accums => (place? 4 index).map fun place =>
      { executor with accums := executor.accums.set place.val word place.isLt }

/-- Stores a parameter; an eight-byte value fills the slot of its high word
too. -/
def setParam (executor : Executor) (index : VarIndex) (value : Int64)
    (size : Int) : Except ProgramError Executor :=
  if Var.roleOf index ≠ .param then .error (.notParam index)
  else
    let low := executor.setParamWord index value.toUInt64.toUInt32
    .ok (if size = 8 then
      low.setParamWord (index + highWordDistance)
        (value.toUInt64 >>> 32).toUInt32
    else low)

/-- A parameter as the interpreter and compiled code see it. -/
def param (executor : Executor) (index : VarIndex) (size : Int) : UInt64 :=
  let low := (executor.paramWord index).toUInt64
  if size = 8 then low |||
    (executor.paramWord (index + highWordDistance)).toUInt64 <<< 32 else low

/-- A parameter, unless one of its slots is outside the table. -/
def param? (executor : Executor) (index : VarIndex) (size : Int) :
    Option UInt64 :=
  if (place? 64 index).isNone ∨
    (size = 8 ∧ (place? 64 (index + highWordDistance)).isNone) then none
  else some (executor.param index size)

/-- Sets row strides in order, up to the first index outside the table. -/
def setStrides (executor : Executor) : List (VarIndex × Int32) →
    Executor × Option VarIndex
  | [] => (executor, none)
  | (index, stride) :: rest =>
      match place? 64 index with
      | some _ => (executor.setParamWord index stride.toUInt32).setStrides rest
      | none => (executor, some index)

/-- Prepares a run over `rows` rows with the given row strides. -/
def setRows (executor : Executor) (rows : Int32)
    (strides : List (VarIndex × Int32)) : Executor × Option VarIndex :=
  (executor.setParamWord rowCountSlot rows.toUInt32).setStrides strides

/-- The words of a table, each with the byte offset of its slot. -/
def tableSlots (start : Nat) (words : List UInt32) : List (Nat × UInt32) :=
  words.zipIdx.map fun (word, index) => (start + 4 * index, word)

/-- Every word of the record with the byte offset of its slot. -/
def slots (executor : Executor) : List (Nat × UInt32) :=
  [(programOffset, executor.program), (countOffset, executor.n.toUInt32)]
    ++ tableSlots countersOffset (executor.counters.toList.map Int32.toUInt32)
    ++ tableSlots arraysOffset executor.arrays.toList
    ++ tableSlots paramsOffset executor.params.toList
    ++ tableSlots accumsOffset executor.accums.toList

/-- The record as bytes: every word is written to its slot. -/
def toBytes (executor : Executor) : Array UInt8 :=
  executor.slots.foldl
    (fun bytes (offset, word) => Word.write bytes offset word)
    (Array.replicate recordSize 0)

/-- A record needs all its bytes. -/
structure ShortRecord where
  size : Nat
deriving DecidableEq, Repr

def ShortRecord.message (short : ShortRecord) : String :=
  "ir: executor record is " ++ toString short.size ++ " bytes, want " ++
    toString recordSize

/-- Reads a record from the front of a byte string. -/
def ofBytes (bytes : Array UInt8) : Except ShortRecord Executor :=
  if bytes.size < recordSize then .error ⟨bytes.size⟩
  else
    .ok {
      program := Word.ofBytes bytes 0
      n := (Word.ofBytes bytes countOffset).toInt32
      counters := Vector.ofFn fun i =>
        (Word.ofBytes bytes (countersOffset + 4 * i.val)).toInt32
      arrays := Vector.ofFn fun i =>
        Word.ofBytes bytes (arraysOffset + 4 * i.val)
      params := Vector.ofFn fun i =>
        Word.ofBytes bytes (paramsOffset + 4 * i.val)
      accums := Vector.ofFn fun i =>
        Word.ofBytes bytes (accumsOffset + 4 * i.val) }

end Executor

end LaneKernel
