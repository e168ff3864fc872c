import LaneKernel.Compiler.Basic
import LaneKernel.Machine.Basic
import LaneKernel.Random
import LaneKernel.Reference

/-!
# Verification on random inputs

Runs a compiled kernel on the machine and compares every byte of its data with
the reference interpreter.  Every array has a slot of its own in the data; the
guard in front of the array lets loads with an offset reach past its start.

Memory map: the code, the executor record, the slots, and the stack at the top.
-/

namespace LaneKernel.Verify

def ramBase : UInt32 := 0x400000
def ramSize : UInt32 := 0x400000

def codeAddress : UInt32 := ramBase
def recordAddress : UInt32 := ramBase + 0x10000
def dataAddress : UInt32 := ramBase + 0x20000
def stackTop : UInt32 := ramBase + ramSize - 64

/-- The distance that the data keeps from the top of the stack. -/
def stackReserve : UInt32 := 0x10000

/-- The bytes of a slot. -/
def slotSize : Nat := 0x20000

/-- The bytes in front of an array in its slot. -/
def guardSize : Nat := 0x1000

/-- Runs over rows have at most this many. -/
def maxRows : Int64 := 4

/-- The number of steps that a run may take. -/
def stepLimit : UInt64 := 100000000

inductive Error where
  | tooManyArrays (count : Nat)
  /-- A number was to be drawn under a bound that is not positive. -/
  | emptyRange
  | parameter (cause : ProgramError)
  | memory (cause : RamError)
  | reference (run : Nat) (cause : Reference.Error)
  | machine (run : Nat) (n : Int32) (cause : RunError)
  | mismatch (run : Nat) (n : Int32) (array : VarIndex) (offset : Int)
      (found wanted : UInt8)
deriving DecidableEq, Repr

namespace Error

private def byteText (byte : UInt8) :
    String := "0x" ++ Text.hexPadded 2 byte.toNat

private def runText (run : Nat) (n : Int32) : String :=
  "run " ++ toString run ++ " (n=" ++ toString n.toInt ++ "): "

def message : Error → String
  | tooManyArrays count =>
    "verify: " ++ toString count ++ " arrays do not fit the simulator"
  | emptyRange => "invalid argument to IntN"
  | parameter cause => cause.message
  | memory cause => cause.message
  | reference run cause =>
      "run " ++ toString run ++ ": reference: " ++ cause.message
  | machine run n cause => runText run n ++ cause.message
  | mismatch run n array offset found wanted =>
      runText run n ++ Var.nameOf array ++ " byte " ++ Text.hexSigned offset
        ++ " is "
        ++ byteText found ++ ", want " ++ byteText wanted

def classes : Error → List ErrorClass
  | parameter _ => [.invalidProgram]
  | reference _ cause => cause.classes
  | machine _ _ cause => cause.classes
  | _ => []

/-- Whether the error is a mistake of the caller that stops the command. -/
def isCrash : Error → Bool
  | emptyRange => true
  | _ => false

end Error

variable {σ : Type}

/-- Draws a number under a bound. -/
def drawBelow (stream : RandomStream σ) (bound : Int64) (state : σ) :
    Except Error (UInt64 × σ) :=
  match Random.below? stream bound state with
  | some drawn => .ok drawn
  | none => .error .emptyRange

/-- Where an array is placed. -/
structure Placement where
  address : UInt32
  stride : Int32
deriving DecidableEq, Repr

/-- The least multiple of the array alignment that is not below a stride. -/
def alignStride (stride : Int32) : Int32 :=
  (stride + arrayAlignment.toInt32 - 1) &&& ~~~(arrayAlignment.toInt32 - 1)

/-- Places an array in the slot of the given number.  An array that promises
alignment keeps it. -/
def drawPlacement (stream : RandomStream σ) (array : Variable) (slot : Nat)
    (n : Int32) (state : σ) : Except Error (Placement × σ) := do
  let (skew, state) ← drawBelow stream 16 state
  let (extra, state) ← drawBelow stream 8 state
  let size := Int32.ofInt array.size
  let skew := skew.toUInt32
  let stride := n * size + size * extra.toUInt32.toInt32
  let skew := if array.aligned then skew &&& ~~~(arrayAlignment - 1) else skew
  let stride := if array.aligned then alignStride stride else stride
  return (⟨dataAddress + UInt32.ofNat (slot * slotSize + guardSize) + skew,
    stride⟩, state)

/-- Places every array, the first one in the slot of the given number. -/
def drawPlacements (stream : RandomStream σ) (program : Program) (n : Int32) :
    Nat → List VarIndex → σ → Except Error (List (VarIndex × Placement) × σ)
  | _, [], state => .ok ([], state)
  | slot, index :: rest, state => do
      let (placement, state) ←
          drawPlacement stream (program.var index) slot n state
      let (placements, state) ←
          drawPlacements stream program n (slot + 1) rest state
      return ((index, placement) :: placements, state)

/-- Draws a value for every declared parameter. -/
def drawParams (stream : RandomStream σ) (program : Program) :
    List VarIndex → Executor → σ → Except Error (Executor × σ)
  | [], executor, state => .ok (executor, state)
  | index :: rest, executor, state =>
      let declaration := program.var index
      if declaration.declared then do
        let (value, state) := stream state
        let executor ←
            (executor.setParam index value.toInt64 declaration.size).mapError
            .parameter
        drawParams stream program rest executor state
      else drawParams stream program rest executor state

/-- The parameters, in index order. -/
def params : List VarIndex :=
  (List.range Var.paramCount).map fun number =>
    Int.ofNat (Var.firstParam + number)

/-- Puts placed arrays into the record. -/
def placeArrays (executor : Executor)
    (placements : List (VarIndex × Placement)) : Executor :=
  placements.foldl
    (fun executor (index, placement) =>
      (executor.set? .arrays index placement.address).getD executor)
    executor

/-- Draws the number of rows of a run over rows. -/
def drawRows (stream : RandomStream σ) (program : Program)
    (placements : List (VarIndex × Placement)) (executor : Executor)
    (state : σ) : Except Error (Executor × σ) :=
  if program.twoD then do
    let (rows, state) ← drawBelow stream (maxRows + 1) state
    let strides :=
      placements.map fun (index, placement) => (index, placement.stride)
    return ((executor.setRows rows.toUInt32.toInt32 strides).1, state)
  else .ok (executor, state)

/-- An executor for at most `maxN` elements. -/
def randomExecutor (stream : RandomStream σ) (program : Program) (maxN : Int64)
    (state : σ) : Except Error (Executor × σ) := do
  let (n, state) ← drawBelow stream (maxN + 1) state
  let n := n.toUInt32.toInt32
  let (placements, state) ←
      drawPlacements stream program n 0 program.arrays state
  let executor := placeArrays { program := codeAddress, n := n } placements
  let (executor, state) ← drawRows stream program placements executor state
  drawParams stream program params executor state

/-- Executors drawn one after the other. -/
def randomExecutors (stream : RandomStream σ) (program : Program)
    (maxN : Int64) : Nat → σ → Except Error (List Executor)
  | 0, _ => .ok []
  | count + 1, state => do
      let (executor, state) ← randomExecutor stream program maxN state
      return executor :: (← randomExecutors stream program maxN count state)

/-- The first position at which two byte strings differ, with the two bytes. -/
def firstDifference (position : Nat) : List UInt8 → List UInt8 →
    Option (Nat × UInt8 × UInt8)
  | found :: restFound, wanted :: restWanted =>
      if found = wanted then firstDifference (position + 1) restFound restWanted
      else some (position, found, wanted)
  | _, _ => none

/-- The data of a program: a slot for every array. -/
def dataSize (program : Program) : Nat := program.arrays.length * slotSize

/-- Loads bytes that have to fit. -/
def load (machine : Machine) (address : UInt32) (bytes : Array UInt8) :
    Except Error Machine :=
  match machine.loadBytes address bytes with
  | (machine, none) => .ok machine
  | (_, some cause) => .error (.memory cause)

/-- Compares the data that a run left with the reference. -/
def compare (program : Program) (run : Nat) (n : Int32)
    (found wanted : Array UInt8) : Except Error Unit :=
  match firstDifference 0 found.toList wanted.toList with
  | none => .ok ()
  | some (position, foundByte, wantedByte) =>
      .error (.mismatch run n (program.arrays.getD (position / slotSize) 0)
        ((position % slotSize : Nat) - (guardSize : Int)) foundByte wantedByte)

/-- One run: the machine keeps its registers and its memory for the next one. -/
def runOnce (program : Program) (executor : Executor) (data : Array UInt8)
    (run : Nat) (machine : Machine) : Except Error Machine := do
  let (reference, stopped) := Reference.run program executor ⟨dataAddress, data⟩
  if let some cause := stopped then throw (.reference run cause)
  let machine ← load machine recordAddress executor.toBytes
  let machine ← load machine dataAddress data
  let limited := { machine with maxSteps := machine.steps + stepLimit }
  let (machine, stopped) :=
    limited.call (fun _ => false) codeAddress recordAddress stackTop
  if let some cause := stopped then throw (.machine run executor.n cause)
  let found ← (machine.ram.slice dataAddress
      (UInt32.ofNat (dataSize program))).mapError .memory
  compare program run executor.n found reference.data
  return machine

/-- Runs from the given number on. -/
def runFrom (stream : RandomStream σ) (program : Program) (maxN : Int64) :
    Nat → Nat → σ → Machine → Except Error Unit
  | 0, _, _, _ => .ok ()
  | count + 1, run, state, machine => do
      let (data, state) :=
        Random.bytes stream (dataSize program)
          (Array.emptyWithCapacity (dataSize program)) state
      let (executor, state) ← randomExecutor stream program maxN state
      let machine ← runOnce program executor data run machine
      runFrom stream program maxN count (run + 1) state machine

/-- Whether the slots keep their distance from the stack. -/
def fits (program : Program) : Bool :=
  dataAddress + UInt32.ofNat (dataSize program) ≤ stackTop - stackReserve

/-- Runs compiled code `runs` times on inputs from a stream. -/
def verifyWith (stream : RandomStream σ) (state : σ) (program : Program)
    (code : Array UInt8) (maxN : Int64) (runs : Nat) : Except Error Unit :=
  if fits program then do
    let machine ← load (Machine.create ramBase ramSize) codeAddress code
    runFrom stream program maxN runs 0 state machine
  else .error (.tooManyArrays program.arrays.length)

/-- Runs compiled code `runs` times on inputs that the seed and the number of
runs fix. -/
def verify (program : Program) (code : Array UInt8) (seed : UInt64)
    (maxN : Int64) (runs : Nat) : Except Error Unit :=
  verifyWith Pcg.next ⟨seed, UInt64.ofNat runs⟩ program code maxN runs

end LaneKernel.Verify
