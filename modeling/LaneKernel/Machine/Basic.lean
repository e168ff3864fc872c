import LaneKernel.AsmError
import LaneKernel.Machine.Core

/-!
# The machine

A core with a step counter and a step limit.  `Machine.run` repeats
`Machine.step` in batches and looks for a cancellation between them;
`Machine.call` runs a function until it returns to the halt address.
-/

namespace LaneKernel

structure Machine where
  core : Core
  /-- The number of instructions fetched so far. -/
  steps : UInt64 := 0
  /-- Runs stop at this many steps; zero means no limit. -/
  maxSteps : UInt64 := 0
  /-- The number of steps between two looks for a cancellation; not positive
  means the default. -/
  yieldAfter : Int64 := 0

/-- Why a single step did not complete. -/
inductive StepError where
  | halt
  | exception (trap : Exception)
deriving DecidableEq, Repr

/-- Why a run ended. -/
inductive RunError where
  | halt
  | exception (pc : UInt32) (trap : Exception)
  | stepLimit (steps : UInt64) (pc : UInt32)
  | cancelled
deriving DecidableEq, Repr

def StepError.message : StepError → String
  | halt => "mipsle: virtual machine halted"
  | exception trap => trap.message

def StepError.classes : StepError → List ErrorClass
  | halt => [.halt]
  | exception _ => [.exception]

def RunError.message : RunError → String
  | halt => "mipsle: virtual machine halted"
  | exception pc trap =>
      "step error at PC=" ++ Text.hex pc.toNat ++ ": " ++ trap.message
  | stepLimit steps pc =>
      "machine step limit reached after " ++ toString steps.toNat
        ++ " instructions (pc="
        ++ Text.hex pc.toNat ++ ")"
  | cancelled => "context canceled"

def RunError.classes : RunError → List ErrorClass
  | halt => [.halt]
  | exception _ _ => [.exception]
  | stepLimit _ _ => [.stepLimit]
  | cancelled => [.cancelled]

namespace Machine

/-- Returning to this address stops the machine. -/
def haltAddress : UInt32 := 0xfffffff0

/-- A machine with zeroed memory. -/
def create (base size : UInt32) :
    Machine := { core := .reset (.zeroed base size) }

/-- Changes the core. -/
def mapCore : Machine → (Core → Core) → Machine
  | ⟨core, steps, maxSteps, yieldAfter⟩, change =>
    ⟨change core, steps, maxSteps, yieldAfter⟩

/-- Changes the core with an outcome. -/
def onCore : Machine → (Core → Core × α) → Machine × α
  | ⟨core, steps, maxSteps, yieldAfter⟩, change =>
      let (core, outcome) := change core
      (⟨core, steps, maxSteps, yieldAfter⟩, outcome)

/-- Changes the memory with an outcome. -/
def onRam (machine : Machine) (change : Ram → Ram × α) : Machine × α :=
  machine.onCore fun ⟨gpr, vec, pc, npc, ram⟩ =>
    let (ram, outcome) := change ram
    (⟨gpr, vec, pc, npc, ram⟩, outcome)

def setPc (machine : Machine) (pc : UInt32) :
    Machine := machine.mapCore (·.setPc pc)

def ram (machine : Machine) : Ram := machine.core.ram

/-- Copies bytes to an address. -/
def loadBytes (machine : Machine) (address : UInt32) (data : Array UInt8) :
    Machine × Option RamError :=
  machine.onRam (·.loadBytes address data)

/-- Moves the program counters past the instruction being executed. -/
def advance : Core → Core
  | ⟨gpr, vec, _, npc, ram⟩ => ⟨gpr, vec, npc, npc + 4, ram⟩

/-- The word at the program counter, or why there is none. -/
def fetch (core : Core) : Except StepError UInt32 :=
  let pc := core.pc
  if pc = haltAddress then .error .halt
  else if pc % 4 ≠ 0 then .error (.exception ⟨.addressErrorLoad, pc, pc⟩)
  else
    match core.ram.read pc 4 with
    | .ok word => .ok word.toUInt32
    | .error _ => .error (.exception ⟨.busError, pc, pc⟩)

/-- Executes one instruction and counts it once it has been fetched. -/
def step : Machine → Machine × Option StepError
  | ⟨core, steps, maxSteps, yieldAfter⟩ =>
      match fetch core with
      | .error cause => (⟨core, steps, maxSteps, yieldAfter⟩, some cause)
      | .ok word =>
          let pc := core.pc
          let (core, exception) := (advance core).execute pc word
          (⟨core, steps + 1, maxSteps, yieldAfter⟩, exception.map .exception)

/-- Whether the limit of a run is reached. -/
def limitReached (machine : Machine) : Bool :=
  machine.maxSteps != 0 && machine.steps ≥ machine.maxSteps

/-- Executes up to `count` instructions; no outcome means that all of them
completed. -/
def runBatch : Nat → Machine → Machine × Option RunError
  | 0, machine => (machine, none)
  | count + 1, machine =>
      if machine.limitReached then
        let cause := RunError.stepLimit machine.steps machine.core.pc
        (machine, some cause)
      else
        match machine.step with
        | (next, none) => runBatch count next
        | (next, some .halt) => (next, some .halt)
        | (next, some (.exception trap)) =>
            let pc := next.core.pc
            (next, some (.exception pc trap))

/-- The number of instructions of a batch. -/
def batchSize (machine : Machine) : Nat :=
  if machine.yieldAfter ≤ 0 then 100000 else machine.yieldAfter.toInt.toNat

instance : Nonempty (Machine × Option RunError) := ⟨create 0 0, none⟩

/-- Runs the batch of a number, unless the run is cancelled in front of it: what
comes next is another batch or the end of the run. -/
def nextBatch (cancelled : Nat → Bool) (size : Nat) :
    Nat × Machine → (Nat × Machine) ⊕ (Machine × Option RunError)
  | (batch, machine) =>
      if cancelled batch then .inr (machine, some .cancelled)
      else
        match runBatch size machine with
        | (next, none) => .inl (batch + 1, next)
        | ended => .inr ended

/-- Runs batches until one of them ends the run; `cancelled` answers the look in
front of batch number `batch`. -/
def runBatches (cancelled : Nat → Bool) (size batch : Nat) (machine : Machine) :
    Machine × Option RunError :=
  Id.run (repeatM (fun state => pure (nextBatch cancelled size state))
    (batch, machine))

/-- Runs until the machine halts, faults, reaches its limit or is cancelled. -/
def run (machine : Machine) (cancelled : Nat → Bool) :
    Machine × Option RunError :=
  let size := machine.batchSize
  runBatches cancelled size 0 machine

/-- Registers that the calling convention gives a meaning. -/
def argumentRegister : RegNum := 4
def stackRegister : RegNum := 29
def returnRegister : RegNum := 31

/-- Prepares a call: the argument, the top of the stack, the return address and
the entry. -/
def prepareCall (machine : Machine) (entry argument stack : UInt32) : Machine :=
  machine.mapCore fun core =>
    (((core.setReg argumentRegister argument).setReg stackRegister stack).setReg
      returnRegister haltAddress).setPc entry

/-- Calls a function and runs until it returns. -/
def call (machine : Machine) (cancelled : Nat → Bool)
    (entry argument stack : UInt32) : Machine × Option RunError :=
  match (machine.prepareCall entry argument stack).run cancelled with
  | (ended, some .halt) => (ended, none)
  | ended => ended

end Machine

end LaneKernel
