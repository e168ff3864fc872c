import LaneKernel.Compiler.Rule
import LaneKernel.Opcode

/-!
# Load hoisting

A load is moved up past the instructions in front of it that neither touch
memory nor share a variable with it, so that memory works while the arithmetic
runs.  Loads keep their order among themselves and never pass a store.
-/

namespace LaneKernel

/-- An instruction of a kernel body with its rule. -/
structure BodyStep (σ : Type) where
  instruction : Instruction
  rule : Rule σ
  isLoad : Bool
  isStore : Bool

namespace BodyStep

variable {σ : Type}

/-- Whether a load may move above the step in front of it. -/
def canSwap (previous load : BodyStep σ) : Bool :=
  let dest := load.instruction.target
  let written := previous.instruction.target
  !previous.isStore && !previous.isLoad
    && !load.instruction.src.contains written
    && written != dest
    && !previous.instruction.src.contains dest

/-- Puts a load behind the steps of a list, which holds the last one first, and
moves it up as far as it goes. -/
def sink (load : BodyStep σ) : List (BodyStep σ) → List (BodyStep σ)
  | [] => [load]
  | previous :: rest =>
      if canSwap previous load then previous :: sink load rest
      else load :: previous :: rest

/-- Adds one step to a list that holds the last one first. -/
def place (placed : List (BodyStep σ)) (step : BodyStep σ) :
    List (BodyStep σ) :=
  if step.isLoad then sink step placed else step :: placed

/-- Moves every load up as far as it goes. -/
def hoistLoads (steps : List (BodyStep σ)) : List (BodyStep σ) :=
  (steps.foldl place []).reverse

end BodyStep

end LaneKernel
