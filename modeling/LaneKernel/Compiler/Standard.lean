import LaneKernel.Compiler.Routines

/-!
# The standard registry

A rule for every opcode.
-/

namespace LaneKernel.Registry

variable {σ : Type}

/-- Rules that come in all four widths. -/
def allWidthRules (width : Nat) : List (Rule σ) :=
  let named (stem : String) (emit : Routine σ) (kind : Semantics)
      (flags : UInt8) : Rule σ :=
    ⟨Lane.sizedName stem width, emit, ⟨width, kind, flags⟩⟩
  [named "load" Routines.load .wrapping 0,
    named "loadoff" Routines.load .wrapping RuleParam.flagOffsetLoad,
    named "loadp" (.ofPure Routines.loadParam) .wrapping 0,
    named "store" Routines.store .wrapping 0,
    named "copy" (.ofPure Routines.copy) .bitwise 0,
    named "add" (.ofPure Routines.add) .wrapping 0,
    named "addss" (.ofPure Routines.add) .signed 0,
    named "addus" (.ofPure Routines.add) .unsigned 0,
    named "sub" (.ofPure Routines.sub) .wrapping 0,
    named "subss" (.ofPure Routines.sub) .signed 0,
    named "subus" (.ofPure Routines.sub) .unsigned 0,
    named "and" (.ofPure (Routines.bits .and)) .bitwise 0,
    named "andn" (.ofPure (Routines.bits .and)) .bitwise
      RuleParam.flagInvertSecond,
    named "or" (.ofPure (Routines.bits .or)) .bitwise 0,
    named "xor" (.ofPure (Routines.bits .xor)) .bitwise 0,
    named "cmpeq" (.ofPure Routines.compareEqual) .bitwise 0,
    named "cmpgts" (.ofPure Routines.compareLess) .signed
      RuleParam.flagSwapOperands]

/-- Rules without a form on eight bytes. -/
def narrowRules (width : Nat) : List (Rule σ) :=
  let named (stem : String) (routine : PureRoutine) (kind : Semantics) :
      Rule σ :=
    ⟨Lane.sizedName stem width, .ofPure routine, ⟨width, kind, 0⟩⟩
  [named "mull" Routines.mul .wrapping, named "maxs" Routines.max .signed,
    named "maxu" Routines.max .unsigned, named "mins" Routines.min .signed,
    named "minu" Routines.min .unsigned, named "avgs" Routines.average .signed,
    named "avgu" Routines.average .unsigned]

def floatRules : List (Rule σ) :=
  [⟨"addf", .ofPure Routines.add, ⟨4, .floating, 0⟩⟩,
    ⟨"subf", .ofPure Routines.sub, ⟨4, .floating, 0⟩⟩,
    ⟨"addd", .ofPure Routines.add, ⟨8, .floating, 0⟩⟩,
    ⟨"subd", .ofPure Routines.sub, ⟨8, .floating, 0⟩⟩]

/-- A rule for every opcode. -/
def standard : Registry σ :=
  ⟨[1, 2, 4, 8].flatMap allWidthRules ++ [1, 2, 4].flatMap narrowRules ++
    floatRules⟩

end LaneKernel.Registry
