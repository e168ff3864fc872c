/-!
# Rule parameters

How a rule treats its elements, and the data that a rule hands to its emission
routine.
-/

namespace LaneKernel

/-- The reading of the elements.  Signed and unsigned select saturating
arithmetic for sums and differences and the kind of comparison for everything
else. -/
inductive Semantics where
  | wrapping
  | signed
  | unsigned
  | floating
  | bitwise
  | other (tag : UInt8)
deriving DecidableEq, Repr, Inhabited

namespace Semantics

def ofTag (tag : UInt8) : Semantics :=
  match tag.toNat with
  | 0 => wrapping
  | 1 => signed
  | 2 => unsigned
  | 3 => floating
  | 4 => bitwise
  | _ => other tag

def name : Semantics → String
  | wrapping => "wrapping"
  | signed => "signed"
  | unsigned => "unsigned"
  | floating => "float"
  | bitwise => "bitwise"
  | other tag => "Semantics(" ++ toString tag.toNat ++ ")"

end Semantics

/-- What a rule hands to its emission routine. -/
structure RuleParam where
  width : Int := 0
  kind : Semantics := .wrapping
  flags : UInt8 := 0
deriving DecidableEq, Repr, Inhabited

namespace RuleParam

def flagInvertSecond : UInt8 := 1
def flagSwapOperands : UInt8 := 2
def flagOffsetLoad : UInt8 := 4

/-- The second operand is complemented. -/
def invertsSecond (param : RuleParam) :
    Bool := param.flags &&& flagInvertSecond != 0

/-- The operands change places. -/
def swapsOperands (param : RuleParam) :
    Bool := param.flags &&& flagSwapOperands != 0

/-- The load reads an element a constant number of places away. -/
def loadsAtOffset (param : RuleParam) :
    Bool := param.flags &&& flagOffsetLoad != 0

end RuleParam

end LaneKernel
