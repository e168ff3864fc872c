/-!
# Floating point operations on bit patterns

Both the scalar interpreter and the machine compute floating point lanes through
these two functions, so the two agree whatever the rounding of the host is.
-/

namespace LaneKernel

/-- Floating point operations on lanes. -/
inductive FloatOp where
  | add | sub | mul | div
deriving DecidableEq, Repr

namespace FloatOp

/-- The operation on two single precision bit patterns. -/
def single (op : FloatOp) (x y : UInt32) : UInt32 :=
  let a := Float32.ofBits x
  let b := Float32.ofBits y
  match op with
  | add => (a + b).toBits
  | sub => (a - b).toBits
  | mul => (a * b).toBits
  | div => (a / b).toBits

/-- The operation on two double precision bit patterns. -/
def double (op : FloatOp) (x y : UInt64) : UInt64 :=
  let a := Float.ofBits x
  let b := Float.ofBits y
  match op with
  | add => (a + b).toBits
  | sub => (a - b).toBits
  | mul => (a * b).toBits
  | div => (a / b).toBits

end FloatOp

end LaneKernel
