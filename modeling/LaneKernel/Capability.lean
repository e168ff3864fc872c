import LaneKernel.Text.Boolean
import LaneKernel.Text.Lines

/-!
# Host capabilities

What the host can do with compiled kernels.  A processor names its extensions in
its description; the environment can hide the vector unit.
-/

namespace LaneKernel

structure Capability where
  /-- The host has the vector unit. -/
  vectorUnit : Bool
  /-- Compiled kernels can be called on the host. -/
  executable : Bool
deriving DecidableEq, Repr

namespace Capability

/-- The line of a processor description that lists the extensions. -/
def extensionsKey : List Char := "ASEs implemented".toList

/-- The name of the vector extension. -/
def vectorExtension : List Char := "msa".toList

/-- Whether a line lists the vector extension. -/
def namesVectorUnit (line : List Char) : Bool :=
  match Text.cut? ':' line with
  | none => false
  | some (key, extensions) =>
      Text.trimChars key == extensionsKey &&
        (Text.words extensions).contains vectorExtension

/-- Whether a processor description, as far as it can be read, lists the vector
extension. -/
def describesVectorUnit (description : List Char) : Bool :=
  (Text.Lines.ofText description).lines.any namesVectorUnit

/-- The environment variable that hides the vector unit. -/
def hidingVariable : String := "MSAJIT_NO_MSA"

/-- Whether a value of that variable hides the vector unit: every value does
that is neither empty nor a spelling of false. -/
def hides (value : String) : Bool :=
  if value.isEmpty then false else (Text.boolean? value).getD true

/-- The capability of a host, given whether it has the unit, whether it runs the
instruction set of compiled kernels, and the value of the hiding variable. -/
def ofHost (unitPresent nativeSet : Bool) (setting : String) : Capability :=
  let present := !hides setting && unitPresent
  ⟨present, present && nativeSet⟩

/-- The capability of the hosts that this library runs on: they have another
instruction set, hence no vector unit. -/
def current (setting : String) : Capability := ofHost false false setting

end Capability

end LaneKernel
