/-!
# Truth values as text

The spellings of a truth value in options and in the environment.
-/

namespace LaneKernel.Text

/-- A truth value in one of its spellings; no other case mixture is one. -/
def boolean? (text : String) : Option Bool :=
  if ["1", "t", "T", "true", "TRUE", "True"].contains text then some true
  else if ["0", "f", "F", "false", "FALSE", "False"].contains text then
    some false
  else none

/-- A truth value as it is printed. -/
def booleanName (value : Bool) : String := if value then "true" else "false"

end LaneKernel.Text
