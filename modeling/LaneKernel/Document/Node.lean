/-!
# Document nodes

The tree that a document describes.  A scalar keeps its text and whether it was
written with quotes or as a block; only an unquoted scalar can stand for a
number, a truth value or nothing.
-/

namespace LaneKernel.Document

inductive Node where
  | scalar (text : String) (quoted : Bool)
  | mapping (entries : List (Node × Node))
  | sequence (items : List Node)
deriving Repr, Inhabited

namespace Node

/-- The node of a value that was left out. -/
def null : Node := scalar "" false

/-- The unquoted texts that stand for nothing. -/
def nullTexts : List String := ["", "~", "null", "Null", "NULL"]

def isNull : Node → Bool
  | scalar text quoted => !quoted && nullTexts.contains text
  | _ => false

/-- Two keys of one mapping must not agree in kind and text. -/
def sameKey : Node → Node → Bool
  | scalar first _, scalar second _ => first == second
  | mapping _, mapping _ => true
  | sequence _, sequence _ => true
  | _, _ => false

end Node

end LaneKernel.Document
