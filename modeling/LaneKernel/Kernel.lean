import LaneKernel.Document.Parser
import LaneKernel.Document.Value
import LaneKernel.Program.Parser

/-!
# Kernels

The description of a program in a document: its name, its variables, its code
and hints for the compiler.  Entries that are not known are ignored; an entry
without a value keeps the default.
-/

namespace LaneKernel

open Document (Node)

/-- The declaration of one variable. -/
structure VarSpec where
  size : Int64 := 0
  value : Int64 := 0
  aligned : Bool := false
deriving DecidableEq, Repr, Inhabited

/-- Hints for the compiler. -/
structure KernelOptions where
  unroll : Int64 := 0
  clean : Bool := false
deriving DecidableEq, Repr, Inhabited

structure Kernel where
  name : String := ""
  description : String := ""
  twoD : Bool := false
  /-- The variables, in the order of their names. -/
  vars : List (String × VarSpec) := []
  code : String := ""
  options : KernelOptions := {}
deriving DecidableEq, Repr, Inhabited

inductive KernelError where
  /-- The text is no document, or an entry has the wrong form. -/
  | document
  | invalid (cause : ProgramError)
deriving DecidableEq, Repr

def KernelError.message : KernelError → String
  | document => "parsing kernel"
  | invalid cause => cause.message

def KernelError.classes : KernelError → List ErrorClass
  | document => [.document]
  | invalid _ => [.invalidProgram]

namespace Kernel

/-- Whether no two entries have the same key. -/
def uniqueKeys : List (Node × Node) → Bool
  | [] => true
  | (key, _) :: rest =>
      !(rest.any fun (other, _) => key.sameKey other) && uniqueKeys rest

/-- Reads the entries of a mapping one after the other.  Entries whose key is
left out do not count. -/
def foldEntries (read : α → String → Node → Option α) : α → List (Node × Node) →
    Option α
  | result, [] => some result
  | result, (key, value) :: rest => do
      let name ← key.text?
      if key.isNull then foldEntries read result rest
      else foldEntries read (← read result name value) rest

/-- Reads a mapping, or keeps the default where the value is left out. -/
def readMapping (read : α → String → Node → Option α) (default : α)
    (node : Node) : Option α :=
  if node.isNull then some default
  else
    match node with
    | .mapping entries =>
        if uniqueKeys entries then foldEntries read default entries else none
    | _ => none

/-- Reads a scalar, or keeps the default where the value is left out. -/
def readScalar (read : Node → Option α) (default : α) (node : Node) :
    Option α :=
  if node.isNull then some default else read node

def readVarEntry (spec : VarSpec) (name : String) (value : Node) :
    Option VarSpec :=
  match name with
  | "size" =>
      (readScalar Node.integer? spec.size value).map fun size =>
      { spec with size }
  | "value" =>
      (readScalar Node.integer? spec.value value).map fun value =>
      { spec with value }
  | "aligned" =>
      (readScalar Node.boolean? spec.aligned value).map fun aligned =>
      { spec with aligned }
  | _ => some spec

/-- A declaration is a mapping or just the size. -/
def readVar (node : Node) : Option VarSpec :=
  match node with
  | .scalar _ _ => (readScalar Node.integer? 0 node).map fun size => { size }
  | _ => readMapping readVarEntry {} node

def readVars (vars : List (String × VarSpec)) (name : String) (value : Node) :
    Option (List (String × VarSpec)) :=
  (readVar value).map fun spec => vars ++ [(name, spec)]

/-- Variables in the order of their names. -/
def sortVars (vars : List (String × VarSpec)) : List (String × VarSpec) :=
  vars.mergeSort fun first second => !decide (second.1 < first.1)

def readOption (options : KernelOptions) (name : String) (value : Node) :
    Option KernelOptions :=
  match name with
  | "unroll" =>
      (readScalar Node.integer? options.unroll value).map fun unroll =>
      { options with unroll }
  | "clean" => (readScalar Node.boolean? options.clean value).map fun clean =>
      { options with clean }
  | _ => some options

def readEntry (kernel : Kernel) (name : String) (value : Node) :
    Option Kernel :=
  match name with
  | "name" =>
      (readScalar Node.text? kernel.name value).map fun name =>
      { kernel with name }
  | "description" =>
      (readScalar Node.text? kernel.description value).map fun description =>
      { kernel with description }
  | "two_d" =>
      (readScalar Node.boolean? kernel.twoD value).map fun twoD =>
      { kernel with twoD }
  | "vars" => (readMapping readVars kernel.vars value).map fun vars =>
      { kernel with vars := sortVars vars }
  | "code" =>
      (readScalar Node.text? kernel.code value).map fun code =>
      { kernel with code }
  | "options" =>
      (readMapping readOption kernel.options value).map fun options =>
      { kernel with options }
  | _ => some kernel

/-- Reads a kernel; a kernel must have a name. -/
def parse (text : String) : Except KernelError Kernel :=
  match Document.parse? text.toList with
  | none => .error .document
  | some node =>
      match readMapping readEntry {} node with
      | none => .error .document
      | some kernel =>
          if kernel.name = "" then .error (.invalid .unnamedKernel)
            else .ok kernel

/-- Declares one variable. -/
def declareVar (program : Program) (name : String) (spec : VarSpec) :
    Except ProgramError Program := do
  let index ← Var.parse name.toList
  let program ←
    if Var.roleOf index = .const then
      program.declareConst index spec.size.toInt spec.value
    else program.declare index spec.size.toInt
  if spec.aligned then program.setAligned index else return program

/-- The program that a kernel describes. -/
def toProgram (kernel : Kernel) : Except ProgramError Program := do
  let empty := { Program.named kernel.name with twoD := kernel.twoD }
  let declared ← kernel.vars.foldlM
      (fun program (name, spec) => declareVar program name spec) empty
  match declared.parseCode kernel.code with
  | (_, some cause) => throw cause
  | (program, none) =>
      program.validate
      return program

end Kernel

end LaneKernel
