import LaneKernel.Capability
import LaneKernel.Compiler.Basic

/-!
# Backends

A backend compiles programs for one architecture.  `Backends` keeps at most one
backend for an architecture; `Backends.standard` holds the one of this library.
-/

namespace LaneKernel

/-- The name of a processor architecture. -/
abbrev Architecture := String

namespace Architecture

/-- The name that stands for no architecture. -/
def unspecified : Architecture := "invalid"

/-- Little-endian 32-bit processors with the vector extension. -/
def littleEndianMips : Architecture := "mipsle"

end Architecture

structure Backend where
  compile : Program → Except CompileError MachineCode
  /-- Whether compiled code can run on the host. -/
  executable : Bool

inductive BackendError where
  | missingProgram
  | unspecified
  | notRegistered (architecture : Architecture)
  | notExecutable (architecture : Architecture)
  | compile (cause : CompileError)
deriving DecidableEq, Repr

namespace BackendError

def message : BackendError → String
  | missingProgram => "ir: program must be non-nil"
  | unspecified => "ir: architecture must be specified"
  | notRegistered architecture =>
      "ir: no backend registered for " ++ Text.quote architecture
  | notExecutable architecture =>
      "ir: backend for " ++ Text.quote architecture ++
        " cannot execute on this host"
  | compile cause => cause.message

def classes : BackendError → List ErrorClass
  | compile cause => cause.classes
  | _ => []

end BackendError

/-- Why a backend cannot be registered; a mistake of the caller. -/
inductive RegistrationError where
  | unspecified
  | missing
  | alreadyRegistered (architecture : Architecture)
deriving DecidableEq, Repr

def RegistrationError.message : RegistrationError → String
  | unspecified => "ir: cannot register backend for invalid architecture"
  | missing => "ir: backend must be non-nil"
  | alreadyRegistered architecture =>
      "ir: backend for " ++ architecture ++ " already registered"

/-- A table of backends. -/
structure Backends where
  entries : List (Architecture × Backend) := []

namespace Backends

def find? (table : Backends) (architecture : Architecture) : Option Backend :=
  table.entries.lookup architecture

/-- Adds a backend for an architecture that has none. -/
def register (table : Backends) (architecture : Architecture)
    (backend : Option Backend) : Except RegistrationError Backends :=
  if architecture = .unspecified then .error .unspecified
  else
    match backend, table.find? architecture with
    | none, _ => .error .missing
    | some _, some _ => .error (.alreadyRegistered architecture)
    | some backend, none => .ok ⟨(architecture, backend) :: table.entries⟩

/-- The backend for an architecture. -/
def lookup (table : Backends) (architecture : Architecture) :
    Except BackendError Backend :=
  match table.find? architecture with
  | some backend => .ok backend
  | none => .error (if architecture = .unspecified then .unspecified
      else .notRegistered architecture)

/-- The backend for an architecture whose code can run on the host. -/
def lookupExecutable (table : Backends) (architecture : Architecture) :
    Except BackendError Backend := do
  let backend ← table.lookup architecture
  if backend.executable then return backend
  else throw (.notExecutable architecture)

/-- The architectures with a backend, in the order of their names. -/
def architectures (table : Backends) : List Architecture :=
  (table.entries.map Prod.fst).mergeSort fun first second =>
    !decide (second < first)

/-- Compiles a program, which may be missing, for an architecture. -/
def compile (table : Backends) (architecture : Architecture)
    (program : Option Program) : Except BackendError MachineCode :=
  match program with
  | none => .error .missingProgram
  | some program => do
      let backend ← table.lookup architecture
      (backend.compile program).mapError .compile

/-- The backend of this library: the standard rules with default options. -/
def vectorBackend (capability : Capability) : Backend where
  compile program := (program.compile {}).map CompiledKernel.code
  executable := capability.executable

/-- The table with the backend of this library on a host. -/
def standard (capability : Capability) : Backends :=
  ⟨[(.littleEndianMips, vectorBackend capability)]⟩

end Backends

end LaneKernel
