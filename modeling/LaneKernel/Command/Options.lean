import LaneKernel.Text.Blank
import LaneKernel.Text.Boolean
import LaneKernel.Text.Integer
import LaneKernel.Text.Quoted

/-!
# Command options

The options of the command and the grammar of its arguments.  An option starts
with one or two dashes and has its value behind an equals sign or in the next
argument; switches take a value behind an equals sign only.  Options end at the
first argument that is none, or behind two dashes.
-/

namespace LaneKernel.Command

structure Options where
  /-- The file for the code; empty for none. -/
  out : String := ""
  /-- The file for the executable image; empty for none. -/
  elf : String := ""
  listing : Bool := false
  /-- Replaces the unroll hint of the kernel unless negative. -/
  unroll : Int64 := -1
  clean : Bool := false
  verbose : Bool := false
  /-- The number of verification runs. -/
  verify : Int64 := 0
  seed : UInt64 := 1
  /-- The largest element count of a verification run. -/
  maxN : Int64 := 300
  caps : Bool := false
  /-- The kernel file. -/
  kernel : String := ""
  terminal : Bool := false
  /-- The columns of the terminal; not positive means no limit. -/
  width : Int64 := 0
deriving DecidableEq, Repr, Inhabited

/-- How an option changes the options. -/
inductive Setter where
  | switch (set : Bool → Options → Options)
  | value (set : String → Options → Option Options)

/-- An option whose value is any text. -/
def Setter.text (set : String → Options → Options) : Setter :=
  .value fun value options => some (set value options)

/-- An option whose value is a 64-bit integer. -/
def Setter.integer (set : Int64 → Options → Options) : Setter :=
  .value fun value options => (Text.int64? value.toList).map fun number =>
    set number options

/-- An option whose value is a 64-bit number without a sign. -/
def Setter.natural (set : UInt64 → Options → Options) : Setter :=
  .value fun value options => (Text.uint64? value.toList).map fun number =>
    set number options

/-- An option of the command. -/
structure Flag where
  name : String
  setter : Setter
  /-- The default value where it is worth a mention. -/
  shown : String := ""
  purpose : String

/-- The options of the command, in the order of their names. -/
def flags : List Flag :=
  [{ name := "caps", setter := .switch fun caps options => { options with caps }
     purpose := "print host capabilities and exit" },
   { name := "clean",
     setter := .switch fun clean options => { options with clean }
     purpose := "pad the code to a 16 byte boundary" },
   { name := "elf", setter := .text fun elf options => { options with elf }
     purpose := "write a standalone ELF32 image to this file" },
   { name := "listing",
     setter := .switch fun listing options => { options with listing }
     purpose := "print the disassembly listing" },
   { name := "max-n",
     setter := .integer fun maxN options => { options with maxN }
     shown := "300", purpose := "largest element count used by -verify" },
   { name := "o", setter := .text fun out options => { options with out }
     purpose := "write the raw code to this file" },
   { name := "seed",
     setter := .natural fun seed options => { options with seed }
     shown := "1", purpose := "seed for -verify" },
   { name := "unroll",
     setter := .integer fun unroll options => { options with unroll }
     shown := "-1",
       purpose := "unroll shift (0..2), overrides the kernel's option" },
   { name := "v",
     setter := .switch fun verbose options => { options with verbose }
     purpose := "enable debug logging" },
   { name := "verify",
     setter := .integer fun verify options => { options with verify }
     purpose := "run this many randomized simulator checks" }]

/-- Why the arguments do not describe a command. -/
inductive ArgumentError where
  | help
  | badForm (argument : String)
  | unknown (name : String)
  | missingValue (name : String)
  | badSwitch (name value : String)
  | badValue (name value : String)
  | wrongCount (count : Nat)
deriving DecidableEq, Repr

namespace ArgumentError

def message : ArgumentError → String
  | help => ""
  | badForm argument => "bad flag syntax: " ++ argument
  | unknown name => "flag provided but not defined: -" ++ name
  | missingValue name => "flag needs an argument: -" ++ name
  | badSwitch name value =>
      "invalid boolean value " ++ Text.quote value ++ " for -" ++ name ++
        ": parse error"
  | badValue name value =>
      "invalid value " ++ Text.quote value ++ " for flag -" ++ name ++
        ": parse error"
  | wrongCount _ => ""

end ArgumentError

/-- What one argument is. -/
inductive Argument where
  /-- Not an option. -/
  | plain
  /-- Two dashes, which end the options. -/
  | stop
  /-- A dash without a proper name behind it. -/
  | malformed
  | option (name : String) (value : Option String)
deriving DecidableEq, Repr

/-- The name of an option and the value behind its first equals sign; the name
is not empty and starts with neither a dash nor an equals sign. -/
def Argument.ofBody (body : List Char) : Argument :=
  match body with
  | [] => .malformed
  | first :: rest =>
      if first = '-' ∨ first = '=' then .malformed
      else
        match Text.cut? '=' rest with
        | none => .option (String.ofList body) none
        | some (name, value) =>
            .option (String.ofList (first :: name)) (some (String.ofList value))

def Argument.classify (argument : String) : Argument :=
  match argument.toList with
  | ['-', '-'] => .stop
  | '-' :: '-' :: body => .ofBody body
  | ['-'] => .plain
  | '-' :: body => .ofBody body
  | _ => .plain

/-- Sets a switch. -/
def applySwitch (set : Bool → Options → Options) (name : String)
    (value : Option String) (options : Options) :
    Except ArgumentError Options :=
  match value with
  | none => .ok (set true options)
  | some text =>
      match Text.boolean? text with
      | some state => .ok (set state options)
      | none => .error (.badSwitch name text)

/-- Sets an option that has a value. -/
def applyValue (set : String → Options → Option Options) (name value : String)
    (options : Options) : Except ArgumentError Options :=
  match set value options with
  | some options => .ok options
  | none => .error (.badValue name value)

/-- The setter of an option; a request for help is none unless an option has its
name. -/
def findSetter (name : String) : Except ArgumentError Setter :=
  match flags.find? fun flag => flag.name == name with
  | some flag => .ok flag.setter
  | none => .error (if name = "help" ∨ name = "h" then .help else .unknown name)

/-- Reads options; answers them with the arguments behind them. -/
def parseOptions : List String → Options →
    Except ArgumentError (Options × List String)
  | [], options => .ok (options, [])
  | argument :: rest, options =>
      match Argument.classify argument with
      | .plain => .ok (options, argument :: rest)
      | .stop => .ok (options, rest)
      | .malformed => .error (.badForm argument)
      | .option name value =>
          match findSetter name, value, rest with
          | .error cause, _, _ => .error cause
          | .ok (.switch set), value, rest =>
              match applySwitch set name value options with
              | .error cause => .error cause
              | .ok options => parseOptions rest options
          | .ok (.value set), some value, rest =>
              match applyValue set name value options with
              | .error cause => .error cause
              | .ok options => parseOptions rest options
          | .ok (.value _), none, [] => .error (.missingValue name)
          | .ok (.value set), none, value :: rest =>
              match applyValue set name value options with
              | .error cause => .error cause
              | .ok options => parseOptions rest options

/-- The options that the arguments describe.  Exactly one kernel file is wanted,
unless only the capabilities are asked for. -/
def parseArguments (arguments : List String) :
    Except ArgumentError Options := do
  let (options, files) ← parseOptions arguments {}
  if options.caps then return options
  else
    match files with
    | [kernel] => return { options with kernel }
    | _ => throw (.wrongCount files.length)

/-- The text that explains the options. -/
def usage (program : String) : String :=
  flags.foldl
    (fun text flag =>
      text ++ "  -" ++ flag.name ++ "\n    \t" ++ flag.purpose
        ++ (if flag.shown = "" then "" else " (default " ++ flag.shown ++ ")")
        ++ "\n")
    ("usage: " ++ program ++ " [flags] kernel.yaml\n")

end LaneKernel.Command
