import LaneKernel.Backend
import LaneKernel.Command.Host
import LaneKernel.Command.Options
import LaneKernel.Elf
import LaneKernel.Kernel
import LaneKernel.Text.Styled
import LaneKernel.Verify

/-!
# The command

Reads a kernel file, compiles it, and prints, writes or verifies the code as the
options ask.
-/

namespace LaneKernel.Command

inductive Error where
  | readKernel (cause : FileError)
  | kernelFile (path : String) (cause : KernelError)
  | kernelProgram (path : String) (cause : ProgramError)
  | compile (name : String) (cause : CompileError)
  | writeCode (cause : FileError)
  | buildImage (cause : Elf.ConfigError)
  | writeImage (cause : FileError)
  | verify (cause : Verify.Error)
  | backend (cause : BackendError)
deriving DecidableEq, Repr

namespace Error

def message : Error → String
  | readKernel cause => "reading kernel file: " ++ cause.message
  | kernelFile path cause => path ++ ": " ++ cause.message
  | kernelProgram path cause => "kernel " ++ path ++ ": " ++ cause.message
  | compile name cause => "compile " ++ name ++ ": " ++ cause.message
  | writeCode cause => "write code: " ++ cause.message
  | buildImage cause => "build ELF image: " ++ cause.message
  | writeImage cause => "write ELF image: " ++ cause.message
  | verify cause => cause.message
  | backend cause => cause.message

def classes : Error → List ErrorClass
  | kernelFile _ cause => cause.classes
  | kernelProgram _ _ => [.invalidProgram]
  | compile _ cause => cause.classes
  | verify cause => cause.classes
  | backend cause => cause.classes
  | _ => []

/-- Whether the error stops the command without a report. -/
def isCrash : Error → Bool
  | compile _ cause => cause.isCrash
  | verify cause => cause.isCrash
  | _ => false

end Error

/-- A line of a listing as it is printed.  On a terminal labels are bold;
elsewhere no escape sequence is printed.  A line that is wider than the terminal
is cut. -/
def listingLine (terminal : Bool) (width : Int64) (line : String) : String :=
  let text := line.toList
  let text := if terminal && text.getLast? = some ':' then Text.Styled.bold text
    else text
  let text := if 0 < width then Text.Styled.truncate width.toInt.toNat text
    else text
  String.ofList (if terminal then text else Text.Styled.plain text)

/-- A listing as it is printed. -/
def listingText (terminal : Bool) (width : Int64) (lines : List String) :
    String :=
  lines.foldl (fun text line => text ++ listingLine terminal width line ++
    "\n") ""

section

variable {m : Type → Type} [Monad m]

/-- A file operation whose failure is an error of the command. -/
def fileStep (step : m (Except FileError α)) (wrap : FileError → Error) :
    ExceptT Error m α :=
  ExceptT.mk do return (← step).mapError wrap

/-- A pure step of the command. -/
def pureStep (result : Except ε α) (wrap : ε → Error) : ExceptT Error m α :=
  ExceptT.mk (pure (result.mapError wrap))

/-- What the capabilities and the table of backends print. -/
def capabilityText (capability : Capability) : Except BackendError String := do
  let table := Backends.standard capability
  let head := "msa:        " ++ Text.booleanName capability.vectorUnit
    ++ "\nexecutable: "
    ++ Text.booleanName capability.executable ++ "\n"
  table.architectures.foldlM
    (fun text architecture => do
      let backend ← table.lookup architecture
      return text ++ "backend " ++ Text.padRight 8 ' ' architecture
        ++ " executable="
        ++ Text.booleanName backend.executable ++ "\n")
    head

def printCapabilities (host : Host m) : ExceptT Error m Unit := do
  let capability := Capability.current (← (host.setting : m String))
  let text ← pureStep (capabilityText capability) .backend
  host.print text

/-- The kernel in a file. -/
def loadKernel (host : Host m) (path : String) : ExceptT Error m Kernel := do
  let content ← fileStep (host.readFile path) .readKernel
  match String.fromUTF8? content with
  | none => throw (.kernelFile path .document)
  | some text => pureStep (Kernel.parse text) (.kernelFile path)

/-- The options for the compiler: those of the command win over the hints of the
kernel. -/
def compileOptions (options : Options) (kernel : Kernel) : CompileOptions where
  clean := options.clean || kernel.options.clean
  unroll := if 0 ≤ options.unroll then options.unroll.toInt
    else kernel.options.unroll.toInt
  listing := options.listing

/-- The log records of a compilation. -/
def compileRecords (kernel : Kernel) (compiled : CompiledKernel)
    (unroll : Int) : List LogRecord :=
  let bytes := toString compiled.code.bytes.size
  let frame := toString compiled.frameSize
  [⟨.debug, "msa: compiled kernel",
     [("name", kernel.name), ("bytes", bytes), ("frame", frame),
      ("saved", toString compiled.saved.length), ("unroll", toString unroll)]⟩,
   ⟨.info, "compiled",
     [("kernel", kernel.name), ("bytes", bytes), ("frame", frame),
       ("unroll", toString unroll)]⟩]

/-- Writes the files that the options name. -/
def writeFiles (host : Host m) (options : Options) (code : Array UInt8) :
    ExceptT Error m Unit := do
  if options.out ≠ "" then
    fileStep (host.writeFile options.out ⟨code⟩) .writeCode
  if options.elf ≠ "" then
    let image ← pureStep (Elf.image code .standard) .buildImage
    fileStep (host.writeFile options.elf ⟨image⟩) .writeImage

/-- Verifies the code as often as the options ask. -/
def verifyCode (host : Host m) (options : Options) (name : String)
    (program : Program) (code : Array UInt8) : ExceptT Error m Unit := do
  if 0 < options.verify then
    pureStep (Verify.verify program code options.seed options.maxN
      options.verify.toInt.toNat) .verify
    host.log ⟨.info, "verified",
      [("kernel", name), ("runs", toString options.verify.toInt)]⟩

/-- Runs the command. -/
def run (host : Host m) (options : Options) : ExceptT Error m Unit := do
  if options.caps then printCapabilities host
  else
    let kernel ← loadKernel host options.kernel
    let program ← pureStep kernel.toProgram (.kernelProgram options.kernel)
    let compileOptions := compileOptions options kernel
    let compiled ←
        pureStep (program.compile compileOptions) (.compile kernel.name)
    for record in compileRecords kernel compiled compileOptions.unroll do
      host.log record
    if options.listing then
      host.print (listingText options.terminal options.width
        compiled.code.listing)
    writeFiles host options compiled.code.bytes
    verifyCode host options kernel.name program compiled.code.bytes

/-- How a command ends: its exit code and what it reports on the way out. -/
structure Status where
  code : UInt8
  report : String := ""
deriving DecidableEq, Repr

/-- The name under which the command reports errors. -/
def commandName : String := "msajit"

def Status.ofResult : Except Error Unit → Status
  | .ok () => ⟨0, ""⟩
  | .error cause =>
      if cause.isCrash then ⟨2, cause.message ++ "\n"⟩
      else ⟨1, commandName ++ ": " ++ cause.message ++ "\n"⟩

def Status.ofArguments (cause : ArgumentError) : Status :=
  let text := if cause.message = "" then "" else cause.message ++ "\n"
  ⟨if cause = .help then 0 else 2, text ++ usage commandName⟩

/-- The whole command on its arguments, given the terminal that it prints to. -/
def execute (host : Host m) (terminal : Bool) (width : Int64)
    (arguments : List String) : m Status :=
  match parseArguments arguments with
  | .error cause => return .ofArguments cause
  | .ok options =>
      return .ofResult (← (run host { options with terminal, width }).run)

end

end LaneKernel.Command
