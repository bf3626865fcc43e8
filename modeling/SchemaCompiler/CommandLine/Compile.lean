import SchemaCompiler.CommandLine.Command
import SchemaCompiler.CommandLine.OperatingSystem

/-! The command `compile`. It loads units of host metadata, compiles them together, and writes their
modules into one file or into a directory. Units that fail are reported, and the others are
written. -/

namespace SchemaCompiler

structure CompileOptions where
  inputs : List String
  output : String
  config : Option String := none
  header : String := ""
  selection : Selection := {}
  workers : Option Int := none
  verbose : Bool := false
  deriving DecidableEq, Repr, Inhabited

namespace CompileOptions

def ofUses (uses : List OptionUse) : CompileOptions :=
  let last (o : OptionSpec) : Option String := (optionValues uses o).getLast?
  { inputs := optionValues uses .inputs
    output := (last .output).getD ""
    config := last .config
    header := (last .header).getD ""
    selection := ⟨optionValues uses .included, optionValues uses .excluded⟩
    workers := (last .workers).bind integerOfText?
    verbose := (last .verbose).isSome }

def hooks (options : CompileOptions) : Hooks :=
  if options.selection.included.isEmpty ∧ options.selection.excluded.isEmpty then {}
  else { pre := [fun model => model.filter options.selection.selects] }

/-- Whether the output is a file, and not a directory. -/
def isSingleFile (options : CompileOptions) (output : Path) : Bool :=
  options.inputs.length = 1 && output.suffix = ".py"

def target (options : CompileOptions) (output : Path) (schema : EmittedSchema) : Path :=
  if options.isSingleFile output then output else output.join (.ofText schema.file)

end CompileOptions

variable {m : Type → Type} [Monad m] [OperatingSystem m]

open OperatingSystem

/-- Loads the inputs. Those that are no documents are reported and counted. -/
def loadInputs : List String → m (List Json × Nat)
  | [] => pure ([], 0)
  | path :: rest => do
    match ← loadDocument path with
    | .ok document =>
      let (documents, failures) ← loadInputs rest
      return (document :: documents, failures)
    | .error error =>
      complain s!"FAILED {path}: {error.text}\n"
      let (documents, failures) ← loadInputs rest
      return (documents, failures + 1)

/-- Writes the modules of units. Units that failed are reported and counted. -/
def writeResults (options : CompileOptions) (output : Path) :
    List UnitResult → m (Except FileFault Nat)
  | [] => pure (.ok 0)
  | result :: rest => do
    match result.outcome with
    | .error error =>
      complain s!"FAILED {result.unit}: {error.text}\n"
      return (← writeResults options output rest).map (· + 1)
    | .ok schema =>
      let target := options.target output schema
      match ← makeDirectories target.parent with
      | .error fault => return .error fault
      | .ok () =>
        match ← write target schema.content with
        | .error fault => return .error fault
        | .ok () =>
          if options.verbose then say s!"  {schema.unit}: {schema.typeNames.length} types\n"
          say s!"Wrote {target.text}\n"
          writeResults options output rest

/-- The configuration in a file, with the header that the options give. -/
def CompileOptions.loadConfig (options : CompileOptions) : m (Except Failure Config) := do
  let config ← match options.config with
    | none => pure (.ok {})
    | some path => do
      match ← loadDocument path with
      | .error error => pure (.error (.compile error))
      | .ok document => pure (orFailure .misuse (Config.ofJson document))
  return config.map fun config =>
    if options.header = "" then config else { config with header := .string options.header }

def compileCommand (options : CompileOptions) : m Exit := do
  match ← options.loadConfig with
  | .error failure => return .crash (.failure failure)
  | .ok config =>
    let (documents, unread) ← loadInputs options.inputs
    say s!"Compiling {documents.length} unit(s)...\n"
    match compileAll (documents.map .document) config options.hooks options.workers with
    | .error failure => return .crash (.failure failure)
    | .ok results =>
      let output := Path.resolve (← workingDirectory) (.ofText options.output)
      match ← writeResults options output results with
      | .error fault => return .crash (.file fault)
      | .ok failed =>
        if unread + failed > 0 then return .code 1
        say "Done!\n"
        return .code 0

end SchemaCompiler
