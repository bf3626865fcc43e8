import SchemaCompiler.CommandLine.Arguments
import SchemaCompiler.CommandLine.OperatingSystem
import SchemaCompiler.Compilation

/-! The commands of the program with their options, what is said about their use, and how they end. -/

namespace SchemaCompiler

namespace OptionSpec

def help : OptionSpec := { name := "--help", kind := .flag }

def version : OptionSpec := { name := "--version", kind := .flag }

def input : OptionSpec :=
  { name := "--input", letter := some 'i', kind := .existingFile, required := true }

def inputs : OptionSpec := { input with repeats := true }

def output : OptionSpec := { name := "--output", letter := some 'o', required := true }

def config : OptionSpec := { name := "--config", letter := some 'c', kind := .existingFile }

def header : OptionSpec := { name := "--header" }

def included : OptionSpec := { name := "--include", repeats := true }

def excluded : OptionSpec := { name := "--exclude", repeats := true }

def workers : OptionSpec := { name := "--workers", letter := some 'w', kind := .integer }

def verbose : OptionSpec := { name := "--verbose", letter := some 'v', kind := .flag }

end OptionSpec

structure CommandSpec where
  name : String
  options : List OptionSpec
  deriving DecidableEq, Repr, Inhabited

namespace CommandSpec

def compile : CommandSpec where
  name := "compile"
  options := [.inputs, .output, .config, .header, .included, .excluded, .workers, .verbose,
    .help]

def inspect : CommandSpec where
  name := "inspect"
  options := [.input, .help]

def all : List CommandSpec :=
  [compile, inspect]

end CommandSpec

def programName : String := "main"

/-- The first line of a message on how a command is used. -/
def usageLine : Option CommandSpec → String
  | some command => s!"Usage: {programName} {command.name} [OPTIONS]\n"
  | none => s!"Usage: {programName} [OPTIONS] COMMAND [ARGS]...\n"

def usageMessage (command : Option CommandSpec) (fault : UsageFault) : String :=
  let called := match command with
    | some command => programName ++ " " ++ command.name
    | none => programName
  usageLine command ++ s!"Try '{called} --help' for help.\n\nError: {fault.message}\n"

variable {m : Type → Type} [Monad m] [OperatingSystem m]

open OperatingSystem

def checkValue (kind : OptionKind) (value : String) : m (Option ValueFault) :=
  match kind with
  | .existingFile => do
    let entry ← if value = "" then pure none else entry? (m := m) (Path.steps value)
    return match entry with
      | none => some (.noFile value)
      | some .directory => some (.isDirectory value)
      | some (.file _) => none
  | .integer => pure (if (integerOfText? value).isNone then some (.notInteger value) else none)
  | _ => pure none

def checkValues (o : OptionSpec) : List String → m (Option UsageFault)
  | [] => pure none
  | value :: rest => do
    match ← checkValue o.kind value with
    | some fault => return some (.invalidValue o.hint fault)
    | none => checkValues o rest

def checkUses (uses : List OptionUse) : List OptionSpec → m (Option UsageFault)
  | [] => pure none
  | o :: rest => do
    let values := optionValues uses o
    if values.isEmpty ∧ o.required then return some (.missingOption o.hint)
    match ← checkValues o values with
    | some fault => return some fault
    | none => checkUses uses rest

inductive Crash where
  | failure (failure : Failure)
  | file (fault : FileFault)

inductive Exit where
  | code (code : Nat)
  | crash (crash : Crash)

end SchemaCompiler
