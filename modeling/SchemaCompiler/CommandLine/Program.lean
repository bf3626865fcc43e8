import SchemaCompiler.CommandLine.Compile
import SchemaCompiler.CommandLine.Inspect

/-! The program: its first argument is the name of a command, and the others are the command's. -/

namespace SchemaCompiler

variable {m : Type → Type} [Monad m] [OperatingSystem m]

open OperatingSystem

def refuse (command : Option CommandSpec) (fault : UsageFault) : m Exit := do
  complain (usageMessage command fault)
  return .code 2

def runCommand (command : CommandSpec) (words : List String) : m Exit := do
  match readArguments command.options true words with
  | .error fault => refuse (some command) fault
  | .ok (uses, extra) =>
    if uses.any (·.option = .help) then
      say (usageLine (some command))
      return .code 0
    match ← checkUses uses (optionOrder command.options uses) with
    | some fault => refuse (some command) fault
    | none =>
      if !extra.isEmpty then refuse (some command) (.extraArguments extra)
      else if command = .compile then compileCommand (.ofUses uses)
      else inspectCommand ((optionValues uses .input).getLast?.getD "")

def runProgram (words : List String) : m Exit := do
  match readArguments [.version, .help] false words with
  | .error fault => refuse none fault
  | .ok (use :: _, _) =>
    if use.option = .version then say s!"{programName}, version 0.1.0\n"
    else say (usageLine none)
    return .code 0
  | .ok ([], []) =>
    if words.isEmpty then
      complain (usageLine none)
      return .code 2
    else refuse none .missingCommand
  | .ok ([], name :: rest) =>
    match CommandSpec.all.find? (·.name = name) with
    | some command => runCommand command rest
    | none =>
      refuse none (.noSuchCommand name (similarNames (CommandSpec.all.map (·.name)) name))

end SchemaCompiler
