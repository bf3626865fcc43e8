import SchemaCompiler.CommandLine.Command
import SchemaCompiler.CommandLine.OperatingSystem

/-! The command `inspect`. It prints the types of a unit, each with its fields and their
resolvers. -/

namespace SchemaCompiler

def fieldLines (bindings : Bindings) (typeName : String) (fields : List GraphField) : String :=
  String.join (fields.map fun f =>
    let expression := ((bindings.get? typeName f.name).map (·.expression)).getD ""
    s!"  {f.name}: {renderType? f.type}  -> {expression}\n")

namespace Analysis

/-- What `inspect` prints of a type. Those that every schema has are left out. -/
def nodeLines (a : Analysis) (node : Node) : String :=
  match node with
  | .scalar s =>
    if s.builtin then "" else s!"{node.kind.label} {node.name}\n"
  | _ => s!"{node.kind.label} {node.name}\n" ++ fieldLines a.bindings node.name node.fields

def templateLines (a : Analysis) (t : Template) : String :=
  s!"Generic {t.name}<{commaSeparated t.parameters}>\n" ++ fieldLines a.bindings t.name t.fields

def report (a : Analysis) : String :=
  String.join (a.graph.nodes.map a.nodeLines) ++ String.join (a.graph.templates.map a.templateLines)

end Analysis

def analyzeDocument (document : Json) : Except Failure Analysis := do
  let model ← orFailure .compile (UnitSource.document document).extract
  orFailure Failure.ofError model.analyze

variable {m : Type → Type} [Monad m] [OperatingSystem m]

open OperatingSystem

def inspectCommand (input : String) : m Exit := do
  let loaded ← loadDocument input
  match (orFailure .compile loaded).bind analyzeDocument with
  | .error (.compile error) =>
    complain s!"FAILED: {error.text}\n"
    return .code 1
  | .error failure => return .crash (.failure failure)
  | .ok analysis =>
    say analysis.report
    return .code 0

end SchemaCompiler
