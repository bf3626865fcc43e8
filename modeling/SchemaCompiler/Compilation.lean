import SchemaCompiler.Config
import SchemaCompiler.Graph.Resolution
import SchemaCompiler.Hook
import SchemaCompiler.Host.Validation
import SchemaCompiler.Model.Extraction
import SchemaCompiler.Module.Emission
import SchemaCompiler.Module.Grammar
import SchemaCompiler.Module.Printer

/-! Compiling units of host metadata into schema modules. The source model is extracted, its scalars
are registered, its types are resolved, its fields are bound to resolvers, and the module is
written. Several units are extracted together and then compiled one after the other. -/

namespace SchemaCompiler

def HostUnit.load (document : Json) : Except CompileError HostUnit :=
  match HostUnit.check document with
  | .valid unit => .ok unit
  | .faulty faults =>
    let name := match document with
      | .object members => (Json.member? "name" members).getD .null
      | _ => .null
    .error ⟨.invalidMetadata name faults, {}⟩

/-- What is known about a model once its types are resolved. -/
structure Analysis where
  model : SourceModel
  registry : ScalarRegistry
  resolution : Resolution
  bindings : Bindings

namespace Analysis

def graph (a : Analysis) : TypeGraph :=
  a.resolution.graph

/-- The instantiations in the order in which they were finished. -/
def instantiations (a : Analysis) : List Instantiation :=
  a.resolution.listed

def emission (a : Analysis) : Emission where
  graph := a.graph
  bindings := a.bindings
  roots := a.model.declarations.map (·.name)
  instantiations := a.instantiations

/-- Binds the fields of a resolution that has ended well. -/
def ofRun (scope : Scope) (run : Except CompileError Unit × Resolution) :
    Except CompileError Analysis := do
  run.1
  let bindings ← Bindings.ofGraph run.2.graph
  .ok ⟨scope.model, scope.registry, run.2, bindings⟩

end Analysis

/-- Registers the scalars of a model, resolves its types and binds its fields. Instantiations may be
followed further than the depth of the model. -/
def SourceModel.analyze (model : SourceModel) (further : Nat := 0) :
    Except CompileError Analysis := do
  let registry ← ScalarRegistry.ofModel model
  let scope : Scope := { model, registry }
  Analysis.ofRun scope (scope.resolveWithin (scope.depth + further) {})

/-- What a compilation finds around it. -/
structure Setting where
  /-- The directories that hold a template. -/
  templates : String → Option ModuleTemplate := fun _ => none
  /-- How much further than the depth of a model its instantiations are followed. -/
  further : Nat := 0

/-- Why nothing is emitted: an error of the unit, a misuse, a type that the emission cannot look up,
a generic that instantiates itself without end, or an exception of a hook or a template. -/
inductive Failure where
  | compile (error : CompileError)
  | misuse (misuse : Misuse)
  | lookup (fault : LookupFault)
  | endless (generic : String)
  | hook (typeName message : String)

namespace Failure

/-- The failure that an error of the analysis is. Instantiations without end are no error of the
unit: they exhaust whoever follows them. -/
def ofError (error : CompileError) : Failure :=
  match error.cause with
  | .endlessInstantiation generic => .endless generic
  | _ => .compile error

def ofHook : HookFault → Failure
  | .compile error => .compile error
  | .raised typeName message => .hook typeName message

def ofTemplate (fault : TemplateFault) : Failure :=
  .hook fault.typeName fault.message

end Failure

def orFailure {ε α : Type} (wrap : ε → Failure) : Except ε α → Except Failure α
  | .ok a => .ok a
  | .error e => .error (wrap e)

structure EmittedSchema where
  unit : String
  file : String
  content : String
  typeNames : List String
  deriving DecidableEq, Repr, Inhabited

namespace Emission

/-- Writes the module of a unit. Its text has to be a module before the hooks see it. -/
def emitWith (e : Emission) (unit : String) (config : Config) (runner : HookRunner)
    (setting : Setting := {}) : Except Failure EmittedSchema := do
  let template ← orFailure .ofTemplate (config.template setting.templates)
  let style ← orFailure .misuse config.style
  let schemaModule ← orFailure .lookup (e.toModule style)
  let file := moduleFileName unit
  let content ← orFailure .ofTemplate (template schemaModule)
  if isModuleText content then
    let content ← orFailure Failure.ofHook (runner.runPost file content)
    .ok ⟨unit, file, content, schemaModule.assignedNames⟩
  else .error (.compile ⟨.notModuleText file, ⟨some unit, none⟩⟩)

def emit (e : Emission) (unit : String) (config : Config) (hooks : Hooks)
    (setting : Setting := {}) : Except Failure EmittedSchema :=
  e.emitWith unit config hooks.runner setting

end Emission

namespace SourceModel

def compileWith (model : SourceModel) (config : Config) (runner : HookRunner)
    (setting : Setting := {}) : Except Failure EmittedSchema := do
  let model ← orFailure Failure.ofHook (runner.runPre model)
  let analysis ← orFailure Failure.ofError (model.analyze setting.further)
  analysis.emission.emitWith analysis.model.unit config runner setting

def compile (model : SourceModel) (config : Config) (hooks : Hooks) (setting : Setting := {}) :
    Except Failure EmittedSchema :=
  model.compileWith config hooks.runner setting

end SourceModel

/-- Host metadata, as a document or already checked. -/
inductive UnitSource where
  | document (json : Json)
  | loaded (unit : HostUnit)

namespace UnitSource

/-- The name by which a unit is reported, a question mark if it has none. -/
def name : UnitSource → String
  | .document (.object members) => ((Json.member? "name" members).getD (.string "?")).plainText
  | .document _ => "?"
  | .loaded unit => unit.name

def load : UnitSource → Except CompileError HostUnit
  | .document json => HostUnit.load json
  | .loaded unit => .ok unit

def extract (source : UnitSource) : Except CompileError SourceModel := do
  let unit ← source.load
  unit.extract

def compileWith (source : UnitSource) (config : Config) (runner : HookRunner)
    (setting : Setting := {}) : Except Failure EmittedSchema := do
  let model ← orFailure .compile source.extract
  model.compileWith config runner setting

def compile (source : UnitSource) (config : Config) (hooks : Hooks) (setting : Setting := {}) :
    Except Failure EmittedSchema :=
  source.compileWith config hooks.runner setting

end UnitSource

structure UnitResult where
  unit : String
  outcome : Except CompileError EmittedSchema

namespace UnitResult

def ok (r : UnitResult) : Bool :=
  match r.outcome with
  | .ok _ => true
  | .error _ => false

end UnitResult

/-- The name of one of several units, and its source model or the error of its extraction. -/
structure ExtractedUnit where
  unit : String
  model : Except CompileError SourceModel

def UnitSource.extractIsolated (source : UnitSource) : ExtractedUnit :=
  ⟨source.name, source.extract⟩

/-- Compiles extracted units one after the other. The errors of a unit are part of its result; any
other failure ends the whole. -/
def compileExtracted (config : Config) (runner : HookRunner) (done : List UnitResult)
    (units : List ExtractedUnit) (setting : Setting := {}) : Except Failure (List UnitResult) :=
  match units with
  | [] => .ok done
  | ⟨unit, .error error⟩ :: rest =>
    compileExtracted config runner (done ++ [⟨unit, .error error⟩]) rest setting
  | ⟨unit, .ok model⟩ :: rest =>
    match model.compileWith config runner setting with
    | .ok schema => compileExtracted config runner (done ++ [⟨unit, .ok schema⟩]) rest setting
    | .error (.compile error) =>
      compileExtracted config runner (done ++ [⟨unit, .error error⟩]) rest setting
    | .error failure => .error failure

/-- Compiles several units. All of them are extracted before the first one goes on. A given number
of workers, which share the extractions, has to be positive. -/
def compileAllWith (sources : List UnitSource) (config : Config) (runner : HookRunner)
    (workers : Option Int) (setting : Setting := {}) : Except Failure (List UnitResult) :=
  if workers.any (· ≤ 0) then .error (.misuse .noWorkers)
  else compileExtracted config runner [] (sources.map UnitSource.extractIsolated) setting

def compileAll (sources : List UnitSource) (config : Config) (hooks : Hooks)
    (workers : Option Int) (setting : Setting := {}) : Except Failure (List UnitResult) :=
  compileAllWith sources config hooks.runner workers setting

end SchemaCompiler
