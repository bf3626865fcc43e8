import SchemaCompiler.Json.Literal
import SchemaCompiler.Misuse
import SchemaCompiler.Module.Printer

/-! The configuration of a compilation. Options are taken from a document as they stand; what they
mean is only asked when a module is written. A template that overrides the own one is any function of
the module. -/

namespace SchemaCompiler

structure Config where
  /-- The module that resolver helpers are imported from. -/
  runtimeModule : Json := .string "gql_schemagen.runtime"
  moduleDocstring : Json := .string "Generated GraphQL schema. Do not edit."
  /-- The text above the docstring. -/
  header : Json := .string ""
  /-- Whether a schema is built when there is an object `Query`. -/
  emitBuildSchema : Json := .bool true
  /-- Where a template is looked for before the own one is taken. -/
  templateDir : Json := .null
  deriving Repr, Inhabited, BEq

namespace Config

def set (config : Config) (name : String) (value : Json) : Config :=
  match name with
  | "runtime_module" => { config with runtimeModule := value }
  | "module_docstring" => { config with moduleDocstring := value }
  | "header" => { config with header := value }
  | "emit_build_schema" => { config with emitBuildSchema := value }
  | "template_dir" => { config with templateDir := value }
  | _ => config

/-- The defaults with the options of a document; other members are passed over. -/
def ofJson : Json → Except Misuse Config
  | .object members => .ok (members.foldl (fun config (name, value) => config.set name value) {})
  | json => .error (.configNotObject json.typeName)

def toJson (config : Config) : Json :=
  .object [("runtime_module", config.runtimeModule), ("module_docstring", config.moduleDocstring),
    ("header", config.header), ("emit_build_schema", config.emitBuildSchema),
    ("template_dir", config.templateDir)]

/-- How modules are written. A header that is given has to be a text, the other options are written
as they are. -/
def style (config : Config) : Except Misuse ModuleStyle := do
  let header ← match config.header with
    | .string s => .ok s
    | value => if value.isTruthy then .error (.headerNotText value.typeName) else .ok ""
  .ok {
    runtimeModule := config.runtimeModule.plainText
    docstring := config.moduleDocstring.plainText
    header := header
    buildSchema := config.emitBuildSchema.isTruthy }

end Config

/-- An exception of a template or on the way to it. -/
structure TemplateFault where
  typeName : String
  message : String
  deriving Repr

/-- What makes the text of a module. -/
abbrev ModuleTemplate := SchemaModule → Except TemplateFault String

/-- The own template never fails. -/
def SchemaModule.template : ModuleTemplate :=
  fun m => .ok m.text

/-- The template for a configuration, where some directories hold one. -/
def Config.template (config : Config) (templates : String → Option ModuleTemplate) :
    Except TemplateFault ModuleTemplate :=
  match config.templateDir with
  | .string "" => .ok SchemaModule.template
  | .string directory => .ok ((templates directory).getD SchemaModule.template)
  | value =>
    if value.isTruthy then
      .error ⟨"TypeError", "expected str, bytes or os.PathLike object, not " ++ value.typeName⟩
    else .ok SchemaModule.template

end SchemaCompiler
