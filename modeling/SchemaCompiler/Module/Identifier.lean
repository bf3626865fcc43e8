import SchemaCompiler.Text.SnakeCase

/-! Identifiers of emitted modules. A type is assigned to a variable of its own name, except that an
underscore is appended to names that mean something else in a module. -/

namespace SchemaCompiler

def keywords : List String :=
  ["False", "None", "True", "and", "as", "assert", "async", "await", "break", "class", "continue",
    "def", "del", "elif", "else", "except", "finally", "for", "from", "global", "if", "import",
    "in", "is", "lambda", "nonlocal", "not", "or", "pass", "raise", "return", "try", "while",
    "with", "yield"]

/-- The words that are keywords in some places only. -/
def softKeywords : List String :=
  ["_", "case", "match"]

/-- The names that modules import from the runtime. -/
def runtimeNames : List String :=
  ["ID", "argument", "call_accessor", "call_deferred_accessor", "define_scalar", "generic_factory",
    "read_deferred_property", "read_property", "to_id"]

def reservedNames : List String :=
  keywords ++ softKeywords ++ runtimeNames ++ ["build_schema", "__all__"]

/-- Whether a name is reserved or could be one of the schema library. -/
def isTaken (name : String) : Bool :=
  reservedNames.contains name || "GraphQL".toList.isPrefixOf name.toList

def safeIdentifier (name : String) : String :=
  bif isTaken name then name ++ "_" else name

def parameterIdentifier (parameter : String) : String :=
  snakeCase parameter ++ "_type"

def moduleFileName (unit : String) : String :=
  (snakeCase unit).map (fun c => if c = '-' then '_' else c) ++ ".py"

end SchemaCompiler
