import SchemaCompiler.Module.Basic

/-! The text of a module. Imports come first, then the list of exported names, then the definitions,
each set off by two blank lines. A description or a reason is written unless it is empty. -/

namespace SchemaCompiler

/-- A text that is set in by some columns. -/
def indented (columns : Nat) (line : String) : String :=
  String.ofList (List.replicate columns ' ') ++ line

def nameLiteral (name : String) : String :=
  "\"" ++ name ++ "\""

def textLiteral? (s : Option String) : String :=
  s.elim "None" quoted

/-- A text that is there and not empty. -/
def given (s : Option String) : Option String :=
  s.filter (· ≠ "")

def EnumLiteral.literal : EnumLiteral → String
  | .text s => quoted s
  | .int n => toString n

def TypeTerm.text : TypeTerm → String
  | .library name => name
  | .var name => name
  | .parameter name => name
  | .list element => "GraphQLList(" ++ element.text ++ ")"
  | .nonNull inner => "GraphQLNonNull(" ++ inner.text ++ ")"
  | .call factory argument => factory ++ "(" ++ argument.text ++ ")"

/-- A keyword argument on a line of its own, if there is something to say. -/
def optionalLine (columns : Nat) (keyword : String) (s : Option String) : List String :=
  (given s).toList.map fun s => indented columns (keyword ++ "=" ++ quoted s ++ ",")

def descriptionSuffix (s : Option String) : String :=
  (given s).elim "" fun s => ", description=" ++ quoted s

def importLines (moduleName : String) (names : List String) : List String :=
  ["from " ++ moduleName ++ " import ("] ++ names.map (fun n => indented 4 (n ++ ",")) ++ [")"]

def ArgumentEntry.line (a : ArgumentEntry) : String :=
  nameLiteral a.name ++ ": GraphQLArgument(" ++ a.type.text ++ descriptionSuffix a.description ++
    "),"

def FieldEntry.lines (f : FieldEntry) : List String :=
  [indented 4 (nameLiteral f.name ++ ": GraphQLField("), indented 8 (f.type.text ++ ",")] ++
    (if f.arguments.isEmpty then []
    else
      [indented 8 "args=\x7b"] ++ f.arguments.map (fun a => indented 12 a.line) ++
        [indented 8 "\x7d,"]) ++
    [indented 8 ("resolve=" ++ f.resolver.expression ++ ",")] ++
    optionalLine 8 "description" f.description ++
    optionalLine 8 "deprecation_reason" f.deprecationReason ++ [indented 4 "),"]

/-- The lines of a field map whose first line starts with `start`. -/
def fieldMapLines (columns : Nat) (start : String) (fields : List FieldEntry) : List String :=
  [indented columns (start ++ "\x7b")] ++
    (fields.flatMap FieldEntry.lines).map (indented columns) ++ [indented columns "\x7d,"]

def ScalarEntry.lines (s : ScalarEntry) : List String :=
  [s.var ++ " = define_scalar(", indented 4 (nameLiteral s.name ++ ","),
    indented 4 (textLiteral? s.implementation ++ ","),
    indented 4 ("description=" ++ textLiteral? s.description ++ ","), ")"]

def enumValueLine (v : EnumMember) : String :=
  nameLiteral v.name ++ ": GraphQLEnumValue(" ++ v.value.literal ++
    descriptionSuffix v.description ++ "),"

def EnumEntry.lines (e : EnumEntry) : List String :=
  [e.var ++ " = GraphQLEnumType(", indented 4 (nameLiteral e.name ++ ","),
    indented 4 "\x7b"] ++
    e.values.map (fun v => indented 8 (enumValueLine v)) ++ [indented 4 "\x7d,"] ++
    optionalLine 4 "description" e.description ++ [")"]

/-- The expression of an instantiation's name inside its factory. -/
def FactoryEntry.nameExpression (f : FactoryEntry) : String :=
  "f\"" ++ String.join (f.parameters.map fun p => "\x7b" ++ p ++ ".name\x7d") ++ f.name ++ "\""

def FactoryEntry.lines (f : FactoryEntry) : List String :=
  ["@generic_factory", "def " ++ f.var ++ "(" ++ commaSeparated f.parameters ++ "):",
    indented 4 "return GraphQLObjectType(", indented 8 ("name=" ++ f.nameExpression ++ ",")] ++
    optionalLine 8 "description" f.description ++
    fieldMapLines 8 "fields=lambda: " f.fields ++ [indented 4 ")"]

def ObjectEntry.lines (o : ObjectEntry) : List String :=
  [o.var ++ " = GraphQLObjectType(", indented 4 ("name=" ++ nameLiteral o.name ++ ",")] ++
    optionalLine 4 "description" o.description ++
    fieldMapLines 4 (if o.isLazy then "fields=lambda: " else "fields=") o.fields ++ [")"]

def InstanceEntry.line (i : InstanceEntry) : String :=
  i.var ++ " = " ++ i.factory ++ "(" ++ commaSeparated (i.arguments.map TypeTerm.text) ++ ")"

def SchemaEntry.lines (s : SchemaEntry) : List String :=
  ["def build_schema() -> GraphQLSchema:", indented 4 "return GraphQLSchema("] ++
    s.roots.map (fun (operation, var) => indented 8 (operation ++ "=" ++ var ++ ",")) ++
    [indented 8 "types=["] ++ s.types.map (fun t => indented 12 (t ++ ",")) ++
    [indented 8 "],", indented 4 ")"]

/-- Lines set off by two blank ones. -/
def setOff (lines : List String) : List String :=
  ["", ""] ++ lines

namespace SchemaModule

/-- The lines of a module. The header and the docstring may take several of them. -/
def lines (m : SchemaModule) : List String :=
  (if m.header = "" then [] else [m.header, ""]) ++
    ["\"\"\"" ++ m.docstring ++ "\"\"\"", ""] ++
    (if m.libraryImports.isEmpty then [] else importLines "graphql" m.libraryImports) ++
    (if m.runtimeImports.isEmpty then [] else "" :: importLines m.runtimeModule m.runtimeImports) ++
    ["", "__all__ = ["] ++ m.exports.map (fun n => indented 4 (nameLiteral n ++ ",")) ++ ["]"] ++
    m.scalars.flatMap (fun s => setOff s.lines) ++ m.enums.flatMap (fun e => setOff e.lines) ++
    m.factories.flatMap (fun f => setOff f.lines) ++ m.objects.flatMap (fun o => setOff o.lines) ++
    (if m.instances.isEmpty then [] else setOff (m.instances.map InstanceEntry.line)) ++
    m.schema.elim [] fun s => setOff s.lines

def text (m : SchemaModule) : String :=
  String.join (m.lines.map (· ++ "\n"))

end SchemaModule

end SchemaCompiler
