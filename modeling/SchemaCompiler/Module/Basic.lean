import SchemaCompiler.Binding
import SchemaCompiler.Graph.Reach
import SchemaCompiler.Module.Identifier

/-! Emitted modules as values. A module assigns each scalar, enum, generic factory, object and
instantiation to a variable, in this order, and may define a function that builds the schema. -/

namespace SchemaCompiler

inductive TypeTerm where
  /-- A scalar that the schema library defines. -/
  | library (name : String)
  /-- A variable of the module. -/
  | var (name : String)
  /-- The parameter of the factory around it. -/
  | parameter (name : String)
  | list (element : TypeTerm)
  | nonNull (inner : TypeTerm)
  | call (factory : String) (argument : TypeTerm)
  deriving DecidableEq, Repr, Inhabited

structure ScalarEntry where
  var : String
  name : String
  implementation : Option String
  description : Option String
  deriving DecidableEq, Repr, Inhabited

structure EnumEntry where
  var : String
  name : String
  description : Option String
  values : List EnumMember
  deriving DecidableEq, Repr, Inhabited

structure ArgumentEntry where
  name : String
  type : TypeTerm
  description : Option String
  deriving DecidableEq, Repr, Inhabited

structure FieldEntry where
  name : String
  type : TypeTerm
  arguments : List ArgumentEntry
  resolver : Binding
  description : Option String
  deprecationReason : Option String
  deriving Repr, Inhabited

/-- A function that makes the object type of a generic from its arguments. -/
structure FactoryEntry where
  var : String
  name : String
  parameters : List String
  description : Option String
  fields : List FieldEntry
  deriving Repr, Inhabited

/-- An object type; a lazy one looks at its fields only when they are asked for. -/
structure ObjectEntry where
  var : String
  name : String
  description : Option String
  isLazy : Bool
  fields : List FieldEntry
  deriving Repr, Inhabited

structure InstanceEntry where
  var : String
  factory : String
  arguments : List TypeTerm
  deriving DecidableEq, Repr, Inhabited

/-- The root types of the schema, each with its operation, and all types that are listed in it. -/
structure SchemaEntry where
  roots : List (String × String)
  types : List String
  deriving DecidableEq, Repr, Inhabited

/-- The parts of a module that do not come from the schema. -/
structure ModuleStyle where
  runtimeModule : String
  docstring : String
  header : String
  buildSchema : Bool
  deriving DecidableEq, Repr, Inhabited

structure SchemaModule where
  header : String
  docstring : String
  runtimeModule : String
  libraryImports : List String
  runtimeImports : List String
  scalars : List ScalarEntry
  enums : List EnumEntry
  factories : List FactoryEntry
  objects : List ObjectEntry
  instances : List InstanceEntry
  schema : Option SchemaEntry
  deriving Repr, Inhabited

namespace SchemaModule

def assignedNames (m : SchemaModule) : List String :=
  m.scalars.map (·.var) ++ m.enums.map (·.var) ++ m.factories.map (·.var) ++
    m.objects.map (·.var) ++ m.instances.map (·.var)

def exports (m : SchemaModule) : List String :=
  m.assignedNames ++ (if m.schema.isSome then ["build_schema"] else [])

end SchemaModule

end SchemaCompiler
