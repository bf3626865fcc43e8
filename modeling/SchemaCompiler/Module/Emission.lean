import SchemaCompiler.Module.Basic

/-! The module of a type graph. Types stand in the order in which a walk from the declared names
first reaches them, generics in the order of their declarations, and instantiations in the order in
which they were finished. A field map that refers to a type defined further down, or to a type that
leads back to its own, is lazy. The imports are what the graph's types and resolvers call for. -/

namespace SchemaCompiler

/-- What the emission of a type looks for in vain. -/
inductive LookupFault where
  | parameter (name : String)
  | libraryScalar (name : String)
  | resolver (typeName field : String)
  | fieldType (typeName field : String)
  deriving DecidableEq, Repr

/-- The names that the schema library gives to builtin scalars. -/
def libraryScalars : List (String × String) :=
  [("String", "GraphQLString"), ("Int", "GraphQLInt"), ("Float", "GraphQLFloat"),
    ("Boolean", "GraphQLBoolean"), ("ID", "GraphQLID")]

/-- The types under which a schema's operations start. -/
def operationTypes : List (String × String) :=
  [("Query", "query"), ("Mutation", "mutation"), ("Subscription", "subscription")]

namespace TypeNode

/-- A type as the module writes it; `params` maps type parameters to those of the factory. -/
def term (params : List (String × String)) : TypeNode → Except LookupFault TypeTerm
  | .nonNull inner => do
    let t ← inner.term params
    .ok (.nonNull t)
  | .list element => do
    let t ← element.term params
    .ok (.list t)
  | .placeholder name =>
    match params.lookup name with
    | some parameter => .ok (.parameter parameter)
    | none => .error (.parameter name)
  | .applied generic argument => do
    let t ← argument.term params
    .ok (.call (safeIdentifier generic) t)
  | .named (.scalar s) =>
    if s.builtin then
      match libraryScalars.lookup s.name with
      | some name => .ok (.library name)
      | none => .error (.libraryScalar s.name)
    else .ok (.var (safeIdentifier s.name))
  | .named type => .ok (.var (safeIdentifier type.name))

def libraryNames : TypeNode → List String
  | .nonNull inner => "GraphQLNonNull" :: inner.libraryNames
  | .list element => "GraphQLList" :: element.libraryNames
  | .placeholder _ => []
  | .applied _ argument => argument.libraryNames
  | .named (.scalar s) => if s.builtin then (libraryScalars.lookup s.name).toList else []
  | .named _ => []

/-- The variable that a type refers to in the end, if it is no builtin scalar. -/
def assigned? (type : TypeNode) : Option String :=
  match type.unwrap with
  | .named (.scalar s) => if s.builtin then none else some (safeIdentifier s.name)
  | .named (.pending _) => none
  | .named type => some (safeIdentifier type.name)
  | _ => none

end TypeNode

namespace GraphField

/-- The names of the schema library that a field's types and arguments call for. -/
def libraryNames (f : GraphField) : List String :=
  f.types.flatMap TypeNode.libraryNames ++
    (if f.arguments.isEmpty then [] else ["GraphQLArgument"])

end GraphField

namespace Binding

def runtimeNames (b : Binding) : List String :=
  b.helper.name :: b.arguments.flatMap fun a => "argument" :: a.converter.toList

end Binding

def sortedNames (names : List String) : List String :=
  names.eraseDups.mergeSort fun a b => a ≤ b

/-- What a module is made from: the graph, its resolvers, the declared names, and the
instantiations that are written as calls of their factories. -/
structure Emission where
  graph : TypeGraph
  bindings : Bindings
  roots : List String
  instantiations : List Instantiation
  deriving Inhabited

namespace Emission

def ordered (e : Emission) : List Named :=
  e.graph.reach e.roots

def argumentEntry (params : List (String × String)) (a : GraphArgument) :
    Except LookupFault ArgumentEntry := do
  let type ← a.type.term params
  .ok ⟨a.name, type, a.description⟩

def fieldEntry (e : Emission) (typeName : String) (params : List (String × String))
    (f : GraphField) : Except LookupFault FieldEntry :=
  match e.bindings.get? typeName f.name, f.type with
  | none, _ => .error (.resolver typeName f.name)
  | _, none => .error (.fieldType typeName f.name)
  | some resolver, some type => do
    let type ← type.term params
    let arguments ← f.arguments.mapM (argumentEntry params)
    .ok ⟨f.name, type, arguments, resolver, f.description, f.deprecationReason⟩

/-- The scalars that the module defines. -/
def scalars (e : Emission) : List ScalarEntry :=
  e.ordered.filterMap fun
    | .scalar s =>
      if s.builtin then none
      else some ⟨safeIdentifier s.name, s.name, s.implementation, s.description⟩
    | _ => none

def enums (e : Emission) : List EnumEntry :=
  e.ordered.filterMap fun
    | .enum name =>
      match e.graph.get? name with
      | some (.enum t) => some ⟨safeIdentifier name, name, t.description, t.values⟩
      | _ => none
    | _ => none

def factoryParameters (t : Template) : List (String × String) :=
  t.parameters.map fun p => (p, parameterIdentifier p)

def factories (e : Emission) : Except LookupFault (List FactoryEntry) :=
  e.graph.templates.mapM fun t => do
    let fields ← t.fields.mapM (e.fieldEntry t.name (factoryParameters t))
    .ok ⟨safeIdentifier t.name, t.name, (factoryParameters t).map (·.2), t.description, fields⟩

/-- The object types that are written in full. -/
def objectNodes (e : Emission) : List Node :=
  e.ordered.filterMap fun type =>
    match type, e.graph.get? type.name with
    | .object _, some (.object t) => some (.object t)
    | .instantiation key, some (.instantiation t) =>
      if e.instantiations.any (·.key = key) then none else some (.instantiation t)
    | _, _ => none

/-- Whether an object type has to be lazy when the given variables are assigned before it. -/
def isLazy (e : Emission) (defined : List String) (node : Node) : Bool :=
  !((TypeGraph.references node.fields).filterMap TypeNode.assigned?).all defined.contains ||
    e.graph.inCycle node.ref

def descriptionOf : Node → Option String
  | .object t => t.description
  | .instantiation t => t.description
  | _ => none

/-- The entries of object types; `defined` holds the variables assigned before them. -/
def objectEntries (e : Emission) : (defined : List String) → List Node →
    Except LookupFault (List ObjectEntry)
  | _, [] => .ok []
  | defined, node :: rest => do
    let fields ← node.fields.mapM (e.fieldEntry node.name [])
    let var := safeIdentifier node.name
    let entry : ObjectEntry :=
      ⟨var, node.name, descriptionOf node, e.isLazy defined node, fields⟩
    let entries ← e.objectEntries (defined ++ [var]) rest
    .ok (entry :: entries)

def instances (e : Emission) : Except LookupFault (List InstanceEntry) :=
  e.instantiations.mapM fun t => do
    let argument ← (TypeNode.named t.argument).term []
    .ok ⟨safeIdentifier t.key.name, safeIdentifier t.key.generic, [argument]⟩

def writtenFields (e : Emission) : List (String × GraphField) :=
  (e.graph.templates.flatMap fun t => t.fields.map fun f => (t.name, f)) ++
    e.objectNodes.flatMap fun n => n.fields.map fun f => (n.name, f)

/-- The names of the schema library that the module calls for. Where there is a field map, it counts
as one of fields. -/
def libraryNames (e : Emission) (schema : Option SchemaEntry) : List String :=
  (if e.enums.isEmpty then [] else ["GraphQLEnumType", "GraphQLEnumValue"]) ++
    (if e.graph.templates.isEmpty && e.objectNodes.isEmpty then []
    else ["GraphQLObjectType", "GraphQLField"]) ++
    (e.writtenFields.flatMap fun (_, f) => f.libraryNames) ++
    (e.instantiations.flatMap fun t => (TypeNode.named t.argument).libraryNames) ++
    (if schema.isSome then ["GraphQLSchema"] else [])

def libraryImports (e : Emission) (schema : Option SchemaEntry) : List String :=
  sortedNames (e.libraryNames schema)

def runtimeNames (e : Emission) : List String :=
  (if e.scalars.isEmpty then [] else ["define_scalar"]) ++
    (if e.graph.templates.isEmpty then [] else ["generic_factory"]) ++
    e.writtenFields.flatMap fun (typeName, f) =>
      (e.bindings.get? typeName f.name).elim [] Binding.runtimeNames

def runtimeImports (e : Emission) : List String :=
  sortedNames e.runtimeNames

/-- The function that builds the schema, if there is an object `Query` to start from. The factories
are not among the types of a schema. -/
def schemaEntry (objects : List String) (assignedNames factories : List String) :
    Option SchemaEntry :=
  if objects.contains "Query" then
    let roots := operationTypes.filter fun (type, _) => objects.contains type
    some {
      roots := roots.map fun (type, operation) => (operation, safeIdentifier type)
      types := assignedNames.filter fun v => !factories.contains v }
  else none

def dropFinalLineFeeds (s : String) : String :=
  String.ofList (s.toList.reverse.dropWhile (· = '\n')).reverse

def toModule (e : Emission) (style : ModuleStyle) : Except LookupFault SchemaModule := do
  let scalars := e.scalars
  let enums := e.enums
  let factories ← e.factories
  let before := scalars.map (·.var) ++ enums.map (·.var) ++ factories.map (·.var)
  let objects ← e.objectEntries before e.objectNodes
  let instances ← e.instances
  let assignedNames := before ++ objects.map (·.var) ++ instances.map (·.var)
  let schema :=
    if style.buildSchema then
      schemaEntry (objects.map (·.name)) assignedNames (factories.map (·.var))
    else none
  .ok {
    header := dropFinalLineFeeds style.header
    docstring := style.docstring
    runtimeModule := style.runtimeModule
    libraryImports := e.libraryImports schema
    runtimeImports := e.runtimeImports
    scalars := scalars
    enums := enums
    factories := factories
    objects := objects
    instances := instances
    schema := schema }

end Emission

end SchemaCompiler
