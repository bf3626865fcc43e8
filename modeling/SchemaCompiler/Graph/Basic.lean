import SchemaCompiler.Graph.TypeNode

/-! The type graph: the named types of one compilation, at most one of a name, and the templates of
its generics. Objects and enums start as shells, so that they can be referred to before their
declaration has been looked at. A name that nothing is known about is kept as pending, together
with the site of its first reference. -/

namespace SchemaCompiler

structure ObjectType where
  name : String
  fields : List GraphField := []
  description : Option String := none
  filled : Bool := false
  deriving Repr, Inhabited

/-- A generic applied to a named type. -/
structure Instantiation where
  key : InstanceKey
  argument : Named
  fields : List GraphField := []
  description : Option String := none
  filled : Bool := false
  deriving Repr, Inhabited

structure EnumType where
  name : String
  values : List EnumMember := []
  description : Option String := none
  filled : Bool := false
  deriving DecidableEq, Repr, Inhabited

inductive Node where
  | object (type : ObjectType)
  | instantiation (type : Instantiation)
  | enum (type : EnumType)
  | scalar (scalar : Scalar)
  | pending (name : String) (site : Site)
  deriving Repr, Inhabited

namespace Node

def ref : Node → Named
  | .object t => .object t.name
  | .instantiation t => .instantiation t.key
  | .enum t => .enum t.name
  | .scalar s => .scalar s
  | .pending name _ => .pending name

def name (node : Node) : String :=
  node.ref.name

def kind (node : Node) : NodeKind :=
  node.ref.kind

/-- Whether the declaration of a type has been looked at. -/
def filled : Node → Bool
  | .object t => t.filled
  | .instantiation t => t.filled
  | .enum t => t.filled
  | .scalar _ => true
  | .pending _ _ => false

def fields : Node → List GraphField
  | .object t => t.fields
  | .instantiation t => t.fields
  | _ => []

/-- The site of the first reference to a type of which nothing is known, otherwise the type's
name. -/
def site : Node → Site
  | .pending _ site => site
  | node => ⟨some node.name, none⟩

end Node

/-- The template of a generic: its fields with placeholders for the type parameters. -/
structure Template where
  name : String
  parameters : List String
  fields : List GraphField := []
  description : Option String := none
  deriving Repr, Inhabited

inductive ShellKind where
  | object
  | enum
  deriving DecidableEq, Repr, Inhabited

namespace ShellKind

def nodeKind : ShellKind → NodeKind
  | .object => .object
  | .enum => .enum

/-- A type of which only the name is known. -/
def empty (name : String) : ShellKind → Node
  | .object => .object { name := name }
  | .enum => .enum { name := name }

end ShellKind

/-- The named types and the templates, each in the order in which they came up. -/
structure TypeGraph where
  nodes : List Node := []
  templates : List Template := []
  deriving Repr, Inhabited

namespace TypeGraph

def get? (graph : TypeGraph) (name : String) : Option Node :=
  graph.nodes.find? (·.name = name)

def contains (graph : TypeGraph) (name : String) : Bool :=
  graph.nodes.any (·.name = name)

def template? (graph : TypeGraph) (name : String) : Option Template :=
  graph.templates.find? (·.name = name)

abbrev Result (α : Type) := Except CompileError (α × TypeGraph)

def refuse {α : Type} (cause : Cause) (site : Site := {}) : Except CompileError α :=
  .error ⟨cause, site⟩

def add (graph : TypeGraph) (node : Node) : Result Named :=
  if (graph.template? node.name).isSome then refuse (.definedTwice node.name)
  else match graph.get? node.name with
    | some (.pending name site) => refuse (.unresolved name) site
    | some _ => refuse (.definedTwice node.name)
    | none => .ok (node.ref, { graph with nodes := graph.nodes ++ [node] })

/-- Adds the node once more that the graph holds already. Nothing changes, but a type of which
nothing is known is refused, as is a name that a template has. -/
def addAgain (graph : TypeGraph) (node : Node) : Result Named :=
  if (graph.template? node.name).isSome then refuse (.definedTwice node.name)
  else match node with
    | .pending name site => refuse (.unresolved name) site
    | node => .ok (node.ref, graph)

/-- The scalar's node, which is added on the first reference to it. -/
def adopt (graph : TypeGraph) (scalar : Scalar) : Result Named :=
  match graph.get? scalar.name with
  | some (.scalar existing) =>
    if existing = scalar then .ok (.scalar scalar, graph) else graph.add (.scalar scalar)
  | _ => graph.add (.scalar scalar)

/-- The object or enum of a name, added as a shell on the first reference to it. -/
def shell (graph : TypeGraph) (name : String) (kind : ShellKind) : Result Named :=
  match graph.get? name with
  | none => graph.add (kind.empty name)
  | some (.pending _ _) => refuse (.referencedFirst name kind.nodeKind)
  | some existing =>
    if existing.kind ≠ kind.nodeKind then refuse (.otherKind name existing.kind kind.nodeKind)
    else match existing with
      | .instantiation t => refuse (.isInstantiation name t.key.generic t.key.argument)
      | existing => .ok (existing.ref, graph)

/-- The node of a name of which nothing may be known. An instantiation is not reached by its
name. -/
def pending (graph : TypeGraph) (name : String) (site : Site) : Result Named :=
  match graph.get? name with
  | some (.instantiation _) => refuse (.unresolved name) site
  | some existing => .ok (existing.ref, graph)
  | none => graph.add (.pending name site)

def addTemplate (graph : TypeGraph) (template : Template) : Except CompileError TypeGraph :=
  if (graph.template? template.name).isSome ∨ (graph.get? template.name).isSome then
    refuse (.definedTwice template.name)
  else .ok { graph with templates := graph.templates ++ [template] }

/-- Fails at the first type whose declaration has not been looked at. -/
def assertComplete (graph : TypeGraph) : Except CompileError Unit :=
  match graph.nodes.find? (!·.filled) with
  | some node => refuse (.unresolved node.name) node.site
  | none => .ok ()

def updateObject (graph : TypeGraph) (name : String) (change : ObjectType → ObjectType) :
    TypeGraph :=
  { graph with nodes := graph.nodes.map fun
      | .object t => .object (if t.name = name then change t else t)
      | node => node }

def updateEnum (graph : TypeGraph) (name : String) (change : EnumType → EnumType) : TypeGraph :=
  { graph with nodes := graph.nodes.map fun
      | .enum t => .enum (if t.name = name then change t else t)
      | node => node }

def object? (graph : TypeGraph) (name : String) : Option ObjectType :=
  match graph.get? name with
  | some (.object t) => some t
  | _ => none

def fieldsOf (graph : TypeGraph) (type : Named) : List GraphField :=
  match graph.get? type.name with
  | some node => if node.ref = type then node.fields else []
  | none => []

def namesOf (graph : TypeGraph) (kind : NodeKind) : List String :=
  (graph.nodes.filter (·.kind = kind)).map (·.name)

def instantiation? (graph : TypeGraph) (key : InstanceKey) : Option Instantiation :=
  match graph.get? key.name with
  | some (.instantiation t) => if t.key = key then some t else none
  | _ => none

end TypeGraph

end SchemaCompiler
