import SchemaCompiler.Graph.Basic

/-! Resolver bindings. Every field of the graph is bound to the expression that reaches its value on
the parent: a property is read, an accessor is called, and either may have to be awaited. An
accessor gets one value for each declared argument, and an argument of the type `ID` is turned into
an identifier first. -/

namespace SchemaCompiler

inductive ResolverHelper where
  | readProperty
  | readDeferredProperty
  | callAccessor
  | callDeferredAccessor
  deriving DecidableEq, Repr, Inhabited

namespace ResolverHelper

def of (access : Access) (effect : Effect) : ResolverHelper :=
  match access, effect with
  | .property, .immediate => .readProperty
  | .property, .deferred => .readDeferredProperty
  | .accessor, .immediate => .callAccessor
  | .accessor, .deferred => .callDeferredAccessor

def name : ResolverHelper → String
  | .readProperty => "read_property"
  | .readDeferredProperty => "read_deferred_property"
  | .callAccessor => "call_accessor"
  | .callDeferredAccessor => "call_deferred_accessor"

/-- Whether what a helper's resolvers answer has to be awaited. -/
def effect : ResolverHelper → Effect
  | .readProperty => .immediate
  | .callAccessor => .immediate
  | .readDeferredProperty => .deferred
  | .callDeferredAccessor => .deferred

end ResolverHelper

structure ArgumentBinding where
  name : String
  type : TypeNode
  toId : Bool := false
  deriving DecidableEq, Repr, Inhabited

/-- The name of the function that makes identifiers, where one is needed. -/
def ArgumentBinding.converter (a : ArgumentBinding) : Option String :=
  if a.toId then some "to_id" else none

def ArgumentBinding.expression (a : ArgumentBinding) : String :=
  match a.converter with
  | some converter => "argument(\"" ++ a.name ++ "\", " ++ converter ++ ")"
  | none => "argument(\"" ++ a.name ++ "\")"

structure Binding where
  typeName : String
  descriptor : FieldDescriptor
  arguments : List ArgumentBinding := []
  deriving Repr, Inhabited

namespace Binding

def field (b : Binding) : String :=
  b.descriptor.name

def deferred (b : Binding) : Bool :=
  b.descriptor.effect = .deferred

def helper (b : Binding) : ResolverHelper :=
  .of b.descriptor.access b.descriptor.effect

def expression (b : Binding) : String :=
  let member := "\"" ++ b.descriptor.name ++ "\""
  b.helper.name ++ "(" ++ commaSeparated (member :: b.arguments.map (·.expression)) ++ ")"

end Binding

/-- An argument has to be a scalar or an enum, possibly in lists. -/
def bindArgument (a : GraphArgument) : Except Cause ArgumentBinding :=
  match a.type.unwrap with
  | .placeholder _ => .error (.genericArgument a.name a.type.render)
  | .applied _ _ => .error (.genericArgument a.name a.type.render)
  | .named (.object _) => .error (.outputArgument a.name a.type.render)
  | .named (.instantiation _) => .error (.outputArgument a.name a.type.render)
  | .named (.scalar s) => .ok ⟨a.name, a.type, s.name = "ID"⟩
  | .named (.enum _) => .ok ⟨a.name, a.type, false⟩
  | _ => .error (.unresolvedArgument a.name)

def bindField (typeName : String) (f : GraphField) : Except CompileError Binding :=
  let site : Site := ⟨some f.descriptor.owner, some f.descriptor.name⟩
  match f.type, f.arguments.mapM bindArgument with
  | none, _ => .error ⟨.noReturnType, site⟩
  | some _, .error cause => .error ⟨cause, site⟩
  | some _, .ok arguments => .ok ⟨typeName, f.descriptor, arguments⟩

def bindFields (typeName : String) (fields : List GraphField) :
    Except CompileError (List Binding) :=
  fields.mapM (bindField typeName)

/-- The resolvers of a graph in the order of its types and their fields, the templates last. -/
structure Bindings where
  all : List Binding := []
  deriving Repr, Inhabited

namespace Bindings

def ofGraph (graph : TypeGraph) : Except CompileError Bindings := do
  let ofTypes ← graph.nodes.mapM fun node => bindFields node.name node.fields
  let ofTemplates ← graph.templates.mapM fun template => bindFields template.name template.fields
  .ok ⟨ofTypes.flatten ++ ofTemplates.flatten⟩

def get? (bindings : Bindings) (typeName field : String) : Option Binding :=
  bindings.all.find? fun b => b.typeName = typeName ∧ b.field = field

def forType (bindings : Bindings) (typeName : String) : List Binding :=
  bindings.all.filter (·.typeName = typeName)

end Bindings

end SchemaCompiler
