import SchemaCompiler.ScalarRegistry

/-! The types of a schema. A named type is referred to by its kind and name, an instantiation of a
generic by the generic and the name of its argument; what such a type holds is looked up in the
type graph. -/

namespace SchemaCompiler

def instanceName (generic : String) : (arguments : List String) → String
  | [] => generic
  | argument :: rest => argument ++ instanceName generic rest

structure InstanceKey where
  generic : String
  argument : String
  deriving DecidableEq, Repr, Inhabited

def InstanceKey.name (key : InstanceKey) : String :=
  instanceName key.generic [key.argument]

inductive Named where
  | object (name : String)
  | enum (name : String)
  | scalar (scalar : Scalar)
  | pending (name : String)
  | instantiation (key : InstanceKey)
  deriving DecidableEq, Repr, Inhabited

namespace Named

def name : Named → String
  | .object name => name
  | .enum name => name
  | .scalar s => s.name
  | .pending name => name
  | .instantiation key => key.name

/-- An instantiation is an object type. -/
def kind : Named → NodeKind
  | .object _ => .object
  | .enum _ => .enum
  | .scalar _ => .scalar
  | .pending _ => .pending
  | .instantiation _ => .object

end Named

/-- A type of a field or an argument. The last two forms occur in the fields of generics only. -/
inductive TypeNode where
  | named (type : Named)
  | list (element : TypeNode)
  | nonNull (inner : TypeNode)
  | placeholder (parameter : String)
  | applied (generic : String) (argument : TypeNode)
  deriving DecidableEq, Repr, Inhabited

namespace TypeNode

def unwrap : TypeNode → TypeNode
  | .list element => element.unwrap
  | .nonNull inner => inner.unwrap
  | t => t

/-- The type in the notation of schema definitions. -/
def render : TypeNode → String
  | .named t => t.name
  | .list element => "[" ++ element.render ++ "]"
  | .nonNull inner => inner.render ++ "!"
  | .placeholder parameter => parameter
  | .applied generic argument => generic ++ "<" ++ argument.render ++ ">"

/-- Whether a type is only known once a type parameter is. -/
def isOpen : TypeNode → Bool
  | .placeholder _ => true
  | .applied _ _ => true
  | _ => false

end TypeNode

def renderType? (type : Option TypeNode) : String :=
  type.elim "?" TypeNode.render

structure GraphArgument where
  name : String
  type : TypeNode
  description : Option String := none
  deriving DecidableEq, Repr, Inhabited

structure GraphField where
  name : String
  type : Option TypeNode
  descriptor : FieldDescriptor
  arguments : List GraphArgument := []
  deriving Repr, Inhabited

namespace GraphField

def description (f : GraphField) : Option String :=
  f.descriptor.description

def deprecationReason (f : GraphField) : Option String :=
  f.descriptor.deprecationReason

/-- The types a field refers to: its own, then those of its arguments. -/
def types (f : GraphField) : List TypeNode :=
  f.type.toList ++ f.arguments.map (·.type)

end GraphField

end SchemaCompiler
