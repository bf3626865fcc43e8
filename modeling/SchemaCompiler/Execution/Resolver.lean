import SchemaCompiler.Binding
import SchemaCompiler.Execution.Value

/-! Resolvers at work. A resolver finds a member of the parent by its name; a property is read, and
an accessor is called with one value for each declared argument, in their order. A deferred resolver
answers a value that has to be awaited. -/

namespace SchemaCompiler

variable {φ : Type}

inductive CallFault where
  /-- An argument has the name of a parameter of the resolver itself. -/
  | parameterTaken (helper : ResolverHelper) (name : String)
  | notCallable (typeName member : String)
  /-- The accessor failed. -/
  | raised (message : String)
  deriving DecidableEq, Repr

def CallFault.message : CallFault → String
  | .parameterTaken helper name =>
    helper.name ++ ".<locals>.resolve() got multiple values for argument " ++ quoted name
  | .notCallable typeName member => typeName ++ "." ++ member ++ " is not callable"
  | .raised message => message

abbrev Calls (φ : Type) := φ → List (Value φ) → Except CallFault (Value φ)

inductive Parent (φ : Type) where
  | absent
  | mapping (members : List (String × Value φ))
  | object (typeName : String) (members : List (String × Value φ))
  deriving Repr, Inhabited

namespace Parent

/-- The member of that name, null if there is none. -/
def member (name : String) : Parent φ → Value φ
  | .absent => .null
  | .mapping members => Value.member name members
  | .object _ members => Value.member name members

def typeName : Parent φ → String
  | .absent => "NoneType"
  | .mapping _ => "dict"
  | .object name _ => name

end Parent

/-- An argument of an accessor, which is turned into an identifier first if `toId` is set. -/
structure ArgumentSpec where
  name : String
  toId : Bool := false
  deriving DecidableEq, Repr, Inhabited

def ArgumentSpec.value (a : ArgumentSpec) (supplied : List (String × Value φ)) : Value φ :=
  let value := Value.member a.name supplied
  if a.toId then value.toId else value

structure Resolver where
  helper : ResolverHelper
  name : String
  arguments : List ArgumentSpec := []
  deriving DecidableEq, Repr, Inhabited

namespace Resolver

/-- The names of a resolver's own parameters. They are shared with the arguments that are supplied
by name, so that no such argument can be passed. -/
def parameters : List String :=
  ["parent", "info"]

def values (r : Resolver) (supplied : List (String × Value φ)) : List (Value φ) :=
  r.arguments.map fun a => a.value supplied

/-- Calls the accessor; an absent one answers null. -/
def invoke (r : Resolver) (calls : Calls φ) (parent : Parent φ)
    (supplied : List (String × Value φ)) : Except CallFault (Value φ) :=
  match parent.member r.name with
  | .null => .ok .null
  | .function f => calls f (r.values supplied)
  | _ => .error (.notCallable parent.typeName r.name)

def resolve (r : Resolver) (calls : Calls φ) (parent : Parent φ)
    (supplied : List (String × Value φ)) : Except CallFault (Value φ) :=
  match supplied.find? fun (name, _) => parameters.contains name with
  | some (name, _) => .error (.parameterTaken r.helper name)
  | none =>
    match r.helper with
    | .readProperty => .ok (parent.member r.name)
    | .readDeferredProperty => .ok (.later (parent.member r.name).awaited)
    | .callAccessor => r.invoke calls parent supplied
    | .callDeferredAccessor => (r.invoke calls parent supplied).map fun v => .later v.awaited

end Resolver

def Binding.resolver (b : Binding) : Resolver where
  helper := b.helper
  name := b.field
  arguments := b.arguments.map fun a => ⟨a.name, a.toId⟩

end SchemaCompiler
