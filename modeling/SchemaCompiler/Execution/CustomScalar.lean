import SchemaCompiler.Execution.Resolver
import SchemaCompiler.Text.Basic

/-! Scalars at work. A scalar serializes and parses values by the functions of its implementation,
which is found under a path such as `module:Name`; without such a function values pass through. -/

namespace SchemaCompiler

variable {φ : Type}

inductive Component (φ : Type) where
  /-- A class with its attributes. -/
  | classType (name : String) (attributes : List (String × Component φ))
  /-- An object of a class, which has the attributes of the class. -/
  | object (className : String) (attributes : List (String × Component φ))
  /-- A function, by itself or of an object. -/
  | function (ofObject : Bool) (f : φ)
  deriving Repr, Inhabited

inductive ScalarFault where
  | emptyModule
  | relativeModule (name : String)
  | noModule (name : String)
  | notPackage (name parent : String)
  | noAttribute (holder name : String)
  /-- There is a function for literals but none for values. -/
  | literalsOnly (scalar : String)
  deriving DecidableEq, Repr

def ScalarFault.message : ScalarFault → String
  | .emptyModule => "Empty module name"
  | .relativeModule name =>
    "the 'package' argument is required to perform a relative import for " ++ quoted name
  | .noModule name => "No module named " ++ quoted name
  | .notPackage name parent =>
    "No module named " ++ quoted name ++ "; " ++ quoted parent ++ " is not a package"
  | .noAttribute holder name => holder ++ " has no attribute '" ++ name ++ "'"
  | .literalsOnly scalar =>
    scalar ++ " must provide both 'parse_value' and 'parse_literal' functions."

namespace Component

def label : Component φ → String
  | .classType name _ => "type object '" ++ name ++ "'"
  | .object className _ => "'" ++ className ++ "' object"
  | .function true _ => "'method' object"
  | .function false _ => "'function' object"

/-- A component as an attribute of an object: functions belong to the object. -/
def ofObject : Component φ → Component φ
  | .function _ f => .function true f
  | c => c

def attribute? (name : String) : Component φ → Option (Component φ)
  | .classType _ attributes => (attributes.find? (·.1 = name)).map (·.2)
  | .object _ attributes => (attributes.find? (·.1 = name)).map fun (_, c) => c.ofObject
  | .function _ _ => none

def follow (c : Component φ) : List String → Except ScalarFault (Component φ)
  | [] => .ok c
  | name :: rest =>
    match c.attribute? name with
    | some c => c.follow rest
    | none => .error (.noAttribute c.label name)

/-- An object of a class; all else stands for itself. -/
def instantiated : Component φ → Component φ
  | .classType name attributes => .object name attributes
  | c => c

def function? (c : Component φ) (name : String) : Option φ :=
  match c.attribute? name with
  | some (.function _ f) => some f
  | _ => none

end Component

/-- The modules that can be imported, each with what it offers. None contains others. -/
abbrev ModuleLibrary (φ : Type) := List (String × List (String × Component φ))

/-- The module and the attribute that a path names: a colon stands between them, or else the last
dot. -/
def implementationPath (path : String) : String × String :=
  match splitFirst ':' path.toList with
  | (first, some (c :: rest)) => (String.ofList first, String.ofList (c :: rest))
  | _ =>
    let (first, last) := splitLast '.' path.toList
    (String.ofList (first.getD []), String.ofList last)

namespace ModuleLibrary

/-- What a module offers. A dot leads into a package, and there is none. -/
def load (library : ModuleLibrary φ) (name : String) :
    Except ScalarFault (List (String × Component φ)) :=
  if name = "" then .error .emptyModule
  else if name.startsWith "." then .error (.relativeModule name)
  else
    match splitAll '.' name.toList with
    | first :: second :: _ =>
      let parent := String.ofList first
      if library.any (·.1 = parent) then
        .error (.notPackage (String.ofList (first ++ '.' :: second)) parent)
      else .error (.noModule parent)
    | _ =>
      match library.find? (·.1 = name) with
      | some (_, components) => .ok components
      | none => .error (.noModule name)

def component (library : ModuleLibrary φ) (path : String) : Except ScalarFault (Component φ) := do
  let (moduleName, member) := implementationPath path
  let components ← library.load moduleName
  match (splitAll '.' member.toList).map String.ofList with
  | [] => .error .emptyModule
  | first :: rest =>
    match components.find? (·.1 = first) with
    | some (_, c) => c.follow rest
    | none => .error (.noAttribute ("module '" ++ moduleName ++ "'") first)

end ModuleLibrary

structure CustomScalar (φ : Type) where
  name : String
  description : Option String := none
  serializer : Option φ := none
  valueParser : Option φ := none
  literalParser : Option φ := none
  deriving Repr

namespace CustomScalar

/-- The scalar that an implementation under a path makes; without a path it has no functions. -/
def define (library : ModuleLibrary φ) (name : String) (path description : Option String) :
    Except ScalarFault (CustomScalar φ) :=
  match path with
  | none => .ok { name, description }
  | some path => do
    let c := (← library.component path).instantiated
    let scalar : CustomScalar φ := {
      name, description
      serializer := c.function? "serialize"
      valueParser := c.function? "parse_value"
      literalParser := c.function? "parse_literal" }
    if scalar.literalParser.isSome ∧ scalar.valueParser.isNone then .error (.literalsOnly name)
    else .ok scalar

/-- A function applied to a value, which passes through without one. -/
def pass (calls : Calls φ) (f : Option φ) (value : Value φ) : Except CallFault (Value φ) :=
  match f with
  | some f => calls f [value]
  | none => .ok value

def serialize (s : CustomScalar φ) (calls : Calls φ) (value : Value φ) :
    Except CallFault (Value φ) :=
  pass calls s.serializer value

def parseValue (s : CustomScalar φ) (calls : Calls φ) (value : Value φ) :
    Except CallFault (Value φ) :=
  pass calls s.valueParser value

end CustomScalar

end SchemaCompiler
