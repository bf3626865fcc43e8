/-! Host metadata: what the host's type checker states about the declarations of one compilation
unit. A declaration of any kind has all the parts that some kind needs; which of them matter is
decided when the declarations are extracted. -/

namespace SchemaCompiler

/-- How the absence of a value is written inside a union. -/
inductive AbsenceMarker where
  | null
  | undefined
  deriving DecidableEq, Repr, Inhabited

/-- A type as the host states it. -/
inductive Shape where
  | named (name : String)
  | absent (marker : AbsenceMarker)
  | union (members : List Shape)
  | array (element : Shape)
  | generic (name : String) (arguments : List Shape)
  deriving Repr, Inhabited

/-- How a resolver reaches a field's value on its parent. -/
inductive Access where
  | property
  | accessor
  deriving DecidableEq, Repr, Inhabited

inductive EnumLiteral where
  | text (value : String)
  | int (value : Int)
  deriving DecidableEq, Repr, Inhabited

structure HostArgument where
  name : String
  type : Shape
  tag : Option String := none
  description : Option String := none
  deriving Repr, Inhabited

/-- A field; an accessor may leave its type open. -/
structure HostField where
  name : String
  type : Option Shape := none
  tag : Option String := none
  access : Access := .property
  deferred : Bool := false
  arguments : List HostArgument := []
  description : Option String := none
  deprecationReason : Option String := none
  deriving Repr, Inhabited

structure HostEnumValue where
  name : String
  value : Option EnumLiteral := none
  description : Option String := none
  deriving DecidableEq, Repr, Inhabited

inductive DeclarationKind where
  | object
  | enum
  | scalar
  | genericObject
  deriving DecidableEq, Repr, Inhabited

structure HostDeclaration where
  kind : DeclarationKind
  name : String
  participates : Bool := false
  description : Option String := none
  fields : List HostField := []
  typeParameters : List String := []
  values : List HostEnumValue := []
  internalType : Option String := none
  tag : Option String := none
  implementation : Option String := none
  deriving Repr, Inhabited

/-- An entry of the participation table, for declarations that cannot carry the flag themselves. -/
structure Participation where
  participates : Bool := true
  description : Option String := none
  deriving DecidableEq, Repr, Inhabited

structure HostUnit where
  name : String
  declarations : List HostDeclaration := []
  participation : List (String × Participation) := []
  deriving Repr, Inhabited

namespace HostUnit

def entry? (unit : HostUnit) (name : String) : Option Participation :=
  unit.participation.lookup name

/-- Whether a declaration takes part: it says so itself, or its entry in the table does. -/
def includes (unit : HostUnit) (decl : HostDeclaration) : Bool :=
  decl.participates || (unit.entry? decl.name).any (·.participates)

/-- A declaration's description, or that of its entry in the table when it has none of its own. -/
def descriptionOf (unit : HostUnit) (decl : HostDeclaration) : Option String :=
  if decl.description.any (· ≠ "") then decl.description
  else (unit.entry? decl.name).bind (·.description)

end HostUnit

end SchemaCompiler
