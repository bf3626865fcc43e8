import SchemaCompiler.Host.Unit
import SchemaCompiler.Model.TypeExpr

/-! The source model: the declarations of a unit that take part in its schema, in normal form and in
the order of the unit. -/

namespace SchemaCompiler

/-- Whether a field's value is there at once or has to be awaited. -/
inductive Effect where
  | immediate
  | deferred
  deriving DecidableEq, Repr, Inhabited

structure ArgumentDescriptor where
  name : String
  type : TypeExpr
  tag : Option String := none
  description : Option String := none
  deriving Repr, Inhabited, BEq

structure FieldDescriptor where
  owner : String
  name : String
  type : Option TypeExpr
  access : Access := .property
  effect : Effect := .immediate
  arguments : List ArgumentDescriptor := []
  tag : Option String := none
  description : Option String := none
  deprecationReason : Option String := none
  deriving Repr, Inhabited, BEq

namespace FieldDescriptor

def nullable (f : FieldDescriptor) : Bool :=
  f.type.any TypeExpr.isNullable

def listDepth (f : FieldDescriptor) : Nat :=
  f.type.elim 0 TypeExpr.listDepth

def isCallable (f : FieldDescriptor) : Bool :=
  !f.arguments.isEmpty

def types (f : FieldDescriptor) : List TypeExpr :=
  f.type.toList ++ f.arguments.map (·.type)

end FieldDescriptor

structure ObjectDecl where
  name : String
  fields : List FieldDescriptor
  description : Option String := none
  deriving Repr, Inhabited, BEq

/-- A generic declaration, of one type parameter. -/
structure GenericDecl where
  name : String
  parameter : String
  fields : List FieldDescriptor
  description : Option String := none
  deriving Repr, Inhabited, BEq

structure EnumMember where
  name : String
  value : EnumLiteral
  description : Option String := none
  deriving DecidableEq, Repr, Inhabited

structure EnumDecl where
  name : String
  members : List EnumMember
  description : Option String := none
  deriving DecidableEq, Repr, Inhabited

/-- A scalar for the fields that are written with an internal type (and a tag). -/
structure ScalarDecl where
  name : String
  internalType : String
  tag : Option String := none
  implementation : Option String := none
  description : Option String := none
  deriving DecidableEq, Repr, Inhabited

inductive Declaration where
  | object (decl : ObjectDecl)
  | generic (decl : GenericDecl)
  | enum (decl : EnumDecl)
  | scalar (decl : ScalarDecl)
  deriving Repr, Inhabited, BEq

namespace Declaration

def name : Declaration → String
  | .object d => d.name
  | .generic d => d.name
  | .enum d => d.name
  | .scalar d => d.name

def fields : Declaration → List FieldDescriptor
  | .object d => d.fields
  | .generic d => d.fields
  | _ => []

end Declaration

structure SourceModel where
  unit : String
  declarations : List Declaration := []
  deriving Repr, Inhabited, BEq

namespace SourceModel

/-- The declaration of that name. A model has at most one of a name. -/
def get? (model : SourceModel) (name : String) : Option Declaration :=
  model.declarations.find? (·.name = name)

def contains (model : SourceModel) (name : String) : Bool :=
  model.declarations.any (·.name = name)

def scalars (model : SourceModel) : List ScalarDecl :=
  model.declarations.filterMap fun
    | .scalar d => some d
    | _ => none

def generics (model : SourceModel) : List GenericDecl :=
  model.declarations.filterMap fun
    | .generic d => some d
    | _ => none

def filter (model : SourceModel) (keep : String → Bool) : SourceModel :=
  { model with declarations := model.declarations.filter fun d => keep d.name }

end SourceModel

end SchemaCompiler
