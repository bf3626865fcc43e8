/-! Type expressions: the types of fields and arguments in normal form, where the absence of a value
is a mark on the type it is absent from. `TypeExpr.describe` writes an expression in the host's
notation. -/

namespace SchemaCompiler

inductive TypeExpr where
  | ref (name : String)
  /-- The type parameter of the generic declaration around it. -/
  | param (name : String)
  | list (element : TypeExpr)
  | nullable (inner : TypeExpr)
  | apply (generic : String) (arguments : List TypeExpr)
  deriving Repr, Inhabited, BEq

namespace TypeExpr

def isNullable : TypeExpr → Bool
  | .nullable _ => true
  | _ => false

mutual

/-- The expression in the host's notation. -/
def describe : TypeExpr → String
  | .ref name => name
  | .param name => name
  | .list element =>
    if element.isNullable then "(" ++ element.describe ++ ")[]" else element.describe ++ "[]"
  | .nullable inner => inner.describe ++ " | null"
  | .apply generic arguments => generic ++ "<" ++ ", ".intercalate (describeAll arguments) ++ ">"

def describeAll : List TypeExpr → List String
  | [] => []
  | e :: rest => e.describe :: describeAll rest

end

mutual

def usesParam : TypeExpr → Bool
  | .ref _ => false
  | .param _ => true
  | .list element => element.usesParam
  | .nullable inner => inner.usesParam
  | .apply _ arguments => anyUsesParam arguments

def anyUsesParam : List TypeExpr → Bool
  | [] => false
  | e :: rest => e.usesParam || anyUsesParam rest

end

def listDepth : TypeExpr → Nat
  | .list element => element.listDepth + 1
  | .nullable inner => inner.listDepth
  | _ => 0

mutual

def applications : TypeExpr → Nat
  | .ref _ => 0
  | .param _ => 0
  | .list element => element.applications
  | .nullable inner => inner.applications
  | .apply _ arguments => allApplications arguments + 1

def allApplications : List TypeExpr → Nat
  | [] => 0
  | e :: rest => e.applications + allApplications rest

end

mutual

/-- The names that stand in an expression, those of type parameters and generics among them. -/
def names : TypeExpr → List String
  | .ref name => [name]
  | .param name => [name]
  | .list element => element.names
  | .nullable inner => inner.names
  | .apply generic arguments => generic :: allNames arguments

def allNames : List TypeExpr → List String
  | [] => []
  | e :: rest => e.names ++ allNames rest

end

end TypeExpr

end SchemaCompiler
