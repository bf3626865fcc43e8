import SchemaCompiler.Json.Basic

/-! Misuse of the compiler: requests that are refused whatever the declarations are. They stop a
compilation as a whole, while the errors of a unit concern that unit alone. -/

namespace SchemaCompiler

inductive Misuse where
  | noWorkers
  | hookWithout (hook method : String)
  | configNotObject (typeName : String)
  | headerNotText (typeName : String)
  deriving DecidableEq, Repr

def Misuse.message : Misuse → String
  | .noWorkers => "max_workers must be greater than 0"
  | .hookWithout hook method => s!"{hook} has no {method} method"
  | .configNotObject typeName => s!"'{typeName}' object has no attribute 'items'"
  | .headerNotText typeName => s!"'{typeName}' object has no attribute 'rstrip'"

def Json.typeName : Json → String
  | .null => "NoneType"
  | .bool _ => "bool"
  | .int _ => "int"
  | .float _ => "float"
  | .string _ => "str"
  | .array _ => "list"
  | .object _ => "dict"

end SchemaCompiler
