import SchemaCompiler.Json.Basic
import SchemaCompiler.Number.Shortest
import SchemaCompiler.Text.Quoted

/-! Values written as literals of the emitted modules: texts in quotes, lists in brackets, objects
in braces, and `None`, `True` and `False` for null and the booleans. Messages show values in the
same form, except that a text by itself stands without quotes. -/

namespace SchemaCompiler

def commaSeparated (items : List String) : String :=
  ", ".intercalate items

namespace Json

mutual

def literal : Json → String
  | .null => "None"
  | .bool b => if b then "True" else "False"
  | .int n => toString n
  | .float x => x.text
  | .string s => quoted s
  | .array items => "[" ++ commaSeparated (literals items) ++ "]"
  | .object members => "\x7b" ++ commaSeparated (memberLiterals members) ++ "\x7d"

def literals : List Json → List String
  | [] => []
  | item :: rest => item.literal :: literals rest

def memberLiterals : List (String × Json) → List String
  | [] => []
  | (key, value) :: rest => (quoted key ++ ": " ++ value.literal) :: memberLiterals rest

end

/-- A value as a message shows it. -/
def plainText : Json → String
  | .string s => s
  | value => value.literal

end Json

end SchemaCompiler
