import SchemaCompiler.Json.Literal

/-! Values of a running schema. Besides data there are identifiers, values that have to be awaited
and functions; what a function does is left open, so that values stand over any type of them. -/

namespace SchemaCompiler

/-- A value, with functions of type `φ`. -/
inductive Value (φ : Type) where
  | null
  | bool (value : Bool)
  | int (value : Int)
  | float (value : Double)
  | text (value : String)
  /-- An identifier. -/
  | id (value : String)
  | list (items : List (Value φ))
  | tuple (items : List (Value φ))
  | record (members : List (String × Value φ))
  /-- A value that has to be awaited. -/
  | later (value : Value φ)
  | function (f : φ)
  deriving Repr, Inhabited

namespace Value

variable {φ : Type}

/-- A tuple in parentheses; one item by itself is followed by a comma. -/
def tupleText : List String → String
  | [item] => "(" ++ item ++ ",)"
  | items => "(" ++ commaSeparated items ++ ")"

mutual

/-- The literal of a value. What is no data has a name in angle brackets. -/
def literal : Value φ → String
  | .null => "None"
  | .bool b => if b then "True" else "False"
  | .int n => toString n
  | .float x => x.text
  | .text s => quoted s
  | .id s => "ID(value=" ++ quoted s ++ ")"
  | .list items => "[" ++ commaSeparated (literals items) ++ "]"
  | .tuple items => tupleText (literals items)
  | .record members => "\x7b" ++ commaSeparated (memberLiterals members) ++ "\x7d"
  | .later _ => "<later>"
  | .function _ => "<function>"

def literals : List (Value φ) → List String
  | [] => []
  | item :: rest => item.literal :: literals rest

def memberLiterals : List (String × Value φ) → List String
  | [] => []
  | (key, value) :: rest => (quoted key ++ ": " ++ value.literal) :: memberLiterals rest

end

/-- The text of a value: texts and identifiers stand as they are, all else as its literal. -/
def plainText : Value φ → String
  | .text s => s
  | .id s => s
  | value => value.literal

mutual

/-- The identifier of a value. Nulls stay, lists and tuples become lists of identifiers, and all
else is identified by its text. -/
def toId : Value φ → Value φ
  | .null => .null
  | .id s => .id s
  | .list items => .list (toIds items)
  | .tuple items => .list (toIds items)
  | value => .id value.plainText

def toIds : List (Value φ) → List (Value φ)
  | [] => []
  | item :: rest => item.toId :: toIds rest

end

/-- The value after it was awaited, if it has to be. -/
def awaited : Value φ → Value φ
  | .later value => value
  | value => value

def isLater : Value φ → Bool
  | .later _ => true
  | _ => false

def member (name : String) : List (String × Value φ) → Value φ
  | [] => .null
  | (key, value) :: rest => if key = name then value else member name rest

end Value

end SchemaCompiler
