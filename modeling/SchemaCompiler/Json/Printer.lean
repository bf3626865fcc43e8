import SchemaCompiler.Json.Basic
import SchemaCompiler.Json.Literal

/-! Writing JSON documents on one line. -/

namespace SchemaCompiler

namespace Json

def printChar (c : Char) : List Char :=
  if c = '"' ∨ c = '\\' then ['\\', c]
  else if c.toNat < 0x20 then '\\' :: 'u' :: hexDigits 4 c.toNat
  else [c]

def printText (s : String) : String :=
  "\"" ++ String.ofList (s.toList.flatMap printChar) ++ "\""

mutual

def print : Json → String
  | .null => "null"
  | .bool b => if b then "true" else "false"
  | .int n => toString n
  | .float .nan => "NaN"
  | .float (.infinite negative) => if negative then "-Infinity" else "Infinity"
  | .float x => x.text
  | .string s => printText s
  | .array items => "[" ++ ",".intercalate (printItems items) ++ "]"
  | .object members => "\x7b" ++ ",".intercalate (printMembers members) ++ "\x7d"

def printItems : List Json → List String
  | [] => []
  | item :: rest => item.print :: printItems rest

def printMembers : List (String × Json) → List String
  | [] => []
  | (name, value) :: rest => (printText name ++ ":" ++ value.print) :: printMembers rest

end

end Json

end SchemaCompiler
