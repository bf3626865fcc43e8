import SchemaCompiler.Json.Basic
import SchemaCompiler.Text.Basic

/-! Reading JSON documents. A fault names the first place where the text stops being one. Beyond the
standard the words NaN, Infinity and -Infinity are numbers; of members with the same name the last
one counts, in the place of the first. -/

namespace SchemaCompiler

inductive JsonProblem where
  | unexpectedMark
  | expectedValue
  | expectedName
  | expectedColon
  | expectedComma
  | unterminatedText
  | controlCharacter
  | badEscape
  | badCodeEscape
  | extraData
  deriving DecidableEq, Repr

def JsonProblem.message : JsonProblem → String
  | .unexpectedMark => "Unexpected UTF-8 BOM (decode using utf-8-sig)"
  | .expectedValue => "Expecting value"
  | .expectedName => "Expecting property name enclosed in double quotes"
  | .expectedColon => "Expecting ':' delimiter"
  | .expectedComma => "Expecting ',' delimiter"
  | .unterminatedText => "Unterminated string starting at"
  | .controlCharacter => "Invalid control character at"
  | .badEscape => "Invalid \\escape"
  | .badCodeEscape => "Invalid \\uXXXX escape"
  | .extraData => "Extra data"

/-- A problem and its place: the number of characters before it, its line and its column. -/
structure JsonFault where
  problem : JsonProblem
  position : Nat
  line : Nat
  column : Nat
  deriving DecidableEq, Repr

def JsonFault.message (fault : JsonFault) : String :=
  s!"{fault.problem.message}: line {fault.line} column {fault.column} (char {fault.position})"

namespace Json

/-- A reading step: the result and the text after it, or a problem and the text from its place
on. -/
abbrev Reading (α : Type) := Except (JsonProblem × List Char) (α × List Char)

def skipBlanks : List Char → List Char
  | c :: rest => if c = ' ' ∨ c = '\t' ∨ c = '\n' ∨ c = '\r' then skipBlanks rest else c :: rest
  | [] => []

def hexValue? (c : Char) : Option Nat :=
  if c.isDigit then some (c.toNat - '0'.toNat)
  else if 'a' ≤ c ∧ c ≤ 'f' then some (c.toNat - 'a'.toNat + 10)
  else if 'A' ≤ c ∧ c ≤ 'F' then some (c.toNat - 'A'.toNat + 10)
  else none

/-- The value of four hexadecimal digits that are not the end of the text. -/
def fourHex? : List Char → Option (Nat × List Char)
  | a :: b :: c :: d :: e :: rest => do
    let value := (((← hexValue? a) * 16 + (← hexValue? b)) * 16 + (← hexValue? c)) * 16 +
      (← hexValue? d)
    some (value, e :: rest)
  | _ => none

/-- What a backslash followed by a letter stands for. -/
def simpleEscape? : Char → Option Char
  | '"' => some '"'
  | '\\' => some '\\'
  | '/' => some '/'
  | 'b' => some '\x08'
  | 'f' => some '\x0c'
  | 'n' => some '\n'
  | 'r' => some '\r'
  | 't' => some '\t'
  | _ => none

/-- The second half of a pair of code units. -/
inductive LowHalf where
  | joined (low : Nat) (rest : List Char)
  | absent
  | bad (place : List Char)

def lowHalf : List Char → LowHalf
  | '\\' :: 'u' :: rest =>
    if rest.length < 5 then .absent
    else match fourHex? rest with
      | some (low, after) => if 0xDC00 ≤ low ∧ low ≤ 0xDFFF then .joined low after else .absent
      | none => .bad ('u' :: rest)
  | _ => .absent

/-- Reads the rest of a text after its opening quote; `opening` is the text from that quote on. Each
step takes a character, so the length of the text bounds the steps. -/
def textBody (opening : List Char) : (bound : Nat) → List Char → List Char → Reading String
  | 0, _, _ => .error (.unterminatedText, opening)
  | _, [], _ => .error (.unterminatedText, opening)
  | _, '"' :: rest, done => .ok (String.ofList done.reverse, rest)
  | _, ['\\'], _ => .error (.unterminatedText, opening)
  | bound + 1, '\\' :: 'u' :: rest, done =>
    match fourHex? rest with
    | none => .error (.badCodeEscape, 'u' :: rest)
    | some (code, after) =>
      if 0xD800 ≤ code ∧ code ≤ 0xDBFF then
        match lowHalf after with
        | .joined low after =>
          let c := Char.ofNat (0x10000 + (code - 0xD800) * 0x400 + (low - 0xDC00))
          textBody opening bound after (c :: done)
        | .absent => textBody opening bound after ('\ufffd' :: done)
        | .bad place => .error (.badCodeEscape, place)
      else if 0xDC00 ≤ code ∧ code ≤ 0xDFFF then textBody opening bound after ('\ufffd' :: done)
      else textBody opening bound after (Char.ofNat code :: done)
  | bound + 1, '\\' :: c :: rest, done =>
    match simpleEscape? c with
    | some e => textBody opening bound rest (e :: done)
    | none => .error (.badEscape, '\\' :: c :: rest)
  | bound + 1, c :: rest, done =>
    if c.toNat < 0x20 then .error (.controlCharacter, c :: rest)
    else textBody opening bound rest (c :: done)

def textValue (s : List Char) : Reading String :=
  textBody s s.length (s.drop 1) []

def digitsValue (ds : List Char) : Nat :=
  ds.foldl (fun n d => n * 10 + (d.toNat - '0'.toNat)) 0

/-- The digits at the start of a text, if there is one, and the rest. -/
def someDigits? (cs : List Char) : Option (List Char × List Char) :=
  match cs.takeWhile Char.isDigit with
  | [] => none
  | ds => some (ds, cs.dropWhile Char.isDigit)

/-- The fraction and the exponent of a number, each only if it has a digit. -/
def fraction? : List Char → Option (List Char × List Char)
  | '.' :: rest => someDigits? rest
  | _ => none

def exponent? : List Char → Option (Int × List Char)
  | c :: rest =>
    if c = 'e' ∨ c = 'E' then
      match rest with
      | '-' :: rest => (someDigits? rest).map fun (ds, rest) => (-(digitsValue ds : Int), rest)
      | '+' :: rest => (someDigits? rest).map fun (ds, rest) => ((digitsValue ds : Int), rest)
      | rest => (someDigits? rest).map fun (ds, rest) => ((digitsValue ds : Int), rest)
    else none
  | [] => none

/-- Reads a number. A leading zero is a whole number of its own. -/
def number? (s : List Char) : Option (Json × List Char) := do
  let (negative, unsigned) := match s with
    | '-' :: rest => (true, rest)
    | _ => (false, s)
  let (whole, rest) ← match unsigned with
    | '0' :: rest => some (['0'], rest)
    | _ => someDigits? unsigned
  match fraction? rest, exponent? ((fraction? rest).elim rest (·.2)) with
  | none, none =>
    let n : Int := digitsValue whole
    some (.int (if negative then -n else n), rest)
  | fraction, exponent =>
    let tenths := fraction.elim [] (·.1)
    let rest := exponent.elim (fraction.elim rest (·.2)) (·.2)
    let power := exponent.elim 0 (·.1) - (tenths.length : Int)
    some (.float (Double.ofDecimal negative (digitsValue (whole ++ tenths)) power), rest)

def words : List (List Char × Json) :=
  [("null".toList, .null), ("true".toList, .bool true), ("false".toList, .bool false),
    ("NaN".toList, .float .nan), ("Infinity".toList, .float (.infinite false)),
    ("-Infinity".toList, .float (.infinite true))]

/-- Reads a value that is no text, list or object. -/
def plainValue (s : List Char) : Reading Json :=
  match words.find? fun (word, _) => word.isPrefixOf s with
  | some (word, value) => .ok (value, s.drop word.length)
  | none => match number? s with
    | some result => .ok result
    | none => .error (.expectedValue, s)

mutual

/-- Reads the value at the start of a text. Each nested call has taken a character, so the length of
the text bounds the depth. -/
def value : (bound : Nat) → List Char → Reading Json
  | 0, s => .error (.expectedValue, s)
  | bound + 1, s =>
    match s with
    | '"' :: _ => (textValue s).map fun (text, rest) => (.string text, rest)
    | '[' :: rest =>
      match skipBlanks rest with
      | ']' :: rest => .ok (.array [], rest)
      | rest => items bound rest []
    | '\x7b' :: rest =>
      match skipBlanks rest with
      | '\x7d' :: rest => .ok (.object [], rest)
      | rest => members bound rest []
    | s => plainValue s

def items : (bound : Nat) → List Char → List Json → Reading Json
  | 0, s, _ => .error (.expectedValue, s)
  | bound + 1, s, done =>
    match value bound s with
    | .error e => .error e
    | .ok (item, rest) =>
      match skipBlanks rest with
      | ']' :: rest => .ok (.array (item :: done).reverse, rest)
      | ',' :: rest => items bound (skipBlanks rest) (item :: done)
      | rest => .error (.expectedComma, rest)

def members : (bound : Nat) → List Char → List (String × Json) → Reading Json
  | 0, s, _ => .error (.expectedName, s)
  | bound + 1, s, done =>
    match s with
    | '"' :: _ =>
      match textValue s with
      | .error e => .error e
      | .ok (name, rest) =>
        match skipBlanks rest with
        | ':' :: rest =>
          match value bound (skipBlanks rest) with
          | .error e => .error e
          | .ok (item, rest) =>
            let done := setMember name item done
            match skipBlanks rest with
            | '\x7d' :: rest => .ok (.object done, rest)
            | ',' :: rest => members bound (skipBlanks rest) done
            | rest => .error (.expectedComma, rest)
        | rest => .error (.expectedColon, rest)
    | s => .error (.expectedName, s)

end

def read (text : String) : Except JsonFault Json :=
  let cs := text.toList
  let fault (problem : JsonProblem) (rest : List Char) : JsonFault :=
    let position := cs.length - rest.length
    let (line, column) := lineAndColumn (cs.take position)
    ⟨problem, position, line, column⟩
  if cs.head? = some '\ufeff' then .error (fault .unexpectedMark cs)
  else match value (cs.length + 1) (skipBlanks cs) with
    | .error (problem, rest) => .error (fault problem rest)
    | .ok (json, rest) =>
      match skipBlanks rest with
      | [] => .ok json
      | rest => .error (fault .extraData rest)

end Json

end SchemaCompiler
