import SchemaCompiler.CommandLine.Path
import SchemaCompiler.Json.Literal
import SchemaCompiler.Text.Similarity

/-! The arguments of a command. Words that start with a dash use options; an option may be written
in full, as `--name value` or `--name=value`, or as a letter, and letters may stand together. All
other words are left over. -/

namespace SchemaCompiler

inductive OptionKind where
  /-- An option without a value. -/
  | flag
  | text
  | existingFile
  | integer
  deriving DecidableEq, Repr, Inhabited

structure OptionSpec where
  name : String
  letter : Option Char := none
  kind : OptionKind := .text
  required : Bool := false
  /-- Whether every use counts, and not the last one alone. -/
  repeats : Bool := false
  deriving DecidableEq, Repr, Inhabited

namespace OptionSpec

def hint (o : OptionSpec) : String :=
  match o.letter with
  | some c => "'" ++ o.name ++ "' / '-" ++ String.ofList [c] ++ "'"
  | none => "'" ++ o.name ++ "'"

def takesValue (o : OptionSpec) : Bool :=
  o.kind ≠ .flag

end OptionSpec

inductive ValueFault where
  | noFile (path : String)
  | isDirectory (path : String)
  | notInteger (text : String)
  deriving DecidableEq, Repr

def ValueFault.message : ValueFault → String
  | .noFile path => "File " ++ quoted path ++ " does not exist."
  | .isDirectory path => "File " ++ quoted path ++ " is a directory."
  | .notInteger text => quoted text ++ " is not a valid integer."

inductive UsageFault where
  | noSuchOption (name : String) (similar : List String)
  | noSuchCommand (name : String) (similar : List String)
  | needsValue (name : String)
  | takesNoValue (name : String)
  | missingOption (hint : String)
  | missingCommand
  | invalidValue (hint : String) (fault : ValueFault)
  | extraArguments (words : List String)
  deriving DecidableEq, Repr

/-- A message followed by the names that may have been meant. -/
def withSuggestion (message many : String) (similar : List String) : String :=
  match similar with
  | [] => message
  | [name] => message ++ " Did you mean " ++ quoted name ++ "?"
  | names => message ++ " (" ++ many ++ commaSeparated (names.map quoted) ++ ")"

def UsageFault.message : UsageFault → String
  | .noSuchOption name similar =>
    withSuggestion ("No such option " ++ quoted name ++ ".") "Possible options: " similar
  | .noSuchCommand name similar =>
    withSuggestion ("No such command " ++ quoted name ++ ".") "Possible commands: " similar
  | .needsValue name => "Option " ++ quoted name ++ " requires an argument."
  | .takesNoValue name => "Option " ++ quoted name ++ " does not take a value."
  | .missingOption hint => "Missing option " ++ hint ++ "."
  | .missingCommand => "Missing command."
  | .invalidValue hint fault => "Invalid value for " ++ hint ++ ": " ++ fault.message
  | .extraArguments words =>
    (if words.length = 1 then "Got unexpected extra argument (" else
      "Got unexpected extra arguments (") ++ " ".intercalate words ++ ")"

structure OptionUse where
  option : OptionSpec
  value : String := ""
  deriving DecidableEq, Repr, Inhabited

/-- What a word asks for: the options it uses, and one whose value is the next word. -/
structure WordUse where
  uses : List OptionUse := []
  pending : Option (String × OptionSpec) := none
  deriving DecidableEq, Repr, Inhabited

/-- The options that letters use. The rest of a word after a letter that takes a value is the
value. -/
def useLetters (specs : List OptionSpec) : List Char → Except UsageFault WordUse
  | [] => .ok {}
  | c :: rest =>
    let written := "-" ++ String.ofList [c]
    match specs.find? (·.letter = some c) with
    | none => .error (.noSuchOption written [])
    | some o =>
      if o.takesValue then
        if rest.isEmpty then .ok ⟨[], some (written, o)⟩
        else .ok ⟨[⟨o, String.ofList rest⟩], none⟩
      else do
        let more ← useLetters specs rest
        .ok { more with uses := ⟨o, ""⟩ :: more.uses }

def useWord (specs : List OptionSpec) (word : String) : Except UsageFault WordUse :=
  let (name, value) := splitFirst '=' word.toList
  let name := String.ofList name
  match specs.find? (·.name = name), value with
  | some o, some value =>
    if o.takesValue then .ok ⟨[⟨o, String.ofList value⟩], none⟩ else .error (.takesNoValue name)
  | some o, none => .ok (if o.takesValue then ⟨[], some (name, o)⟩ else ⟨[⟨o, ""⟩], none⟩)
  | none, _ =>
    if word.startsWith "--" then
      .error (.noSuchOption name (similarNames (specs.map (·.name)) name))
    else useLetters specs (word.toList.drop 1)

/-- The uses of options in words, and the words that are left over. With `interspersed`, options may
follow such a word; else all words after it are left over too. Two dashes end the options. -/
def readArguments (specs : List OptionSpec) (interspersed : Bool) :
    List String → Except UsageFault (List OptionUse × List String)
  | [] => .ok ([], [])
  | word :: rest =>
    if word = "--" then .ok ([], rest)
    else if word.startsWith "-" ∧ word ≠ "-" then
      match useWord specs word with
      | .error fault => .error fault
      | .ok ⟨uses, none⟩ =>
        (readArguments specs interspersed rest).map fun (more, words) => (uses ++ more, words)
      | .ok ⟨uses, some (name, o)⟩ =>
        match rest with
        | [] => .error (.needsValue name)
        | value :: rest =>
          (readArguments specs interspersed rest).map fun (more, words) =>
            (uses ++ ⟨o, value⟩ :: more, words)
    else if interspersed then
      (readArguments specs interspersed rest).map fun (more, words) => (more, word :: words)
    else .ok ([], word :: rest)

/-- Options in the order in which they are looked at: those used, by their first use, then the
others. -/
def optionOrder (specs : List OptionSpec) (uses : List OptionUse) : List OptionSpec :=
  let used := (uses.map (·.option)).eraseDups
  used ++ specs.filter fun o => !used.contains o

def optionValues (uses : List OptionUse) (o : OptionSpec) : List String :=
  let values := (uses.filter (·.option = o)).map (·.value)
  if o.repeats then values else values.getLast?.toList

def groupedDigits? : (value : Nat) → List Char → Option Nat
  | value, [] => some value
  | value, '_' :: c :: rest =>
    if c.isDigit then groupedDigits? (value * 10 + (c.toNat - '0'.toNat)) rest else none
  | value, c :: rest =>
    if c.isDigit then groupedDigits? (value * 10 + (c.toNat - '0'.toNat)) rest else none

def digits? : List Char → Option Nat
  | c :: rest => if c.isDigit then groupedDigits? 0 (c :: rest) else none
  | [] => none

/-- The integer of a text, which may have a sign and blanks around it. -/
def integerOfText? (text : String) : Option Int :=
  let isBlank (c : Char) : Bool := c = ' ' || ('\x09' ≤ c && c ≤ '\x0d')
  let trimmed := ((text.toList.dropWhile isBlank).reverse.dropWhile isBlank).reverse
  match trimmed with
  | '-' :: rest => (digits? rest).map fun n => -(n : Int)
  | '+' :: rest => (digits? rest).map Int.ofNat
  | rest => (digits? rest).map Int.ofNat

end SchemaCompiler
