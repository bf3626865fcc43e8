import SchemaCompiler.Json.Reader

/-! String literals of module texts. A literal ends at the first quote, or at the first three of
them, that no backslash stands before; a literal with single quotes stands on one line. Inside it a
backslash and the characters after it may stand for another character. -/

namespace SchemaCompiler

/-- The inside of a literal whose opening quote has been read, as it is written, and the text after
the closing quote. -/
def literalBody (quote : Char) (triple : Bool) : List Char → Option (List Char × List Char)
  | [] => none
  | ['\\'] => none
  | '\\' :: c :: rest => (literalBody quote triple rest).map fun (body, rest) =>
      ('\\' :: c :: body, rest)
  | c :: rest =>
    if c = quote ∧ !triple then some ([], rest)
    else if c = quote ∧ triple ∧ rest.take 2 = [quote, quote] then some ([], rest.drop 2)
    else if c = '\n' ∧ !triple then none
    else (literalBody quote triple rest).map fun (body, rest) => (c :: body, rest)

/-- The character of a code, if there is one. A half of a pair of code units is no character of its
own and becomes the replacement character. -/
def charOfCode? (code : Nat) : Option Char :=
  if code > 0x10ffff then none
  else if code.isValidChar then some (Char.ofNat code)
  else some '\ufffd'

/-- What a code of exactly `count` hexadecimal digits stands for, and that many characters taken. -/
def hexEscape? (count : Nat) (rest : List Char) : Option (List Char × Nat) := do
  let digits ← (rest.take count).mapM Json.hexValue?
  if digits.length = count then
    let c ← charOfCode? (digits.foldl (fun n d => n * 16 + d) 0)
    some ([c], count)
  else none

def isOctal (c : Char) : Bool :=
  '0' ≤ c && c ≤ '7'

/-- Whether a character can stand in the name that Unicode gives to a character. -/
def isCharacterName (c : Char) : Bool :=
  c.isAlphanum || c = ' ' || c = '-'

/-- What a character after a backslash stands for, and how many further characters it takes. An
unknown escape stands for itself. A character that is escaped by its name is not looked up. -/
def escapeValue? (bytes : Bool) (c : Char) (rest : List Char) : Option (List Char × Nat) :=
  match c with
  | '\n' => some ([], 0)
  | '\\' => some (['\\'], 0)
  | '\'' => some (['\''], 0)
  | '"' => some (['"'], 0)
  | 'a' => some (['\x07'], 0)
  | 'b' => some (['\x08'], 0)
  | 'f' => some (['\x0c'], 0)
  | 'n' => some (['\n'], 0)
  | 'r' => some (['\r'], 0)
  | 't' => some (['\t'], 0)
  | 'v' => some (['\x0b'], 0)
  | 'x' => hexEscape? 2 rest
  | c =>
    if isOctal c then
      let more := (rest.take 2).takeWhile isOctal
      (charOfCode? ((c :: more).foldl (fun n d => n * 8 + (d.toNat - '0'.toNat)) 0)).map fun d =>
        ([d], more.length)
    else if bytes then some (['\\', c], 0)
    else if c = 'u' then hexEscape? 4 rest
    else if c = 'U' then hexEscape? 8 rest
    else if c = 'N' then
      let name := (rest.drop 1).takeWhile isCharacterName
      if rest.head? = some '\x7b' ∧ name ≠ [] ∧ rest[name.length + 1]? = some '\x7d' then
        some (['\ufffd'], name.length + 2)
      else none
    else some (['\\', c], 0)

def unescape? (bytes : Bool) : List Char → Option (List Char)
  | [] => some []
  | '\\' :: c :: rest =>
    match escapeValue? bytes c rest with
    | some (value, used) => (unescape? bytes (rest.drop used)).map (value ++ ·)
    | none => none
  | c :: rest => (unescape? bytes rest).map (c :: ·)
termination_by cs => cs.length

/-- The text that a literal at the start of a text stands for, and the text after it. -/
def readLiteral? : List Char → Option (List Char × List Char)
  | quote :: rest =>
    if quote = '\'' ∨ quote = '"' then
      let triple := rest.take 2 = [quote, quote]
      match literalBody quote triple (if triple then rest.drop 2 else rest) with
      | some (body, rest) => (unescape? false body).map fun value => (value, rest)
      | none => none
    else none
  | [] => none

end SchemaCompiler
