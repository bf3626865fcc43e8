import SchemaCompiler.Module.Identifier
import SchemaCompiler.Module.StringLiteral
import SchemaCompiler.Text.IdentifierTable
import SchemaCompiler.Text.Basic

/-! The tokens of module texts. The ends of lines outside brackets are tokens, and so are the
changes of indentation between them; blanks, comments and blank lines are not. -/

namespace SchemaCompiler

inductive Token where
  /-- An identifier or a keyword. -/
  | word (name : String)
  | number (imaginary : Bool)
  /-- A string literal; one that is formatted holds expressions. -/
  | literal (bytes raw formatted : Bool) (body : List Char)
  /-- An operator or a delimiter. -/
  | mark (text : String)
  | lineEnd
  | indent
  | dedent
  deriving DecidableEq, Repr, Inhabited

namespace Token

def isWordChar (c : Char) : Bool :=
  c.isAlphanum || c = '_' || c.toNat ≥ 0x80

/-- Whether a character that may stand in a word may stand in an identifier, or start one. -/
def isIdentifierChar (first : Bool) (c : Char) : Bool :=
  if c.toNat < 0x80 then !first || !c.isDigit
  else identifierStartRanges.has c || (!first && identifierExtendRanges.has c)

def isIdentifier : List Char → Bool
  | [] => false
  | c :: rest => isIdentifierChar true c && rest.all (isIdentifierChar false)

/-- The operators and delimiters, longer ones first. -/
def marks : List (List Char) :=
  (["**=", "//=", "<<=", ">>=", "...", "**", "//", "<<", ">>", "<=", ">=", "==", "!=", "->", "+=",
    "-=", "*=", "/=", "%=", "&=", "|=", "^=", "@=", ":=", "+", "-", "*", "/", "%", "@", "&", "|",
    "^", "~", "<", ">", "(", ")", "[", "]", "\x7b", "\x7d", ",", ":", ".", ";", "="]).map
    String.toList

def mark? (s : List Char) : Option (List Char) :=
  marks.find? fun m => m.isPrefixOf s

/-- Takes digits; single underscores may stand between them, and in front if `after` holds. The
result is absent when an underscore is not followed by a digit. -/
def digitRun (isDigit : Char → Bool) : List Char → Option (List Char)
  | '_' :: c :: rest => if isDigit c then digitRun isDigit rest else none
  | ['_'] => none
  | c :: rest => if isDigit c then digitRun isDigit rest else some (c :: rest)
  | [] => some []

def basedDigits (isDigit : Char → Bool) (rest : List Char) : Option (List Char) :=
  match rest with
  | '_' :: c :: more => if isDigit c then digitRun isDigit more else none
  | c :: more => if isDigit c then digitRun isDigit more else none
  | [] => none

/-- The words that may follow a number without a blank. -/
def wordsAfterNumber : List (List Char) :=
  (["and", "else", "for", "if", "in", "is", "or", "not"]).map String.toList

/-- The text after a number, unless a word goes on there. -/
def afterNumber (rest : List Char) : Option (List Char) :=
  if wordsAfterNumber.any fun w => w.isPrefixOf rest then some rest
  else if rest.head?.any isWordChar then none
  else some rest

def skipExponent (rest : List Char) : Option (List Char) :=
  match rest with
  | e :: more =>
    if e = 'e' ∨ e = 'E' then
      match more with
      | c :: d :: tail =>
        if c.isDigit then digitRun Char.isDigit (d :: tail)
        else if c = '+' ∨ c = '-' then if d.isDigit then digitRun Char.isDigit tail else none
        else some rest
      | [c] => if c.isDigit then some [] else if c = '+' ∨ c = '-' then none else some rest
      | [] => some rest
    else some rest
  | [] => some rest

def skipImaginary : List Char → List Char
  | 'j' :: rest => rest
  | 'J' :: rest => rest
  | rest => rest

def skipFraction (rest : List Char) : Option (List Char) := do
  let rest ← match rest with
    | '.' :: c :: more => if c.isDigit then digitRun Char.isDigit more else some (c :: more)
    | ['.'] => some []
    | rest => some rest
  let rest ← skipExponent rest
  afterNumber (skipImaginary rest)

def hasFraction (rest : List Char) : Bool :=
  rest.head?.any fun c => c = '.' || c = 'e' || c = 'E' || c = 'j' || c = 'J'

/-- The text after the number at the start of a text. A number that starts with a zero is zero,
unless it has a fraction. -/
def skipNumber (s : List Char) : Option (List Char) :=
  match s with
  | '0' :: c :: rest =>
    if c = 'x' ∨ c = 'X' then
      (basedDigits (fun d => (Json.hexValue? d).isSome) rest).bind afterNumber
    else if c = 'o' ∨ c = 'O' then (basedDigits isOctal rest).bind afterNumber
    else if c = 'b' ∨ c = 'B' then
      (basedDigits (fun d => d = '0' || d = '1') rest).bind afterNumber
    else do
      let after ← digitRun Char.isDigit (c :: rest)
      let digits := (c :: rest).take (rest.length + 1 - after.length)
      if (digits.all fun d => d = '0' || d = '_') ∨ hasFraction after then skipFraction after
      else none
  | '.' :: rest => skipFraction ('.' :: rest)
  | s => (digitRun Char.isDigit s).bind skipFraction

def literalLetters : List (List Char) :=
  (["", "b", "r", "u", "f", "br", "rb", "fr", "rf"]).map String.toList

def literal? (letters : List Char) (quote : Char) (rest : List Char) :
    Option (Token × List Char) :=
  let letters := letters.map Char.toLower
  let triple := rest.take 2 = [quote, quote]
  let bytes := letters.contains 'b'
  match literalBody quote triple (if triple then rest.drop 2 else rest) with
  | some (body, rest) =>
    let raw := letters.contains 'r'
    let plain := !bytes || body.all fun c => c.toNat < 0x80
    let sound := raw || (unescape? bytes body).isSome
    if plain ∧ sound then some (.literal bytes raw (letters.contains 'f') body, rest) else none
  | none => none

def opensLiteral (letters : List Char) (c : Char) : Bool :=
  (c = '\'' || c = '"') && literalLetters.contains (letters.map Char.toLower)

/-- The number at the start of a text. The last character of an imaginary one says so. -/
def number? (s : List Char) : Option (Token × List Char) :=
  (skipNumber s).map fun rest =>
    let last := s[s.length - rest.length - 1]?
    (.number (last = some 'j' || last = some 'J'), rest)

/-- The token at the start of a text, which is no blank and no comment. -/
def next? (s : List Char) : Option (Token × List Char) :=
  let word := s.takeWhile isWordChar
  match s.dropWhile isWordChar with
  | quote :: rest =>
    if opensLiteral word quote then literal? word quote rest
    else plain word (quote :: rest)
  | [] => plain word []
where
  /-- The token at the start of a text that starts with no literal. -/
  plain (word rest : List Char) : Option (Token × List Char) :=
    match word with
    | [] =>
      if rest.head? = some '.' ∧ (rest.drop 1).head?.any Char.isDigit then
        number? rest
      else (mark? rest).map fun m => (.mark (String.ofList m), rest.drop m.length)
    | c :: _ =>
      if c.isDigit then number? (word ++ rest)
      else if isIdentifier word then some (.word (String.ofList word), rest)
      else none

/-- The width of an indentation, a tab going on to the next multiple of eight columns and, in the
second measure, counting as one. Where a line goes on in the next one before anything stands in it,
the width of the first such line is `held`, and counts if it is not zero. -/
def indentation : (width narrow held : Nat) → List Char → Nat × Nat × List Char
  | width, narrow, held, ' ' :: rest => indentation (width + 1) (narrow + 1) held rest
  | width, narrow, held, '\t' :: rest => indentation ((width / 8 + 1) * 8) (narrow + 1) held rest
  | _, _, held, '\x0c' :: rest => indentation 0 0 held rest
  | width, narrow, held, '\\' :: '\n' :: c :: rest =>
    indentation width narrow (if held = 0 then width else held) (c :: rest)
  | width, narrow, held, rest =>
    if held = 0 then (width, narrow, rest) else (held, held, rest)

def closeIndents (width : Nat) : List (Nat × Nat) → List (Nat × Nat) × List Token
  | [] => ([], [])
  | (w, n) :: outer =>
    if width < w then
      let (indents, tokens) := closeIndents width outer
      (indents, .dedent :: tokens)
    else ((w, n) :: outer, [])

/-- The open indentations at the start of a line and the tokens of the change. Both measures have to
tell the same. -/
def changeIndent (width narrow : Nat) (indents : List (Nat × Nat)) :
    Option (List (Nat × Nat) × List Token) :=
  let (w, n) := indents.head?.getD (0, 0)
  if width = w then if narrow = n then some (indents, []) else none
  else if width > w then
    if narrow > n then some ((width, narrow) :: indents, [.indent]) else none
  else
    let (indents, tokens) := closeIndents width indents
    if indents.head?.getD (0, 0) = (width, narrow) then some (indents, tokens) else none

def closing : Char → Char
  | '(' => ')'
  | '[' => ']'
  | _ => '\x7d'

/-- The open brackets after a token. A closing one has to belong to the last that is open. -/
def changeBrackets (brackets : List Char) : Token → Option (List Char)
  | .mark m =>
    match m.toList with
    | [c] =>
      if c = '(' ∨ c = '[' ∨ c = '\x7b' then some (c :: brackets)
      else if c = ')' ∨ c = ']' ∨ c = '\x7d' then
        match brackets with
        | b :: outer => if closing b = c then some outer else none
        | [] => none
      else some brackets
    | _ => some brackets
  | _ => some brackets

/-- Appends the tokens of a text, from the start or the middle of a line on, to those before it,
which are held in reverse. Each step takes a character or moves from the start of a line into it, so
twice the length of the text bounds the steps. -/
def scan : (bound : Nat) → (atStart : Bool) → (indents : List (Nat × Nat)) →
    (brackets : List Char) → (done : List Token) → List Char → Option (List Token)
  | 0, _, _, _, _, _ => none
  | bound + 1, true, indents, brackets, done, s =>
    let (width, narrow, rest) := indentation 0 0 0 s
    match rest with
    | [] => some (done.reverse ++ indents.map fun _ => .dedent)
    | '#' :: rest => scan bound true indents brackets done ((rest.dropWhile (· ≠ '\n')).drop 1)
    | '\n' :: rest => scan bound true indents brackets done rest
    | rest =>
      match changeIndent width narrow indents with
      | some (indents, tokens) => scan bound false indents brackets (tokens.reverse ++ done) rest
      | none => none
  | bound + 1, false, indents, brackets, done, s =>
    match s with
    | [] =>
      if brackets = [] then some (done.reverse ++ .lineEnd :: indents.map fun _ => .dedent)
      else none
    | '\n' :: rest =>
      if brackets = [] then scan bound true indents brackets (.lineEnd :: done) rest
      else scan bound false indents brackets done rest
    | '#' :: rest => scan bound false indents brackets done (rest.dropWhile (· ≠ '\n'))
    | '\\' :: rest =>
      match rest with
      | '\n' :: c :: rest => scan bound false indents brackets done (c :: rest)
      | _ => none
    | c :: rest =>
      if c = ' ' ∨ c = '\t' ∨ c = '\x0c' then scan bound false indents brackets done rest
      else match next? (c :: rest) with
        | some (token, rest) =>
          match changeBrackets brackets token with
          | some brackets => scan bound false indents brackets (token :: done) rest
          | none => none
        | none => none

def ofChars? (cs : List Char) : Option (List Token) :=
  let cs := unifyLineEnds cs
  if cs.contains '\x00' then none else scan (2 * cs.length + 2) true [] [] [] cs

end Token

end SchemaCompiler
