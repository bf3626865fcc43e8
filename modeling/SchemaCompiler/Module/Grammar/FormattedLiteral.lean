import SchemaCompiler.Module.Grammar.Phrase

/-! The rules of string literals. A formatted one holds fields in braces, each an expression with,
optionally, a conversion and a format, which may hold fields again. -/

namespace SchemaCompiler

namespace Phrase

open Token

/-- Where a character of a field's expression stands: outside of literals, or in one that a quote
closes, or three. -/
inductive FieldPlace where
  | outside
  | quoted (quote : Char)
  | tripleQuoted (quote : Char)
  deriving DecidableEq, Repr

/-- Where the expression of a field ends: the expression and the text after it. There are no escapes
and no comments in it, and its quotes and brackets are closed. What has been read is held in
reverse; each step takes a character, so the length of the text bounds the steps. -/
def splitField : (bound : Nat) → FieldPlace → (brackets done : List Char) → List Char →
    Option (List Char × List Char)
  | 0, _, _, _, _ => none
  | _, _, _, _, [] => none
  | bound + 1, place, brackets, done, c :: rest =>
    if c = '\\' then none
    else match place with
    | .quoted q =>
      splitField bound (if c = q then .outside else place) brackets (c :: done) rest
    | .tripleQuoted q =>
      if c = q ∧ rest.take 2 = [q, q] then
        splitField bound .outside brackets (q :: q :: q :: done) (rest.drop 2)
      else splitField bound place brackets (c :: done) rest
    | .outside =>
      if c = '\'' ∨ c = '"' then
        if rest.take 2 = [c, c] then
          splitField bound (.tripleQuoted c) brackets (c :: c :: c :: done) (rest.drop 2)
        else splitField bound (.quoted c) brackets (c :: done) rest
      else if c = '(' ∨ c = '[' ∨ c = '\x7b' then
        splitField bound .outside (c :: brackets) (c :: done) rest
      else if c = '#' then none
      else if brackets = [] ∧ ['=', '!', '<', '>'].contains c ∧ rest.head? = some '=' then
        splitField bound .outside [] ('=' :: c :: done) rest.tail
      else if brackets = [] ∧ ['!', ':', '\x7d', '='].contains c then some (done.reverse, c :: rest)
      else if c = ')' ∨ c = ']' ∨ c = '\x7d' then
        match brackets with
        | b :: outer =>
          if closing b = c then splitField bound .outside outer (c :: done) rest else none
        | [] => none
      else splitField bound .outside brackets (c :: done) rest

def isFieldBlank (c : Char) : Bool :=
  c = ' ' || ('\x09' ≤ c && c ≤ '\x0d')

/-- Whether characters in parentheses are an expression. -/
def isFieldExpression (derive : Derive) (cs : List Char) : Bool :=
  match ofChars? ('(' :: cs ++ [')']) with
  | some ts =>
    !cs.all isFieldBlank && (derive .starExpressions ts).any fun (_, rest) => rest = [.lineEnd]
  | none => false

/-- The text after the parts of a formatted literal: up to its end, or inside a format up to the
brace that closes the field. Each part takes a character, so the length of the text bounds their
number. -/
def formattedParts (derive : Derive) (raw : Bool) : (bound depth : Nat) → List Char →
    Option (List Char)
  | 0, _, _ => none
  | bound + 1, depth, cs =>
    match cs with
    | [] => if depth = 0 then some [] else none
    | '\\' :: 'N' :: '\x7b' :: rest =>
      if raw then formattedParts derive raw bound depth ('\x7b' :: rest)
      else formattedParts derive raw bound depth ((rest.dropWhile (· ≠ '\x7d')).drop 1)
    | '\\' :: '\\' :: rest => formattedParts derive raw bound depth rest
    | '\x7b' :: rest =>
      if depth = 0 ∧ rest.head? = some '\x7b' then formattedParts derive raw bound depth rest.tail
      else if depth ≥ 2 then none
      else do
        let (field, rest) ← splitField rest.length .outside [] [] rest
        if !isFieldExpression derive field then none
        else
          let rest := match rest with
            | '=' :: rest => rest.dropWhile isFieldBlank
            | rest => rest
          let rest ← match rest with
            | '!' :: c :: rest => if c = 's' ∨ c = 'r' ∨ c = 'a' then some rest else none
            | rest => some rest
          match rest with
          | '\x7d' :: rest => formattedParts derive raw bound depth rest
          | ':' :: rest => do
            let rest ← formattedParts derive raw bound (depth + 1) rest
            formattedParts derive raw bound depth rest
          | _ => none
    | '\x7d' :: rest =>
      if depth > 0 then some rest
      else if rest.head? = some '\x7d' then formattedParts derive raw bound depth rest.tail
      else none
    | _ :: rest => formattedParts derive raw bound depth rest

/-- Literals that follow one another, all of bytes or none. -/
def literalsRule (derive : Derive) (bytes : Option Bool) (ts : List Token) : Derived :=
  match ts with
  | .literal b raw formatted body :: rest =>
    if bytes.any (· ≠ b) then none
    else if formatted && (formattedParts derive raw (body.length + 1) 0 body).isNone then none
    else derive (.literals (some b)) rest
  | ts => some (.value, ts)

end Phrase

end SchemaCompiler
