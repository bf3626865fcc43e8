import SchemaCompiler.Module.Grammar.CompoundStatement

/-! The rules of the cases of a match and of their patterns. -/

namespace SchemaCompiler

namespace Phrase

open Token

def casesRule (derive : Derive) (ts : List Token) : Derived := valued do
  let rest ← afterWord "case" ts
  let rest ← skip derive (.patterns true) rest
  let rest ← match afterWord "if" rest with
    | some rest => skip derive .namedExpression rest
    | none => some rest
  let rest ← afterColon derive rest
  match rest with
  | .dedent :: rest => some rest
  | rest => skip derive .cases rest

/-- A pattern, or patterns separated by commas. A starred one cannot be the only one. -/
def patternsRule (derive : Derive) (first : Bool) (ts : List Token) : Derived := do
  let starred := first && startsWithMark "*" ts
  let rest ← match afterMark "*" ts with
    | some rest => afterName rest
    | none => skip derive .pattern ts
  match afterMark "," rest with
  | some rest =>
    if startsWithMark ":" rest || startsWithWord "if" rest then some (.value, rest)
    else derive (.patterns false) rest
  | none => if starred then none else some (.value, rest)

/-- A pattern with its alternatives and the name that it binds, which is not the blank one. -/
def patternRule (derive : Derive) (ts : List Token) : Derived := valued do
  let rest ← skip derive .closedPattern ts
  match afterMark "|" rest with
  | some rest => skip derive .pattern rest
  | none => if (afterWord "as" rest).any (startsWithWord "_") then none else afterAlias rest

/-- A number with its sign, or the sum of a real and an imaginary one. -/
def numberPattern (ts : List Token) : Option (List Token) :=
  let ts := (afterMark "-" ts).getD ts
  match ts with
  | .number false :: .mark "+" :: .number true :: rest => some rest
  | .number false :: .mark "-" :: .number true :: rest => some rest
  | .number _ :: .mark "+" :: _ => none
  | .number _ :: .mark "-" :: _ => none
  | .number _ :: rest => some rest
  | _ => none

def closedPatternRule (derive : Derive) (ts : List Token) : Derived :=
  match ts with
  | .mark "(" :: rest => derive (.sequencePattern ")" true) rest
  | .mark "[" :: rest => derive (.sequencePattern "]" true) rest
  | .mark "\x7b" :: rest => derive .tablePattern rest
  | .literal .. :: _ => derive (.literals none) ts
  | .word w :: rest =>
    if ["None", "True", "False"].contains w then some (.value, rest)
    else do
      let rest ← skip derive .dottedName ts
      match afterMark "(" rest with
      | some rest => derive (.classPattern false) rest
      | none => some (.value, rest)
  | ts => valued (numberPattern ts)

/-- Patterns up to a bracket that closes them. Between parentheses a starred one cannot be the only
one. -/
def sequencePatternRule (derive : Derive) (close : String) (first : Bool) (ts : List Token) :
    Derived :=
  match afterMark close ts with
  | some rest => some (.value, rest)
  | none => do
    let rest ← match afterMark "*" ts with
      | some rest => afterName rest
      | none => skip derive .pattern ts
    match afterMark "," rest with
    | some rest => derive (.sequencePattern close false) rest
    | none =>
      if first && close = ")" && startsWithMark "*" ts then none
      else valued (afterMark close rest)

/-- The key of an item: a literal, a number, or a name with dots. -/
def keyPattern (derive : Derive) (ts : List Token) : Option (List Token) :=
  match ts with
  | .literal .. :: _ => skip derive (.literals none) ts
  | .word w :: rest =>
    if ["None", "True", "False"].contains w then some rest
    else if startsWithMark "." rest then skip derive .dottedName ts
    else none
  | ts => numberPattern ts

/-- The items of a table up to its closing brace. One for all other items is the last. -/
def tablePatternRule (derive : Derive) (ts : List Token) : Derived :=
  match afterMark "\x7d" ts, afterMark "**" ts with
  | some rest, _ => some (.value, rest)
  | none, some rest => valued do
    let rest ← afterName rest
    afterMark "\x7d" ((afterMark "," rest).getD rest)
  | none, none => do
    let rest ← keyPattern derive ts
    let rest ← afterMark ":" rest
    let rest ← skip derive .pattern rest
    match afterMark "," rest with
    | some rest => derive .tablePattern rest
    | none => valued (afterMark "\x7d" rest)

/-- The arguments of a class up to the closing parenthesis, the named ones last. -/
def classPatternRule (derive : Derive) (named : Bool) (ts : List Token) : Derived :=
  match afterMark ")" ts with
  | some rest => some (.value, rest)
  | none => do
    let (named, rest) ← match (afterName ts).bind (afterMark "=") with
      | some rest => (skip derive .pattern rest).map fun rest => (true, rest)
      | none => if named then none else (skip derive .pattern ts).map fun rest => (false, rest)
    match afterMark "," rest with
    | some rest => derive (.classPattern named) rest
    | none => valued (afterMark ")" rest)

end Phrase

end SchemaCompiler
