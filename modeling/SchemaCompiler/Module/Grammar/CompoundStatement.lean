import SchemaCompiler.Module.Grammar.SimpleStatement

/-! The rules of statements that hold blocks of others. -/

namespace SchemaCompiler

namespace Phrase

open Token

def blockRule (derive : Derive) (ts : List Token) : Derived :=
  match ts with
  | .lineEnd :: .indent :: rest => valued do
    let rest ← skip derive .statement rest
    let rest ← skip derive .statements rest
    match rest with
    | .dedent :: rest => some rest
    | _ => none
  | .lineEnd :: _ => none
  | ts => derive .simpleLine ts

def statementsRule (derive : Derive) (ts : List Token) : Derived :=
  match ts with
  | [] => some (.value, [])
  | .dedent :: _ => some (.value, ts)
  | ts => do
    let rest ← skip derive .statement ts
    derive .statements rest

def afterColon (derive : Derive) (ts : List Token) : Option (List Token) := do
  let rest ← afterMark ":" ts
  skip derive .block rest

/-- A word, a colon and a block, if the word is there. -/
def optionalBlock (derive : Derive) (first : String) (ts : List Token) : Option (List Token) :=
  match afterWord first ts with
  | some rest => afterColon derive rest
  | none => some ts

def ifRestRule (derive : Derive) (ts : List Token) : Derived :=
  match afterWord "elif" ts with
  | some rest => do
    let rest ← skip derive .namedExpression rest
    let rest ← afterColon derive rest
    derive .ifRest rest
  | none => valued (optionalBlock derive "else" ts)

/-- The handlers of a try, all for groups or none; they may be followed by other blocks. -/
def handlersRule (derive : Derive) (grouped : Option Bool) (ts : List Token) : Derived :=
  match afterWord "except" ts with
  | some rest => do
    let (group, rest) := match afterMark "*" rest with
      | some rest => (true, rest)
      | none => (false, rest)
    if grouped.any (· ≠ group) then none
    else
      let rest ←
        if startsWithMark ":" rest && !group then some rest
        else do
          let rest ← skip derive .expression rest
          afterAlias rest
      let rest ← afterColon derive rest
      derive (.handlers (some group)) rest
  | none =>
    if grouped.isNone then none
    else valued do
      let rest ← optionalBlock derive "else" ts
      optionalBlock derive "finally" rest

def withItemRule (derive : Derive) (ts : List Token) : Derived := valued do
  let rest ← skip derive .expression ts
  match afterWord "as" rest with
  | some rest => skip derive .target rest
  | none => some rest

def withItemsRule (derive : Derive) (ts : List Token) : Derived := do
  let rest ← skip derive .withItem ts
  match afterMark "," rest with
  | some rest => if startsWithMark ")" rest then some (.value, rest) else derive .withItems rest
  | none => some (.value, rest)

/-- The items of a with and its block. Parentheses around the items are tried first. -/
def withRest (derive : Derive) (ts : List Token) : Option (List Token) :=
  let enclosed := do
    let rest ← afterMark "(" ts
    let rest ← skip derive .withItems rest
    let rest ← afterMark ")" rest
    afterMark ":" rest
  let open_ := do
    let rest ← skip derive .withItems ts
    afterMark ":" rest
  (enclosed <|> open_).bind (skip derive .block)

def forRest (derive : Derive) (ts : List Token) : Option (List Token) := do
  let rest ← skip derive (.targets []) ts
  let rest ← afterWord "in" rest
  let rest ← skip derive .starExpressions rest
  let rest ← afterColon derive rest
  optionalBlock derive "else" rest

def defRest (derive : Derive) (ts : List Token) : Option (List Token) := do
  let rest ← afterName ts
  let rest ← afterMark "(" rest
  let rest ← skip derive (.parameters true ")" {}) rest
  let rest ← afterMark ")" rest
  let rest ← match afterMark "->" rest with
    | some rest => skip derive .expression rest
    | none => some rest
  afterColon derive rest

def classRest (derive : Derive) (ts : List Token) : Option (List Token) := do
  let rest ← afterName ts
  let rest ← match afterMark "(" rest with
    | some rest => skip derive (.arguments .positional false) rest
    | none => some rest
  afterColon derive rest

def compoundRule (derive : Derive) (first : String) (ts : List Token) : Derived :=
  match first with
  | "if" => do
    let rest ← skip derive .namedExpression ts
    let rest ← afterColon derive rest
    derive .ifRest rest
  | "while" => valued do
    let rest ← skip derive .namedExpression ts
    let rest ← afterColon derive rest
    optionalBlock derive "else" rest
  | "for" => valued (forRest derive ts)
  | "with" => valued (withRest derive ts)
  | "def" => valued (defRest derive ts)
  | "class" => valued (classRest derive ts)
  | "try" => do
    let rest ← afterColon derive ts
    match afterWord "finally" rest with
    | some rest => valued (afterColon derive rest)
    | none => derive (.handlers none) rest
  | "async" =>
    match ts with
    | .word w :: rest =>
      if ["for", "with", "def"].contains w then derive (.compound w) rest else none
    | _ => none
  | "@" => do
    let rest ← skip derive .namedExpression ts
    match rest with
    | .lineEnd :: .mark "@" :: rest => derive (.compound "@") rest
    | .lineEnd :: .word "async" :: .word "def" :: rest => derive (.compound "def") rest
    | .lineEnd :: .word w :: rest =>
      if w = "def" ∨ w = "class" then derive (.compound w) rest else none
    | _ => none
  | "match" => valued do
    let rest ← skip derive .starNamed ts
    let rest ← match afterMark "," rest with
      | some rest => skip derive (.elements ":" []) rest
      | none => if startsWithMark "*" ts then none else afterMark ":" rest
    match rest with
    | .lineEnd :: .indent :: rest => skip derive .cases rest
    | _ => none
  | _ => none

def statementRule (derive : Derive) (ts : List Token) : Derived :=
  match ts with
  | .mark "@" :: rest => derive (.compound "@") rest
  | .word "match" :: rest => derive (.compound "match") rest <|> derive .simpleLine ts
  | .word w :: rest =>
    if ["if", "while", "for", "with", "def", "class", "try", "async"].contains w then
      derive (.compound w) rest
    else derive .simpleLine ts
  | ts => derive .simpleLine ts

end Phrase

end SchemaCompiler
