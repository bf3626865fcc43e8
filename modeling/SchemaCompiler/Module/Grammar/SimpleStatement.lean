import SchemaCompiler.Module.Grammar.Expression

/-! The rules of statements on one line: expressions, assignments, imports and those that start with
a word of their own. -/

namespace SchemaCompiler

namespace Phrase

open Token

def simpleLineRule (derive : Derive) (ts : List Token) : Derived := valued do
  let rest ← skip derive .simple ts
  match rest with
  | .mark ";" :: .lineEnd :: rest => some rest
  | .mark ";" :: rest => skip derive .simpleLine rest
  | .lineEnd :: rest => some rest
  | _ => none

/-- The right side of an assignment, which may be the left side of a further one. -/
def assignedRule (derive : Derive) (role : Role) (ts : List Token) : Derived :=
  match afterMark "=" ts with
  | some rest =>
    if role.isTarget then do
      let yields := startsWithWord "yield" rest
      let (role, rest) ← rightSide derive rest
      derive (.assigned (if yields then .value else role)) rest
    else none
  | none => some (.value, ts)

def expressionStatement (derive : Derive) (ts : List Token) : Derived := do
  let (role, rest) ← rightSide derive ts
  match afterAugmented rest, afterMark ":" rest with
  | some rest, _ => if role.isSingle then valued ((rightSide derive rest).map (·.2)) else none
  | none, some rest =>
    if role.isSingle then valued do
      let rest ← skip derive .expression rest
      match afterMark "=" rest with
      | some rest => (rightSide derive rest).map (·.2)
      | none => some rest
    else none
  | none, none => derive (.assigned role) rest

/-- The words of an import of names from a module, after its first word. -/
def importFrom (derive : Derive) (ts : List Token) : Option (List Token) := do
  let isDots : Token → Bool := fun t => t = .mark "." || t = .mark "..."
  let dots := ts.takeWhile isDots
  let rest := ts.dropWhile isDots
  let rest ←
    if !dots.isEmpty && startsWithWord "import" rest then some rest
    else skip derive .dottedName rest
  let rest ← afterWord "import" rest
  match afterMark "*" rest, afterMark "(" rest with
  | some rest, _ => some rest
  | _, some rest => skip derive (.importNames (some ")")) rest
  | _, _ => skip derive (.importNames none) rest

def simpleRule (derive : Derive) (ts : List Token) : Derived :=
  match ts with
  | .word "pass" :: rest => some (.value, rest)
  | .word "break" :: rest => some (.value, rest)
  | .word "continue" :: rest => some (.value, rest)
  | .word "return" :: rest =>
    if startsExpression rest then valued (skip derive .starExpressions rest)
    else some (.value, rest)
  | .word "raise" :: rest =>
    if startsExpression rest then valued do
      let rest ← skip derive .expression rest
      match afterWord "from" rest with
      | some rest => skip derive .expression rest
      | none => some rest
    else some (.value, rest)
  | .word "assert" :: rest => valued do
    let rest ← skip derive .expression rest
    match afterMark "," rest with
    | some rest => skip derive .expression rest
    | none => some rest
  | .word "global" :: rest => derive .nameList rest
  | .word "nonlocal" :: rest => derive .nameList rest
  | .word "del" :: rest => do
    let (role, rest) ← derive (.targets []) rest
    if role.canDelete then some (.value, rest) else none
  | .word "import" :: rest => derive .importItems rest
  | .word "from" :: rest => valued (importFrom derive rest)
  | ts => expressionStatement derive ts

def dottedNameRule (derive : Derive) (ts : List Token) : Derived := do
  let rest ← afterName ts
  match afterMark "." rest with
  | some rest => derive .dottedName rest
  | none => some (.value, rest)

/-- The tokens after a further name for what is imported. -/
def afterAlias (ts : List Token) : Option (List Token) :=
  match afterWord "as" ts with
  | some rest => afterName rest
  | none => some ts

def importItemsRule (derive : Derive) (ts : List Token) : Derived := do
  let rest ← skip derive .dottedName ts
  let rest ← afterAlias rest
  match afterMark "," rest with
  | some rest => derive .importItems rest
  | none => some (.value, rest)

/-- Imported names; between brackets a comma may follow the last. -/
def importNamesRule (derive : Derive) (close : Option String) (ts : List Token) : Derived := do
  let rest ← afterName ts
  let rest ← afterAlias rest
  match afterMark "," rest, close with
  | none, none => some (.value, rest)
  | none, some close => valued (afterMark close rest)
  | some rest, none => derive (.importNames none) rest
  | some rest, some close =>
    match afterMark close rest with
    | some rest => some (.value, rest)
    | none => derive (.importNames (some close)) rest

def nameListRule (derive : Derive) (ts : List Token) : Derived := do
  let rest ← afterName ts
  match afterMark "," rest with
  | some rest => derive .nameList rest
  | none => some (.value, rest)

end Phrase

end SchemaCompiler
