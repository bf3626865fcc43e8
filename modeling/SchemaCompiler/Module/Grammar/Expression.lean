import SchemaCompiler.Module.Grammar.Phrase

/-! The rules of expressions: operators, calls, subscripts, lists, tables and comprehensions, and
the parameters of functions. -/

namespace SchemaCompiler

namespace Phrase

open Token

def expressionRule (derive : Derive) (ts : List Token) : Derived :=
  match afterWord "lambda" ts with
  | some rest => valued do
    let rest ← skip derive (.parameters false ":" {}) rest
    let rest ← afterMark ":" rest
    skip derive .expression rest
  | none => do
    let (role, rest) ← derive .disjunction ts
    match afterWord "if" rest with
    | some rest => valued do
      let rest ← skip derive .disjunction rest
      let rest ← afterWord "else" rest
      skip derive .expression rest
    | none => some (role, rest)

def namedExpressionRule (derive : Derive) (ts : List Token) : Derived :=
  match (afterName ts).bind (afterMark ":=") with
  | some rest => valued (skip derive .expression rest)
  | none => derive .expression ts

def inversionRule (derive : Derive) (ts : List Token) : Derived :=
  match afterWord "not" ts with
  | some rest => valued (skip derive .inversion rest)
  | none => derive .comparison ts

def operandRule (derive : Derive) (ts : List Token) : Derived :=
  match ts with
  | .mark "+" :: rest => valued (skip derive .operand rest)
  | .mark "-" :: rest => valued (skip derive .operand rest)
  | .mark "~" :: rest => valued (skip derive .operand rest)
  | ts => derive .primary ts

def primaryRule (derive : Derive) (ts : List Token) : Derived :=
  match afterWord "await" ts with
  | some rest => valued do
    let (role, rest) ← derive .atom rest
    skip derive (.trailers role) rest
  | none => do
    let (role, rest) ← derive .atom ts
    derive (.trailers role) rest

def trailersRule (derive : Derive) (role : Role) (ts : List Token) : Derived :=
  match ts with
  | .mark "." :: rest => do
    let rest ← afterName rest
    derive (.trailers .place) rest
  | .mark "(" :: rest => do
    let rest ← skip derive (.arguments .positional true) rest
    derive (.trailers .value) rest
  | .mark "[" :: rest => do
    let rest ← skip derive .slices rest
    derive (.trailers .place) rest
  | ts => some (role, ts)

def atomRule (derive : Derive) (ts : List Token) : Derived :=
  match ts with
  | .word w :: rest =>
    if ["None", "True", "False"].contains w then some (.value, rest)
    else if keywords.contains w then none
    else some (.name, rest)
  | .number _ :: rest => some (.value, rest)
  | .literal .. :: _ => derive (.literals none) ts
  | .mark "..." :: rest => some (.value, rest)
  | .mark "(" :: rest => derive .parenthesized rest
  | .mark "[" :: rest => derive .bracketed rest
  | .mark "\x7b" :: rest => derive .braced rest
  | _ => none

/-- An expression with or without a star; `plain` is what stands there without one. -/
def starRule (derive : Derive) (plain : Phrase) (ts : List Token) : Derived :=
  match afterMark "*" ts with
  | some rest => do
    let (role, rest) ← derive .sum rest
    some (if role.isTarget then .starred else .value, rest)
  | none => derive plain ts

/-- Expressions separated by commas, up to a token that starts none. -/
def starExpressionsRule (derive : Derive) (ts : List Token) : Derived := do
  let (role, rest) ← derive .starExpression ts
  match afterMark "," rest with
  | none => some (role, rest)
  | some rest =>
    if startsExpression rest then
      let (others, rest) ← derive .starExpressions rest
      -- the roles of the expressions further on are those of a list already
      some (match others with
        | .sequence starred =>
          if role.isTarget then .sequence (starred || role = .starred || role = .sequence true)
          else .value
        | other => Role.ofList [role, other], rest)
    else some (Role.ofList [role], rest)

def elementsRule (derive : Derive) (close : String) (roles : List Role) (ts : List Token) :
    Derived :=
  match afterMark close ts with
  | some rest => some (Role.ofList roles, rest)
  | none => do
    let (role, rest) ← derive .starNamed ts
    match afterMark "," rest with
    | some rest => derive (.elements close (role :: roles)) rest
    | none => do
      let rest ← afterMark close rest
      some (Role.ofList (role :: roles), rest)

def startsClause (ts : List Token) : Bool :=
  startsWithWord "for" ts || startsWithWord "async" ts

def parenthesizedRule (derive : Derive) (ts : List Token) : Derived :=
  if startsWithMark ")" ts then derive (.elements ")" []) ts
  else if startsWithWord "yield" ts then valued do
    let rest ← skip derive .yielded ts
    afterMark ")" rest
  else do
    let starred := startsWithMark "*" ts
    let (role, rest) ← derive .starNamed ts
    match afterMark "," rest with
    | some rest => derive (.elements ")" [role]) rest
    | none =>
      if starred then none
      else if startsClause rest then valued do
        let rest ← skip derive .clauses rest
        afterMark ")" rest
      else do
        let rest ← afterMark ")" rest
        some (role.inParentheses, rest)

def bracketedRule (derive : Derive) (ts : List Token) : Derived :=
  if startsWithMark "]" ts then derive (.elements "]" []) ts
  else do
    let starred := startsWithMark "*" ts
    let (role, rest) ← derive .starNamed ts
    match afterMark "," rest with
    | some rest => derive (.elements "]" [role]) rest
    | none =>
      if startsClause rest && !starred then valued do
        let rest ← skip derive .clauses rest
        afterMark "]" rest
      else do
        let rest ← afterMark "]" rest
        some (Role.ofList [role], rest)

/-- After the opening brace of a table or a set. -/
def bracedRule (derive : Derive) (ts : List Token) : Derived :=
  if startsWithMark "\x7d" ts || startsWithMark "**" ts then derive .tableItems ts
  else do
    let starred := startsWithMark "*" ts
    let (_, rest) ← derive .starNamed ts
    if startsWithMark ":" rest && !starred then
      let rest ← skip derive .tableItem ts
      if startsClause rest then valued do
        let rest ← skip derive .clauses rest
        afterMark "\x7d" rest
      else match afterMark "," rest with
        | some rest => derive .tableItems rest
        | none => valued (afterMark "\x7d" rest)
    else if startsClause rest && !starred then valued do
      let rest ← skip derive .clauses rest
      afterMark "\x7d" rest
    else match afterMark "," rest with
      | some rest => derive .setItems rest
      | none => valued (afterMark "\x7d" rest)

def tableItemRule (derive : Derive) (ts : List Token) : Derived := valued do
  match afterMark "**" ts with
  | some rest => skip derive .sum rest
  | none =>
    let rest ← skip derive .expression ts
    let rest ← afterMark ":" rest
    skip derive .expression rest

def itemsRule (derive : Derive) (item again : Phrase) (ts : List Token) : Derived :=
  match afterMark "\x7d" ts with
  | some rest => some (.value, rest)
  | none => do
    let rest ← skip derive item ts
    match afterMark "," rest with
    | some rest => derive again rest
    | none => valued (afterMark "\x7d" rest)

/-- The conditions of a comprehension. Each takes a token, so their number is bounded. -/
def conditions (derive : Derive) : (bound : Nat) → List Token → Option (List Token)
  | 0, ts => some ts
  | bound + 1, ts =>
    match afterWord "if" ts with
    | some rest => do
      let rest ← skip derive .disjunction rest
      conditions derive bound rest
    | none => some ts

def clausesRule (derive : Derive) (ts : List Token) : Derived := valued do
  let ts := (afterWord "async" ts).getD ts
  let rest ← afterWord "for" ts
  let rest ← skip derive (.targets []) rest
  let rest ← afterWord "in" rest
  let rest ← skip derive .disjunction rest
  let rest ← conditions derive rest.length rest
  if startsClause rest then skip derive .clauses rest else some rest

def targetRule (derive : Derive) (ts : List Token) : Derived := do
  let (starred, ts) := match afterMark "*" ts with
    | some rest => (true, rest)
    | none => (false, ts)
  let (role, rest) ← derive .primary ts
  if role.isTarget then some (if starred then .starred else role, rest) else none

def targetsRule (derive : Derive) (roles : List Role) (ts : List Token) : Derived := do
  let (role, rest) ← derive .target ts
  match afterMark "," rest with
  | some rest =>
    if startsExpression rest then derive (.targets (role :: roles)) rest
    else some (Role.ofList (role :: roles), rest)
  | none => some (if roles = [] then role else Role.ofList (role :: roles), rest)

def nextArgument (derive : Derive) (phase : ArgumentPhase) (ts : List Token) : Derived :=
  match afterMark "," ts with
  | some rest => derive (.arguments phase false) rest
  | none => valued (afterMark ")" ts)

/-- The arguments of a call up to its closing bracket. A comprehension has to be the only one. -/
def argumentsRule (derive : Derive) (phase : ArgumentPhase) (first : Bool) (ts : List Token) :
    Derived :=
  match afterMark ")" ts, afterMark "**" ts, afterMark "*" ts with
  | some rest, _, _ => some (.value, rest)
  | _, some rest, _ => do
    let rest ← skip derive .expression rest
    nextArgument derive .table rest
  | _, _, some rest =>
    if phase = .table then none
    else do
      let rest ← skip derive .expression rest
      nextArgument derive phase rest
  | _, _, _ =>
    match (afterName ts).bind (afterMark "=") with
    | some rest => do
      let rest ← skip derive .expression rest
      nextArgument derive (if phase = .table then .table else .named) rest
    | none =>
      if phase ≠ .positional then none
      else do
        let rest ← skip derive .namedExpression ts
        if startsClause rest then
          if first then valued do
            let rest ← skip derive .clauses rest
            afterMark ")" rest
          else none
        else nextArgument derive phase rest

/-- An expression that may be left out in front of a delimiter. -/
def optionalExpression (derive : Derive) (ts : List Token) : Option (List Token) :=
  if startsWithMark ":" ts || startsWithMark "," ts || startsWithMark "]" ts then some ts
  else skip derive .expression ts

def sliceRule (derive : Derive) (ts : List Token) : Derived := valued do
  if startsWithMark "*" ts then skip derive .starExpression ts
  else
    let rest ← if startsWithMark ":" ts then some ts else skip derive .namedExpression ts
    match afterMark ":" rest with
    | none => some rest
    | some rest =>
      let rest ← optionalExpression derive rest
      match afterMark ":" rest with
      | some rest => optionalExpression derive rest
      | none => some rest

/-- The slices of a subscript up to its closing bracket, of which there is one at least. -/
def slicesRule (derive : Derive) (ts : List Token) : Derived := do
  let rest ← skip derive .slice ts
  match afterMark "," rest with
  | some rest =>
    match afterMark "]" rest with
    | some rest => some (.value, rest)
    | none => derive .slices rest
  | none => valued (afterMark "]" rest)

def typeHintRule (derive : Derive) (starred : Bool) (ts : List Token) : Derived :=
  match afterMark ":" ts with
  | none => some (.value, ts)
  | some rest =>
    if starred && startsWithMark "*" rest then valued (skip derive .starExpression rest)
    else valued (skip derive .expression rest)

/-- The tokens after a parameter's name and its annotation, if it may have one. -/
def afterParameter (derive : Derive) (annotated starred : Bool) (ts : List Token) :
    Option (List Token) := do
  let rest ← afterName ts
  if annotated then skip derive (.typeHint starred) rest else some rest

def parametersRule (derive : Derive) (annotated : Bool) (close : String) (state : ParameterState)
    (ts : List Token) : Derived :=
  let next (state : ParameterState) (ts : List Token) : Derived :=
    match afterMark "," ts with
    | some rest => derive (.parameters annotated close state) rest
    | none => if startsWithMark close ts && !state.bare then some (.value, ts) else none
  if startsWithMark close ts then if state.bare then none else some (.value, ts)
  else match afterMark "/" ts, afterMark "**" ts, afterMark "*" ts with
    | some rest, _, _ =>
      if state.any && !state.slash && !state.star then next { state with slash := true } rest
      else none
    | _, some rest, _ => do
      let rest ← afterParameter derive annotated false rest
      let rest := (afterMark "," rest).getD rest
      if startsWithMark close rest && !state.bare then some (.value, rest) else none
    | _, _, some rest =>
      if state.star then none
      else if startsWithMark "," rest then next { state with star := true, bare := true } rest
      else do
        let rest ← afterParameter derive annotated true rest
        next { state with star := true } rest
    | _, _, _ => do
      let rest ← afterParameter derive annotated false ts
      match afterMark "=" rest with
      | some rest =>
        let rest ← skip derive .expression rest
        next { state with any := true, bare := false, defaulted := true } rest
      | none =>
        if state.defaulted && !state.star then none
        else next { state with any := true, bare := false } rest

def yieldedRule (derive : Derive) (ts : List Token) : Derived := valued do
  let rest ← afterWord "yield" ts
  match afterWord "from" rest with
  | some rest => skip derive .expression rest
  | none => if startsExpression rest then skip derive .starExpressions rest else some rest

def rightSide (derive : Derive) (ts : List Token) : Derived :=
  if startsWithWord "yield" ts then derive .yielded ts else derive .starExpressions ts

end Phrase

end SchemaCompiler
