import SchemaCompiler.Module.Token

/-! The phrases of module texts. What an expression may be used for besides its value is told by its
role, because an assignment and its like admit only some expressions on their left. The rule of a
phrase is given how the phrases inside it are derived. -/

namespace SchemaCompiler

inductive Role where
  | value
  | name
  /-- An attribute or a subscript. -/
  | place
  /-- A name or a place in parentheses. -/
  | enclosed
  /-- A list of targets, with or without a starred one in it. -/
  | sequence (starred : Bool)
  /-- A starred target. -/
  | starred
  deriving DecidableEq, Repr, Inhabited

namespace Role

def isTarget (r : Role) : Bool :=
  r ≠ .value

/-- Whether it can be assigned to by itself only. -/
def isSingle (r : Role) : Bool :=
  r = .name || r = .place || r = .enclosed

def canDelete (r : Role) : Bool :=
  r.isSingle || r = .sequence false

def inParentheses : Role → Role
  | .name => .enclosed
  | .place => .enclosed
  | r => r

def ofList (roles : List Role) : Role :=
  if roles.all isTarget then .sequence (roles.any fun r => r = .starred || r = .sequence true)
  else .value

end Role

/-- Where an argument stands in a call: a positional one, a named one, or one after a table. -/
inductive ArgumentPhase where
  | positional
  | named
  | table
  deriving DecidableEq, Repr, Inhabited

structure ParameterState where
  any : Bool := false
  slash : Bool := false
  star : Bool := false
  /-- A star by itself, after which a parameter has to follow. -/
  bare : Bool := false
  defaulted : Bool := false
  deriving DecidableEq, Repr, Inhabited

inductive Phrase where
  | expression
  | namedExpression
  | disjunction
  | inversion
  | comparison
  | sum
  | operand
  | primary
  | atom
  | trailers (role : Role)
  | starExpression
  | starNamed
  | starExpressions
  /-- Further elements after a comma, up to a bracket that closes them. -/
  | elements (close : String) (roles : List Role)
  | parenthesized
  | bracketed
  | braced
  | tableItems
  | tableItem
  | setItems
  | clauses
  | targets (roles : List Role)
  | target
  | arguments (phase : ArgumentPhase) (first : Bool)
  | slices
  | slice
  | parameters (annotated : Bool) (close : String) (state : ParameterState)
  | typeHint (starred : Bool)
  | yielded
  | literals (bytes : Option Bool)
  | simpleLine
  | simple
  | assigned (role : Role)
  | dottedName
  | importItems
  | importNames (close : Option String)
  | nameList
  | block
  | statements
  | statement
  /-- A compound statement after its first word. -/
  | compound (first : String)
  | ifRest
  | handlers (grouped : Option Bool)
  | withItems
  | withItem
  | cases
  | patterns (first : Bool)
  | pattern
  | closedPattern
  | sequencePattern (close : String) (first : Bool)
  | tablePattern
  | classPattern (named : Bool)
  deriving DecidableEq, Repr, Inhabited

/-- The rest of a list of tokens after a phrase at its start, and the phrase's role. -/
abbrev Derived := Option (Role × List Token)

namespace Token

def afterMark (m : String) : List Token → Option (List Token)
  | .mark t :: rest => if t = m then some rest else none
  | _ => none

def afterWord (w : String) : List Token → Option (List Token)
  | .word t :: rest => if t = w then some rest else none
  | _ => none

def afterName : List Token → Option (List Token)
  | .word w :: rest => if keywords.contains w then none else some rest
  | _ => none

def startsWithMark (m : String) (ts : List Token) : Bool :=
  (afterMark m ts).isSome

def startsWithWord (w : String) (ts : List Token) : Bool :=
  (afterWord w ts).isSome

/-- Whether an expression, possibly a starred one, may start here. -/
def startsExpression : List Token → Bool
  | .number _ :: _ => true
  | .literal .. :: _ => true
  | .word w :: _ =>
    !keywords.contains w || ["None", "True", "False", "not", "lambda", "await"].contains w
  | .mark m :: _ => ["(", "[", "\x7b", "+", "-", "~", "...", "*"].contains m
  | _ => false

def afterBinary : List Token → Option (List Token)
  | .mark m :: rest =>
    if ["|", "^", "&", "<<", ">>", "+", "-", "*", "/", "//", "%", "@", "**"].contains m then
      some rest
    else none
  | _ => none

def afterComparison : List Token → Option (List Token)
  | .mark m :: rest => if ["==", "!=", "<", "<=", ">", ">="].contains m then some rest else none
  | .word "in" :: rest => some rest
  | .word "is" :: .word "not" :: rest => some rest
  | .word "is" :: rest => some rest
  | .word "not" :: .word "in" :: rest => some rest
  | _ => none

/-- The tokens after the mark of an assignment that changes its target. -/
def afterAugmented : List Token → Option (List Token)
  | .mark m :: rest =>
    if ["+=", "-=", "*=", "/=", "//=", "%=", "@=", "&=", "|=", "^=", "<<=", ">>=", "**="].contains m
    then some rest
    else none
  | _ => none

end Token

namespace Phrase

open Token

/-- How the phrases inside a phrase are derived. -/
abbrev Derive := Phrase → List Token → Derived

/-- A phrase without regard to its role. -/
def skip (derive : Derive) (p : Phrase) (ts : List Token) : Option (List Token) :=
  (derive p ts).map (·.2)

def valued (ts : Option (List Token)) : Derived :=
  ts.map fun ts => (.value, ts)

/-- A phrase that may be followed by others of its kind. -/
def chain (derive : Derive) (p again : Phrase) (after : List Token → Option (List Token))
    (ts : List Token) : Derived := do
  let (role, rest) ← derive p ts
  match after rest with
  | some rest => valued (skip derive again rest)
  | none => some (role, rest)

end Phrase

end SchemaCompiler
