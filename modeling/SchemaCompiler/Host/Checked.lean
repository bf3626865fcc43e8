/-! Checks that report every fault they find. A fault has a place, the path of names and positions
that leads to it, and a cause. `Checked` values are combined so that the faults of all parts are
kept, in the order of the parts. -/

namespace SchemaCompiler

inductive PathStep where
  | key (name : String)
  | index (position : Nat)
  deriving DecidableEq, Repr

inductive FaultCause where
  | notAnObject (part : String)
  | shapeNotAnObject
  | kindMissing
  | kindUnknown (written : String)
  | missing
  | unknownMember
  | notText
  | notAList
  | notATable
  | notAChoice (choices : String)
  | notABoolean
  | unreadableBoolean
  | notAnInteger
  | fractional
  | notFinite
  | integerTooLarge
  deriving DecidableEq, Repr

namespace FaultCause

def code : FaultCause → String
  | .notAnObject _ => "model_type"
  | .shapeNotAnObject => "model_attributes_type"
  | .kindMissing => "union_tag_not_found"
  | .kindUnknown _ => "union_tag_invalid"
  | .missing => "missing"
  | .unknownMember => "extra_forbidden"
  | .notText => "string_type"
  | .notAList => "list_type"
  | .notATable => "dict_type"
  | .notAChoice _ => "literal_error"
  | .notABoolean => "bool_type"
  | .unreadableBoolean => "bool_parsing"
  | .notAnInteger => "int_type"
  | .fractional => "int_from_float"
  | .notFinite => "finite_number"
  | .integerTooLarge => "int_parsing_size"

def message : FaultCause → String
  | .notAnObject part => "Input should be a valid dictionary or instance of " ++ part
  | .shapeNotAnObject => "Input should be a valid dictionary or object to extract fields from"
  | .kindMissing => "Unable to extract tag using discriminator 'kind'"
  | .kindUnknown written => "Input tag '" ++ written ++
      "' found using 'kind' does not match any of the expected tags: " ++
      "'named', 'null', 'undefined', 'union', 'array', 'generic'"
  | .missing => "Field required"
  | .unknownMember => "Extra inputs are not permitted"
  | .notText => "Input should be a valid string"
  | .notAList => "Input should be a valid list"
  | .notATable => "Input should be a valid dictionary"
  | .notAChoice choices => "Input should be " ++ choices
  | .notABoolean => "Input should be a valid boolean"
  | .unreadableBoolean => "Input should be a valid boolean, unable to interpret input"
  | .notAnInteger => "Input should be a valid integer"
  | .fractional => "Input should be a valid integer, got a number with a fractional part"
  | .notFinite => "Input should be a finite number"
  | .integerTooLarge => "Unable to parse input string as an integer, exceeded maximum size"

end FaultCause

structure Fault where
  path : List PathStep
  cause : FaultCause
  deriving DecidableEq, Repr

/-- A value, or the faults that stand in its way. -/
inductive Checked (α : Type) where
  | valid (value : α)
  | faulty (faults : List Fault)
  deriving Repr

namespace Checked

variable {α β : Type}

def fail (cause : FaultCause) : Checked α :=
  .faulty [⟨[], cause⟩]

def map (f : α → β) : Checked α → Checked β
  | .valid a => .valid (f a)
  | .faulty fs => .faulty fs

/-- Applies a checked function to a checked value; the faults of both are kept. -/
def seq (f : Checked (α → β)) (x : Checked α) : Checked β :=
  match f, x with
  | .valid g, .valid a => .valid (g a)
  | .valid _, .faulty fs => .faulty fs
  | .faulty fs, .valid _ => .faulty fs
  | .faulty fs, .faulty gs => .faulty (fs ++ gs)

instance : Functor Checked where
  map := map

instance : Applicative Checked where
  pure := .valid
  seq f x := seq f (x ())

/-- A check of a part, seen from the whole. -/
def within (step : PathStep) : Checked α → Checked α
  | .valid a => .valid a
  | .faulty fs => .faulty (fs.map fun f => { f with path := step :: f.path })

end Checked

end SchemaCompiler
