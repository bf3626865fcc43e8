import SchemaCompiler.Error
import SchemaCompiler.Model.Declaration

/-! The scalars of one compilation. A scalar is bound to an internal type, the name that fields are
written with. A binding without a tag has its internal type for itself; bindings with tags share
theirs, and a tag chooses among them. -/

namespace SchemaCompiler

structure Scalar where
  name : String
  internalType : String
  tag : Option String := none
  builtin : Bool := false
  implementation : Option String := none
  description : Option String := none
  /-- Whether the registry holds it; a scalar may also be made for a type graph alone. -/
  registered : Bool := true
  deriving DecidableEq, Repr, Inhabited

def builtinScalars : List Scalar :=
  [{ name := "String", internalType := "string", builtin := true },
    { name := "Boolean", internalType := "boolean", builtin := true },
    { name := "Int", internalType := "number", tag := some "Int", builtin := true },
    { name := "Float", internalType := "number", tag := some "Float", builtin := true },
    { name := "ID", internalType := "ID", builtin := true }]

/-- The bound scalars in the order of their registration. -/
structure ScalarRegistry where
  scalars : List Scalar := builtinScalars
  deriving DecidableEq, Repr, Inhabited

namespace ScalarRegistry

def describe (internalType : String) (tag : Option String) : String :=
  match tag with
  | some tag => if tag = "" then s!"'{internalType}'" else s!"'{internalType}' [{tag}]"
  | none => s!"'{internalType}'"

def byName? (registry : ScalarRegistry) (name : String) : Option Scalar :=
  registry.scalars.find? (·.name = name)

def binding? (registry : ScalarRegistry) (internalType : String) (tag : Option String) :
    Option Scalar :=
  registry.scalars.find? fun s => s.internalType = internalType ∧ s.tag = tag

/-- The tags bound to an internal type, in the order of registration. -/
def tags (registry : ScalarRegistry) (internalType : String) : List (Option String) :=
  (registry.scalars.filter (·.internalType = internalType)).map (·.tag)

def has (registry : ScalarRegistry) (internalType : String) : Bool :=
  registry.scalars.any (·.internalType = internalType)

/-- Binds a scalar declaration to an internal type, by default its own. -/
def register (registry : ScalarRegistry) (internalType : String) (decl : ScalarDecl) :
    Except CompileError (Scalar × ScalarRegistry) :=
  let refuse (cause : Cause) := .error ⟨cause, ⟨some decl.name, none⟩⟩
  let bound := registry.tags internalType
  if (registry.byName? decl.name).isSome then refuse (.scalarNameTaken decl.name)
  else if decl.tag.isNone ∧ bound ≠ [] then
    refuse (.internalTypeTaken internalType (bound.map (describe internalType)))
  else match registry.binding? internalType decl.tag with
    | some existing => refuse (.bindingTaken (describe internalType decl.tag) existing.name)
    | none =>
      let scalar : Scalar := {
        name := decl.name
        internalType := internalType
        tag := decl.tag
        implementation := decl.implementation
        description := decl.description }
      .ok (scalar, ⟨registry.scalars ++ [scalar]⟩)

/-- The scalar bound to an internal type and a tag. Without a tag there has to be an untagged
binding. -/
def lookup (registry : ScalarRegistry) (internalType : String) (tag : Option String) :
    Except Cause Scalar :=
  match registry.binding? internalType tag with
  | some scalar => .ok scalar
  | none =>
    match registry.tags internalType, tag with
    | [], _ => .error (.unknownInternalType internalType)
    | tags, none => .error (.ambiguousScalar internalType (tags.filterMap id))
    | tags, some _ =>
      .error (.unknownTag (describe internalType tag) (tags.map fun t => t.getD "None"))

def registerAll (registry : ScalarRegistry) : List ScalarDecl → Except CompileError ScalarRegistry
  | [] => .ok registry
  | decl :: rest => do
    let (_, registry) ← registry.register decl.internalType decl
    registry.registerAll rest

/-- The registry of a model: the builtin scalars and those that the model declares. -/
def ofModel (model : SourceModel) : Except CompileError ScalarRegistry :=
  ({} : ScalarRegistry).registerAll model.scalars

end ScalarRegistry

end SchemaCompiler
