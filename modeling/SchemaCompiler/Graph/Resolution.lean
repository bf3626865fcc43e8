import SchemaCompiler.Graph.Basic

/-! Resolving a source model into a type graph. The declarations are walked through in order, and
each type expression becomes a type: what carries no null marker is non-null. A reference to a
declared object or enum leads to its node at once, as a shell if need be. A generic applied to a
named type is instantiated once for each generic and argument; the instantiation is known before its
fields are resolved, so that it may refer to itself. The state is kept when a step fails. -/

namespace SchemaCompiler

/-- What is looked at: the model, its scalars, and the declaration and field at hand. -/
structure Scope where
  model : SourceModel
  registry : ScalarRegistry
  site : Site := {}
  deriving Inhabited

/-- The state of a resolution: the graph, every instantiation that was begun in the order of their
beginnings, and the finished ones in the order in which they were finished. -/
structure Resolution where
  graph : TypeGraph := {}
  memo : List Instantiation := []
  finished : List InstanceKey := []
  deriving Repr, Inhabited

namespace Resolution

/-- The instantiation of a key, as far as it has come. -/
def cached? (state : Resolution) (key : InstanceKey) : Option Instantiation :=
  state.memo.find? (·.key = key)

def begin (state : Resolution) (type : Instantiation) : Resolution :=
  { state with memo := state.memo ++ [type] }

def fill (state : Resolution) (key : InstanceKey) (fields : List GraphField) : Resolution :=
  { state with memo := state.memo.map fun t =>
      if t.key = key then { t with fields := fields, filled := true } else t }

/-- The instantiations in the order in which they were finished. -/
def listed (state : Resolution) : List Instantiation :=
  state.finished.filterMap state.graph.instantiation?

end Resolution

abbrev ResolveM := ExceptT CompileError (StateM Resolution)

namespace ResolveM

variable {α : Type}

def refuse (cause : Cause) : ResolveM α :=
  throw ⟨cause, {}⟩

def ofExcept (result : Except Cause α) : ResolveM α :=
  match result with
  | .ok a => pure a
  | .error cause => refuse cause

def onGraph (step : TypeGraph → TypeGraph.Result α) : ResolveM α := do
  let state ← get
  match step state.graph with
  | .ok (a, graph) =>
    set { state with graph := graph }
    pure a
  | .error e => throw e

def changeGraph (change : TypeGraph → TypeGraph) : ResolveM Unit :=
  modify fun state => { state with graph := change state.graph }

/-- A step whose error is met at a site. -/
def attaching (site : Site) (step : ResolveM α) : ResolveM α :=
  fun state => match step state with
    | (.error e, state) => (.error (e.attach site), state)
    | result => result

end ResolveM

/-- An argument of a generic: the name of a type, or a type. -/
inductive GenericArgument where
  | name (name : String)
  | type (type : TypeNode)
  deriving Repr, Inhabited

namespace Scope

def focus (scope : Scope) (site : Site) : Scope :=
  { scope with site := site }

/-- A step at a site: the site is that of every reference in it and of its error. -/
def located {α : Type} (scope : Scope) (site : Site) (step : Scope → ResolveM α) : ResolveM α :=
  ResolveM.attaching site (step (scope.focus site))

/-- The type a name refers to: a declared object or enum, the scalar bound to an internal type of
that name, the scalar of that schema name, or else a pending type. -/
def named (scope : Scope) (name : String) (tag : Option String) : ResolveM Named :=
  let scalarOrPending (declared : Bool) : ResolveM Named := do
    if scope.registry.has name then
      let scalar ← ResolveM.ofExcept (scope.registry.lookup name tag)
      ResolveM.onGraph (·.adopt scalar)
    else match scope.registry.byName? name with
      | some scalar => ResolveM.onGraph (·.adopt scalar)
      | none =>
        if declared then ResolveM.refuse (.scalarNotRegistered name)
        else ResolveM.onGraph (·.pending name scope.site)
  match scope.model.get? name with
  | some (.object _) => ResolveM.onGraph (·.shell name .object)
  | some (.enum _) => ResolveM.onGraph (·.shell name .enum)
  | some (.generic _) => ResolveM.refuse (.wrongArity name 0)
  | some (.scalar _) => scalarOrPending true
  | none => scalarOrPending false

def argument (scope : Scope) : GenericArgument → ResolveM Named
  | .name name => scope.named name none
  | .type (.named type) => pure type
  | .type _ => ResolveM.refuse .argumentNotNamed

def arguments (scope : Scope) : List GenericArgument → ResolveM (List Named)
  | [] => pure []
  | a :: rest => do
    let type ← scope.argument a
    let types ← scope.arguments rest
    pure (type :: types)

abbrev Environment := List (String × TypeNode)

/-- How a generic is applied to types that hold no type parameter. -/
abbrev Instantiate := Scope → String → List GenericArgument → ResolveM InstanceKey

/-- A generic applied to types. Where one of them is open the application stays as it is. -/
def apply (scope : Scope) (instantiate : Instantiate) (generic : String) (types : List TypeNode) :
    ResolveM TypeNode :=
  if types.any TypeNode.isOpen then
    match scope.model.get? generic, types with
    | some (.generic _), [type] => pure (.applied generic type)
    | some (.generic _), types => ResolveM.refuse (.wrongArity generic types.length)
    | _, _ => ResolveM.refuse (.notGeneric generic)
  else do
    let key ← instantiate scope generic (types.map .type)
    pure (.named (.instantiation key))

/-- A type that has to be there is non-null. -/
def mark (required : Bool) (type : TypeNode) : TypeNode :=
  if required then .nonNull type else type

mutual

/-- The type of an expression that is required, or that stands in the scope of a null marker. -/
def resolveExpr (scope : Scope) (instantiate : Instantiate) (tag : Option String)
    (env : Environment) : (required : Bool) → TypeExpr → ResolveM TypeNode
  | _, .nullable inner => scope.resolveExpr instantiate tag env false inner
  | required, .list element => do
    let type ← scope.resolveExpr instantiate tag env true element
    pure (mark required (.list type))
  | required, .param name =>
    match env.lookup name with
    | some type => pure (mark required type)
    | none => ResolveM.refuse (.unboundParameter name)
  | required, .apply generic arguments => do
    let types ← scope.resolveArguments instantiate tag env arguments
    let type ← scope.apply instantiate generic types
    pure (mark required type)
  | required, .ref name => do
    let type ← scope.named name tag
    pure (mark required (.named type))

/-- The types of the arguments of a generic. An argument is never non-null. -/
def resolveArguments (scope : Scope) (instantiate : Instantiate) (tag : Option String)
    (env : Environment) : List TypeExpr → ResolveM (List TypeNode)
  | [] => pure []
  | e :: rest => do
    let type ← scope.resolveExpr instantiate tag env false e
    let types ← scope.resolveArguments instantiate tag env rest
    pure (type :: types)

end

def resolveFieldArguments (scope : Scope) (instantiate : Instantiate) (env : Environment) :
    List ArgumentDescriptor → ResolveM (List GraphArgument)
  | [] => pure []
  | a :: rest => do
    let type ← scope.resolveExpr instantiate a.tag env true a.type
    let others ← scope.resolveFieldArguments instantiate env rest
    pure (⟨a.name, type, a.description⟩ :: others)

def resolveField (scope : Scope) (instantiate : Instantiate) (env : Environment)
    (d : FieldDescriptor) : ResolveM GraphField := do
  let type ← match d.type with
    | some e => some <$> scope.resolveExpr instantiate d.tag env true e
    | none => pure none
  let arguments ← scope.resolveFieldArguments instantiate env d.arguments
  pure ⟨d.name, type, d, arguments⟩

def resolveFields (scope : Scope) (instantiate : Instantiate) (owner : String) (env : Environment) :
    List FieldDescriptor → ResolveM (List GraphField)
  | [] => pure []
  | d :: rest => do
    let field ← scope.located ⟨owner, d.name⟩ fun scope => scope.resolveField instantiate env d
    let fields ← scope.resolveFields instantiate owner env rest
    pure (field :: fields)

/-- Applies a generic to one named type. What was begun before is answered as it stands. Otherwise
the fields are resolved with `nested` for the applications in them, and the finished instantiation
is added to the graph. -/
def instantiateAt (scope : Scope) (nested : Option Instantiate) (decl : GenericDecl)
    (argument : Named) : ResolveM InstanceKey := do
  let key : InstanceKey := ⟨decl.name, argument.name⟩
  let state ← get
  match state.cached? key, nested with
  | some _, _ => pure key
  | none, none => ResolveM.refuse (.endlessInstantiation decl.name)
  | none, some nested =>
    set (state.begin ⟨key, argument, [], decl.description, false⟩)
    let env : Environment := [(decl.parameter, .named argument)]
    let fields ← scope.resolveFields nested decl.name env decl.fields
    modify (·.fill key fields)
    let type : Instantiation := ⟨key, argument, fields, decl.description, true⟩
    let _ ← ResolveM.onGraph (·.add (.instantiation type))
    modify fun state => { state with finished := state.finished ++ [key] }
    pure key

/-- Applies a generic to arguments, with at most `depth` instantiations inside one another. -/
def instantiateWithin : (depth : Nat) → Instantiate
  | depth, scope, generic, args =>
    match scope.model.get? generic with
    | none => throw ⟨.unresolved generic, scope.site⟩
    | some (.generic decl) => do
      match ← scope.arguments args with
      | [argument] =>
        match depth with
        | 0 => scope.instantiateAt none decl argument
        | depth + 1 => scope.instantiateAt (some (instantiateWithin depth)) decl argument
      | types => ResolveM.refuse (.wrongArity generic types.length)
    | some _ => ResolveM.refuse (.notGeneric generic)

end Scope

/-- How deep instantiations may lie inside one another before they are taken to be endless. The
argument of a nested instantiation is another closed application of the model, or it has a longer
name than the argument around it and is met again only as long as a name that is already there may
still be as long. So the applications count, and the letters of all names: of declarations, of the
types and generics that are referred to, declared or not, and of `others`. -/
def SourceModel.instantiationDepth (model : SourceModel) (others : List String := []) : Nat :=
  let types := model.declarations.flatMap fun d => d.fields.flatMap FieldDescriptor.types
  let names := model.declarations.map (·.name) ++ TypeExpr.allNames types ++ others
  let letters := (names.flatMap String.toList).length + names.length
  2 * (model.generics.length + 1) * (TypeExpr.allApplications types + letters + 1)

def GenericArgument.name? : GenericArgument → Option String
  | .name given => some given
  | .type _ => none

namespace Scope

/-- The depth of the model, where the names of scalars count too and those that are passed. -/
def depth (scope : Scope) (args : List GenericArgument := []) : Nat :=
  scope.model.instantiationDepth
    (scope.registry.scalars.map (·.name) ++ args.filterMap GenericArgument.name?)

def instantiate (scope : Scope) (generic : String) (args : List GenericArgument) :
    ResolveM InstanceKey :=
  instantiateWithin (scope.depth args) scope generic args

def resolveType (scope : Scope) (tag : Option String) (env : Environment) (e : TypeExpr) :
    ResolveM TypeNode :=
  scope.resolveExpr instantiate tag env true e

def declareObject (scope : Scope) (depth : Nat) (decl : ObjectDecl) : ResolveM Unit := do
  let _ ← ResolveM.onGraph (·.shell decl.name .object)
  let state ← get
  if (state.graph.object? decl.name).any (·.filled) then ResolveM.refuse (.definedTwice decl.name)
  else
    ResolveM.changeGraph fun graph =>
      graph.updateObject decl.name fun t => { t with description := decl.description }
    let fields ← scope.resolveFields (instantiateWithin depth) decl.name [] decl.fields
    ResolveM.changeGraph fun graph =>
      graph.updateObject decl.name fun t => { t with fields := fields, filled := true }

def declareEnum (decl : EnumDecl) : ResolveM Unit := do
  let _ ← ResolveM.onGraph (·.shell decl.name .enum)
  ResolveM.changeGraph fun graph =>
    graph.updateEnum decl.name fun t =>
      { t with description := decl.description, values := decl.members, filled := true }

def declareScalar (scope : Scope) (decl : ScalarDecl) : ResolveM Unit :=
  match scope.registry.byName? decl.name with
  | none => ResolveM.refuse (.scalarNotRegistered decl.name)
  | some scalar => do
    let _ ← ResolveM.onGraph (·.adopt scalar)

def declareGeneric (scope : Scope) (depth : Nat) (decl : GenericDecl) : ResolveM Unit := do
  let env : Environment := [(decl.parameter, .placeholder decl.parameter)]
  let fields ← scope.resolveFields (instantiateWithin depth) decl.name env decl.fields
  let template : Template := ⟨decl.name, [decl.parameter], fields, decl.description⟩
  ResolveM.onGraph fun graph => (graph.addTemplate template).map fun graph => ((), graph)

def declare (scope : Scope) (depth : Nat) : Declaration → ResolveM Unit
  | .object decl => scope.declareObject depth decl
  | .enum decl => declareEnum decl
  | .scalar decl => scope.declareScalar decl
  | .generic decl => scope.declareGeneric depth decl

def declareAllWithin (scope : Scope) (depth : Nat) : List Declaration → ResolveM Unit
  | [] => pure ()
  | decl :: rest => do
    scope.located ⟨decl.name, none⟩ fun scope => scope.declare depth decl
    scope.declareAllWithin depth rest

def declareAll (scope : Scope) (decls : List Declaration) : ResolveM Unit :=
  scope.declareAllWithin scope.depth decls

/-- Enters all declarations of the model; no type may be left over of which nothing is known. -/
def resolveWithin (scope : Scope) (depth : Nat) : ResolveM Unit := do
  scope.declareAllWithin depth scope.model.declarations
  let state ← get
  match state.graph.assertComplete with
  | .ok () => pure ()
  | .error e => throw e

def resolve (scope : Scope) : ResolveM Unit :=
  scope.resolveWithin scope.depth

end Scope

end SchemaCompiler
