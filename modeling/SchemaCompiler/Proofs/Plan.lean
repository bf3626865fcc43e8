import SchemaCompiler.Proofs.Step

/-! Plans. Which type an expression stands for does not hang on the type graph: a plan says it, and
lists what has to be asked of the state on the way, in order. `perform` carries a plan out. The
proofs about resolutions look at plans, which are lists, and at two requests. -/

namespace SchemaCompiler

/-- What resolving a type asks of the state: the node of a type with a name of its own, or an
instantiation. -/
inductive Request where
  | enter (type : Named)
  | apply (generic : GenericDecl) (argument : Named)

def Request.type : Request → Named
  | .enter type => type
  | .apply generic argument => .instantiation ⟨generic.name, argument.name⟩

/-- The requests of a step, each with its site, and what the step answers once they are met. -/
structure Plan (α : Type) where
  requests : List (Site × Request)
  outcome : Except CompileError α

namespace Plan

variable {α β : Type}

instance : Monad Plan where
  pure a := ⟨[], .ok a⟩
  bind p f := match p.outcome with
    | .ok a => ⟨p.requests ++ (f a).requests, (f a).outcome⟩
    | .error e => ⟨p.requests, .error e⟩

def refuse (site : Site) (cause : Cause) : Plan α :=
  ⟨[], .error ⟨cause, site⟩⟩

def ask (site : Site) (request : Request) : Plan Unit :=
  ⟨[(site, request)], .ok ()⟩

@[simp] theorem pure_requests (a : α) : (pure a : Plan α).requests = [] := rfl
@[simp] theorem pure_outcome (a : α) : (pure a : Plan α).outcome = .ok a := rfl
@[simp] theorem refuse_requests (site : Site) (c : Cause) :
    (refuse site c : Plan α).requests = [] := rfl
@[simp] theorem refuse_outcome (site : Site) (c : Cause) :
    (refuse site c : Plan α).outcome = .error ⟨c, site⟩ := rfl
@[simp] theorem ask_requests (site : Site) (r : Request) :
    (ask site r).requests = [(site, r)] := rfl
@[simp] theorem ask_outcome (site : Site) (r : Request) : (ask site r).outcome = .ok () := rfl

theorem bind_ok {p : Plan α} {a : α} (h : p.outcome = .ok a) (f : α → Plan β) :
    p >>= f = ⟨p.requests ++ (f a).requests, (f a).outcome⟩ := by
  simp only [bind, h]

theorem bind_error {p : Plan α} {e : CompileError} (h : p.outcome = .error e) (f : α → Plan β) :
    p >>= f = ⟨p.requests, .error e⟩ := by
  simp only [bind, h]

instance : LawfulMonad Plan := LawfulMonad.mk' Plan
  (fun p => by
    obtain ⟨requests, outcome⟩ := p
    rcases outcome with e | a <;> simp [Functor.map])
  (fun _ _ => rfl)
  (fun p f g => by
    obtain ⟨requests, outcome⟩ := p
    rcases outcome with e | a
    · rfl
    · rcases h : (f a).outcome with e | b <;> simp [bind, h])

theorem bind_outcome_ok {p : Plan α} {f : α → Plan β} {b : β} :
    (p >>= f).outcome = .ok b ↔ ∃ a, p.outcome = .ok a ∧ (f a).outcome = .ok b := by
  rcases h : p.outcome with e | a
  · simp [bind_error h]
  · simp [bind_ok h]

end Plan

namespace TypeGraph

def enter (graph : TypeGraph) (site : Site) : Named → Result Named
  | .object name => graph.shell name .object
  | .enum name => graph.shell name .enum
  | .scalar s => graph.adopt s
  | .pending name => graph.pending name site
  | .instantiation key => .ok (.instantiation key, graph)

end TypeGraph

namespace Scope

def scalarOf (scope : Scope) (otherwise : Except Cause Named) (name : String)
    (tag : Option String) : Except Cause Named :=
  if scope.registry.has name then (scope.registry.lookup name tag).map .scalar
  else match scope.registry.byName? name with
    | some s => .ok (.scalar s)
    | none => otherwise

def target (scope : Scope) (name : String) (tag : Option String) : Except Cause Named :=
  match scope.model.get? name with
  | some (.object _) => .ok (.object name)
  | some (.enum _) => .ok (.enum name)
  | some (.generic _) => .error (.wrongArity name 0)
  | some (.scalar _) => scope.scalarOf (.error (.scalarNotRegistered name)) name tag
  | none => scope.scalarOf (.ok (.pending name)) name tag

def planNamed (scope : Scope) (name : String) (tag : Option String) : Plan Named :=
  match scope.target name tag with
  | .ok type => do
    Plan.ask scope.site (.enter type)
    pure type
  | .error cause => Plan.refuse scope.site cause

/-- The named types among the arguments of a generic, which have to be all of them. -/
def namedTypes : List TypeNode → Option (List Named)
  | [] => some []
  | .named t :: rest => (namedTypes rest).map (t :: ·)
  | _ :: _ => none

def planApply (scope : Scope) (generic : String) (types : List TypeNode) : Plan TypeNode :=
  if types.any TypeNode.isOpen then
    match scope.model.get? generic, types with
    | some (.generic _), [type] => pure (.applied generic type)
    | some (.generic _), types => Plan.refuse scope.site (.wrongArity generic types.length)
    | _, _ => Plan.refuse scope.site (.notGeneric generic)
  else
    match scope.model.get? generic with
    | none => Plan.refuse scope.site (.unresolved generic)
    | some (.generic decl) =>
      match namedTypes types with
      | some [argument] => do
        Plan.ask scope.site (.apply decl argument)
        pure (.named (.instantiation ⟨decl.name, argument.name⟩))
      | some types => Plan.refuse scope.site (.wrongArity generic types.length)
      | none => Plan.refuse scope.site .argumentNotNamed
    | some _ => Plan.refuse scope.site (.notGeneric generic)

mutual

/-- The plan of an expression that is required, or that stands in the scope of a null marker. -/
def planExpr (scope : Scope) (tag : Option String) (env : Environment) :
    (required : Bool) → TypeExpr → Plan TypeNode
  | _, .nullable inner => scope.planExpr tag env false inner
  | required, .list element => do
    let type ← scope.planExpr tag env true element
    pure (mark required (.list type))
  | required, .param name =>
    match env.lookup name with
    | some type => pure (mark required type)
    | none => Plan.refuse scope.site (.unboundParameter name)
  | required, .apply generic arguments => do
    let types ← scope.planArguments tag env arguments
    let type ← scope.planApply generic types
    pure (mark required type)
  | required, .ref name => do
    let type ← scope.planNamed name tag
    pure (mark required (.named type))

def planArguments (scope : Scope) (tag : Option String) (env : Environment) :
    List TypeExpr → Plan (List TypeNode)
  | [] => pure []
  | e :: rest => do
    let type ← scope.planExpr tag env false e
    let types ← scope.planArguments tag env rest
    pure (type :: types)

end

def planFieldArguments (scope : Scope) (env : Environment) :
    List ArgumentDescriptor → Plan (List GraphArgument)
  | [] => pure []
  | a :: rest => do
    let type ← scope.planExpr a.tag env true a.type
    let others ← scope.planFieldArguments env rest
    pure (⟨a.name, type, a.description⟩ :: others)

def planType (scope : Scope) (tag : Option String) (env : Environment) :
    Option TypeExpr → Plan (Option TypeNode)
  | some e => do
    let type ← scope.planExpr tag env true e
    pure (some type)
  | none => pure none

def planField (scope : Scope) (env : Environment) (d : FieldDescriptor) : Plan GraphField := do
  let type ← scope.planType d.tag env d.type
  let arguments ← scope.planFieldArguments env d.arguments
  pure ⟨d.name, type, d, arguments⟩

def planFields (scope : Scope) (owner : String) (env : Environment) :
    List FieldDescriptor → Plan (List GraphField)
  | [] => pure []
  | d :: rest => do
    let field ← (scope.focus ⟨owner, d.name⟩).planField env d
    let fields ← scope.planFields owner env rest
    pure (field :: fields)

def meet (scope : Scope) (instantiate : Instantiate) (site : Site) : Request → ResolveM Unit
  | .enter type => do
    let _ ← ResolveM.onGraph (·.enter site type)
  | .apply generic argument => do
    let _ ← instantiate (scope.focus site) generic.name [.type (.named argument)]

/-- Asks for types in order; each error is met at the site of its request. -/
def meetAll (scope : Scope) (instantiate : Instantiate) : List (Site × Request) → ResolveM Unit
  | [] => pure ()
  | (site, request) :: rest => do
    ResolveM.attaching site (scope.meet instantiate site request)
    scope.meetAll instantiate rest

def perform {α : Type} (scope : Scope) (instantiate : Instantiate) (plan : Plan α) : ResolveM α := do
  scope.meetAll instantiate plan.requests
  match plan.outcome with
  | .ok a => pure a
  | .error e => throw e

variable {α β : Type} (scope : Scope) (inst : Instantiate)

theorem meetAll_append (l₁ l₂ : List (Site × Request)) :
    scope.meetAll inst (l₁ ++ l₂) = scope.meetAll inst l₁ >>= fun _ => scope.meetAll inst l₂ := by
  induction l₁ with
  | nil => rfl
  | cons r rest ih => simp only [List.cons_append, meetAll, ih, bind_assoc]

@[simp] theorem perform_pure (a : α) : scope.perform inst (pure a : Plan α) = pure a := rfl

@[simp] theorem perform_refuse (site : Site) (c : Cause) :
    scope.perform inst (Plan.refuse site c : Plan α) = throw ⟨c, site⟩ := rfl

theorem perform_ask (site : Site) (r : Request) :
    scope.perform inst (Plan.ask site r) =
      ResolveM.attaching site (scope.meet inst site r) := by
  funext s
  simp only [perform, Plan.ask_requests, Plan.ask_outcome, meetAll]
  simp

/-- Carrying out a sequence of plans is a sequence of carrying out plans. -/
theorem perform_bind (p : Plan α) (f : α → Plan β) :
    scope.perform inst (p >>= f) =
      scope.perform inst p >>= fun a => scope.perform inst (f a) := by
  rcases h : p.outcome with e | a
  · rw [Plan.bind_error h]
    simp only [perform, h, bind_assoc]
    rfl
  · rw [Plan.bind_ok h]
    simp only [perform, h, meetAll_append, bind_assoc, pure_bind]

end Scope

end SchemaCompiler
