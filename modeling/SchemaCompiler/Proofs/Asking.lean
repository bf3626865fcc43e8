import SchemaCompiler.Proofs.Instantiation
import SchemaCompiler.Graph.Reach

/-! What plans ask for, and in which order. A plan enters only types that names stand for, and it
applies a generic to an argument only after it has asked for that argument; the named types in what
it answers were asked for before. Types that hold no type parameter stay closed. -/

namespace SchemaCompiler

namespace TypeNode

def isClosed : TypeNode → Bool
  | .named _ => true
  | .list element => element.isClosed
  | .nonNull inner => inner.isClosed
  | .placeholder _ => false
  | .applied _ _ => false

theorem isOpen_of_isClosed {t : TypeNode} (h : t.isClosed = true) : t.isOpen = false := by
  cases t <;> first | rfl | cases h

end TypeNode

theorem TypeGraph.references_cons (f : GraphField) (fs : List GraphField) :
    TypeGraph.references (f :: fs) = f.types ++ TypeGraph.references fs :=
  List.flatMap_cons

@[simp] theorem mark_target? (required : Bool) (t : TypeNode) :
    (Scope.mark required t).target? = t.target? := by
  cases required <;> rfl

@[simp] theorem mark_isClosed (required : Bool) (t : TypeNode) :
    (Scope.mark required t).isClosed = t.isClosed := by
  cases required <;> rfl

namespace Plan

variable {α β : Type}

def Knows (known : Named → Prop) (p : Plan α) (t : Named) : Prop :=
  known t ∨ ∃ r ∈ p.requests, r.2.type = t

theorem knows_bind {known : Named → Prop} {p : Plan α} {f : α → Plan β} {a : α}
    (h : p.outcome = .ok a) : (p >>= f).Knows known = (f a).Knows (p.Knows known) := by
  funext t
  simp only [Knows, bind_ok h, List.mem_append, or_and_right, exists_or, or_assoc]

end Plan

namespace Scope

def Ready (scope : Scope) (known : Named → Prop) : Request → Prop
  | .enter type => scope.IsTarget type
  | .apply generic argument =>
    scope.model.get? generic.name = some (.generic generic) ∧ known argument

/-- Whether each request can be made once the types asked for before it are known. -/
def Ordered (scope : Scope) : (known : Named → Prop) → List (Site × Request) → Prop
  | _, [] => True
  | known, (_, request) :: rest =>
    scope.Ready known request ∧ Ordered scope (fun t => known t ∨ request.type = t) rest

/-- A plan that asks in order, and that knows the named types in what it answers. -/
structure Careful {α : Type} (scope : Scope) (known : Named → Prop) (p : Plan α)
    (answer : α → List TypeNode) : Prop where
  ordered : scope.Ordered known p.requests
  answered : ∀ a, p.outcome = .ok a → ∀ type ∈ answer a, ∀ t, type.target? = some t →
    p.Knows known t

variable {scope : Scope} {known : Named → Prop}

theorem ordered_append {l₁ l₂ : List (Site × Request)} :
    scope.Ordered known (l₁ ++ l₂) ↔ scope.Ordered known l₁ ∧
      scope.Ordered (fun t => known t ∨ ∃ r ∈ l₁, r.2.type = t) l₂ := by
  induction l₁ generalizing known with
  | nil => simp [Ordered]
  | cons r rest ih =>
    rcases r with ⟨site, request⟩
    simp only [List.cons_append, Ordered, ih, and_assoc, List.mem_cons, or_assoc,
      exists_eq_or_imp]

namespace Careful

variable {α β : Type}

theorem of_pure {a : α} {answer : α → List TypeNode}
    (h : ∀ type ∈ answer a, ∀ t, type.target? = some t → known t) :
    scope.Careful known (pure a) answer :=
  ⟨trivial, fun _ ha type htype t ht => by cases ha; exact .inl (h type htype t ht)⟩

theorem of_refuse (site : Site) (c : Cause) (answer : α → List TypeNode) :
    scope.Careful known (Plan.refuse site c) answer :=
  ⟨trivial, fun _ ha => by cases ha⟩

theorem of_ask {site : Site} {r : Request} (h : scope.Ready known r)
    (answer : Unit → List TypeNode) (hanswer : answer () = [.named r.type]) :
    scope.Careful known (Plan.ask site r) answer := by
  refine ⟨⟨h, trivial⟩, fun a _ type htype t ht => .inr ⟨_, List.mem_singleton_self _, ?_⟩⟩
  rw [show answer a = answer () from rfl, hanswer, List.mem_singleton] at htype
  subst htype
  exact Option.some.inj ht

theorem bind {p : Plan α} {f : α → Plan β} {answer : α → List TypeNode}
    {answer' : β → List TypeNode} (hp : scope.Careful known p answer)
    (hf : ∀ a, (∀ type ∈ answer a, ∀ t, type.target? = some t → p.Knows known t) →
      scope.Careful (p.Knows known) (f a) answer') :
    scope.Careful known (p >>= f) answer' := by
  rcases h : p.outcome with e | a
  · rw [Plan.bind_error h]
    exact ⟨hp.ordered, fun _ ha => by cases ha⟩
  · have hfa := hf a (hp.answered a h)
    refine ⟨?_, fun b hb type htype t ht => ?_⟩
    · rw [Plan.bind_ok h]
      exact ordered_append.2 ⟨hp.ordered, hfa.ordered⟩
    · rw [Plan.knows_bind h]
      rw [Plan.bind_ok h] at hb
      exact hfa.answered b hb type htype t ht

theorem focused {site : Site} {p : Plan α} {answer : α → List TypeNode}
    (h : (scope.focus site).Careful known p answer) : scope.Careful known p answer := by
  refine ⟨?_, h.answered⟩
  have hall : ∀ (rs : List (Site × Request)) (known : Named → Prop),
      (scope.focus site).Ordered known rs → scope.Ordered known rs := by
    intro rs
    induction rs with
    | nil => exact fun _ _ => trivial
    | cons r rest ih => exact fun _ hr => ⟨by rcases r with ⟨_, _ | _⟩ <;> exact hr.1, ih _ hr.2⟩
  exact hall _ _ h.ordered

end Careful

theorem planNamed_careful (name : String) (tag : Option String) :
    scope.Careful known (scope.planNamed name tag) fun t => [.named t] := by
  unfold planNamed
  rcases h : scope.target name tag with c | t
  · exact Careful.of_refuse _ _ _
  · refine (Careful.of_ask (r := .enter t) (target_isTarget h) (fun _ => [.named t]) rfl).bind fun _ hasked => ?_
    exact Careful.of_pure hasked

/-- The named types among arguments are their targets. -/
theorem namedTypes_eq_some {types : List TypeNode} {ts : List Named}
    (h : namedTypes types = some ts) : types = ts.map .named := by
  induction types generalizing ts with
  | nil => cases h; rfl
  | cons type rest ih =>
    cases type with
    | named t =>
      obtain ⟨ts', hts, rfl⟩ := Option.map_eq_some_iff.1 h
      rw [ih hts]; rfl
    | _ => cases h

theorem planApply_careful (generic : String) (types : List TypeNode)
    (htypes : ∀ type ∈ types, ∀ t, type.target? = some t → known t) :
    scope.Careful known (scope.planApply generic types) fun t => [t] := by
  unfold planApply
  split
  · split
    · exact Careful.of_pure (by simpa [TypeNode.target?] using htypes)
    · exact Careful.of_refuse _ _ _
    · exact Careful.of_refuse _ _ _
  · split
    · exact Careful.of_refuse _ _ _
    · rename_i decl hget
      obtain rfl : decl.name = generic := SourceModel.get?_name hget
      split
      · rename_i argument hnamed
        obtain rfl := namedTypes_eq_some hnamed
        have hknown := htypes (.named argument) (List.mem_singleton_self _) argument rfl
        refine (Careful.of_ask (r := .apply decl argument) ⟨hget, hknown⟩
          (fun _ => [.named (.instantiation ⟨decl.name, argument.name⟩)]) rfl).bind
          fun _ hasked => ?_
        exact Careful.of_pure hasked
      · exact Careful.of_refuse _ _ _
      · exact Careful.of_refuse _ _ _
    · exact Careful.of_refuse _ _ _

/-- The types that type parameters stand for are known as far as they are named. -/
def EnvKnown (known : Named → Prop) (env : Environment) : Prop :=
  ∀ name type, env.lookup name = some type → ∀ t, type.target? = some t → known t

theorem EnvKnown.after {α : Type} {env : Environment} (h : EnvKnown known env) (p : Plan α) :
    EnvKnown (p.Knows known) env :=
  fun name type hlookup t ht => .inl (h name type hlookup t ht)

/-- What the only type parameter stands for. -/
theorem lookup_singleton_eq_some {α : Type} {name x : String} {v w : α}
    (h : [(name, v)].lookup x = some w) : x = name ∧ w = v := by
  rw [List.lookup_cons] at h
  split at h
  · rename_i heq
    exact ⟨eq_of_beq heq, (Option.some.inj h).symm⟩
  · cases h

theorem envKnown_singleton {known : Named → Prop} (name : String) {t : Named} (h : known t) :
    EnvKnown known [(name, .named t)] := by
  intro x type hlookup n hn
  rw [(lookup_singleton_eq_some hlookup).2] at hn
  cases hn
  exact h

theorem envKnown_placeholder (known : Named → Prop) (parameter : String) :
    EnvKnown known [(parameter, .placeholder parameter)] := by
  intro x type hlookup n hn
  rw [(lookup_singleton_eq_some hlookup).2] at hn
  cases hn

theorem marked {known : Named → Prop} {type : TypeNode} (required : Bool)
    (h : ∀ t ∈ [type], ∀ n, t.target? = some n → known n) :
    ∀ t ∈ [mark required type], ∀ n, t.target? = some n → known n := by
  intro t ht n hn
  rw [List.mem_singleton.1 ht, mark_target?] at hn
  exact h type (List.mem_singleton_self _) n hn

mutual

theorem planExpr_careful {known : Named → Prop} (tag : Option String) (env : Environment)
    (henv : EnvKnown known env) : ∀ (e : TypeExpr) (required : Bool),
      scope.Careful known (scope.planExpr tag env required e) fun t => [t]
  | .nullable inner, required => by
    rw [planExpr]
    exact planExpr_careful tag env henv inner false
  | .list element, required => by
    rw [planExpr]
    refine (planExpr_careful tag env henv element true).bind fun type htype => ?_
    exact Careful.of_pure (marked required (by simpa [TypeNode.target?] using htype))
  | .param name, required => by
    rw [planExpr]
    rcases h : env.lookup name with _ | type
    · exact Careful.of_refuse _ _ _
    · refine Careful.of_pure (marked required ?_)
      simpa using henv name type h
  | .apply generic arguments, required => by
    rw [planExpr]
    refine (planArguments_careful tag env henv arguments).bind fun types htypes => ?_
    refine (planApply_careful generic types htypes).bind fun type htype => ?_
    exact Careful.of_pure (marked required htype)
  | .ref name, required => by
    rw [planExpr]
    refine (planNamed_careful name tag).bind fun type htype => ?_
    exact Careful.of_pure (marked required htype)

theorem planArguments_careful {known : Named → Prop} (tag : Option String) (env : Environment)
    (henv : EnvKnown known env) : ∀ es : List TypeExpr,
      scope.Careful known (scope.planArguments tag env es) fun ts => ts
  | [] => by
    rw [planArguments]
    exact Careful.of_pure (by simp)
  | e :: rest => by
    rw [planArguments]
    refine (planExpr_careful tag env henv e false).bind fun type htype => ?_
    refine (planArguments_careful tag env (henv.after _) rest).bind fun types htypes => ?_
    refine Careful.of_pure fun t ht n hn => ?_
    rcases List.mem_cons.1 ht with rfl | ht
    · exact .inl (htype t (List.mem_singleton_self _) n hn)
    · exact htypes t ht n hn

end

theorem planFieldArguments_careful {known : Named → Prop} {env : Environment}
    (henv : EnvKnown known env) (as : List ArgumentDescriptor) :
    scope.Careful known (scope.planFieldArguments env as) fun gs => gs.map (·.type) := by
  induction as generalizing known with
  | nil => exact Careful.of_pure (by simp)
  | cons a rest ih =>
    rw [planFieldArguments]
    refine (planExpr_careful a.tag env henv a.type true).bind fun type htype => ?_
    refine (ih (henv.after _)).bind fun gs hgs => ?_
    refine Careful.of_pure fun t ht n hn => ?_
    rcases List.mem_cons.1 ht with rfl | ht
    · exact .inl (htype _ (List.mem_singleton_self _) n hn)
    · exact hgs t ht n hn

theorem planField_careful (scope : Scope) {known : Named → Prop} {env : Environment}
    (henv : EnvKnown known env) (d : FieldDescriptor) :
    scope.Careful known (scope.planField env d) GraphField.types := by
  rw [planField]
  have htype : scope.Careful known (scope.planType d.tag env d.type) Option.toList := by
    rcases d.type with _ | e
    · exact Careful.of_pure (by simp)
    · exact (planExpr_careful d.tag env henv e true).bind fun type htype => Careful.of_pure htype
  refine htype.bind fun type htype => ?_
  refine (planFieldArguments_careful (henv.after _) d.arguments).bind fun gs hgs => ?_
  refine Careful.of_pure fun t ht n hn => ?_
  rcases List.mem_append.1 ht with ht | ht
  · exact .inl (htype t ht n hn)
  · exact hgs t ht n hn

/-- The plan of a declaration's fields asks in order. -/
theorem planFields_careful (scope : Scope) {known : Named → Prop} {env : Environment}
    (henv : EnvKnown known env) (owner : String) (ds : List FieldDescriptor) :
    scope.Careful known (scope.planFields owner env ds) TypeGraph.references := by
  induction ds generalizing known with
  | nil => exact Careful.of_pure (by simp [TypeGraph.references])
  | cons d rest ih =>
    rw [planFields]
    have hfield := planField_careful (scope.focus ⟨owner, d.name⟩) henv d
    refine Careful.bind hfield.focused fun field htypes => ?_
    refine (ih (henv.after _)).bind fun fields hfields => ?_
    refine Careful.of_pure fun t ht n hn => ?_
    rw [TypeGraph.references_cons, List.mem_append] at ht
    rcases ht with ht | ht
    · exact .inl (htypes t ht n hn)
    · exact hfields t ht n hn

end Scope

end SchemaCompiler
