import SchemaCompiler.Proofs.Answers
import SchemaCompiler.Proofs.Invariant

/-! Templates and the instantiations made from them. A generic's body is planned twice, once for its
type parameter and once for a type that the parameter stands for. The second plan answers the first
one's types filled in, and it asks for what the first asks for and for the applications that were
left open there. -/

namespace SchemaCompiler

namespace TypeNode

/-- The named type that a type parameter or an open application stands for, once `type` is what the
parameter stands for. -/
def filling (type : Named) : TypeNode → Named
  | .applied generic argument => .instantiation ⟨generic, (argument.filling type).name⟩
  | _ => type

/-- A type of a template when `type` is what the parameter stands for. -/
def fill (type : Named) : TypeNode → TypeNode
  | .list element => .list (element.fill type)
  | .nonNull inner => .nonNull (inner.fill type)
  | .named t => .named t
  | .placeholder _ => .named type
  | .applied generic argument => .named (.instantiation ⟨generic, (argument.filling type).name⟩)

/-- The generics inside a type that are applied to an open type, with their arguments. -/
def applications : TypeNode → List (String × TypeNode)
  | .list element => element.applications
  | .nonNull inner => inner.applications
  | .applied generic argument => argument.applications ++ [(generic, argument)]
  | _ => []

/-- Whether a type may stand in the template of a generic with this parameter. -/
def OfTemplate (model : SourceModel) (parameter : String) : TypeNode → Prop
  | .list element => element.OfTemplate model parameter
  | .nonNull inner => inner.OfTemplate model parameter
  | .named _ => True
  | .placeholder name => name = parameter
  | .applied generic argument => (∃ decl, model.get? generic = some (.generic decl)) ∧
      argument.isOpen = true ∧ argument.OfTemplate model parameter

variable {type : Named}

theorem fill_of_isOpen {t : TypeNode} (h : t.isOpen = true) :
    t.fill type = .named (t.filling type) := by
  cases t <;> first | rfl | cases h

end TypeNode

@[simp] theorem mark_fill (required : Bool) (t : TypeNode) (type : Named) :
    (Scope.mark required t).fill type = Scope.mark required (t.fill type) := by
  cases required <;> rfl

@[simp] theorem mark_applications (required : Bool) (t : TypeNode) :
    (Scope.mark required t).applications = t.applications := by
  cases required <;> rfl

/-- A field of a template when `type` is what the parameter stands for. -/
def GraphField.fill (type : Named) (f : GraphField) : GraphField :=
  { f with
    type := f.type.map (TypeNode.fill type)
    arguments := f.arguments.map fun a => { a with type := a.type.fill type } }

namespace Plan

variable {α β : Type}

def Asks (p : Plan α) (r : Request) : Prop :=
  ∃ site, (site, r) ∈ p.requests

@[simp] theorem asks_pure (a : α) (r : Request) : ¬ (pure a : Plan α).Asks r := by
  simp [Asks]

@[simp] theorem asks_ask (site : Site) (r r' : Request) : (ask site r).Asks r' ↔ r' = r := by
  simp [Asks]

theorem asks_bind {p : Plan α} {f : α → Plan β} {a : α} (h : p.outcome = .ok a) (r : Request) :
    (p >>= f).Asks r ↔ p.Asks r ∨ (f a).Asks r := by
  simp only [Asks, bind_ok h, List.mem_append, exists_or]

/-- Two plans of which the second answers `b` where the first answers `a`, and asks for what the
first asks for and for what was left open there. -/
structure Fills (p q : Plan α) (a b : α) (opened : Request → Prop) : Prop where
  before : p.outcome = .ok a
  after : q.outcome = .ok b
  asks : ∀ r, q.Asks r ↔ p.Asks r ∨ opened r

namespace Fills

variable {p q : Plan α} {a b : α} {opened opened' : Request → Prop}

theorem of_pure (a b : α) : Fills (pure a) (pure b) a b fun _ => False :=
  ⟨rfl, rfl, fun _ => by simp⟩

theorem of_same (h : p.outcome = .ok a) : Fills p p a a fun _ => False :=
  ⟨h, h, fun _ => by simp⟩

theorem congr (h : Fills p q a b opened) (hiff : ∀ r, opened r ↔ opened' r) :
    Fills p q a b opened' :=
  ⟨h.before, h.after, fun r => (h.asks r).trans (or_congr_right (hiff r))⟩

theorem bind {f g : α → Plan β} {a' b' : β} (h : Fills p q a b opened)
    (h' : Fills (f a) (g b) a' b' opened') :
    Fills (p >>= f) (q >>= g) a' b' fun r => opened r ∨ opened' r := by
  refine ⟨?_, ?_, fun r => ?_⟩
  · rw [bind_ok h.before]; exact h'.before
  · rw [bind_ok h.after]; exact h'.after
  · rw [asks_bind h.before, asks_bind h.after, h.asks, h'.asks]
    tauto

/-- Going on with what asks for nothing. -/
theorem answer {f g : α → β} (h : Fills p q a b opened) :
    Fills (p >>= fun x => pure (f x)) (q >>= fun x => pure (g x)) (f a) (g b) opened :=
  (h.bind (f := fun x => pure (f x)) (g := fun x => pure (g x)) (of_pure (f a) (g b))).congr
    fun _ => by simp

end Fills

end Plan

namespace Scope

variable {scope : Scope} {type : Named}

/-- A request for a generic that is applied to an open type in one of some types. -/
def Opens (scope : Scope) (type : Named) (types : List TypeNode) (r : Request) : Prop :=
  ∃ t ∈ types, ∃ x ∈ t.applications, ∃ decl, scope.model.get? x.1 = some (.generic decl) ∧
    r = .apply decl (x.2.filling type)

@[simp] theorem opens_nil (r : Request) : ¬ scope.Opens type [] r := by
  simp [Opens]

theorem opens_cons {t : TypeNode} {ts : List TypeNode} {r : Request} :
    scope.Opens type (t :: ts) r ↔ scope.Opens type [t] r ∨ scope.Opens type ts r := by
  simp [Opens, or_and_right, exists_or]

theorem opens_append {ts ts' : List TypeNode} {r : Request} :
    scope.Opens type (ts ++ ts') r ↔ scope.Opens type ts r ∨ scope.Opens type ts' r := by
  simp only [Opens, List.mem_append, or_and_right, exists_or]

theorem opens_of_applications {t t' : TypeNode} (h : t.applications = t'.applications)
    (r : Request) : scope.Opens type [t] r ↔ scope.Opens type [t'] r := by
  simp [Opens, h]

theorem planApply_fills (type : Named) {generic : String} {types : List TypeNode} {t : TypeNode}
    (h : (scope.planApply generic types).outcome = .ok t) :
    ∃ opened,
      Plan.Fills (scope.planApply generic types)
        (scope.planApply generic (types.map (TypeNode.fill type))) t (t.fill type) opened ∧
      ∀ r, scope.Opens type [t] r ↔ scope.Opens type types r ∨ opened r := by
  obtain ⟨decl, hget, ⟨x, rfl, hx, rfl⟩ | ⟨argument, rfl, rfl⟩⟩ := planApply_cases h
  · have hname : decl.name = generic := SourceModel.get?_name hget
    have hafter : scope.planApply generic ([x].map (TypeNode.fill type)) =
        Plan.ask scope.site (.apply decl (x.filling type)) >>= fun _ =>
          pure (TypeNode.named (.instantiation ⟨decl.name, (x.filling type).name⟩)) := by
      simp [planApply, TypeNode.fill_of_isOpen hx, TypeNode.isOpen, hget, namedTypes]
    refine ⟨fun r => r = .apply decl (x.filling type), ⟨h, ?_, fun r => ?_⟩, fun r => ?_⟩
    · rw [hafter, Plan.bind_ok (Plan.ask_outcome _ _), TypeNode.fill, hname]
      rfl
    · have hbefore : scope.planApply generic [x] = pure (.applied generic x) := by
        simp [planApply, hx, hget]
      rw [hafter, Plan.asks_bind (Plan.ask_outcome _ _), hbefore]
      simp
    · simp only [Opens, List.mem_singleton, exists_eq_left, TypeNode.applications, List.mem_append,
        or_and_right, exists_or, hget]
      simp
  · exact ⟨_, Plan.Fills.of_same h, fun r => by simp [Opens, TypeNode.applications]⟩

abbrev placeholderEnv (parameter : String) : Environment :=
  [(parameter, .placeholder parameter)]

abbrev argumentEnv (parameter : String) (type : Named) : Environment :=
  [(parameter, .named type)]

/-- The types of a template are fit for one. -/
theorem kept_ofTemplate (parameter : String) :
    scope.Kept (placeholderEnv parameter) (TypeNode.OfTemplate scope.model parameter) where
  env name type h := by
    obtain ⟨-, rfl⟩ := lookup_singleton_eq_some h
    exact rfl
  named _ := trivial
  list _ h := h
  nonNull _ h := h
  applied _ decl _ hget hopen h := ⟨⟨decl, hget⟩, hopen, h⟩

mutual

theorem planExpr_fills (type : Named) (tag : Option String) (parameter : String) :
    ∀ (e : TypeExpr) (required : Bool) {t : TypeNode},
      (scope.planExpr tag (placeholderEnv parameter) required e).outcome = .ok t →
        Plan.Fills (scope.planExpr tag (placeholderEnv parameter) required e)
          (scope.planExpr tag (argumentEnv parameter type) required e) t (t.fill type)
          (scope.Opens type [t])
  | .nullable inner, required, t, h => by
    rw [planExpr] at h ⊢
    rw [planExpr]
    exact planExpr_fills type tag parameter inner false h
  | .list element, required, t, h => by
    rw [planExpr] at h ⊢
    rw [planExpr]
    obtain ⟨x, hx, hpure⟩ := Plan.bind_outcome_ok.1 h
    obtain rfl : mark required (.list x) = t := Except.ok.inj hpure
    rw [mark_fill, TypeNode.fill]
    exact ((planExpr_fills type tag parameter element true hx).answer
      (f := fun x => mark required (.list x)) (g := fun x => mark required (.list x))).congr
        fun r => opens_of_applications (by simp [TypeNode.applications]) r
  | .param name, required, t, h => by
    rw [planExpr] at h ⊢
    rw [planExpr]
    by_cases hname : name = parameter
    · subst hname
      simp only [List.lookup_cons_self] at h ⊢
      obtain rfl : mark required (.placeholder name) = t := Except.ok.inj h
      rw [mark_fill, TypeNode.fill]
      exact (Plan.Fills.of_pure _ _).congr fun r => by simp [Opens, TypeNode.applications]
    · have hlookup : (name == parameter) = false := by simpa using hname
      simp [List.lookup_cons, hlookup] at h
  | .apply generic arguments, required, t, h => by
    rw [planExpr] at h ⊢
    rw [planExpr]
    obtain ⟨types, htypes, h⟩ := Plan.bind_outcome_ok.1 h
    obtain ⟨x, hx, hpure⟩ := Plan.bind_outcome_ok.1 h
    obtain rfl : mark required x = t := Except.ok.inj hpure
    have hfills := planArguments_fills type tag parameter arguments htypes
    obtain ⟨opened, hfillsx, hopens⟩ := planApply_fills type hx
    rw [mark_fill]
    refine (hfills.bind (hfillsx.answer (f := fun x => mark required x)
      (g := fun x => mark required x))).congr fun r => ?_
    rw [opens_of_applications (mark_applications required x), hopens]
  | .ref name, required, t, h => by
    rw [planExpr] at h ⊢
    rw [planExpr]
    obtain ⟨n, hn, hpure⟩ := Plan.bind_outcome_ok.1 h
    obtain rfl : mark required (.named n) = t := Except.ok.inj hpure
    rw [mark_fill, TypeNode.fill]
    exact ((Plan.Fills.of_same hn).answer (f := fun n => mark required (.named n))
      (g := fun n => mark required (.named n))).congr fun r => by
        simp [Opens, TypeNode.applications]

theorem planArguments_fills (type : Named) (tag : Option String) (parameter : String) :
    ∀ (es : List TypeExpr) {ts : List TypeNode},
      (scope.planArguments tag (placeholderEnv parameter) es).outcome = .ok ts →
        Plan.Fills (scope.planArguments tag (placeholderEnv parameter) es)
          (scope.planArguments tag (argumentEnv parameter type) es) ts
          (ts.map (TypeNode.fill type)) (scope.Opens type ts)
  | [], ts, h => by
    rw [planArguments] at h ⊢
    rw [planArguments]
    cases h
    exact (Plan.Fills.of_pure _ _).congr fun r => by simp
  | e :: rest, ts, h => by
    rw [planArguments] at h ⊢
    rw [planArguments]
    obtain ⟨x, hx, h⟩ := Plan.bind_outcome_ok.1 h
    obtain ⟨xs, hxs, hpure⟩ := Plan.bind_outcome_ok.1 h
    obtain rfl : x :: xs = ts := Except.ok.inj hpure
    have hfillsx := planExpr_fills type tag parameter e false hx
    have hfillsxs := planArguments_fills type tag parameter rest hxs
    exact (hfillsx.bind (hfillsxs.answer (f := fun xs => x :: xs)
      (g := fun xs => x.fill type :: xs))).congr fun r => opens_cons.symm

end

theorem planFieldArguments_fills (type : Named) {parameter : String} {as : List ArgumentDescriptor}
    {gs : List GraphArgument}
    (h : (scope.planFieldArguments (placeholderEnv parameter) as).outcome = .ok gs) :
    Plan.Fills (scope.planFieldArguments (placeholderEnv parameter) as)
      (scope.planFieldArguments (argumentEnv parameter type) as) gs
      (gs.map fun g => { g with type := g.type.fill type })
      (scope.Opens type (gs.map (·.type))) := by
  induction as generalizing gs with
  | nil =>
    cases h
    exact (Plan.Fills.of_pure _ _).congr fun r => by simp
  | cons a rest ih =>
    rw [planFieldArguments] at h ⊢
    rw [planFieldArguments]
    obtain ⟨x, hx, h⟩ := Plan.bind_outcome_ok.1 h
    obtain ⟨xs, hxs, hpure⟩ := Plan.bind_outcome_ok.1 h
    obtain rfl : ⟨a.name, x, a.description⟩ :: xs = gs := Except.ok.inj hpure
    have hfillsx := planExpr_fills type a.tag parameter a.type true hx
    exact (hfillsx.bind ((ih hxs).answer (f := fun xs => ⟨a.name, x, a.description⟩ :: xs)
      (g := fun xs => ⟨a.name, x.fill type, a.description⟩ :: xs))).congr fun r => opens_cons.symm

theorem planType_fills (type : Named) {tag : Option String} {parameter : String}
    {e : Option TypeExpr} {t : Option TypeNode}
    (h : (scope.planType tag (placeholderEnv parameter) e).outcome = .ok t) :
    Plan.Fills (scope.planType tag (placeholderEnv parameter) e)
      (scope.planType tag (argumentEnv parameter type) e) t (t.map (TypeNode.fill type))
      (scope.Opens type t.toList) := by
  rcases e with _ | e
  · cases h
    exact (Plan.Fills.of_pure _ _).congr fun r => by simp
  · rw [planType] at h ⊢
    rw [planType]
    obtain ⟨x, hx, hpure⟩ := Plan.bind_outcome_ok.1 h
    obtain rfl : some x = t := Except.ok.inj hpure
    exact (planExpr_fills type tag parameter e true hx).answer (f := some) (g := some)

theorem planField_fills (type : Named) {parameter : String} {d : FieldDescriptor} {f : GraphField}
    (h : (scope.planField (placeholderEnv parameter) d).outcome = .ok f) :
    Plan.Fills (scope.planField (placeholderEnv parameter) d)
      (scope.planField (argumentEnv parameter type) d) f (f.fill type)
      (scope.Opens type f.types) := by
  rw [planField] at h ⊢
  rw [planField]
  obtain ⟨x, hx, h⟩ := Plan.bind_outcome_ok.1 h
  obtain ⟨gs, hgs, hpure⟩ := Plan.bind_outcome_ok.1 h
  obtain rfl : ⟨d.name, x, d, gs⟩ = f := Except.ok.inj hpure
  have hfillsx := planType_fills type hx
  have hfillsgs := planFieldArguments_fills type hgs
  exact (hfillsx.bind (hfillsgs.answer (f := fun gs => (⟨d.name, x, d, gs⟩ : GraphField))
    (g := fun gs => ⟨d.name, x.map (TypeNode.fill type), d, gs⟩))).congr fun r =>
      opens_append.symm

/-- The body of a generic for a type is its template filled with that type. -/
theorem planFields_fills (type : Named) {owner parameter : String} {ds : List FieldDescriptor}
    {fields : List GraphField}
    (h : (scope.planFields owner (placeholderEnv parameter) ds).outcome = .ok fields) :
    Plan.Fills (scope.planFields owner (placeholderEnv parameter) ds)
      (scope.planFields owner (argumentEnv parameter type) ds) fields
      (fields.map (GraphField.fill type)) (scope.Opens type (TypeGraph.references fields)) := by
  induction ds generalizing fields with
  | nil =>
    cases h
    exact (Plan.Fills.of_pure _ _).congr fun r => by simp [TypeGraph.references]
  | cons d rest ih =>
    rw [planFields] at h ⊢
    rw [planFields]
    obtain ⟨f, hf, h⟩ := Plan.bind_outcome_ok.1 h
    obtain ⟨fs, hfs, hpure⟩ := Plan.bind_outcome_ok.1 h
    obtain rfl : f :: fs = fields := Except.ok.inj hpure
    have hfillsf := planField_fills type hf
    exact (hfillsf.bind ((ih hfs).answer (f := fun fs => f :: fs)
      (g := fun fs => f.fill type :: fs))).congr fun r => by
        rw [TypeGraph.references_cons, opens_append]
        rfl

end Scope

end SchemaCompiler
