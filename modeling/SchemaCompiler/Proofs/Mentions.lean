import SchemaCompiler.Proofs.Succeeding

/-! What declarations mention. A plan that has an answer has looked up every name in the expressions
that it is made from: each generic that is applied there is declared, and each name that stands as a
type stands for one that the plan asks for. So a name that a resolved model mentions is that of one
of its generics, or of a type that its graph holds. -/

namespace SchemaCompiler

namespace TypeExpr

mutual

/-- The names that stand in an expression as types. -/
def refs : TypeExpr → List String
  | .ref name => [name]
  | .param _ => []
  | .list element => element.refs
  | .nullable inner => inner.refs
  | .apply _ arguments => allRefs arguments

def allRefs : List TypeExpr → List String
  | [] => []
  | e :: rest => e.refs ++ allRefs rest

end

mutual

/-- The generics that are applied in an expression, each with its arguments. -/
def applies : TypeExpr → List (String × List TypeExpr)
  | .ref _ => []
  | .param _ => []
  | .list element => element.applies
  | .nullable inner => inner.applies
  | .apply generic arguments => (generic, arguments) :: allApplies arguments

def allApplies : List TypeExpr → List (String × List TypeExpr)
  | [] => []
  | e :: rest => e.applies ++ allApplies rest

end

end TypeExpr

/-- The type expressions of a field, each with the tag that goes with it. -/
def FieldDescriptor.tagged (f : FieldDescriptor) : List (Option String × TypeExpr) :=
  f.type.toList.map (fun e => (f.tag, e)) ++ f.arguments.map fun a => (a.tag, a.type)

def Declaration.tagged (d : Declaration) : List (Option String × TypeExpr) :=
  d.fields.flatMap FieldDescriptor.tagged

/-- Whether a name stands somewhere in a declaration, as a type or as a generic that is applied. -/
def Declaration.Mentions (d : Declaration) (name : String) : Prop :=
  ∃ x ∈ d.tagged, name ∈ x.2.refs ∨ name ∈ x.2.applies.map Prod.fst

instance (d : Declaration) (name : String) : Decidable (d.Mentions name) :=
  inferInstanceAs (Decidable (∃ x ∈ d.tagged, _ ∨ _))

namespace Scope

variable {α β : Type} {scope : Scope} {tag : Option String}

/-- Whether a plan looks up the names that stand in some expressions. -/
structure Looks (scope : Scope) (p : Plan α) (tag : Option String) (refs : List String)
    (applies : List (String × List TypeExpr)) : Prop where
  refs : ∀ name ∈ refs, ∃ t, scope.target name tag = .ok t ∧ p.Asks (.enter t)
  applies : ∀ y ∈ applies, ∃ decl, scope.model.get? y.1 = some (.generic decl)

section

variable {refs refs' : List String} {applies applies' : List (String × List TypeExpr)}

theorem Looks.mono {p : Plan α} {q : Plan β} (h : scope.Looks p tag refs applies)
    (hasks : ∀ r, p.Asks r → q.Asks r) : scope.Looks q tag refs applies := by
  refine ⟨fun name hname => ?_, h.applies⟩
  obtain ⟨t, ht, hp⟩ := h.refs name hname
  exact ⟨t, ht, hasks _ hp⟩

theorem Looks.first {p : Plan α} {f : α → Plan β} {a : α} (h : scope.Looks p tag refs applies)
    (hp : p.outcome = .ok a) : scope.Looks (p >>= f) tag refs applies :=
  h.mono fun r hr => (Plan.asks_bind hp r).2 (.inl hr)

theorem Looks.second {p : Plan α} {f : α → Plan β} {a : α}
    (h : scope.Looks (f a) tag refs applies) (hp : p.outcome = .ok a) :
    scope.Looks (p >>= f) tag refs applies :=
  h.mono fun r hr => (Plan.asks_bind hp r).2 (.inr hr)

theorem Looks.append {p : Plan α} (h : scope.Looks p tag refs applies)
    (h' : scope.Looks p tag refs' applies') :
    scope.Looks p tag (refs ++ refs') (applies ++ applies') :=
  ⟨fun name hname => (List.mem_append.1 hname).elim (h.refs name) (h'.refs name),
    fun y hy => (List.mem_append.1 hy).elim (h.applies y) (h'.applies y)⟩

theorem Looks.nil (p : Plan α) : scope.Looks p tag [] [] :=
  ⟨fun _ hname => (nomatch hname), fun _ hy => nomatch hy⟩

end

theorem planNamed_looks {name : String} {t : Named}
    (h : (scope.planNamed name tag).outcome = .ok t) :
    scope.target name tag = .ok t ∧ (scope.planNamed name tag).Asks (.enter t) := by
  unfold planNamed at h ⊢
  rcases htarget : scope.target name tag with c | t'
  · rw [htarget] at h
    cases h
  · rw [htarget] at h
    cases h
    exact ⟨rfl, scope.site, List.mem_singleton_self _⟩

open TypeExpr

mutual

theorem planExpr_looks (tag : Option String) (env : Environment) :
    ∀ (e : TypeExpr) (required : Bool) {t : TypeNode},
      (scope.planExpr tag env required e).outcome = .ok t →
        scope.Looks (scope.planExpr tag env required e) tag e.refs e.applies
  | .nullable inner, required, t, h => by
    rw [planExpr] at h ⊢
    exact planExpr_looks tag env inner false h
  | .list element, required, t, h => by
    rw [planExpr] at h ⊢
    obtain ⟨x, hx, -⟩ := Plan.bind_outcome_ok.1 h
    exact (planExpr_looks tag env element true hx).first hx
  | .param name, required, t, h => Looks.nil _
  | .apply generic arguments, required, t, h => by
    rw [planExpr] at h ⊢
    obtain ⟨types, htypes, h⟩ := Plan.bind_outcome_ok.1 h
    obtain ⟨x, hx, -⟩ := Plan.bind_outcome_ok.1 h
    obtain ⟨decl, hget, -⟩ := planApply_cases hx
    have harguments := planArguments_looks tag env arguments htypes
    exact ⟨(harguments.first htypes).refs,
      List.forall_mem_cons.2 ⟨⟨decl, hget⟩, harguments.applies⟩⟩
  | .ref name, required, t, h => by
    rw [planExpr] at h ⊢
    obtain ⟨n, hn, -⟩ := Plan.bind_outcome_ok.1 h
    obtain ⟨htarget, hasks⟩ := planNamed_looks hn
    refine ⟨fun x hx => ?_, fun _ hy => nomatch hy⟩
    rw [List.mem_singleton.1 hx]
    exact ⟨n, htarget, (Plan.asks_bind hn _).2 (.inl hasks)⟩

theorem planArguments_looks (tag : Option String) (env : Environment) :
    ∀ (es : List TypeExpr) {ts : List TypeNode},
      (scope.planArguments tag env es).outcome = .ok ts →
        scope.Looks (scope.planArguments tag env es) tag (allRefs es) (allApplies es)
  | [], ts, h => Looks.nil _
  | e :: rest, ts, h => by
    rw [planArguments] at h ⊢
    obtain ⟨x, hx, h⟩ := Plan.bind_outcome_ok.1 h
    obtain ⟨xs, hxs, -⟩ := Plan.bind_outcome_ok.1 h
    have hrest := planArguments_looks tag env rest hxs
    exact ((planExpr_looks tag env e false hx).first hx).append (.second (hrest.first hxs) hx)

end

theorem planFieldArguments_looks {env : Environment} {as : List ArgumentDescriptor}
    {gs : List GraphArgument} (h : (scope.planFieldArguments env as).outcome = .ok gs) :
    ∀ a ∈ as, scope.Looks (scope.planFieldArguments env as) a.tag a.type.refs a.type.applies := by
  induction as generalizing gs with
  | nil => exact fun _ ha => nomatch ha
  | cons a rest ih =>
    rw [planFieldArguments] at h ⊢
    obtain ⟨x, hx, h⟩ := Plan.bind_outcome_ok.1 h
    obtain ⟨xs, hxs, -⟩ := Plan.bind_outcome_ok.1 h
    intro y hy
    rcases List.mem_cons.1 hy with rfl | hy
    · exact (planExpr_looks _ env y.type true hx).first hx
    · exact .second (.first (ih hxs y hy) hxs) hx

theorem planField_looks {env : Environment} {d : FieldDescriptor} {f : GraphField}
    (h : (scope.planField env d).outcome = .ok f) :
    ∀ x ∈ d.tagged, scope.Looks (scope.planField env d) x.1 x.2.refs x.2.applies := by
  rw [planField] at h ⊢
  obtain ⟨t, ht, h⟩ := Plan.bind_outcome_ok.1 h
  obtain ⟨gs, hgs, -⟩ := Plan.bind_outcome_ok.1 h
  intro x hx
  rcases List.mem_append.1 hx with hx | hx
  · obtain ⟨e, he, rfl⟩ := List.mem_map.1 hx
    have htype : d.type = some e := Option.mem_toList.1 he
    refine Looks.first ?_ ht
    rw [htype, planType] at ht ⊢
    obtain ⟨y, hy, -⟩ := Plan.bind_outcome_ok.1 ht
    exact (planExpr_looks d.tag env e true hy).first hy
  · obtain ⟨a, ha, rfl⟩ := List.mem_map.1 hx
    exact .second (.first (planFieldArguments_looks hgs a ha) hgs) ht

theorem planFields_looks {owner : String} {env : Environment} {ds : List FieldDescriptor}
    {fields : List GraphField} (h : (scope.planFields owner env ds).outcome = .ok fields) :
    ∀ x ∈ ds.flatMap FieldDescriptor.tagged,
      scope.Looks (scope.planFields owner env ds) x.1 x.2.refs x.2.applies := by
  induction ds generalizing fields with
  | nil => exact fun _ hx => nomatch hx
  | cons d rest ih =>
    rw [planFields] at h ⊢
    obtain ⟨f, hf, h⟩ := Plan.bind_outcome_ok.1 h
    obtain ⟨fs, hfs, -⟩ := Plan.bind_outcome_ok.1 h
    intro x hx
    rw [List.flatMap_cons, List.mem_append] at hx
    rcases hx with hx | hx
    · have hfield := planField_looks hf x hx
      exact ⟨(hfield.first hf).refs, hfield.applies⟩
    · exact .second (.first (ih hfs x hx) hfs) hf

/-- What a resolution has found for the names in its declarations. -/
structure Finds (scope : Scope) (s : Resolution) (x : Option String × TypeExpr) : Prop where
  refs : ∀ name ∈ x.2.refs, ∃ t, scope.target name x.1 = .ok t ∧ s.Holds t
  applies : ∀ y ∈ x.2.applies, ∃ decl, scope.model.get? y.1 = some (.generic decl)

theorem Resolved.finds {s : Resolution} {owner : String} {env : Environment}
    {ds : List FieldDescriptor} {fields : List GraphField}
    (h : Resolved s (scope.planFields owner env ds) fields) :
    ∀ x ∈ ds.flatMap FieldDescriptor.tagged, scope.Finds s x := by
  intro x hx
  have hlooks := planFields_looks h.outcome x hx
  refine ⟨fun name hname => ?_, hlooks.applies⟩
  obtain ⟨t, ht, site, hsite⟩ := hlooks.refs name hname
  exact ⟨t, ht, h.met _ hsite⟩

/-- Every name that is mentioned has been found. -/
theorem Complete.finds {s : Resolution} (h : scope.Complete s) {d : Declaration}
    (hd : d ∈ scope.model.declarations) : ∀ x ∈ d.tagged, scope.Finds s x := by
  cases d with
  | object decl =>
    obtain ⟨t, -, -, -, hfields⟩ := h.entered _ hd
    exact hfields.finds
  | generic decl =>
    obtain ⟨t, -, hsound⟩ := h.template hd
    exact hsound.body.finds
  | enum decl => exact fun _ hx => nomatch hx
  | scalar decl => exact fun _ hx => nomatch hx

end Scope

end SchemaCompiler
