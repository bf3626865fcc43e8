import SchemaCompiler.Proofs.Asking

/-! What plans answer. The types in an answer are made from named types and from what type
parameters stand for, by wrappers and by applications that stay open; whatever these steps keep
holds of every type that a plan answers. -/

namespace SchemaCompiler

namespace Scope

variable {scope : Scope}

/-- What a generic can be applied to: one open type, or one named type. -/
theorem planApply_cases {generic : String} {types : List TypeNode} {t : TypeNode}
    (h : (scope.planApply generic types).outcome = .ok t) :
    ∃ decl, scope.model.get? generic = some (.generic decl) ∧
      ((∃ x, types = [x] ∧ x.isOpen = true ∧ t = .applied generic x) ∨
        ∃ argument, types = [.named argument] ∧
          t = .named (.instantiation ⟨decl.name, argument.name⟩)) := by
  unfold planApply at h
  rcases hget : scope.model.get? generic with _ | ⟨d | decl | d | d⟩
  case some.generic =>
    refine ⟨decl, rfl, ?_⟩
    simp only [hget] at h
    split at h
    · rename_i hopen
      rcases types with _ | ⟨x, _ | ⟨y, rest⟩⟩
      · cases h
      · cases h
        exact .inl ⟨x, rfl, by simpa using hopen, rfl⟩
      · cases h
    · rcases hnamed : namedTypes types with _ | ⟨_ | ⟨argument, _ | ⟨second, rest⟩⟩⟩
      all_goals rw [hnamed] at h; cases h
      exact .inr ⟨argument, namedTypes_eq_some hnamed, rfl⟩
  all_goals
    simp only [hget] at h
    split at h <;> cases h

/-- A property of types that the making of types keeps, starting from an environment. -/
structure Kept (scope : Scope) (env : Environment) (P : TypeNode → Prop) : Prop where
  env : ∀ name type, env.lookup name = some type → P type
  named : ∀ n, P (.named n)
  list : ∀ t, P t → P (.list t)
  nonNull : ∀ t, P t → P (.nonNull t)
  applied : ∀ generic decl t, scope.model.get? generic = some (.generic decl) → t.isOpen = true →
    P t → P (.applied generic t)

variable {env : Environment} {P : TypeNode → Prop}

theorem Kept.mark (hP : scope.Kept env P) (required : Bool) {t : TypeNode} (h : P t) :
    P (Scope.mark required t) := by
  cases required
  · exact h
  · exact hP.nonNull t h

theorem Kept.focus (hP : scope.Kept env P) (site : Site) : (scope.focus site).Kept env P :=
  ⟨hP.env, hP.named, hP.list, hP.nonNull, hP.applied⟩

mutual

theorem planExpr_kept (hP : scope.Kept env P) (tag : Option String) :
    ∀ (e : TypeExpr) (required : Bool) {t : TypeNode},
      (scope.planExpr tag env required e).outcome = .ok t → P t
  | .nullable inner, required, t, h => by
    rw [planExpr] at h
    exact planExpr_kept hP tag inner false h
  | .list element, required, t, h => by
    rw [planExpr] at h
    obtain ⟨x, hx, hpure⟩ := Plan.bind_outcome_ok.1 h
    obtain rfl : mark required (.list x) = t := Except.ok.inj hpure
    exact hP.mark required (hP.list x (planExpr_kept hP tag element true hx))
  | .param name, required, t, h => by
    rw [planExpr] at h
    rcases hlookup : env.lookup name with _ | type
    · rw [hlookup] at h; cases h
    · rw [hlookup] at h
      obtain rfl : mark required type = t := Except.ok.inj h
      exact hP.mark required (hP.env name type hlookup)
  | .apply generic arguments, required, t, h => by
    rw [planExpr] at h
    obtain ⟨types, htypes, h⟩ := Plan.bind_outcome_ok.1 h
    obtain ⟨x, hx, hpure⟩ := Plan.bind_outcome_ok.1 h
    obtain rfl : mark required x = t := Except.ok.inj hpure
    have hall := planArguments_kept hP tag arguments htypes
    refine hP.mark required ?_
    obtain ⟨decl, hget, ⟨y, rfl, hopen, rfl⟩ | ⟨argument, -, rfl⟩⟩ := planApply_cases hx
    · exact hP.applied generic decl y hget hopen (hall y (List.mem_singleton_self y))
    · exact hP.named _
  | .ref name, required, t, h => by
    rw [planExpr] at h
    obtain ⟨n, -, hpure⟩ := Plan.bind_outcome_ok.1 h
    obtain rfl : mark required (.named n) = t := Except.ok.inj hpure
    exact hP.mark required (hP.named n)

theorem planArguments_kept (hP : scope.Kept env P) (tag : Option String) :
    ∀ (es : List TypeExpr) {ts : List TypeNode},
      (scope.planArguments tag env es).outcome = .ok ts → ∀ t ∈ ts, P t
  | [], ts, h => by
    rw [planArguments] at h
    cases h
    exact fun _ ht => nomatch ht
  | e :: rest, ts, h => by
    rw [planArguments] at h
    obtain ⟨x, hx, h⟩ := Plan.bind_outcome_ok.1 h
    obtain ⟨xs, hxs, hpure⟩ := Plan.bind_outcome_ok.1 h
    obtain rfl : x :: xs = ts := Except.ok.inj hpure
    exact List.forall_mem_cons.2
      ⟨planExpr_kept hP tag e false hx, planArguments_kept hP tag rest hxs⟩

end

theorem planFieldArguments_kept (hP : scope.Kept env P) {as : List ArgumentDescriptor}
    {gs : List GraphArgument} (h : (scope.planFieldArguments env as).outcome = .ok gs) :
    ∀ g ∈ gs, P g.type := by
  induction as generalizing gs with
  | nil => cases h; exact fun _ hg => nomatch hg
  | cons a rest ih =>
    rw [planFieldArguments] at h
    obtain ⟨x, hx, h⟩ := Plan.bind_outcome_ok.1 h
    obtain ⟨xs, hxs, hpure⟩ := Plan.bind_outcome_ok.1 h
    obtain rfl : ⟨a.name, x, a.description⟩ :: xs = gs := Except.ok.inj hpure
    exact List.forall_mem_cons.2 ⟨planExpr_kept hP a.tag a.type true hx, ih hxs⟩

theorem planField_kept (hP : scope.Kept env P) {d : FieldDescriptor} {f : GraphField}
    (h : (scope.planField env d).outcome = .ok f) :
    f.descriptor = d ∧ f.name = d.name ∧ ∀ t ∈ f.types, P t := by
  rw [planField] at h
  obtain ⟨x, hx, h⟩ := Plan.bind_outcome_ok.1 h
  obtain ⟨gs, hgs, hpure⟩ := Plan.bind_outcome_ok.1 h
  obtain rfl : ⟨d.name, x, d, gs⟩ = f := Except.ok.inj hpure
  refine ⟨rfl, rfl, fun t ht => ?_⟩
  rcases List.mem_append.1 ht with ht | ht
  · rcases htype : d.type with _ | e
    · rw [htype] at hx
      cases hx
      cases ht
    · rw [htype, planType] at hx
      obtain ⟨y, hy, hpure⟩ := Plan.bind_outcome_ok.1 hx
      obtain rfl : some y = x := Except.ok.inj hpure
      rw [List.mem_singleton.1 ht]
      exact planExpr_kept hP d.tag e true hy
  · obtain ⟨g, hg, rfl⟩ := List.mem_map.1 ht
    exact planFieldArguments_kept hP hgs g hg

/-- All types in the fields of a declaration have a property that is kept, and each field carries
the name that its descriptor has. -/
theorem planFields_kept (hP : scope.Kept env P) {owner : String} {ds : List FieldDescriptor}
    {fields : List GraphField} (h : (scope.planFields owner env ds).outcome = .ok fields) :
    (∀ f ∈ fields, f.descriptor.name = f.name) ∧ ∀ t ∈ TypeGraph.references fields, P t := by
  induction ds generalizing fields with
  | nil =>
    cases h
    exact ⟨fun _ hf => (nomatch hf), fun _ ht => nomatch ht⟩
  | cons d rest ih =>
    rw [planFields] at h
    obtain ⟨f, hf, h⟩ := Plan.bind_outcome_ok.1 h
    obtain ⟨fs, hfs, hpure⟩ := Plan.bind_outcome_ok.1 h
    obtain rfl : f :: fs = fields := Except.ok.inj hpure
    obtain ⟨hdescriptor, hname, htypes⟩ := planField_kept (hP.focus _) hf
    obtain ⟨hnames, hall⟩ := ih hfs
    refine ⟨List.forall_mem_cons.2 ⟨by rw [hdescriptor, hname], hnames⟩, fun t ht => ?_⟩
    rw [TypeGraph.references_cons] at ht
    rcases List.mem_append.1 ht with ht | ht
    · exact htypes t ht
    · exact hall t ht

/-- A type made from closed types is closed. -/
theorem kept_isClosed (henv : ∀ name type, env.lookup name = some type → type.isClosed = true) :
    scope.Kept env fun t => t.isClosed = true where
  env := henv
  named _ := rfl
  list _ h := h
  nonNull _ h := h
  applied _ _ t _ hopen h := by
    rw [TypeNode.isOpen_of_isClosed h] at hopen
    cases hopen

end Scope

end SchemaCompiler
