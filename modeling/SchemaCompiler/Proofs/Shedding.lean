import SchemaCompiler.Proofs.Mentions

/-! Plans after declarations have been left out. A type that is left without a declaration is pending
under its name; as long as no reference is taken over by another type, a plan of the declarations
that are left asks for what the plan of all of them asks for, up to such types, and it fails only
where a generic is missing. So a run of these declarations fails only by a name that nothing is known
about. -/

namespace SchemaCompiler

/-- What becomes of a type: it stays as it is, or nothing is known about its name. -/
def Named.Fades (t t' : Named) : Prop :=
  t' = t ∨ t' = .pending t.name

theorem Named.Fades.name {t t' : Named} (h : t.Fades t') : t'.name = t.name := by
  rcases h with rfl | rfl <;> rfl

namespace TypeNode

/-- What becomes of the named types in a type. -/
inductive Fades : TypeNode → TypeNode → Prop
  | named {t t' : Named} (h : t.Fades t') : Fades (.named t) (.named t')
  | list {t t' : TypeNode} (h : Fades t t') : Fades (.list t) (.list t')
  | nonNull {t t' : TypeNode} (h : Fades t t') : Fades (.nonNull t) (.nonNull t')
  | placeholder (parameter : String) : Fades (.placeholder parameter) (.placeholder parameter)
  | applied (generic : String) {t t' : TypeNode} (h : Fades t t') :
      Fades (.applied generic t) (.applied generic t')

variable {t t' : TypeNode}

theorem Fades.isOpen (h : t.Fades t') : t'.isOpen = t.isOpen := by
  cases h <;> rfl

theorem Fades.mark (h : t.Fades t') (required : Bool) :
    (Scope.mark required t).Fades (Scope.mark required t') := by
  cases required
  · exact h
  · exact h.nonNull

end TypeNode

namespace Plan

variable {α β : Type} {occurs : Named → Prop} {lacks : String → Prop} {p p' : Plan α}
  {answer : α → Prop}

/-- Whether a plan is what another has become: it applies the same generics, to types that may have
faded, and it fails only where a name is missing, or a generic that it lacks. -/
structure Sheds (occurs : Named → Prop) (lacks : String → Prop) (p p' : Plan α)
    (answer : α → Prop) : Prop where
  entered : ∀ t, p'.Asks (.enter t) → occurs t ∨ t.kind = .pending
  applied : ∀ decl t', p'.Asks (.apply decl t') → ∃ t, p.Asks (.apply decl t) ∧ t.Fades t'
  answered : ∀ b, p'.outcome = .ok b → answer b
  refused : ∀ e, p'.outcome = .error e → e.cause.kind = .unresolvedReference ∨
    ∃ generic, e.cause = .notGeneric generic ∧ lacks generic

namespace Sheds

theorem of_pure {b : α} (h : answer b) : Sheds occurs lacks p (pure b) answer where
  entered t hasks := absurd hasks (asks_pure b _)
  applied decl t hasks := absurd hasks (asks_pure b _)
  answered b' hb := by cases hb; exact h
  refused e he := nomatch he

theorem of_refuse (site : Site) {cause : Cause} (h : cause.kind = .unresolvedReference ∨
      ∃ generic, cause = .notGeneric generic ∧ lacks generic) :
    Sheds occurs lacks p (refuse site cause) answer where
  entered t hasks := by obtain ⟨_, hmem⟩ := hasks; cases hmem
  applied decl t hasks := by obtain ⟨_, hmem⟩ := hasks; cases hmem
  answered b hb := nomatch hb
  refused e he := by cases he; exact h

theorem bind {f g : α → Plan β} {a : α} {answer' : β → Prop} (hp : p.outcome = .ok a)
    (h : Sheds occurs lacks p p' answer)
    (hf : ∀ b, answer b → Sheds occurs lacks (f a) (g b) answer') :
    Sheds occurs lacks (p >>= f) (p' >>= g) answer' := by
  rcases houtcome : p'.outcome with e | b
  · rw [bind_error houtcome]
    refine ⟨h.entered, fun decl t' hasks => ?_, fun _ hb => (nomatch hb), fun e' he' => ?_⟩
    · obtain ⟨t, ht, hfades⟩ := h.applied decl t' hasks
      exact ⟨t, (asks_bind hp _).2 (.inl ht), hfades⟩
    · cases he'
      exact h.refused e houtcome
  · have hnext := hf b (h.answered b houtcome)
    refine ⟨fun t hasks => ?_, fun decl t' hasks => ?_, fun b' hb' => ?_, fun e he => ?_⟩
    · exact ((asks_bind houtcome _).1 hasks).elim (h.entered t) (hnext.entered t)
    · rcases (asks_bind houtcome _).1 hasks with hasks | hasks
      · obtain ⟨t, ht, hfades⟩ := h.applied decl t' hasks
        exact ⟨t, (asks_bind hp _).2 (.inl ht), hfades⟩
      · obtain ⟨t, ht, hfades⟩ := hnext.applied decl t' hasks
        exact ⟨t, (asks_bind hp _).2 (.inr ht), hfades⟩
    · rw [bind_ok houtcome] at hb'
      exact hnext.answered b' hb'
    · rw [bind_ok houtcome] at he
      exact hnext.refused e he

end Sheds

end Plan

namespace Scope

variable {scope scope' : Scope} {occurs : Named → Prop} {lacks : String → Prop}
  {tag : Option String} {env env' : Environment}

open TypeExpr

mutual

theorem planExpr_usesParam (tag : Option String) (env : Environment) :
    ∀ (e : TypeExpr) (required : Bool) {t : TypeNode},
      (scope.planExpr tag env required e).outcome = .ok t → t.isOpen = true → e.usesParam = true
  | .nullable inner, required, t, h, hopen => by
    rw [planExpr] at h
    exact planExpr_usesParam tag env inner false h hopen
  | .list element, required, t, h, hopen => by
    rw [planExpr] at h
    obtain ⟨x, -, hpure⟩ := Plan.bind_outcome_ok.1 h
    cases hpure
    cases required <;> cases hopen
  | .param name, required, t, h, hopen => rfl
  | .apply generic arguments, required, t, h, hopen => by
    rw [planExpr] at h
    obtain ⟨types, htypes, h⟩ := Plan.bind_outcome_ok.1 h
    obtain ⟨x, hx, hpure⟩ := Plan.bind_outcome_ok.1 h
    cases hpure
    obtain ⟨decl, -, ⟨y, rfl, hyopen, rfl⟩ | ⟨argument, -, rfl⟩⟩ := planApply_cases hx
    · exact planArguments_usesParam tag env arguments htypes (List.any_eq_true.2
        ⟨y, List.mem_singleton_self y, hyopen⟩)
    · cases required <;> cases hopen
  | .ref name, required, t, h, hopen => by
    rw [planExpr] at h
    obtain ⟨n, -, hpure⟩ := Plan.bind_outcome_ok.1 h
    cases hpure
    cases required <;> cases hopen

theorem planArguments_usesParam (tag : Option String) (env : Environment) :
    ∀ (es : List TypeExpr) {ts : List TypeNode},
      (scope.planArguments tag env es).outcome = .ok ts → ts.any TypeNode.isOpen = true →
        anyUsesParam es = true
  | [], ts, h, hopen => by
    cases h
    cases hopen
  | e :: rest, ts, h, hopen => by
    rw [planArguments] at h
    obtain ⟨x, hx, h⟩ := Plan.bind_outcome_ok.1 h
    obtain ⟨xs, hxs, hpure⟩ := Plan.bind_outcome_ok.1 h
    cases hpure
    rw [List.any_cons, Bool.or_eq_true] at hopen
    rw [anyUsesParam, Bool.or_eq_true]
    exact hopen.imp (planExpr_usesParam tag env e false hx)
      (planArguments_usesParam tag env rest hxs)

end

/-- Whether names stand for the types they stood for, or for what has become of these. -/
def Steady (scope scope' : Scope) (tag : Option String) (names : List String) : Prop :=
  ∀ name ∈ names, ∀ t, scope.target name tag = .ok t →
    ∃ t', scope'.target name tag = .ok t' ∧ t.Fades t'

/-- What the names in an expression may stand for after declarations have been left out. -/
structure Survives (scope scope' : Scope) (occurs : Named → Prop) (lacks : String → Prop)
    (tag : Option String) (refs : List String) (applies : List (String × List TypeExpr)) : Prop where
  references : ∀ name ∈ refs, ∃ t, scope'.target name tag = .ok t ∧ (occurs t ∨ t.kind = .pending)
  arguments : ∀ y ∈ applies, scope.Steady scope' tag (allRefs y.2)
  heads : ∀ y ∈ applies, anyUsesParam y.2 = true → scope'.model.get? y.1 = none → lacks y.1

theorem Survives.mono {refs refs' : List String} {applies applies' : List (String × List TypeExpr)}
    (h : scope.Survives scope' occurs lacks tag refs applies) (hrefs : refs' ⊆ refs)
    (happlies : applies' ⊆ applies) : scope.Survives scope' occurs lacks tag refs' applies' :=
  ⟨fun name hname => h.references name (hrefs hname), fun y hy => h.arguments y (happlies hy),
    fun y hy => h.heads y (happlies hy)⟩

/-- Whether a model has no other declaration under a name than another model has. -/
def Fewer (scope scope' : Scope) : Prop :=
  ∀ name, scope'.model.get? name = none ∨ scope'.model.get? name = scope.model.get? name

def EnvFades (env env' : Environment) : Prop :=
  ∀ name t, env.lookup name = some t → ∃ t', env'.lookup name = some t' ∧ t.Fades t'

theorem envFades_singleton (parameter : String) {t t' : TypeNode} (h : t.Fades t') :
    EnvFades [(parameter, t)] [(parameter, t')] := by
  intro name u hlookup
  rw [List.lookup_cons] at hlookup ⊢
  rcases hname : name == parameter with _ | _
  · rw [hname] at hlookup
    cases hlookup
  · rw [hname] at hlookup
    cases hlookup
    exact ⟨t', rfl, h⟩

theorem planNamed_sheds {name : String} {t : Named}
    (h : (scope.planNamed name tag).outcome = .ok t)
    (hreference : ∃ t, scope'.target name tag = .ok t ∧ (occurs t ∨ t.kind = .pending)) :
    Plan.Sheds occurs lacks (scope.planNamed name tag) (scope'.planNamed name tag)
      fun b => scope.Steady scope' tag [name] → t.Fades b := by
  obtain ⟨t', htarget', hoccurs⟩ := hreference
  have htarget := (planNamed_looks h).1
  have hplan : scope'.planNamed name tag =
      Plan.ask scope'.site (.enter t') >>= fun _ => pure t' := by
    rw [planNamed, htarget']
  rw [hplan]
  refine ⟨fun x hasks => ?_, fun decl x hasks => ?_, fun b hb hsteady => ?_, fun e he => ?_⟩
  · rw [Plan.asks_bind (Plan.ask_outcome _ _)] at hasks
    simp only [Plan.asks_ask, Plan.asks_pure, or_false, Request.enter.injEq] at hasks
    rwa [hasks]
  · rw [Plan.asks_bind (Plan.ask_outcome _ _)] at hasks
    simp at hasks
  · obtain ⟨t₁, ht₁, hfades⟩ := hsteady name (List.mem_singleton_self _) t htarget
    rw [htarget'] at ht₁
    cases ht₁
    cases hb
    exact hfades
  · cases he

theorem planApply_sheds (hfewer : scope.Fewer scope') {generic : String} {types bs : List TypeNode}
    {t : TypeNode} (h : (scope.planApply generic types).outcome = .ok t)
    (hfades : List.Forall₂ TypeNode.Fades types bs)
    (hhead : types.any TypeNode.isOpen = true → scope'.model.get? generic = none → lacks generic) :
    Plan.Sheds occurs lacks (scope.planApply generic types) (scope'.planApply generic bs) t.Fades := by
  obtain ⟨decl, hget, ⟨x, rfl, hopen, rfl⟩ | ⟨argument, rfl, rfl⟩⟩ := planApply_cases h
  · obtain ⟨x', _, hx, hnil, rfl⟩ := List.forall₂_cons_left_iff.1 hfades
    obtain rfl := List.forall₂_nil_left_iff.1 hnil
    rcases hfewer generic with hget' | hget'
    · have hplan : scope'.planApply generic [x'] =
          Plan.refuse scope'.site (.notGeneric generic) := by
        simp [planApply, hx.isOpen, hopen, hget']
      rw [hplan]
      exact .of_refuse _ (.inr ⟨generic, rfl, hhead (by simpa using hopen) hget'⟩)
    · have hplan : scope'.planApply generic [x'] = pure (.applied generic x') := by
        simp [planApply, hx.isOpen, hopen, hget', hget]
      rw [hplan]
      exact .of_pure (.applied generic hx)
  · obtain ⟨x', _, hx, hnil, rfl⟩ := List.forall₂_cons_left_iff.1 hfades
    obtain rfl := List.forall₂_nil_left_iff.1 hnil
    cases hx with
    | @named _ t' hfade =>
      rcases hfewer generic with hget' | hget'
      · have hplan : scope'.planApply generic [.named t'] =
            Plan.refuse scope'.site (.unresolved generic) := by
          simp [planApply, TypeNode.isOpen, hget']
        rw [hplan]
        exact .of_refuse _ (.inl rfl)
      · have hasksAll (scope : Scope) (argument : Named)
            (hget : scope.model.get? generic = some (.generic decl)) :
            scope.planApply generic [.named argument] =
              Plan.ask scope.site (.apply decl argument) >>= fun _ =>
                pure (.named (.instantiation ⟨decl.name, argument.name⟩)) := by
          simp [planApply, TypeNode.isOpen, hget, namedTypes]
        rw [hasksAll scope argument hget, hasksAll scope' t' (hget'.trans hget)]
        refine ⟨fun x hasks => ?_, fun d x hasks => ?_, fun b hb => ?_, fun e he => ?_⟩
        · rw [Plan.asks_bind (Plan.ask_outcome _ _)] at hasks
          simp at hasks
        · rw [Plan.asks_bind (Plan.ask_outcome _ _)] at hasks
          simp only [Plan.asks_ask, Plan.asks_pure, or_false, Request.apply.injEq] at hasks
          obtain ⟨rfl, rfl⟩ := hasks
          exact ⟨argument, (Plan.asks_bind (Plan.ask_outcome _ _) _).2 (.inl (by simp)), hfade⟩
        · cases hb
          rw [hfade.name]
          exact .named (.inl rfl)
        · cases he

mutual

theorem planExpr_sheds (hfewer : scope.Fewer scope') (henv : EnvFades env env')
    (tag : Option String) :
    ∀ (e : TypeExpr) (required : Bool) {t : TypeNode},
      scope.Survives scope' occurs lacks tag e.refs e.applies →
        (scope.planExpr tag env required e).outcome = .ok t →
          Plan.Sheds occurs lacks (scope.planExpr tag env required e)
            (scope'.planExpr tag env' required e)
            fun b => scope.Steady scope' tag e.refs → t.Fades b
  | .nullable inner, required, t, hs, h => by
    rw [planExpr] at h ⊢
    rw [planExpr]
    exact planExpr_sheds hfewer henv tag inner false hs h
  | .list element, required, t, hs, h => by
    rw [planExpr] at h ⊢
    rw [planExpr]
    obtain ⟨x, hx, hpure⟩ := Plan.bind_outcome_ok.1 h
    cases hpure
    exact (planExpr_sheds hfewer henv tag element true hs hx).bind hx fun b hb =>
      .of_pure fun hsteady => (hb hsteady).list.mark required
  | .param name, required, t, hs, h => by
    rw [planExpr] at h ⊢
    rw [planExpr]
    rcases hlookup : env.lookup name with _ | type
    · rw [hlookup] at h
      cases h
    · rw [hlookup] at h
      cases h
      obtain ⟨type', hlookup', hfades⟩ := henv name type hlookup
      rw [hlookup']
      exact .of_pure fun _ => hfades.mark required
  | .apply generic arguments, required, t, hs, h => by
    rw [planExpr] at h ⊢
    rw [planExpr]
    obtain ⟨types, htypes, h⟩ := Plan.bind_outcome_ok.1 h
    obtain ⟨x, hx, hpure⟩ := Plan.bind_outcome_ok.1 h
    cases hpure
    -- in the arguments of a generic every name is steady
    have hsteady : scope.Steady scope' tag (allRefs arguments) :=
      hs.arguments (generic, arguments) List.mem_cons_self
    have hinside := hs.mono (fun _ h => h) (List.subset_cons_self (generic, arguments) _)
    refine (planArguments_sheds hfewer henv tag arguments hinside htypes).bind htypes
      fun bs hbs => ?_
    refine (planApply_sheds hfewer hx (hbs hsteady) fun hopen => ?_).bind hx
      fun b hb => .of_pure fun _ => hb.mark required
    exact hs.heads (generic, arguments) List.mem_cons_self
      (planArguments_usesParam tag env arguments htypes hopen)
  | .ref name, required, t, hs, h => by
    rw [planExpr] at h ⊢
    rw [planExpr]
    obtain ⟨n, hn, hpure⟩ := Plan.bind_outcome_ok.1 h
    cases hpure
    exact (planNamed_sheds hn (hs.references name (List.mem_singleton_self _))).bind hn
      fun b hb => .of_pure fun hsteady => (TypeNode.Fades.named (hb hsteady)).mark required

theorem planArguments_sheds (hfewer : scope.Fewer scope') (henv : EnvFades env env')
    (tag : Option String) :
    ∀ (es : List TypeExpr) {ts : List TypeNode},
      scope.Survives scope' occurs lacks tag (allRefs es) (allApplies es) →
        (scope.planArguments tag env es).outcome = .ok ts →
          Plan.Sheds occurs lacks (scope.planArguments tag env es) (scope'.planArguments tag env' es)
            fun bs => scope.Steady scope' tag (allRefs es) → List.Forall₂ TypeNode.Fades ts bs
  | [], ts, hs, h => by
    rw [planArguments] at h ⊢
    rw [planArguments]
    cases h
    exact .of_pure fun _ => .nil
  | e :: rest, ts, hs, h => by
    rw [planArguments] at h ⊢
    rw [planArguments]
    obtain ⟨x, hx, h⟩ := Plan.bind_outcome_ok.1 h
    obtain ⟨xs, hxs, hpure⟩ := Plan.bind_outcome_ok.1 h
    cases hpure
    have hfirst := hs.mono (List.subset_append_left e.refs _) (List.subset_append_left e.applies _)
    have hrest := hs.mono (List.subset_append_right _ (allRefs rest))
      (List.subset_append_right _ (allApplies rest))
    refine (planExpr_sheds hfewer henv tag e false hfirst hx).bind hx fun b hb => ?_
    refine (planArguments_sheds hfewer henv tag rest hrest hxs).bind hxs fun bs hbs => ?_
    exact .of_pure fun hsteady => .cons
      (hb fun name hname => hsteady name (List.mem_append_left _ hname))
      (hbs fun name hname => hsteady name (List.mem_append_right _ hname))

end

theorem planFieldArguments_sheds (hfewer : scope.Fewer scope') (henv : EnvFades env env')
    {as : List ArgumentDescriptor} {gs : List GraphArgument}
    (hs : ∀ a ∈ as, scope.Survives scope' occurs lacks a.tag a.type.refs a.type.applies)
    (h : (scope.planFieldArguments env as).outcome = .ok gs) :
    Plan.Sheds occurs lacks (scope.planFieldArguments env as) (scope'.planFieldArguments env' as)
      fun _ => True := by
  induction as generalizing gs with
  | nil => exact .of_pure trivial
  | cons a rest ih =>
    rw [planFieldArguments] at h ⊢
    rw [planFieldArguments]
    obtain ⟨x, hx, h⟩ := Plan.bind_outcome_ok.1 h
    obtain ⟨xs, hxs, -⟩ := Plan.bind_outcome_ok.1 h
    obtain ⟨hfirst, hrest⟩ := List.forall_mem_cons.1 hs
    exact (planExpr_sheds hfewer henv a.tag a.type true hfirst hx).bind hx fun _ _ =>
      (ih hrest hxs).bind hxs fun _ _ => .of_pure trivial

theorem planField_sheds (hfewer : scope.Fewer scope') (henv : EnvFades env env')
    {d : FieldDescriptor} {f : GraphField}
    (hs : ∀ x ∈ d.tagged, scope.Survives scope' occurs lacks x.1 x.2.refs x.2.applies)
    (h : (scope.planField env d).outcome = .ok f) :
    Plan.Sheds occurs lacks (scope.planField env d) (scope'.planField env' d) fun _ => True := by
  rw [planField] at h ⊢
  rw [planField]
  obtain ⟨t, ht, h⟩ := Plan.bind_outcome_ok.1 h
  obtain ⟨gs, hgs, -⟩ := Plan.bind_outcome_ok.1 h
  have htype : Plan.Sheds occurs lacks (scope.planType d.tag env d.type)
      (scope'.planType d.tag env' d.type) fun _ => True := by
    rcases hd : d.type with _ | e
    · exact .of_pure trivial
    · rw [hd, planType] at ht
      rw [planType, planType]
      obtain ⟨x, hx, -⟩ := Plan.bind_outcome_ok.1 ht
      have hmem : (d.tag, e) ∈ d.tagged :=
        List.mem_append_left _ (List.mem_map.2 ⟨e, Option.mem_toList.2 hd, rfl⟩)
      exact (planExpr_sheds hfewer henv d.tag e true (hs _ hmem) hx).bind hx fun _ _ =>
        .of_pure trivial
  refine htype.bind ht fun _ _ => ?_
  refine (planFieldArguments_sheds hfewer henv (fun a ha => ?_) hgs).bind hgs fun _ _ =>
    .of_pure trivial
  exact hs (a.tag, a.type) (List.mem_append_right _ (List.mem_map_of_mem ha))

/-- The plan of a declaration's fields is what it was, up to types that have faded. -/
theorem planFields_sheds (hfewer : scope.Fewer scope') (henv : EnvFades env env') (owner : String)
    {ds : List FieldDescriptor} {fields : List GraphField}
    (hs : ∀ x ∈ ds.flatMap FieldDescriptor.tagged,
      scope.Survives scope' occurs lacks x.1 x.2.refs x.2.applies)
    (h : (scope.planFields owner env ds).outcome = .ok fields) :
    Plan.Sheds occurs lacks (scope.planFields owner env ds) (scope'.planFields owner env' ds)
      fun _ => True := by
  induction ds generalizing fields with
  | nil => exact .of_pure trivial
  | cons d rest ih =>
    rw [planFields] at h ⊢
    rw [planFields]
    obtain ⟨f, hf, h⟩ := Plan.bind_outcome_ok.1 h
    obtain ⟨fs, hfs, -⟩ := Plan.bind_outcome_ok.1 h
    rw [List.flatMap_cons, List.forall_mem_append] at hs
    have hfield : ∀ x ∈ d.tagged, (scope.focus ⟨owner, d.name⟩).Survives
        (scope'.focus ⟨owner, d.name⟩) occurs lacks x.1 x.2.refs x.2.applies := fun x hx =>
      ⟨(hs.1 x hx).references, (hs.1 x hx).arguments, (hs.1 x hx).heads⟩
    have hfewer' : (scope.focus ⟨owner, d.name⟩).Fewer (scope'.focus ⟨owner, d.name⟩) := hfewer
    exact (planField_sheds hfewer' henv hfield hf).bind hf fun _ _ =>
      (ih hs.2 hfs).bind hfs fun _ _ => .of_pure trivial

end Scope

end SchemaCompiler
