import SchemaCompiler.Proofs.Succeeding

/-! Scopes that know the same declarations and scalars, in whatever order. They make the same plans,
so the same types occur in both, and one is consistent if the other is. -/

namespace SchemaCompiler

/-- Plans that ask for the same and answer the same; they may fail with different errors. -/
structure Plan.Alike {α : Type} (p q : Plan α) : Prop where
  requests : p.requests = q.requests
  outcome : ∀ a, p.outcome = .ok a ↔ q.outcome = .ok a

namespace Plan.Alike

variable {α β : Type} {p q : Plan α}

theorem refl (p : Plan α) : p.Alike p :=
  ⟨rfl, fun _ => .rfl⟩

theorem bind {f g : α → Plan β} (h : p.Alike q) (hf : ∀ a, (f a).Alike (g a)) :
    (p >>= f).Alike (q >>= g) := by
  rcases hp : p.outcome with e | a
  · rcases hq : q.outcome with e' | a
    · rw [bind_error hp, bind_error hq]
      exact ⟨h.requests, fun b => ⟨fun hb => (nomatch hb), fun hb => nomatch hb⟩⟩
    · rw [(h.outcome a).2 hq] at hp
      cases hp
  · rw [bind_ok hp, bind_ok ((h.outcome a).1 hp)]
    exact ⟨by rw [h.requests, (hf a).requests], (hf a).outcome⟩

theorem asks (h : p.Alike q) (r : Request) : p.Asks r ↔ q.Asks r := by
  rw [Asks, Asks, h.requests]

end Plan.Alike

namespace Scope

/-- Scopes that know the same declarations and the same scalars. -/
structure Alike (scope scope' : Scope) : Prop where
  site : scope.site = scope'.site
  get? : ∀ name, scope.model.get? name = scope'.model.get? name
  declarations : ∀ d, d ∈ scope.model.declarations ↔ d ∈ scope'.model.declarations
  has : ∀ name, scope.registry.has name = scope'.registry.has name
  byName? : ∀ name, scope.registry.byName? name = scope'.registry.byName? name
  binding? : ∀ name tag, scope.registry.binding? name tag = scope'.registry.binding? name tag

variable {scope scope' : Scope}

theorem Alike.symm (h : scope.Alike scope') : scope'.Alike scope where
  site := h.site.symm
  get? name := (h.get? name).symm
  declarations d := (h.declarations d).symm
  has name := (h.has name).symm
  byName? name := (h.byName? name).symm
  binding? name tag := (h.binding? name tag).symm

theorem Alike.focus (h : scope.Alike scope') (site : Site) :
    (scope.focus site).Alike (scope'.focus site) :=
  ⟨rfl, h.get?, h.declarations, h.has, h.byName?, h.binding?⟩

theorem Alike.target (h : scope.Alike scope') (name : String) (tag : Option String) (t : Named) :
    scope.target name tag = .ok t ↔ scope'.target name tag = .ok t := by
  have hlookup : ∀ s, scope.registry.lookup name tag = .ok s ↔
      scope'.registry.lookup name tag = .ok s := by
    intro s
    rw [ScalarRegistry.lookup_eq_ok, ScalarRegistry.lookup_eq_ok, h.binding?]
  have hscalarOf : ∀ otherwise, scope.scalarOf otherwise name tag = .ok t ↔
      scope'.scalarOf otherwise name tag = .ok t := by
    intro otherwise
    unfold scalarOf
    rw [h.has, h.byName?]
    split
    · constructor
      · intro heq
        rcases hs : scope.registry.lookup name tag with c | s
        · rw [hs] at heq; cases heq
        · rw [hs] at heq; cases heq; rw [(hlookup s).1 hs]; rfl
      · intro heq
        rcases hs : scope'.registry.lookup name tag with c | s
        · rw [hs] at heq; cases heq
        · rw [hs] at heq; cases heq; rw [(hlookup s).2 hs]; rfl
    · exact .rfl
  unfold Scope.target
  rw [h.get?]
  split
  · exact .rfl
  · exact .rfl
  · exact .rfl
  · exact hscalarOf _
  · exact hscalarOf _

theorem planNamed_alike (h : scope.Alike scope') (name : String) (tag : Option String) :
    (scope.planNamed name tag).Alike (scope'.planNamed name tag) := by
  unfold planNamed
  rcases ht : scope.target name tag with c | t
  · rcases ht' : scope'.target name tag with c' | t
    · exact ⟨rfl, fun a => ⟨fun ha => (nomatch ha), fun ha => nomatch ha⟩⟩
    · rw [(h.target name tag t).2 ht'] at ht
      cases ht
  · rw [(h.target name tag t).1 ht, h.site]
    exact .refl _

theorem planApply_alike (h : scope.Alike scope') (generic : String) (types : List TypeNode) :
    (scope.planApply generic types).Alike (scope'.planApply generic types) := by
  unfold planApply
  rw [h.get?, h.site]
  exact .refl _

mutual

theorem planExpr_alike (h : scope.Alike scope') (tag : Option String) (env : Environment) :
    ∀ (e : TypeExpr) (required : Bool),
      (scope.planExpr tag env required e).Alike (scope'.planExpr tag env required e)
  | .nullable inner, required => by
    rw [planExpr, planExpr]
    exact planExpr_alike h tag env inner false
  | .list element, required => by
    rw [planExpr, planExpr]
    exact (planExpr_alike h tag env element true).bind fun _ => .refl _
  | .param name, required => by
    rw [planExpr, planExpr, h.site]
    exact .refl _
  | .apply generic arguments, required => by
    rw [planExpr, planExpr]
    exact (planArguments_alike h tag env arguments).bind fun types =>
      (planApply_alike h generic types).bind fun _ => .refl _
  | .ref name, required => by
    rw [planExpr, planExpr]
    exact (planNamed_alike h name tag).bind fun _ => .refl _

theorem planArguments_alike (h : scope.Alike scope') (tag : Option String) (env : Environment) :
    ∀ es : List TypeExpr,
      (scope.planArguments tag env es).Alike (scope'.planArguments tag env es)
  | [] => by
    rw [planArguments, planArguments]
    exact .refl _
  | e :: rest => by
    rw [planArguments, planArguments]
    exact (planExpr_alike h tag env e false).bind fun _ =>
      (planArguments_alike h tag env rest).bind fun _ => .refl _

end

theorem planFieldArguments_alike (h : scope.Alike scope') (env : Environment)
    (as : List ArgumentDescriptor) :
    (scope.planFieldArguments env as).Alike (scope'.planFieldArguments env as) := by
  induction as with
  | nil => exact .refl _
  | cons a rest ih =>
    rw [planFieldArguments, planFieldArguments]
    exact (planExpr_alike h a.tag env a.type true).bind fun _ => ih.bind fun _ => .refl _

theorem planField_alike (h : scope.Alike scope') (env : Environment) (d : FieldDescriptor) :
    (scope.planField env d).Alike (scope'.planField env d) := by
  rw [planField, planField]
  refine Plan.Alike.bind ?_ fun _ =>
    (planFieldArguments_alike h env d.arguments).bind fun _ => .refl _
  rcases d.type with _ | e
  · exact .refl _
  · exact (planExpr_alike h d.tag env e true).bind fun _ => .refl _

theorem planFields_alike (h : scope.Alike scope') (owner : String) (env : Environment)
    (ds : List FieldDescriptor) :
    (scope.planFields owner env ds).Alike (scope'.planFields owner env ds) := by
  induction ds with
  | nil => exact .refl _
  | cons d rest ih =>
    rw [planFields, planFields]
    exact (planField_alike (h.focus _) env d).bind fun _ => ih.bind fun _ => .refl _

theorem Planned.alike (h : scope.Alike scope') {plan : Plan (List GraphField)}
    (hplan : scope.Planned plan) : ∃ plan', scope'.Planned plan' ∧ plan.Alike plan' := by
  induction hplan with
  | object hdecl =>
    exact ⟨_, .object ((h.declarations _).1 hdecl), planFields_alike h _ _ _⟩
  | generic hdecl =>
    exact ⟨_, .generic ((h.declarations _).1 hdecl), planFields_alike h _ _ _⟩
  | body hplan hasks ih =>
    obtain ⟨plan', hplan', halike⟩ := ih
    exact ⟨_, .body hplan' ((halike.asks _).1 hasks), planFields_alike h _ _ _⟩

theorem Occurs.alike (h : scope.Alike scope') {t : Named} (ht : scope.Occurs t) :
    scope'.Occurs t := by
  cases ht with
  | object hdecl => exact .object ((h.declarations _).1 hdecl)
  | enum hdecl => exact .enum ((h.declarations _).1 hdecl)
  | scalar hdecl hs => exact .scalar ((h.declarations _).1 hdecl) (h.byName? _ ▸ hs)
  | entered hplan hasks =>
    obtain ⟨plan', hplan', halike⟩ := hplan.alike h
    exact .entered hplan' ((halike.asks _).1 hasks)
  | applied hplan hasks =>
    obtain ⟨plan', hplan', halike⟩ := hplan.alike h
    exact .applied hplan' ((halike.asks _).1 hasks)

/-- Consistency does not hang on the order of what a scope knows. -/
theorem Consistent.alike (h : scope.Alike scope') (hc : scope.Consistent) : scope'.Consistent where
  answered plan hplan := by
    obtain ⟨plan', hplan', halike⟩ := hplan.alike h.symm
    obtain ⟨fields, houtcome, hbindable⟩ := hc.answered plan' hplan'
    exact ⟨fields, (halike.outcome fields).2 houtcome, hbindable⟩
  registered decl hdecl := by
    obtain ⟨s, hs⟩ := hc.registered decl ((h.declarations _).2 hdecl)
    exact ⟨s, h.byName? _ ▸ hs⟩
  known name ht := hc.known name (ht.alike h.symm)
  distinct t t' ht ht' := hc.distinct t t' (ht.alike h.symm) (ht'.alike h.symm)
  apart t decl ht hdecl := hc.apart t decl (ht.alike h.symm) ((h.declarations _).2 hdecl)
  bounded := by
    obtain ⟨n, hn⟩ := hc.bounded
    refine ⟨n, fun decl argument ⟨plan, hplan, hasks⟩ => hn decl argument ?_⟩
    obtain ⟨plan', hplan', halike⟩ := hplan.alike h.symm
    exact ⟨plan', hplan', (halike.asks _).1 hasks⟩

end Scope

/-- Where at most one element passes a test, the order of a list makes no difference to what is
found. -/
theorem find?_eq_of_perm {α : Type} {p : α → Bool} {as bs : List α} (h : as.Perm bs)
    (hunique : ∀ a ∈ as, ∀ a' ∈ as, p a = true → p a' = true → a = a') :
    as.find? p = bs.find? p := by
  rcases hb : bs.find? p with _ | b
  · rw [List.find?_eq_none] at hb ⊢
    exact fun a ha => hb a (h.mem_iff.1 ha)
  · rcases ha : as.find? p with _ | a
    · rw [List.find?_eq_none] at ha
      exact absurd (List.find?_some hb) (ha b (h.mem_iff.2 (List.mem_of_find?_eq_some hb)))
    · rw [hunique a (List.mem_of_find?_eq_some ha) b
        (h.mem_iff.2 (List.mem_of_find?_eq_some hb)) (List.find?_some ha) (List.find?_some hb)]

theorem find?_name_of_perm {α : Type} {name : α → String} {as bs : List α} (h : as.Perm bs)
    (hnames : (as.map name).Nodup) (n : String) :
    as.find? (name · = n) = bs.find? (name · = n) := by
  refine find?_eq_of_perm h fun a ha a' ha' hn hn' => ?_
  rw [decide_eq_true_eq] at hn hn'
  exact List.inj_on_of_nodup_map hnames ha ha' (hn.trans hn'.symm)

/-- Registries of the same declarations in different orders answer the same. -/
theorem alike_of_perm {model model' : SourceModel} {registry registry' : ScalarRegistry}
    (hperm : model.declarations.Perm model'.declarations)
    (hnames : (model.declarations.map Declaration.name).Nodup)
    (h : ScalarRegistry.ofModel model = .ok registry)
    (h' : ScalarRegistry.ofModel model' = .ok registry') :
    ({ model, registry : Scope }).Alike { model := model', registry := registry' } := by
  obtain ⟨hunambiguous, hscalars⟩ := ScalarRegistry.ofModel_eq_ok h
  obtain ⟨-, hscalars'⟩ := ScalarRegistry.ofModel_eq_ok h'
  have hscalarsPerm : registry.scalars.Perm registry'.scalars := by
    rw [hscalars, hscalars']
    exact ((hperm.filterMap _).map _).append_left _
  refine ⟨rfl, find?_name_of_perm hperm hnames, fun d => hperm.mem_iff, fun name => ?_,
    find?_name_of_perm hscalarsPerm hunambiguous.names, fun name tag => ?_⟩
  · exact hscalarsPerm.any_eq
  · refine find?_eq_of_perm hscalarsPerm fun s hs s' hs' hkey hkey' => ?_
    rw [decide_eq_true_eq] at hkey hkey'
    refine List.inj_on_of_nodup_map hunambiguous.bindings hs hs' ?_
    simp only [hkey.1, hkey.2, hkey'.1, hkey'.2]

end SchemaCompiler
