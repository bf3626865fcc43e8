import SchemaCompiler.Proofs.Invariant

/-! What a request does to a sound state. The state stays sound and grows whatever the answer is;
when the answer is good the request is met, and the same instantiations are open as before. -/

namespace SchemaCompiler

namespace Scope

variable {α : Type} {scope : Scope} {inst : Instantiate} {known : Named → Prop} {s : Resolution}

/-- A result that a sound state advances to. -/
structure Advances (scope : Scope) (s : Resolution) (r : Except CompileError α × Resolution)
    (met : Resolution → Prop) : Prop where
  sound : scope.Sound r.2
  grows : s.Grows r.2
  met : ∀ a, r.1 = .ok a → met r.2
  still : ∀ a, r.1 = .ok a → ∀ key, r.2.Open key ↔ s.Open key

theorem Advances.stays (h : scope.Sound s) (e : CompileError) (met : Resolution → Prop) :
    scope.Advances s ((.error e, s) : Except CompileError α × Resolution) met :=
  ⟨h, .refl s, fun _ ha => (nomatch ha), fun _ ha => nomatch ha⟩

theorem Advances.of_error {β : Type} {s' : Resolution} {e e' : CompileError}
    {met met' : Resolution → Prop}
    (h : scope.Advances s ((.error e, s') : Except CompileError α × Resolution) met) :
    scope.Advances s ((.error e', s') : Except CompileError β × Resolution) met' :=
  ⟨h.sound, h.grows, fun _ ha => (nomatch ha), fun _ ha => nomatch ha⟩

theorem Advances.of_ok {β : Type} {s' : Resolution} {a : α} {b : β} {met met' : Resolution → Prop}
    (h : scope.Advances s ((.ok a, s') : Except CompileError α × Resolution) met)
    (hmet : met s' → met' s') :
    scope.Advances s ((.ok b, s') : Except CompileError β × Resolution) met' :=
  ⟨h.sound, h.grows, fun _ _ => hmet (h.met a rfl), fun _ _ => h.still a rfl⟩

/-- An instantiation step of which the invariant is known. -/
def Sturdy (scope : Scope) (inst : Instantiate) : Prop :=
  ∀ site decl argument s, scope.model.get? decl.name = some (.generic decl) → scope.Sound s →
    s.Holds argument →
      scope.Advances s (inst (scope.focus site) decl.name [.type (.named argument)] s)
        (·.Holds (.instantiation ⟨decl.name, argument.name⟩))

theorem shell_sound {t : Named} (ht : scope.IsTarget t) (site : Site) :
    scope.NodeSound s (t.shell site) := by
  cases t with
  | object name =>
    obtain ⟨decl, hdecl, hname⟩ := ht
    exact ⟨decl, hdecl, hname, fun hf => by cases hf⟩
  | enum name =>
    obtain ⟨decl, hdecl, hname⟩ := ht
    exact ⟨decl, hdecl, hname, fun hf => by cases hf⟩
  | scalar sc => exact ht
  | pending name => exact ht
  | instantiation key => exact ht.elim

theorem enter_advances {t : Named} (hs : scope.Sound s) (ht : scope.IsTarget t) (site : Site) :
    scope.Advances s (ResolveM.onGraph (·.enter site t) s) (·.Holds t) := by
  rw [ResolveM.onGraph_apply]
  rcases h : s.graph.enter site t with e | ⟨r, g⟩
  · exact .stays hs e _
  · obtain ⟨rfl, ⟨rfl, node, hnode, href⟩ | ⟨htemplate, hget, rfl⟩⟩ := enter_eq_ok hs.tidy ht h
    · exact ⟨hs, .refl s, fun _ _ => .inl (href ▸ List.mem_map_of_mem hnode), fun _ _ _ => .rfl⟩
    · refine ⟨hs.append (by simpa using hget) (by simpa using htemplate) (shell_sound ht site)
        hs.finished fun key => ?_,
        ⟨List.prefix_append _ _, List.prefix_refl _, List.prefix_refl _, rfl, fun o ho hf => ?_⟩,
        fun _ _ => .inl ?_, fun _ _ _ => .rfl⟩
      · simp only [iff_self_or]
        rintro ⟨i, hi, -⟩
        cases r with
        | instantiation key => exact ht.elim
        | _ => cases hi
      · refine (List.mem_append.1 ho).resolve_right fun ho => ?_
        rw [List.mem_singleton] at ho
        cases r with
        | object name => cases ho; cases hf
        | _ => cases ho
      · rw [List.map_append, List.map_singleton, Named.shell_ref]
        exact List.mem_append_right _ (List.mem_singleton_self _)

theorem meet_advances (hinst : scope.Sturdy inst) (hs : scope.Sound s)
    (hknown : ∀ t, known t → s.Holds t) {r : Request} (hr : scope.Ready known r) (site : Site) :
    scope.Advances s (scope.meet inst site r s) (·.Met r) := by
  cases r with
  | enter t =>
    have h := enter_advances hs hr site
    rw [meet, ResolveM.bind_apply]
    rcases hrun : ResolveM.onGraph (·.enter site t) s with ⟨e | a, s'⟩
    · rw [hrun] at h; exact h.of_error
    · rw [hrun] at h; exact h.of_ok id
  | apply generic argument =>
    have h := hinst site generic argument s hr.1 hs (hknown _ hr.2)
    rw [meet, ResolveM.bind_apply]
    rcases hrun : inst (scope.focus site) generic.name [.type (.named argument)] s
      with ⟨e | a, s'⟩
    · rw [hrun] at h; exact h.of_error
    · rw [hrun] at h
      exact h.of_ok fun hheld => ⟨h.grows.below.holds _ (hknown _ hr.2), hheld⟩

theorem Request.holds_type {r : Request} (h : s.Met r) : s.Holds r.type := by
  cases r with
  | enter t => exact h
  | apply generic argument => exact h.2

theorem meetAll_advances (hinst : scope.Sturdy inst) (hs : scope.Sound s)
    (hknown : ∀ t, known t → s.Holds t) {rs : List (Site × Request)}
    (hrs : scope.Ordered known rs) :
    scope.Advances s (scope.meetAll inst rs s) fun s' => ∀ r ∈ rs, s'.Met r.2 := by
  induction rs generalizing s known with
  | nil => exact ⟨hs, .refl s, fun _ _ r hr => (nomatch hr), fun _ _ _ => .rfl⟩
  | cons r rest ih =>
    rcases r with ⟨site, request⟩
    have hfirst := meet_advances hinst hs hknown hrs.1 site
    rw [meetAll, ResolveM.bind_apply, ResolveM.attaching_apply]
    rcases hrun : scope.meet inst site request s with ⟨e | a, mid⟩
    · rw [hrun] at hfirst; exact hfirst.of_error
    · rw [hrun] at hfirst
      have hknown' : ∀ t, known t ∨ request.type = t → mid.Holds t := by
        rintro t (ht | rfl)
        · exact hfirst.grows.below.holds _ (hknown t ht)
        · exact Request.holds_type (hfirst.met a rfl)
      have hrest := ih hfirst.sound hknown' hrs.2
      refine ⟨hrest.sound, hfirst.grows.trans hrest.grows, fun b hb x hx => ?_,
        fun b hb key => (hrest.still b hb key).trans (hfirst.still a rfl key)⟩
      rcases List.mem_cons.1 hx with rfl | hx
      · exact hrest.grows.below.met (hfirst.met a rfl)
      · exact hrest.met b hb x hx

theorem perform_apply (p : Plan α) (s : Resolution) :
    scope.perform inst p s = match scope.meetAll inst p.requests s, p.outcome with
      | (.error e, s'), _ => (.error e, s')
      | (.ok _, s'), .ok a => (.ok a, s')
      | (.ok _, s'), .error e => (.error e, s') := by
  rw [perform, ResolveM.bind_apply]
  rcases scope.meetAll inst p.requests s with ⟨e | u, s'⟩
  · rfl
  · rcases p.outcome with e | a <;> rfl

theorem perform_eq_ok {p : Plan α} {s' : Resolution} {a : α} :
    scope.perform inst p s = (.ok a, s') ↔
      scope.meetAll inst p.requests s = (.ok (), s') ∧ p.outcome = .ok a := by
  rw [perform_apply]
  rcases scope.meetAll inst p.requests s with ⟨e | u, mid⟩
  · constructor
    · intro h; cases h
    · rintro ⟨h, -⟩; cases h
  · rcases p.outcome with e | b
    · constructor
      · intro h; cases h
      · rintro ⟨-, h⟩; cases h
    · constructor
      · intro h; cases h; exact ⟨rfl, rfl⟩
      · rintro ⟨h, hb⟩; cases h; cases hb; rfl

/-- Carrying out the plan of a declaration's fields resolves them. -/
theorem perform_advances (hinst : scope.Sturdy inst) (hs : scope.Sound s)
    (hknown : ∀ t, known t → s.Holds t) {p : Plan α} (hp : scope.Ordered known p.requests) :
    scope.Advances s (scope.perform inst p s) fun s' => ∀ r ∈ p.requests, s'.Met r.2 := by
  have h := meetAll_advances hinst hs hknown hp
  rw [perform_apply]
  rcases hrun : scope.meetAll inst p.requests s with ⟨e | u, mid⟩
  · rw [hrun] at h; exact h.of_error
  · rw [hrun] at h
    rcases p.outcome with e | a
    · exact ⟨h.sound, h.grows, fun _ ha => (nomatch ha), fun _ ha => nomatch ha⟩
    · exact h.of_ok id

theorem cached?_eq_none {key : InstanceKey} :
    s.cached? key = none ↔ key ∉ s.memo.map (·.key) := by
  simp [Resolution.cached?, List.find?_eq_none]

theorem cached_advances (hs : scope.Sound s) (depth : Nat) {decl : GenericDecl} {argument : Named}
    {site : Site} {t : Instantiation} (h : s.cached? ⟨decl.name, argument.name⟩ = some t) :
    scope.Advances s ((scope.focus site).instantiateDecl depth decl argument s)
      (·.Holds (.instantiation ⟨decl.name, argument.name⟩)) := by
  rw [instantiateDecl_cached depth h]
  have hkey : t.key = ⟨decl.name, argument.name⟩ := by simpa using List.find?_some h
  exact ⟨hs, .refl s, fun _ _ => .inr ⟨t, List.mem_of_find?_eq_some h, by rw [hkey]⟩,
    fun _ _ _ => .rfl⟩

theorem planFields_focus (site : Site) (owner : String) (env : Environment)
    (ds : List FieldDescriptor) :
    (scope.focus site).planFields owner env ds = scope.planFields owner env ds := by
  induction ds with
  | nil => rfl
  | cons d rest ih => simp only [planFields, ih]; rfl

/-- What is finished was begun. -/
theorem Sound.finished_begun (hs : scope.Sound s) {key : InstanceKey} (h : key ∈ s.finished) :
    key ∈ s.memo.map (·.key) := by
  obtain ⟨t, ht, rfl⟩ := (hs.done key).1 h
  exact List.mem_map_of_mem (hs.nodes _ ht).1

theorem open_begin (hs : scope.Sound s) {decl : GenericDecl} {argument : Named}
    (hnew : (⟨decl.name, argument.name⟩ : InstanceKey) ∉ s.memo.map (·.key)) (key : InstanceKey) :
    (s.begin (begun decl argument)).Open key ↔
      s.Open key ∨ key = ⟨decl.name, argument.name⟩ := by
  have hunfinished : (⟨decl.name, argument.name⟩ : InstanceKey) ∉ s.finished :=
    fun h => hnew (hs.finished_begun h)
  simp only [Resolution.Open, Resolution.begin, List.map_append, List.map_singleton,
    List.mem_append, List.mem_singleton]
  constructor
  · rintro ⟨hkey | rfl, hfinished⟩
    · exact .inl ⟨hkey, hfinished⟩
    · exact .inr rfl
  · rintro (⟨hkey, hfinished⟩ | rfl)
    · exact ⟨.inl hkey, hfinished⟩
    · exact ⟨.inr rfl, hunfinished⟩

theorem fill_prefix {mid : Resolution} {key : InstanceKey} (fields : List GraphField)
    (hnew : key ∉ s.memo.map (·.key)) (h : s.memo <+: mid.memo) :
    s.memo <+: (mid.fill key fields).memo := by
  obtain ⟨rest, hrest⟩ := h
  refine ⟨rest.map fun t =>
    if t.key = key then { t with fields := fields, filled := true } else t, ?_⟩
  rw [Resolution.fill, ← hrest, List.map_append]
  congr 1
  refine (List.map_id s.memo).symm.trans (List.map_congr_left fun t ht => ?_)
  have hne : t.key ≠ key := fun heq => hnew (heq ▸ List.mem_map_of_mem ht)
  simp [hne]

/-- The end of an instantiation that was begun in a sound state. -/
theorem finish_advances {decl : GenericDecl} {argument : Named} {fields : List GraphField}
    {mid : Resolution} (hs : scope.Sound s)
    (hdecl : scope.model.get? decl.name = some (.generic decl)) (hargument : s.Holds argument)
    (hnew : (⟨decl.name, argument.name⟩ : InstanceKey) ∉ s.memo.map (·.key))
    (hmid : scope.Sound mid) (hgrows : (s.begin (begun decl argument)).Grows mid)
    (hstill : ∀ key, mid.Open key ↔ (s.begin (begun decl argument)).Open key)
    (hbody : Resolved mid (scope.planBody decl (.named argument)) fields) :
    scope.Advances s (finish decl argument fields mid)
      (·.Holds (.instantiation ⟨decl.name, argument.name⟩)) := by
  have hbegun : begun decl argument ∈ mid.memo :=
    hgrows.memo.subset (List.mem_append_right _ (List.mem_singleton_self _))
  have hall : s.Grows mid := (grows_begin decl argument).trans hgrows
  obtain ⟨hfill, hbelow⟩ := hmid.fill hbegun hdecl (hall.below.holds _ hargument) hbody
  have hopen : mid.Open ⟨decl.name, argument.name⟩ :=
    (hstill _).2 ((open_begin hs hnew _).2 (.inr rfl))
  have hmemo := fill_prefix fields hnew hall.memo
  have hfilled : filled decl argument fields ∈ (mid.fill ⟨decl.name, argument.name⟩ fields).memo :=
    (mem_fill _ hmid.keys hbegun).2 (.inl rfl)
  rw [finish_apply]
  rcases hadd : mid.graph.add (.instantiation (filled decl argument fields)) with e | ⟨r, g⟩
  · exact ⟨hfill, ⟨hall.nodes, hmemo, hall.finished, hall.templates, hall.filled⟩,
      fun _ ha => (nomatch ha), fun _ ha => nomatch ha⟩
  · obtain ⟨-, htemplate, hget, rfl⟩ := TypeGraph.add_eq_ok hadd
    refine ⟨hfill.append (s := mid.fill ⟨decl.name, argument.name⟩ fields) hget htemplate
        ⟨hfilled, rfl⟩ ?_ fun key => ?_,
      ⟨hall.nodes.trans (List.prefix_append _ _), hmemo,
        hall.finished.trans (List.prefix_append _ _), hall.templates, fun o ho hf => ?_⟩,
      fun _ _ => .inr ⟨_, hfilled, rfl⟩, fun _ _ key => ?_⟩
    · rw [← List.concat_eq_append, List.nodup_concat]
      exact ⟨hopen.2, hmid.finished⟩
    · rw [List.mem_append, List.mem_singleton]
      refine or_congr_right ⟨fun h => ⟨_, rfl, h.symm⟩, ?_⟩
      rintro ⟨t, ht, rfl⟩
      cases ht; rfl
    · rcases List.mem_append.1 ho with ho | ho
      · exact hall.filled o ho hf
      · cases List.mem_singleton.1 ho
    · have hbefore : s.Open key → key ≠ ⟨decl.name, argument.name⟩ :=
        fun h heq => hnew (heq ▸ h.1)
      have hmidopen := (hstill key).trans (open_begin hs hnew key)
      simp only [Resolution.Open, fill_keys, List.mem_append, List.mem_singleton, not_or,
        ← and_assoc]
      rw [show (key ∈ mid.memo.map (·.key) ∧ key ∉ mid.finished) ↔ mid.Open key from .rfl, hmidopen]
      exact ⟨fun h => h.1.resolve_right h.2, fun h => ⟨.inl h, hbefore h⟩⟩

/-- An instantiation keeps the invariant, however deep it goes. -/
theorem sturdy_instantiateWithin (depth : Nat) (scope : Scope) :
    scope.Sturdy (instantiateWithin depth) := by
  induction depth with
  | zero =>
    intro site decl argument s hdecl hs hargument
    rw [instantiateWithin_named (scope.focus site) 0 hdecl]
    rcases hc : s.cached? ⟨decl.name, argument.name⟩ with _ | t
    · rw [instantiateDecl_zero hc]
      exact .stays hs _ _
    · exact cached_advances hs 0 hc
  | succ depth ih =>
    intro site decl argument s hdecl hs hargument
    rw [instantiateWithin_named (scope.focus site) _ hdecl]
    rcases hc : s.cached? ⟨decl.name, argument.name⟩ with _ | t
    · have hnew := cached?_eq_none.1 hc
      have hbegin := hs.begin hdecl hargument hnew
      have hheld : (s.begin (begun decl argument)).Holds argument := by
        rcases hargument with h | ⟨i, hi, rfl⟩
        · exact .inl h
        · exact .inr ⟨i, List.mem_append_left _ hi, rfl⟩
      have hcareful := planFields_careful scope (envKnown_singleton decl.parameter hheld)
        decl.name decl.fields
      have hbody := perform_advances ih hbegin (fun _ h => h) hcareful.ordered
      rw [instantiateDecl_succ depth hc, ResolveM.bind_apply,
        resolveFields_eq depth (scope.focus site) _ _ _ hbegin.tidy, perform_focus, planFields_focus]
      rcases hrun : scope.perform (instantiateWithin depth)
        (scope.planFields decl.name [(decl.parameter, .named argument)] decl.fields)
        (s.begin (begun decl argument)) with ⟨e | fields, mid⟩
      · rw [hrun] at hbody
        exact ⟨hbody.sound, (grows_begin decl argument).trans hbody.grows, fun _ ha => (nomatch ha),
          fun _ ha => nomatch ha⟩
      · rw [hrun] at hbody
        exact finish_advances hs hdecl hargument hnew hbody.sound hbody.grows
          (hbody.still fields rfl) ⟨(perform_eq_ok.1 hrun).2, hbody.met fields rfl⟩
    · exact cached_advances hs _ hc

end Scope

end SchemaCompiler
