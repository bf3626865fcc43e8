import SchemaCompiler.Proofs.Nesting

/-! How a resolution ends. As long as the state holds only types that occur in a run, a name is taken
by another type only where nothing is known of one of the two, and no instantiation lies too deep.
So a run ends well, or it fails where a plan has no answer or where a name is left that nothing is
known about; whatever can be said of the causes of these failures holds of the whole run. -/

namespace SchemaCompiler

@[simp] theorem CompileError.attach_cause (e : CompileError) (site : Site) :
    (e.attach site).cause = e.cause := by
  unfold attach
  split <;> rfl

/-- A name that nothing is known about takes no other node. -/
theorem TypeGraph.add_pending {graph : TypeGraph} (node : Node) {name : String} {site : Site}
    (htemplate : graph.template? node.name = none)
    (hget : graph.get? node.name = some (.pending name site)) :
    graph.add node = .error ⟨.unresolved name, site⟩ := by
  simp [add, htemplate, hget, refuse]

namespace Scope

variable {α β : Type} {scope : Scope} {inst : Instantiate} {known : Named → Prop}
  {s s' base : Resolution} {fails : Cause → Prop} {depth : Nat}

/-- What makes an analysis of the declarations go through or fail with certain causes only. -/
structure FailsBy (scope : Scope) (fails : Cause → Prop) : Prop where
  answered : ∀ plan e, scope.Planned plan → plan.outcome = .error e → fails e.cause
  registered : ∀ decl, .scalar decl ∈ scope.model.declarations →
    ∃ s, scope.registry.byName? decl.name = some s
  unknown : ∀ name, scope.Occurs (.pending name) → fails (.unresolved name)
  distinct : ∀ t t', scope.Occurs t → scope.Occurs t' → t.kind ≠ .pending → t'.kind ≠ .pending →
    t.name = t'.name → t = t'
  apart : ∀ t decl, scope.Occurs t → .generic decl ∈ scope.model.declarations → t.name ≠ decl.name
  shallow : ∀ path, scope.Nested path → (path.map Application.key).Nodup →
    path.length ≤ scope.model.instantiationDepth

def Within (scope : Scope) (s : Resolution) : Prop :=
  ∀ t, s.Holds t → scope.Occurs t

/-- Whether a step ends in a state that holds only types of the run, or fails with such a cause. -/
inductive Ends (scope : Scope) (fails : Cause → Prop) : Except CompileError α × Resolution → Prop
  | well {a : α} {s : Resolution} (h : scope.Within s) : Ends scope fails (.ok a, s)
  | badly {e : CompileError} {s : Resolution} (h : fails e.cause) : Ends scope fails (.error e, s)

theorem Ends.bind {x : ResolveM α} {f : α → ResolveM β} (hx : scope.Ends fails (x s))
    (hf : ∀ a s', x s = (.ok a, s') → scope.Within s' → scope.Ends fails (f a s')) :
    scope.Ends fails ((x >>= f) s) := by
  rcases h : x s with ⟨e | a, s'⟩
  · rw [h] at hx
    rw [ResolveM.bind_error h]
    cases hx with
    | badly hfails => exact .badly hfails
  · rw [h] at hx
    rw [ResolveM.bind_ok h]
    cases hx with
    | well hw => exact hf a s' h hw

theorem Ends.attaching {x : ResolveM α} (hx : scope.Ends fails (x s)) (site : Site) :
    scope.Ends fails (ResolveM.attaching site x s) := by
  rw [ResolveM.attaching_apply]
  rcases h : x s with ⟨e | a, s'⟩
  · rw [h] at hx
    cases hx with
    | badly hfails => exact .badly (by rwa [CompileError.attach_cause])
  · rw [h] at hx
    exact hx

/-- A name that nothing is known about is not that of another type. -/
theorem IsTarget.eq_pending {t : Named} (h : scope.IsTarget t) (hunknown : scope.IsUnknown t.name) :
    t = .pending t.name := by
  cases t with
  | object name =>
    obtain ⟨decl, hdecl, hname⟩ := h
    exact absurd hname (SourceModel.get?_eq_none.1 hunknown.1 _ hdecl)
  | enum name =>
    obtain ⟨decl, hdecl, hname⟩ := h
    exact absurd hname (SourceModel.get?_eq_none.1 hunknown.1 _ hdecl)
  | scalar sc => exact absurd hunknown.2.2 (ScalarRegistry.byName?_ne_none h)
  | pending name => rfl
  | instantiation key => exact h.elim

/-- A name that an occurring type has is free, or it is that type's. -/
theorem ref_of_occurs (hc : scope.FailsBy fails) (hs : scope.Sound s) (hw : scope.Within s)
    {t : Named} (ht : scope.Occurs t) (htarget : scope.IsTarget t) (hkind : t.kind ≠ .pending)
    {node : Node} (h : s.graph.get? t.name = some node) : node.ref = t := by
  have hname : node.ref.name = t.name := TypeGraph.get?_name h
  have hnode := TypeGraph.get?_mem h
  refine hc.distinct _ _ (hw _ (.inl (List.mem_map_of_mem hnode))) ht ?_ hkind hname
  intro hpending
  have hsound := hs.nodes node hnode
  cases node with
  | pending name site =>
    have hunknown : scope.IsUnknown t.name := hname ▸ hsound
    rw [htarget.eq_pending hunknown] at hkind
    exact hkind rfl
  | _ => cases hpending

theorem template?_of_occurs (hc : scope.FailsBy fails) (hs : scope.Sound s) {t : Named}
    (ht : scope.Occurs t) : s.graph.template? t.name = none := by
  rw [TypeGraph.template?_eq_none]
  intro hmem
  obtain ⟨template, htemplate, hname⟩ := List.mem_map.1 hmem
  obtain ⟨decl, hsound⟩ := hs.templates template htemplate
  exact hc.apart t decl ht hsound.declared (by rw [← hname, hsound.name])

theorem within_append (node : Node) (hw : scope.Within s) (ht : scope.Occurs node.ref)
    {s' : Resolution} (hnodes : s'.graph.nodes = s.graph.nodes ++ [node])
    (hmemo : s'.memo.map (·.key) = s.memo.map (·.key)) : scope.Within s' := by
  rintro t (h | ⟨i, hi, rfl⟩)
  · rw [hnodes, List.map_append, List.mem_append] at h
    rcases h with h | h
    · exact hw t (.inl h)
    · rw [List.map_singleton, List.mem_singleton] at h
      exact h ▸ ht
  · have hkey := List.mem_map_of_mem (f := (·.key)) hi
    rw [hmemo] at hkey
    obtain ⟨j, hj, hjkey⟩ := List.mem_map.1 hkey
    exact hw _ (.inr ⟨j, hj, by rw [← hjkey]⟩)

/-- What entering a type answers. -/
theorem enter_result {graph : TypeGraph} {t : Named} (htemplate : graph.template? t.name = none)
    (hnode : ∀ node, graph.get? t.name = some node → node.ref = t ∨ t.kind = .pending)
    (htarget : scope.IsTarget t) (site : Site) :
    (∃ r g, graph.enter site t = .ok (r, g)) ∨
      t.kind = .pending ∧ graph.enter site t = .error ⟨.unresolved t.name, site⟩ := by
  rcases hget : graph.get? t.name with _ | node
  · have hadd : ∃ r g, graph.add (t.shell site) = .ok (r, g) :=
      ⟨_, _, TypeGraph.add_ok (t.shell site) (by rwa [Named.shell_name])
        (by rwa [Named.shell_name])⟩
    refine .inl ?_
    cases t with
    | object name =>
      rwa [TypeGraph.enter, TypeGraph.shell, show graph.get? name = none from hget]
    | enum name =>
      rwa [TypeGraph.enter, TypeGraph.shell, show graph.get? name = none from hget]
    | scalar sc =>
      rwa [TypeGraph.enter, TypeGraph.adopt, show graph.get? sc.name = none from hget]
    | pending name =>
      rwa [TypeGraph.enter, TypeGraph.pending, show graph.get? name = none from hget]
    | instantiation key => exact htarget.elim
  · have hsame := hnode node hget
    cases t with
    | object name =>
      rw [TypeGraph.enter, TypeGraph.shell, show graph.get? name = some node from hget]
      cases node with
      | object o => exact .inl ⟨_, _, rfl⟩
      | _ => rcases hsame with href | hkind <;> contradiction
    | enum name =>
      rw [TypeGraph.enter, TypeGraph.shell, show graph.get? name = some node from hget]
      cases node with
      | enum e => exact .inl ⟨_, _, rfl⟩
      | _ => rcases hsame with href | hkind <;> contradiction
    | scalar sc =>
      rw [TypeGraph.enter, TypeGraph.adopt, show graph.get? sc.name = some node from hget]
      cases node with
      | scalar existing =>
        rcases hsame with href | hkind
        · cases href
          exact .inl ⟨_, _, if_pos rfl⟩
        · contradiction
      | _ => rcases hsame with href | hkind <;> contradiction
    | pending name =>
      rw [TypeGraph.enter, TypeGraph.pending, show graph.get? name = some node from hget]
      cases node with
      | instantiation i => exact .inr ⟨rfl, rfl⟩
      | _ => exact .inl ⟨_, _, rfl⟩
    | instantiation key => exact htarget.elim

theorem enter_ends (hc : scope.FailsBy fails) (hs : scope.Sound s) (hw : scope.Within s) {t : Named}
    (ht : scope.Occurs t) (htarget : scope.IsTarget t) (site : Site) :
    scope.Ends fails (ResolveM.onGraph (·.enter site t) s) := by
  have hnode : ∀ node, s.graph.get? t.name = some node → node.ref = t ∨ t.kind = .pending := by
    intro node hget
    by_cases hkind : t.kind = .pending
    · exact .inr hkind
    · exact .inl (ref_of_occurs hc hs hw ht htarget hkind hget)
  rw [ResolveM.onGraph_apply]
  rcases enter_result (template?_of_occurs hc hs ht) hnode htarget site with
    ⟨r, g, hg⟩ | ⟨hkind, herror⟩
  · rw [hg]
    obtain ⟨-, ⟨rfl, -⟩ | ⟨-, -, rfl⟩⟩ := enter_eq_ok hs.tidy htarget hg
    · exact .well hw
    · exact .well (within_append _ hw (by rwa [Named.shell_ref]) rfl rfl)
  · rw [herror]
    cases t with
    | pending name => exact .badly (hc.unknown name ht)
    | _ => cases hkind

/-- Requests that come from plans of the run. -/
theorem meetAll_ends (hc : scope.FailsBy fails) (hinst : scope.Sturdy inst)
    {rs : List (Site × Request)}
    (henter : ∀ site t, (site, Request.enter t) ∈ rs → scope.Occurs t)
    (happly : ∀ site decl argument, (site, Request.apply decl argument) ∈ rs → ∀ s, scope.Sound s →
      scope.Within s → base.Grows s → s.Holds argument →
        scope.Ends fails (inst (scope.focus site) decl.name [.type (.named argument)] s))
    (hs : scope.Sound s) (hw : scope.Within s) (hbase : base.Grows s)
    (hknown : ∀ t, known t → s.Holds t) (hrs : scope.Ordered known rs) :
    scope.Ends fails (scope.meetAll inst rs s) := by
  induction rs generalizing s known with
  | nil => exact .well hw
  | cons r rest ih =>
    rcases r with ⟨site, request⟩
    have hfirst : scope.Ends fails (scope.meet inst site request s) := by
      cases request with
      | enter t =>
        exact (enter_ends hc hs hw (henter site t List.mem_cons_self) hrs.1 site).bind
          fun _ _ _ hwithin => .well hwithin
      | apply decl argument =>
        exact (happly site decl argument List.mem_cons_self s hs hw hbase
          (hknown _ hrs.1.2)).bind fun _ _ _ hwithin => .well hwithin
    rw [meetAll]
    refine (hfirst.attaching site).bind fun a mid hmeet hwithin => ?_
    have hadv := meet_advances hinst hs hknown hrs.1 site
    rw [ResolveM.attaching_eq_ok.1 hmeet] at hadv
    have hknown' : ∀ t, known t ∨ request.type = t → mid.Holds t := by
      rintro t (ht | rfl)
      · exact hadv.grows.below.holds _ (hknown t ht)
      · exact Request.holds_type (hadv.met a rfl)
    exact ih (fun site t h => henter site t (List.mem_cons_of_mem _ h))
      (fun site decl argument h => happly site decl argument (List.mem_cons_of_mem _ h))
      hadv.sound hwithin (hbase.trans hadv.grows) hknown' hrs.2

theorem perform_ends (hc : scope.FailsBy fails) {plan : Plan (List GraphField)}
    (hplanned : scope.Planned plan) (hmeet : scope.Ends fails (scope.meetAll inst plan.requests s)) :
    scope.Ends fails (scope.perform inst plan s) := by
  rw [perform]
  refine hmeet.bind fun _ mid _ hwithin => ?_
  rcases houtcome : plan.outcome with e | fields
  · exact .badly (hc.answered plan e hplanned houtcome)
  · exact .well hwithin

theorem Arises.occurs {decl : GenericDecl} {argument : Named} (h : scope.Arises decl argument) :
    scope.Occurs (.instantiation ⟨decl.name, argument.name⟩) := by
  obtain ⟨plan, hplan, hasks⟩ := h
  exact .applied hplan hasks

theorem Arises.planned {decl : GenericDecl} {argument : Named} (h : scope.Arises decl argument) :
    scope.Planned (scope.planBody decl (.named argument)) := by
  obtain ⟨plan, hplan, hasks⟩ := h
  exact hplan.body hasks

theorem within_begin (hw : scope.Within s) {decl : GenericDecl} {argument : Named}
    (h : scope.Arises decl argument) : scope.Within (s.begin (begun decl argument)) := by
  rintro t (ht | ⟨i, hi, rfl⟩)
  · exact hw t (.inl ht)
  · rcases List.mem_append.1 hi with hi | hi
    · exact hw _ (.inr ⟨i, hi, rfl⟩)
    · rw [List.mem_singleton.1 hi]
      exact h.occurs

/-- The end of an instantiation that is still open. -/
theorem finish_ends (hc : scope.FailsBy fails) (hs : scope.Sound s) (hw : scope.Within s)
    {decl : GenericDecl} {argument : Named} (h : scope.Arises decl argument)
    (hopen : s.Open ⟨decl.name, argument.name⟩) (fields : List GraphField) :
    scope.Ends fails (finish decl argument fields s) := by
  have htemplate := template?_of_occurs hc hs h.occurs
  rw [finish_apply]
  rcases hget : s.graph.get? (InstanceKey.mk decl.name argument.name).name with _ | node
  · rw [TypeGraph.add_ok (.instantiation (filled decl argument fields)) htemplate hget]
    exact .well (within_append (.instantiation (filled decl argument fields)) hw h.occurs rfl
      (fill_keys _ _))
  · have hnode := TypeGraph.get?_mem hget
    have hoccurs := hw _ (.inl (List.mem_map_of_mem hnode))
    by_cases hkind : node.ref.kind = .pending
    · cases node with
      | pending name site =>
        rw [TypeGraph.add_pending (.instantiation (filled decl argument fields)) htemplate hget]
        exact .badly (hc.unknown name hoccurs)
      | _ => cases hkind
    · -- the same instantiation would have been finished before
      have href := hc.distinct _ _ hoccurs h.occurs hkind (fun hpending => by cases hpending)
        (TypeGraph.get?_name hget)
      cases node with
      | instantiation i =>
        exact absurd ((hs.done _).2 ⟨i, hnode, Named.instantiation.inj href⟩) hopen.2
      | _ => cases href

theorem keys_nodup_cons {path : List Application} {x : Application}
    (hkeys : (path.map Application.key).Nodup) (hbegun : ∀ y ∈ path, y.key ∈ s.memo.map (·.key))
    (hnew : x.key ∉ s.memo.map (·.key)) : ((x :: path).map Application.key).Nodup := by
  rw [List.map_cons, List.nodup_cons]
  refine ⟨fun hmem => ?_, hkeys⟩
  obtain ⟨y, hy, heq⟩ := List.mem_map.1 hmem
  exact hnew (heq ▸ hbegun y hy)

/-- An instantiation that is new, if the requests of its body end. -/
theorem instantiateDecl_ends (hc : scope.FailsBy fails) (depth : Nat) {decl : GenericDecl}
    {argument : Named} (site : Site) (harises : scope.Arises decl argument) (hs : scope.Sound s)
    (hargument : s.Holds argument) (hnew : s.cached? ⟨decl.name, argument.name⟩ = none)
    (hmeet : scope.Ends fails (scope.meetAll (instantiateWithin depth)
      (scope.planBody decl (.named argument)).requests (s.begin (begun decl argument)))) :
    scope.Ends fails ((scope.focus site).instantiateDecl (depth + 1) decl argument s) := by
  have hbegun := cached?_eq_none.1 hnew
  have hbegin := hs.begin harises.declared hargument hbegun
  have hcareful := planFields_careful scope (envKnown_singleton decl.parameter
    ((grows_begin decl argument).below.holds _ hargument)) decl.name decl.fields
  rw [instantiateDecl_succ depth hnew, ResolveM.bind_apply,
    resolveFields_eq depth (scope.focus site) _ _ _ hbegin.tidy, perform_focus, planFields_focus,
    ← ResolveM.bind_apply]
  refine (perform_ends hc harises.planned hmeet).bind fun fields mid hperform hwithin => ?_
  have hadv := perform_advances (sturdy_instantiateWithin depth scope) hbegin (fun _ h => h)
    hcareful.ordered
  rw [show scope.perform (instantiateWithin depth) (scope.planFields decl.name
    [(decl.parameter, .named argument)] decl.fields) (s.begin (begun decl argument)) =
      (.ok fields, mid) from hperform] at hadv
  have hopen := (hadv.still fields rfl _).2 ((open_begin hs hbegun _).2 (.inr rfl))
  exact finish_ends hc hadv.sound hwithin harises hopen fields

/-- An instantiation, as long as the ones around it leave it enough depth. -/
theorem instantiateWithin_ends (hc : scope.FailsBy fails) (depth : Nat) {path : List Application}
    {decl : GenericDecl} {argument : Named} (site : Site)
    (hpath : scope.Nested ((decl, argument) :: path)) (hkeys : (path.map Application.key).Nodup)
    (hbegun : ∀ x ∈ path, x.key ∈ s.memo.map (·.key))
    (hdepth : scope.model.instantiationDepth ≤ path.length + depth) (hs : scope.Sound s)
    (hw : scope.Within s) (hargument : s.Holds argument) :
    scope.Ends fails
      (instantiateWithin depth (scope.focus site) decl.name [.type (.named argument)] s) := by
  have harises := hpath.arises _ List.mem_cons_self
  induction depth generalizing s path decl argument site with
  | zero =>
    rw [instantiateWithin_named (scope.focus site) 0 harises.declared]
    rcases hc' : s.cached? ⟨decl.name, argument.name⟩ with _ | t
    · -- a nest of so many different applications would be too deep
      have hlength := hc.shallow _ hpath
        (keys_nodup_cons (x := (decl, argument)) hkeys hbegun (cached?_eq_none.1 hc'))
      rw [List.length_cons] at hlength
      omega
    · rw [instantiateDecl_cached 0 hc']
      exact .well hw
  | succ depth ih =>
    rw [instantiateWithin_named (scope.focus site) _ harises.declared]
    rcases hc' : s.cached? ⟨decl.name, argument.name⟩ with _ | t
    · refine instantiateDecl_ends hc depth site harises hs hargument hc' ?_
      have hnew := cached?_eq_none.1 hc'
      have hgrows := grows_begin decl argument (s := s)
      have hcareful := planFields_careful scope
        (envKnown_singleton decl.parameter (hgrows.below.holds _ hargument)) decl.name decl.fields
      refine meetAll_ends hc (sturdy_instantiateWithin depth scope)
        (fun site t h => .entered harises.planned ⟨site, h⟩)
        (fun site decl' argument' h s' hs' hw' hbase hargument' => ?_)
        (hs.begin harises.declared hargument hnew) (within_begin hw harises) (.refl _)
        (fun _ h => h) hcareful.ordered
      have hasks : (scope.planBody decl (.named argument)).Asks (.apply decl' argument') :=
        ⟨site, h⟩
      refine ih site (.inner hpath hasks) (keys_nodup_cons (x := (decl, argument)) hkeys hbegun hnew)
        ?_ ?_ hs' hw' hargument' ⟨_, harises.planned, hasks⟩
      · refine fun x hx => (hbase.memo.map (·.key)).subset ?_
        rcases List.mem_cons.1 hx with rfl | hx
        · exact List.mem_map.2 ⟨begun decl argument,
            List.mem_append_right _ (List.mem_singleton_self _), rfl⟩
        · exact (hgrows.memo.map (·.key)).subset (hbegun x hx)
      · rw [List.length_cons]
        omega
    · rw [instantiateDecl_cached _ hc']
      exact .well hw

/-- The fields of a declaration. -/
theorem resolveFields_ends (hc : scope.FailsBy fails)
    (hdepth : scope.model.instantiationDepth ≤ depth) (hs : scope.Sound s) (hw : scope.Within s)
    {owner : String} {env : Environment} {ds : List FieldDescriptor}
    (hplanned : scope.Planned (scope.planFields owner env ds)) (henv : EnvKnown s.Holds env) :
    scope.Ends fails (scope.resolveFields (instantiateWithin depth) owner env ds s) := by
  rw [resolveFields_eq depth scope owner env ds hs.tidy]
  refine perform_ends hc hplanned (meetAll_ends hc
    (sturdy_instantiateWithin depth scope)
    (fun site t h => .entered hplanned ⟨site, h⟩)
    (fun site decl argument h s' hs' hw' _ hargument => ?_)
    hs hw (.refl s) (fun _ h => h) (planFields_careful scope henv owner ds).ordered)
  have hnested : scope.Nested [(decl, argument)] := .first ⟨_, hplanned, site, h⟩
  exact instantiateWithin_ends hc _ site hnested List.nodup_nil (fun _ hx => nomatch hx)
    (Nat.le_trans hdepth (Nat.le_add_left _ _)) hs' hw' hargument

theorem within_mapNodes {f : Node → Node} (hf : Resolution.Harmless f) (hw : scope.Within s) :
    scope.Within (s.mapNodes f) := by
  intro t ht
  refine hw t (ht.imp_left fun h => ?_)
  rwa [show (s.mapNodes f).graph.nodes = s.graph.nodes.map f from rfl, hf.refs] at h

theorem declareObject_ends (hc : scope.FailsBy fails)
    (hdepth : scope.model.instantiationDepth ≤ depth) (hs : scope.Sound s) (hw : scope.Within s)
    {names : List String} (honly : s.Only names) {decl : ObjectDecl}
    (hdecl : .object decl ∈ scope.model.declarations) (hnew : decl.name ∉ names) :
    scope.Ends fails (scope.declareObject depth decl s) := by
  have htarget : scope.IsTarget (.object decl.name) := ⟨decl, hdecl, rfl⟩
  refine (enter_ends hc hs hw (.object hdecl) htarget {}).bind fun r mid hrun hwithin => ?_
  obtain ⟨g, hg, rfl⟩ := ResolveM.onGraph_eq_ok.1 hrun
  obtain ⟨hs₀, hgrows, hheld⟩ := enter_ok hs htarget hg
  obtain ⟨t, ht, hname⟩ := Resolution.holds_object.1 hheld
  have hunfilled : t.filled = false := by
    rw [Bool.eq_false_iff]
    intro hf
    have hmem := (honly.grows hgrows).objects t ht hf
    rw [hname] at hmem
    exact hnew hmem
  have hobject := TypeGraph.object?_of_mem hs₀.nodup ht
  rw [hname] at hobject
  have hobjectUnfilled : (g.object? decl.name).any (·.filled) = false := by
    rw [show g.object? decl.name = some t from hobject]
    exact hunfilled
  rw [ResolveM.bind_ok (ResolveM.get_apply _), if_neg (by simpa using hobjectUnfilled),
    ResolveM.bind_ok (ResolveM.changeGraph_apply _ _)]
  refine Ends.bind (resolveFields_ends hc hdepth (sound_describeObject hs₀ hobjectUnfilled)
    (within_mapNodes (Resolution.harmless_withObject fun _ => rfl) hwithin) (.object hdecl)
    (fun _ _ h => by cases h)) fun fields s₁ _ hwithin₁ => ?_
  exact .well (within_mapNodes (Resolution.harmless_withObject fun _ => rfl) hwithin₁)

theorem declareEnum_ends (hc : scope.FailsBy fails) (hs : scope.Sound s) (hw : scope.Within s)
    {decl : EnumDecl} (hdecl : .enum decl ∈ scope.model.declarations) :
    scope.Ends fails (declareEnum decl s) := by
  have htarget : scope.IsTarget (.enum decl.name) := ⟨decl, hdecl, rfl⟩
  refine (enter_ends hc hs hw (.enum hdecl) htarget {}).bind fun _ _ _ hwithin => ?_
  exact .well (within_mapNodes (Resolution.harmless_withEnum fun _ => rfl) hwithin)

theorem declareScalar_ends (hc : scope.FailsBy fails) (hs : scope.Sound s) (hw : scope.Within s)
    {decl : ScalarDecl} (hdecl : .scalar decl ∈ scope.model.declarations) :
    scope.Ends fails (scope.declareScalar decl s) := by
  obtain ⟨sc, hsc⟩ := hc.registered decl hdecl
  rw [declareScalar, hsc]
  exact (enter_ends hc hs hw (.scalar hdecl hsc) (ScalarRegistry.byName?_mem hsc) {}).bind
    fun _ _ _ hwithin => .well hwithin

theorem declareGeneric_ends (hc : scope.FailsBy fails)
    (hdepth : scope.model.instantiationDepth ≤ depth) (hs : scope.Sound s) (hw : scope.Within s)
    {names : List String} (honly : s.Only names) {decl : GenericDecl}
    (hdecl : .generic decl ∈ scope.model.declarations) (hnew : decl.name ∉ names) :
    scope.Ends fails (scope.declareGeneric depth decl s) := by
  refine (resolveFields_ends hc hdepth hs hw (.generic hdecl) (envKnown_placeholder _ _)).bind
    fun fields s₁ hrun hwithin => ?_
  obtain ⟨-, hgrows, -, -⟩ := resolveFields_ok hs (envKnown_placeholder _ _) hrun
  have htemplate : s₁.graph.template? decl.name = none := by
    rw [TypeGraph.template?_eq_none]
    intro hmem
    obtain ⟨t, ht, hname⟩ := List.mem_map.1 hmem
    have hmem := (honly.grows hgrows).templates t ht
    rw [hname] at hmem
    exact hnew hmem
  have hget : s₁.graph.get? decl.name = none := by
    rw [TypeGraph.get?_eq_none]
    intro hmem
    obtain ⟨node, hnode, hname⟩ := List.mem_map.1 hmem
    exact hc.apart _ decl (hwithin _ (.inl (List.mem_map_of_mem hnode))) hdecl hname
  have hadd : s₁.graph.addTemplate ⟨decl.name, [decl.parameter], fields, decl.description⟩ =
      .ok _ := addTemplate_eq_ok.2 ⟨htemplate, hget, rfl⟩
  rw [ResolveM.onGraph_apply, hadd]
  exact .well hwithin

/-- A declaration, if no object or generic of its name came before. -/
theorem declare_ends (hc : scope.FailsBy fails)
    (hdepth : scope.model.instantiationDepth ≤ depth) (hs : scope.Sound s) (hw : scope.Within s)
    {names : List String} (honly : s.Only names) {d : Declaration}
    (hd : d ∈ scope.model.declarations) (hnew : d.isOwner = true → d.name ∉ names) :
    scope.Ends fails (scope.declare depth d s) := by
  cases d with
  | object decl => exact declareObject_ends hc hdepth hs hw honly hd (hnew rfl)
  | enum decl => exact declareEnum_ends hc hs hw hd
  | scalar decl => exact declareScalar_ends hc hs hw hd
  | generic decl => exact declareGeneric_ends hc hdepth hs hw honly hd (hnew rfl)

theorem declareAll_ends (hc : scope.FailsBy fails)
    (hdepth : scope.model.instantiationDepth ≤ depth) {ds : List Declaration} {names : List String}
    (hs : scope.Sound s) (hw : scope.Within s) (honly : s.Only names)
    (hds : ∀ d ∈ ds, d ∈ scope.model.declarations)
    (hfresh : ds.Pairwise fun d d' => d'.isOwner = true → d.name ≠ d'.name)
    (hnew : ∀ d ∈ ds, d.isOwner = true → d.name ∉ names) :
    scope.Ends fails (scope.declareAllWithin depth ds s) := by
  induction ds generalizing s names with
  | nil => exact .well hw
  | cons d rest ih =>
    rw [List.pairwise_cons] at hfresh
    have hd := hds d List.mem_cons_self
    have hfirst := declare_ends hc hdepth hs hw honly hd (hnew d List.mem_cons_self)
    rw [declareAllWithin, located, declare_focus]
    refine (hfirst.attaching _).bind fun _ mid hrun hwithin => ?_
    have hdeclares := declare_declares hs hd (ResolveM.attaching_eq_ok.1 hrun)
    refine ih hdeclares.sound hwithin (hdeclares.only names honly)
      (fun x hx => hds x (List.mem_cons_of_mem _ hx)) hfresh.2 fun x hx howner hmem => ?_
    rcases List.mem_cons.1 hmem with heq | hmem
    · exact hfresh.1 x hx howner heq.symm
    · exact hnew x (List.mem_cons_of_mem _ hx) howner hmem

/-- After all declarations have been entered, only a pending type is not filled. -/
theorem pending_of_unfilled (hs : scope.Sound s)
    (hentered : ∀ d ∈ scope.model.declarations, scope.Entered s d) {node : Node}
    (hnode : node ∈ s.graph.nodes) (hunfilled : node.filled = false) :
    ∃ name site, node = .pending name site := by
  have hfilled {node' : Node} (hnode' : node' ∈ s.graph.nodes) (hname : node'.name = node.name)
      (hf : node'.filled = true) : False := by
    rw [List.inj_on_of_nodup_map hs.nodup hnode' hnode hname, hunfilled] at hf
    cases hf
  have hsound := hs.nodes node hnode
  cases node with
  | object o =>
    obtain ⟨decl, hdecl, hname, -⟩ := hsound
    obtain ⟨t, ht, htName, hf, -⟩ := hentered _ hdecl
    exact (hfilled ht (htName.trans hname) hf).elim
  | enum e =>
    obtain ⟨decl, hdecl, hname, -⟩ := hsound
    obtain ⟨t, ht, htName, hf⟩ := hentered _ hdecl
    exact (hfilled ht (htName.trans hname) hf).elim
  | scalar sc => cases hunfilled
  | pending name site => exact ⟨name, site, rfl⟩
  | instantiation i => exact (hfilled hnode rfl hsound.2).elim

/-- A resolution ends with a complete graph, or it fails with such a cause. -/
theorem FailsBy.resolve (hc : scope.FailsBy fails) (hfresh : scope.model.OwnersFresh) :
    scope.Ends fails (scope.resolve {}) := by
  have hempty : scope.Within {} := by
    rintro t (ht | ⟨i, hi, -⟩)
    · cases ht
    · cases hi
  have honly : ({} : Resolution).Only [] :=
    ⟨fun _ h => absurd h List.not_mem_nil, fun _ h => absurd h List.not_mem_nil⟩
  rw [Scope.resolve, resolveWithin]
  refine (declareAll_ends hc (le_depth scope) (sound_empty scope) hempty honly (fun _ hd => hd) hfresh
    fun _ _ _ h => absurd h List.not_mem_nil).bind fun _ s hrun hwithin => ?_
  obtain ⟨hs, -, -, hentered⟩ := declareAll_ok (sound_empty scope) (fun _ hd => hd) hrun
  rw [ResolveM.bind_ok (ResolveM.get_apply s), TypeGraph.assertComplete]
  rcases hfind : s.graph.nodes.find? (!·.filled) with _ | node
  · rw [hfind]
    exact .well hwithin
  · rw [hfind]
    have hnode := List.mem_of_find?_eq_some hfind
    have hunfilled : node.filled = false := by simpa using List.find?_some hfind
    obtain ⟨name, site, rfl⟩ := pending_of_unfilled hs hentered hnode hunfilled
    exact .badly (hc.unknown name (hwithin _ (.inl (List.mem_map_of_mem hnode))))

end Scope

end SchemaCompiler
