import SchemaCompiler.Proofs.Closure
import SchemaCompiler.Proofs.Ending

/-! Where the errors of a resolution are met. The site of an error comes with the error itself, from
the innermost step around it that has a site, or from the pending type that an unknown name has left
in the graph. All of them are declarations of the model or fields of these, however many generics
are being instantiated. -/

namespace SchemaCompiler

/-- Whether a site is a declaration of a model, or a field of such a declaration. -/
def SourceModel.Places (model : SourceModel) (site : Site) : Prop :=
  ∃ d ∈ model.declarations, site.declaration = some d.name ∧
    ∀ field ∈ site.field, field ∈ d.fields.map (·.name)

theorem SourceModel.Places.mono {model model' : SourceModel} {site : Site}
    (h : model.declarations ⊆ model'.declarations) (hsite : model.Places site) :
    model'.Places site := by
  obtain ⟨d, hd, hdeclaration, hfield⟩ := hsite
  exact ⟨d, h hd, hdeclaration, hfield⟩

theorem SourceModel.places_declaration {model : SourceModel} {d : Declaration}
    (hd : d ∈ model.declarations) : model.Places ⟨some d.name, none⟩ :=
  ⟨d, hd, rfl, fun _ h => nomatch h⟩

theorem SourceModel.places_field {model : SourceModel} {d : Declaration}
    (hd : d ∈ model.declarations) {f : FieldDescriptor} (hf : f ∈ d.fields) :
    model.Places ⟨some d.name, some f.name⟩ :=
  ⟨d, hd, rfl, fun _ h => Option.some.inj h ▸ List.mem_map_of_mem hf⟩

/-- A site that is still to be recorded, or that is recorded among some. -/
def Site.OpenOr (P : Site → Prop) (site : Site) : Prop :=
  site.declaration = none ∨ P site

/-- Recording a site closes an error. -/
theorem CompileError.attach_site {P : Site → Prop} {error : CompileError} {site : Site}
    (herror : error.site.OpenOr P) (hsite : P site) : P (error.attach site).site := by
  unfold attach
  split
  · exact hsite
  · rename_i hrecorded
    exact herror.resolve_left (by simpa using hrecorded)

/-- Whether the pending types of a state were first met at certain sites. -/
def Resolution.PendingAt (P : Site → Prop) (s : Resolution) : Prop :=
  ∀ name site, Node.pending name site ∈ s.graph.nodes → P site

/-- A step that meets pending types at certain sites only, and whose errors are at others. -/
def ResolveM.Placing {α : Type} (P E : Site → Prop) (x : ResolveM α) : Prop :=
  ∀ s, s.PendingAt P → (x s).2.PendingAt P ∧ ∀ e, (x s).1 = .error e → E e.site

namespace ResolveM.Placing

variable {α β : Type} {P E : Site → Prop} {x : ResolveM α}

theorem pure (a : α) : Placing P E (Pure.pure a : ResolveM α) :=
  fun _ hs => ⟨hs, fun _ h => nomatch h⟩

theorem get : Placing P E (MonadState.get : ResolveM Resolution) :=
  fun _ hs => ⟨hs, fun _ h => nomatch h⟩

theorem throw {e : CompileError} (h : E e.site) :
    Placing P E (MonadExcept.throw e : ResolveM α) :=
  fun _ hs => ⟨hs, fun _ heq => Except.error.inj heq ▸ h⟩

theorem bind {f : α → ResolveM β} (hx : Placing P E x) (hf : ∀ a, Placing P E (f a)) :
    Placing P E (x >>= f) := by
  intro s hs
  have hfirst := hx s hs
  rcases hrun : x s with ⟨e | a, mid⟩
  · rw [hrun] at hfirst
    rw [ResolveM.bind_error hrun]
    exact ⟨hfirst.1, fun _ heq => hfirst.2 _ (congrArg _ (Except.error.inj heq))⟩
  · rw [hrun] at hfirst
    rw [ResolveM.bind_ok hrun]
    exact hf a mid hfirst.1

theorem closed (h : E {}) : ResolveM.Closed fun _ x => Placing P E x where
  pure := .pure
  refuse _ := .throw h
  bind := .bind

theorem mono {E' : Site → Prop} (hx : Placing P E x) (h : ∀ site, E site → E' site) :
    Placing P E' x :=
  fun s hs => ⟨(hx s hs).1, fun e he => h _ ((hx s hs).2 e he)⟩

/-- At a site, every error has one. -/
theorem attaching (hx : Placing P (Site.OpenOr P) x) {site : Site} (hsite : P site) :
    Placing P P (ResolveM.attaching site x) := by
  intro s hs
  obtain ⟨hpending, herror⟩ := hx s hs
  rw [ResolveM.attaching_apply]
  refine ⟨hpending, fun e he => ?_⟩
  rcases hrun : (x s).1 with e' | a
  · rw [hrun] at he
    cases he
    exact CompileError.attach_site (herror e' hrun) hsite
  · rw [hrun] at he
    cases he

/-- A change of the graph that leaves its pending types. -/
theorem changeGraph {f : TypeGraph → TypeGraph}
    (hf : ∀ graph name site, Node.pending name site ∈ (f graph).nodes →
      Node.pending name site ∈ graph.nodes) :
    Placing P E (ResolveM.changeGraph f) :=
  fun _ hs => ⟨fun name site h => hs name site (hf _ name site h), fun _ h => nomatch h⟩

end ResolveM.Placing

namespace TypeGraph

variable {graph : TypeGraph} {node : Node} {e : CompileError}

/-- An error of adding a node has no site, or that of a pending type. -/
theorem add_error_site (h : graph.add node = .error e) :
    e.site = {} ∨ ∃ name, Node.pending name e.site ∈ graph.nodes := by
  unfold add at h
  split at h
  · cases h
    exact .inl rfl
  · split at h
    · rename_i name site hget
      cases h
      exact .inr ⟨name, get?_mem hget⟩
    · cases h
      exact .inl rfl
    · cases h

/-- An error of entering a type has no site, the one given, or that of a pending type. -/
theorem enter_error_site {site : Site} {t : Named} (h : graph.enter site t = .error e) :
    e.site = {} ∨ e.site = site ∨ ∃ name, Node.pending name e.site ∈ graph.nodes := by
  have hadd {node : Node} (h : graph.add node = .error e) :
      e.site = {} ∨ e.site = site ∨ ∃ name, Node.pending name e.site ∈ graph.nodes :=
    (add_error_site h).imp_right .inr
  have hshell {name : String} {kind : ShellKind} (h : graph.shell name kind = .error e) :
      e.site = {} ∨ e.site = site ∨ ∃ name, Node.pending name e.site ∈ graph.nodes := by
    unfold shell at h
    split at h
    · exact hadd h
    · cases h
      exact .inl rfl
    · split at h
      · cases h
        exact .inl rfl
      · split at h
        · cases h
          exact .inl rfl
        · cases h
  cases t with
  | object name => exact hshell h
  | enum name => exact hshell h
  | scalar s =>
    rw [enter, adopt] at h
    split at h
    · split at h
      · cases h
      · exact hadd h
    · exact hadd h
  | pending name =>
    rw [enter, pending] at h
    split at h
    · cases h
      exact .inr (.inl rfl)
    · cases h
    · exact hadd h
  | instantiation key => cases h

theorem pending_mem_updateObject {name name' : String} {site : Site}
    {change : ObjectType → ObjectType}
    (h : Node.pending name site ∈ (graph.updateObject name' change).nodes) :
    Node.pending name site ∈ graph.nodes := by
  obtain ⟨node, hnode, heq⟩ := List.mem_map.1 h
  cases node with
  | pending => exact heq ▸ hnode
  | _ => cases heq

theorem pending_mem_updateEnum {name name' : String} {site : Site} {change : EnumType → EnumType}
    (h : Node.pending name site ∈ (graph.updateEnum name' change).nodes) :
    Node.pending name site ∈ graph.nodes := by
  obtain ⟨node, hnode, heq⟩ := List.mem_map.1 h
  cases node with
  | pending => exact heq ▸ hnode
  | _ => cases heq

end TypeGraph

namespace Scope

open ResolveM (Placing)

variable {scope : Scope} {P : Site → Prop} {depth : Nat}

/-- Entering a type from a site leaves that site in the graph at most. -/
theorem enter_placing {site : Site} (hsite : P site) {t : Named}
    (ht : ∀ key, t ≠ .instantiation key) :
    Placing P (Site.OpenOr P) (ResolveM.onGraph (·.enter site t)) := by
  intro s hs
  simp only [ResolveM.onGraph_apply]
  rcases henter : s.graph.enter site t with e | ⟨r, g⟩
  · refine ⟨hs, fun e' he => ?_⟩
    cases he
    rcases TypeGraph.enter_error_site henter with hnone | hgiven | ⟨name, hpending⟩
    · exact .inl (by rw [hnone])
    · exact .inr (hgiven ▸ hsite)
    · exact .inr (hs name _ hpending)
  · refine ⟨fun name site' h => ?_, fun _ h => nomatch h⟩
    rcases TypeGraph.enter_cases ht henter with ⟨-, -, -, -, rfl⟩ | ⟨-, -, -, rfl⟩
    · exact hs name site' h
    · rcases List.mem_append.1 h with h | h
      · exact hs name site' h
      · cases t <;> cases List.mem_singleton.1 h
        exact hsite

theorem named_placing (scope : Scope) (hsite : P scope.site) (name : String) (tag : Option String) :
    Placing P (Site.OpenOr P) (scope.named name tag) := by
  rw [named_eq]
  rcases htarget : scope.target name tag with c | t
  · exact .throw (.inl rfl)
  · exact enter_placing hsite (target_isTarget htarget).ne_instantiation

abbrev PlacingIn (scope : Scope) {α : Type} (x : ResolveM α) : Prop :=
  Placing scope.model.Places (Site.OpenOr scope.model.Places) x

/-- The fields of a declaration are at sites of the model. -/
theorem resolveFields_placing {inst : Instantiate}
    (hinst : ∀ site, scope.model.Places site →
      ResolveM.Closed.AllApplied (fun _ x => scope.PlacingIn x) (scope.focus site) inst)
    {d : Declaration} (hd : d ∈ scope.model.declarations) (env : Environment) :
    scope.PlacingIn (scope.resolveFields inst d.name env d.fields) := by
  have hclosed := Placing.closed (P := scope.model.Places) (E := Site.OpenOr scope.model.Places)
    (.inl rfl)
  refine hclosed.resolveFields d.name env fun f hf => ?_
  have hsite := SourceModel.places_field hd hf
  have hfield : scope.PlacingIn
      ((scope.focus ⟨some d.name, some f.name⟩).resolveField inst env f) :=
    hclosed.resolveField (hinst _ hsite) env fun x _ name _ =>
      named_placing (scope.focus _) hsite name x.1
  exact (hfield.attaching hsite).mono fun _ => .inr

/-- The end of an instantiation enters no pending type. -/
theorem finish_placing (decl : GenericDecl) (argument : Named) (fields : List GraphField) :
    Placing P (Site.OpenOr P) (finish decl argument fields) := by
  intro s hs
  rw [finish_apply]
  rcases hadd : s.graph.add (.instantiation (filled decl argument fields)) with e | ⟨r, g⟩
  · refine ⟨hs, fun e' he => ?_⟩
    cases he
    rcases TypeGraph.add_error_site hadd with hnone | ⟨name, hpending⟩
    · exact .inl (by rw [hnone])
    · exact .inr (hs name _ hpending)
  · obtain ⟨-, -, -, rfl⟩ := TypeGraph.add_eq_ok hadd
    refine ⟨fun name site h => ?_, fun _ h => nomatch h⟩
    rcases List.mem_append.1 h with h | h
    · exact hs name site h
    · cases List.mem_singleton.1 h

theorem instantiateDecl_placing {decl : GenericDecl} {argument : Named}
    (hfields : ∀ d, depth = d + 1 → Placing P (Site.OpenOr P)
      (scope.resolveFields (instantiateWithin d) decl.name [(decl.parameter, .named argument)]
        decl.fields)) :
    Placing P (Site.OpenOr P) (scope.instantiateDecl depth decl argument) := by
  intro s hs
  rcases hcached : s.cached? ⟨decl.name, argument.name⟩ with _ | t
  · cases depth with
    | zero =>
      rw [instantiateDecl_zero hcached]
      exact ⟨hs, fun e he => Except.error.inj he ▸ .inl rfl⟩
    | succ depth =>
      rw [instantiateDecl_succ depth hcached]
      exact (hfields depth rfl).bind (finish_placing decl argument) _ hs
  · rw [instantiateDecl_cached depth hcached]
    exact ⟨hs, fun _ h => nomatch h⟩

/-- Applications at sites of a model, however deep the ones inside them go. -/
theorem instantiateWithin_placing (depth : Nat) (scope : Scope)
    (hsite : scope.model.Places scope.site) :
    ResolveM.Closed.AllApplied (fun _ x => scope.PlacingIn x) scope (instantiateWithin depth) := by
  induction depth using Nat.strongRecOn generalizing scope with
  | _ depth ih =>
    intro generic types
    rw [instantiateWithin_types]
    rcases hget : scope.model.get? generic with _ | ⟨d | decl | d | d⟩
    case some.generic =>
      dsimp only
      rcases namedTypes types with _ | ⟨_ | ⟨argument, _ | ⟨second, rest⟩⟩⟩
      · exact .throw (.inl rfl)
      · exact .throw (.inl rfl)
      · refine instantiateDecl_placing fun d hd => ?_
        have hinst (site : Site) (hsite : scope.model.Places site) :=
          ih d (hd ▸ Nat.lt_succ_self d) (scope.focus site) hsite
        exact resolveFields_placing hinst (SourceModel.get?_mem hget) _
      · exact .throw (.inl rfl)
    case none => exact .throw (.inr hsite)
    all_goals exact .throw (.inl rfl)

/-- A declaration is entered at sites of the model. -/
theorem declare_placing {d : Declaration} (hd : d ∈ scope.model.declarations) :
    scope.PlacingIn (scope.declare depth d) := by
  have hsite := SourceModel.places_declaration hd
  have hfields := resolveFields_placing
    (fun site => instantiateWithin_placing depth (scope.focus site)) hd
  cases d with
  | object decl =>
    refine (enter_placing (t := .object decl.name) hsite (by rintro _ ⟨⟩)).bind fun _ => ?_
    refine Placing.get.bind fun state => ?_
    split
    · exact .throw (.inl rfl)
    · refine (Placing.changeGraph fun _ _ _ => TypeGraph.pending_mem_updateObject).bind fun _ => ?_
      refine (hfields []).bind fun fields => ?_
      exact .changeGraph fun _ _ _ => TypeGraph.pending_mem_updateObject
  | enum decl =>
    refine (enter_placing (t := .enum decl.name) hsite (by rintro _ ⟨⟩)).bind fun _ => ?_
    exact .changeGraph fun _ _ _ => TypeGraph.pending_mem_updateEnum
  | scalar decl =>
    rw [declare, declareScalar]
    rcases scope.registry.byName? decl.name with _ | sc
    · exact .throw (.inl rfl)
    · exact (enter_placing (t := .scalar sc) hsite (by rintro _ ⟨⟩)).bind fun _ => .pure _
  | generic decl =>
    refine (hfields _).bind fun fields => ?_
    intro s hs
    rw [ResolveM.onGraph_apply, TypeGraph.addTemplate]
    by_cases hknown : (s.graph.template? decl.name).isSome ∨ (s.graph.get? decl.name).isSome
    · rw [if_pos hknown]
      exact ⟨hs, fun e he => Except.error.inj he ▸ .inl rfl⟩
    · rw [if_neg hknown]
      exact ⟨hs, by rintro _ ⟨⟩⟩

theorem declareAll_placing (scope : Scope) (depth : Nat) {ds : List Declaration}
    (hds : ∀ d ∈ ds, d ∈ scope.model.declarations) :
    Placing scope.model.Places scope.model.Places (scope.declareAllWithin depth ds) := by
  induction ds with
  | nil => exact .pure _
  | cons d rest ih =>
    have hd := hds d List.mem_cons_self
    rw [declareAllWithin, located, declare_focus]
    refine ((declare_placing hd).attaching (SourceModel.places_declaration hd)).bind fun _ => ?_
    exact ih fun x hx => hds x (List.mem_cons_of_mem _ hx)

/-- An error of a resolution is at a site of the model, also one that is found after the walk. -/
theorem resolve_error_places {s : Resolution} {e : CompileError}
    (h : scope.resolveWithin depth {} = (.error e, s)) : scope.model.Places e.site := by
  have hall := declareAll_placing scope depth (fun _ hd => hd) {} (fun _ _ h => nomatch h)
  rw [resolveWithin] at h
  rcases hrun : scope.declareAllWithin depth scope.model.declarations {} with ⟨e' | u, mid⟩
  · rw [ResolveM.bind_error hrun] at h
    cases h
    exact hall.2 e (congrArg Prod.fst hrun)
  · rw [ResolveM.bind_ok hrun, ResolveM.bind_ok (ResolveM.get_apply mid)] at h
    rw [hrun] at hall
    obtain ⟨hs, -, -, hentered⟩ := declareAll_ok (sound_empty scope) (fun _ hd => hd) hrun
    rw [TypeGraph.assertComplete] at h
    rcases hfind : mid.graph.nodes.find? (!·.filled) with _ | node
    · rw [hfind] at h
      cases h
    · rw [hfind] at h
      cases h
      have hnode := List.mem_of_find?_eq_some hfind
      have hunfilled : node.filled = false := by simpa using List.find?_some hfind
      obtain ⟨name, site, rfl⟩ := pending_of_unfilled hs hentered hnode hunfilled
      exact hall.1 name site hnode

end Scope

end SchemaCompiler
