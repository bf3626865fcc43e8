import SchemaCompiler.Proofs.Ending

/-! Consistent models are resolved. Every plan of such a model has an answer and no two of its types
share a name, so nothing is left that a run could fail by. The order of the declarations does not
come into it. -/

namespace SchemaCompiler

namespace Scope

variable {scope : Scope} {s : Resolution}

/-- Nothing makes a run of a consistent model fail. -/
theorem Consistent.failsBy (hc : scope.Consistent) : scope.FailsBy fun _ => False where
  answered plan e hplan he := by
    obtain ⟨fields, houtcome, -⟩ := hc.answered plan hplan
    rw [houtcome] at he
    cases he
  registered := hc.registered
  unknown name hoccurs := hc.known name hoccurs
  distinct t t' ht ht' _ _ hname := hc.distinct t t' ht ht' hname
  apart := hc.apart
  shallow path hpath hkeys := hpath.length_le hc
    (fun x hx => SourceModel.get?_mem (hpath.arises x hx).declared) hkeys

/-- A consistent model is resolved, and the graph holds only types that occur. -/
theorem Consistent.resolve (hc : scope.Consistent) (hfresh : scope.model.OwnersFresh) :
    ∃ s, scope.resolve {} = (.ok (), s) ∧ scope.Within s := by
  have hends := hc.failsBy.resolve hfresh
  rcases hrun : scope.resolve {} with ⟨e | u, s⟩
  · rw [hrun] at hends
    cases hends with
    | badly h => exact h.elim
  · rw [hrun] at hends
    cases hends with
    | well hwithin => exact ⟨s, rfl, hwithin⟩

/-- An instantiation in the graph comes from a plan that asks for it. -/
theorem Complete.instantiation_arises (h : scope.Complete s) (hw : scope.Within s)
    {i : Instantiation} (hi : Node.instantiation i ∈ s.graph.nodes) {decl : GenericDecl}
    (hentry : scope.EntrySound s i decl) : scope.Arises decl i.argument := by
  have hoccurs : scope.Occurs (.instantiation i.key) := hw _ (.inl (List.mem_map_of_mem hi))
  generalize hkey : Named.instantiation i.key = t at hoccurs
  cases hoccurs with
  | entered hplan hasks =>
    subst hkey
    exact (hplan.grounded hasks).elim
  | @applied plan decl' argument hplan hasks =>
    obtain ⟨hname, hargument⟩ := InstanceKey.mk.inj
      (hentry.key.symm.trans (Named.instantiation.inj hkey))
    have hdecl : decl = decl' := by
      have hget : scope.model.get? decl'.name = some (.generic decl') := hplan.grounded hasks
      rw [← hname, hentry.declared] at hget
      exact Declaration.generic.inj (Option.some.inj hget)
    obtain ⟨owner, fields, -, hresolved⟩ := h.planned hplan
    obtain ⟨site, hsite⟩ := hasks
    have hsame := h.holds_inj hentry.argument (hresolved.met _ hsite).1 hargument
    exact hdecl ▸ hsame ▸ ⟨plan, hplan, site, hsite⟩
  | _ => cases hkey

/-- All fields of a graph of which everything occurs can be bound to resolvers. -/
theorem Consistent.bindable (hc : scope.Consistent) (h : scope.Complete s) (hw : scope.Within s) :
    ∀ owner ∈ s.graph.owners, ∃ bs, bindFields owner.1 owner.2 = .ok bs := by
  have hanswer : ∀ {plan fields}, scope.Planned plan → Resolved s plan fields → Bindable fields := by
    intro plan fields hplan hresolved
    obtain ⟨fields', houtcome, hbindable⟩ := hc.answered plan hplan
    rwa [Except.ok.inj (hresolved.outcome.symm.trans houtcome)]
  intro owner howner
  refine exists_bindFields.2 ?_
  rcases List.mem_append.1 howner with hmem | hmem
  · obtain ⟨node, hnode, rfl⟩ := List.mem_map.1 hmem
    have hsound := h.sound.nodes node hnode
    cases node with
    | object o =>
      obtain ⟨decl, hdecl, -, hfilled⟩ := hsound
      exact hanswer (.object hdecl) (hfilled (h.filled _ hnode)).2
    | instantiation i =>
      obtain ⟨decl, hentry⟩ := h.sound.memo i hsound.1
      obtain ⟨plan, hplan, hasks⟩ := h.instantiation_arises hw hnode hentry
      exact hanswer (hplan.body hasks) (hentry.body hsound.2)
    | _ => exact fun _ hf => nomatch hf
  · obtain ⟨template, htemplate, rfl⟩ := List.mem_map.1 hmem
    obtain ⟨decl, hsound⟩ := h.sound.templates template htemplate
    exact hanswer (.generic hsound.declared) hsound.body

end Scope

theorem SourceModel.consistent_of_analyze {model : SourceModel} {a : Analysis}
    (h : model.analyze = .ok a) : a.scope.Consistent :=
  (complete_of_analyze h).consistent fun _ howner => ⟨_, bindFields_of_owner h howner⟩

/-- The graph of an analysis holds only types that occur. -/
theorem SourceModel.within_of_analyze {model : SourceModel} {a : Analysis}
    (h : model.analyze = .ok a) : a.scope.Within a.resolution := by
  obtain ⟨s, hrun, hwithin⟩ := (consistent_of_analyze h).resolve
    (Scope.ownersFresh_of_resolve (analyze_eq_ok.1 h).2.2.1)
  obtain rfl : s = a.resolution :=
    (Prod.mk.inj (hrun.symm.trans (analyze_eq_ok.1 h).2.2.1)).2
  exact hwithin

/-- A model is analyzed exactly if its scalars can be registered and it is consistent. -/
theorem SourceModel.analyze_ok_iff {model : SourceModel} {registry : ScalarRegistry}
    (hnames : (model.declarations.map Declaration.name).Nodup)
    (hregistry : ScalarRegistry.ofModel model = .ok registry) :
    (∃ a, model.analyze = .ok a) ↔ ({ model, registry : Scope }).Consistent := by
  constructor
  · rintro ⟨a, h⟩
    have hc := consistent_of_analyze h
    obtain ⟨rfl, hregistry', -, -⟩ := analyze_eq_ok.1 h
    obtain rfl : a.registry = registry := Except.ok.inj (hregistry'.symm.trans hregistry)
    exact hc
  · intro hc
    obtain ⟨s, hrun, hwithin⟩ := hc.resolve (ownersFresh_of_nodup hnames)
    obtain ⟨bss, hbss⟩ := exists_forall₂ (hc.bindable (Scope.complete_of_resolve hrun) hwithin)
    exact ⟨⟨model, registry, s, ⟨bss.flatten⟩⟩,
      analyze_eq_ok.2 ⟨rfl, hregistry, hrun, Bindings.ofGraph_eq_ok.2 ⟨bss, hbss, rfl⟩⟩⟩

end SchemaCompiler
