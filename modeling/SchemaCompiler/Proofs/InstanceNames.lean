import SchemaCompiler.Proofs.ClosedGraph

/-! The names of instantiations. An instantiation is called by its argument and its generic, and two
pairs of these can be spelled alike, as `Box` of `ABox` and `BoxBox` of `A` are. A resolution that
ends well has met no such pair: its instantiations are listed once each, and their names are their
own. A name that stands in an expression by itself never leads to one of them. -/

namespace SchemaCompiler

namespace TypeGraph

theorem instantiation?_of_mem {graph : TypeGraph} (hnames : (graph.nodes.map Node.name).Nodup)
    {i : Instantiation} (hi : Node.instantiation i ∈ graph.nodes) :
    graph.instantiation? i.key = some i := by
  have hget : graph.get? i.key.name = some (.instantiation i) := get?_of_mem hnames hi
  simp [instantiation?, hget]

/-- Entering a type that is no instantiation answers none. -/
theorem enter_ne_instantiation {graph graph' : TypeGraph} {site : Site} {t r : Named}
    (ht : ∀ key, t ≠ .instantiation key) (h : graph.enter site t = .ok (r, graph'))
    (key : InstanceKey) : r ≠ .instantiation key := by
  rcases enter_cases ht h with ⟨node, -, haccepts, rfl, -⟩ | ⟨-, -, rfl, -⟩
  · intro hinst
    cases node with
    | instantiation i => cases t <;> exact haccepts.elim
    | _ => cases hinst
  · exact ht key

end TypeGraph

namespace Scope

variable {scope : Scope} {s s' : Resolution}

/-- From any state a name refers to no instantiation. -/
theorem named_ne_instantiation {name : String} {tag : Option String} {n : Named}
    (h : scope.named name tag s = (.ok n, s')) (key : InstanceKey) : n ≠ .instantiation key := by
  rw [named_eq] at h
  rcases htarget : scope.target name tag with cause | t
  · rw [htarget] at h
    cases h
  · rw [htarget] at h
    obtain ⟨g, henter, -⟩ := ResolveM.onGraph_eq_ok.1 h
    exact TypeGraph.enter_ne_instantiation (target_isTarget htarget).ne_instantiation henter key

theorem node_ne_instantiation (name : String) (tag : Option String) (key : InstanceKey) :
    scope.node name tag ≠ .instantiation key := by
  rw [node]
  split
  · rename_i htarget
    exact (target_isTarget htarget).ne_instantiation key
  · intro h
    cases h

/-- One instantiation for each key, and one name for each instantiation. -/
structure Unambiguous (scope : Scope) (s : Resolution) : Prop where
  listed : s.listed.Perm s.memo
  once : s.listed.Nodup
  keys : (s.memo.map (·.key)).Nodup
  held : ∀ i ∈ s.memo, s.graph.get? i.key.name = some (.instantiation i)
  ofKey : ∀ i ∈ s.memo, ∃ decl, .generic decl ∈ scope.model.declarations ∧
    i.key = ⟨decl.name, i.argument.name⟩
  argument : ∀ i ∈ s.memo, s.Leads i.argument
  spelled : ∀ i ∈ s.memo, (Node.instantiation i).name = i.argument.name ++ i.key.generic
  again : ∀ i ∈ s.memo, ∀ site,
    instantiate (scope.focus site) i.key.generic [.type (.named i.argument)] s = (.ok i.key, s)
  names : ∀ i ∈ s.memo, ∀ j ∈ s.memo, i.key.name = j.key.name → i = j
  nodes : ∀ i ∈ s.memo, ∀ node ∈ s.graph.nodes, node.name = i.key.name → node = .instantiation i
  declared : ∀ i ∈ s.memo, ∀ d ∈ scope.model.declarations, d.name ≠ i.key.name
  templates : ∀ i ∈ s.memo, ∀ t ∈ s.graph.templates, t.name ≠ i.key.name
  bare : ∀ site name tag before n after,
    (scope.focus site).named name tag before = (.ok n, after) → ∀ key, n ≠ .instantiation key
  reads : ∃ node, s.graph.Reads node scope.model ∧
    ∀ name tag key, node name tag ≠ .instantiation key

namespace Complete

theorem mem_listed (h : scope.Complete s) {i : Instantiation} : i ∈ s.listed ↔ i ∈ s.memo := by
  rw [Resolution.listed, List.mem_filterMap]
  constructor
  · rintro ⟨key, -, hi⟩
    exact (h.sound.nodes _ (TypeGraph.instantiation?_eq_some hi).1).1
  · intro hi
    have hnode := h.instantiation hi
    exact ⟨i.key, (h.sound.done i.key).2 ⟨i, hnode, rfl⟩,
      TypeGraph.instantiation?_of_mem h.sound.nodup hnode⟩

theorem listed_nodup (h : scope.Complete s) : s.listed.Nodup := by
  refine h.sound.finished.filterMap fun key key' i hi hi' => ?_
  rw [← (TypeGraph.instantiation?_eq_some hi).2, ← (TypeGraph.instantiation?_eq_some hi').2]

/-- The only node that goes by the name of an instantiation is its own. -/
theorem eq_instantiation (h : scope.Complete s) {i : Instantiation} (hi : i ∈ s.memo) {node : Node}
    (hnode : node ∈ s.graph.nodes) (hname : node.name = i.key.name) : node = .instantiation i :=
  List.inj_on_of_nodup_map h.sound.nodup hnode (h.instantiation hi) hname

theorem template_ne_instantiation (h : scope.Complete s) {i : Instantiation} (hi : i ∈ s.memo)
    {t : Template} (ht : t ∈ s.graph.templates) : t.name ≠ i.key.name :=
  (h.closed_state.apart _ (h.instantiation hi) t ht).symm

/-- Every declaration holds its name against instantiations: its type or its template has it. -/
theorem declared_ne_instantiation (h : scope.Complete s) {i : Instantiation} (hi : i ∈ s.memo)
    {d : Declaration} (hd : d ∈ scope.model.declarations) : d.name ≠ i.key.name := by
  intro hname
  have hentered := h.entered d hd
  cases d with
  | object decl =>
    obtain ⟨t, ht, htName, -⟩ := hentered
    cases h.eq_instantiation hi ht (htName.trans hname)
  | enum decl =>
    obtain ⟨t, ht, htName, -⟩ := hentered
    cases h.eq_instantiation hi ht (htName.trans hname)
  | scalar decl =>
    obtain ⟨sc, hsc, hheld⟩ := hentered
    have hscName : sc.name = decl.name := by simpa using List.find?_some hsc
    cases h.holds_inj hheld (.inr ⟨i, hi, rfl⟩) (hscName.trans hname)
  | generic decl =>
    obtain ⟨t, ht, hsound⟩ := hentered
    exact h.template_ne_instantiation hi ht (hsound.name.trans hname)

theorem instantiate_again (h : scope.Complete s) {i : Instantiation} (hi : i ∈ s.memo)
    (site : Site) :
    instantiate (scope.focus site) i.key.generic [.type (.named i.argument)] s = (.ok i.key, s) := by
  obtain ⟨decl, hentry⟩ := h.sound.memo i hi
  have hcached : s.cached? ⟨decl.name, i.argument.name⟩ = some i := by
    rw [← hentry.key]
    exact h.cached?_of_mem (h.instantiation hi)
  rw [hentry.key, instantiate, instantiateWithin_named (scope.focus site) _ hentry.declared,
    instantiateDecl_cached _ hcached]

theorem unambiguous (h : scope.Complete s) : scope.Unambiguous s where
  listed := (List.perm_ext_iff_of_nodup h.listed_nodup h.sound.keys.of_map).2 fun _ => h.mem_listed
  once := h.listed_nodup
  keys := h.sound.keys
  held i hi := TypeGraph.get?_of_mem h.sound.nodup (h.instantiation hi)
  ofKey i hi := by
    obtain ⟨decl, hentry⟩ := h.sound.memo i hi
    exact ⟨decl, SourceModel.get?_mem hentry.declared, hentry.key⟩
  argument i hi := h.closed_state.arguments i (h.instantiation hi)
  spelled i hi := by
    obtain ⟨decl, hentry⟩ := h.sound.memo i hi
    show i.key.name = i.argument.name ++ i.key.generic
    rw [hentry.key]
    rfl
  again i hi site := h.instantiate_again hi site
  names i hi j hj hname := by
    cases h.eq_instantiation hi (h.instantiation hj) hname.symm
    rfl
  nodes i hi node hnode hname := h.eq_instantiation hi hnode hname
  declared i hi d hd := h.declared_ne_instantiation hi hd
  templates i hi t ht := h.template_ne_instantiation hi ht
  bare _ _ _ _ _ _ hnamed key := named_ne_instantiation hnamed key
  reads := ⟨scope.node, h.reads, node_ne_instantiation⟩

end Complete

/-- A resolution that ends well has one instantiation for each key and one name for each
instantiation, which no other type, template or declaration has and no bare reference leads to. -/
theorem unambiguous_of_resolve (h : scope.resolve {} = (.ok (), s)) : scope.Unambiguous s :=
  (complete_of_resolve h).unambiguous

end Scope

theorem treeUnit_unambiguous : ∃ (model : SourceModel) (a : Analysis) (i : Instantiation),
    treeUnit.extract = .ok model ∧ a.scope.resolve {} = (.ok (), a.resolution) ∧
      i ∈ a.resolution.memo ∧ i.key = ⟨"Tree", "String"⟩ ∧ a.scope.Unambiguous a.resolution := by
  obtain ⟨model, a, i, hmodel, ha, hi, hkey⟩ := treeUnit_analyzed
  have hrun := (SourceModel.analyze_eq_ok.1 ha).2.2.1
  have hmemo := ((Scope.complete_of_resolve hrun).sound.nodes _ hi).1
  exact ⟨model, a, i, hmodel, hrun, hmemo, hkey, Scope.unambiguous_of_resolve hrun⟩

end SchemaCompiler
