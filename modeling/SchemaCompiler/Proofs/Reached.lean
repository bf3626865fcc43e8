import SchemaCompiler.Proofs.References

/-! The walk through a type graph. It lists named types once and depth first. In a resolved graph it
lists exactly the types that can be reached from where it starts, all of them types of the graph, and
from the names of an analysis all declared types are reached. -/

namespace SchemaCompiler

namespace TypeGraph

variable {graph : TypeGraph} {seen past : List String} {types : List TypeNode}

def LeadsTo (graph : TypeGraph) (t n : Named) : Prop :=
  ∃ x ∈ references (graph.fieldsOf t), x.target? = some n

/-- What can be reached from types, by way of fields and their arguments, without coming by one of the
names in `past`. -/
inductive Reaches (graph : TypeGraph) (past : List String) (types : List TypeNode) : Named → Prop
  | start {x : TypeNode} {n : Named} (mem : x ∈ types) (target : x.target? = some n)
    (fresh : n.name ∉ past) : Reaches graph past types n
  | field {t n : Named} (reached : Reaches graph past types t) (leads : graph.LeadsTo t n)
    (fresh : n.name ∉ past) : Reaches graph past types n

/-- Types that have the targets of others reach as much, the more so if less is in the way. -/
theorem Reaches.mono {types' : List TypeNode} {past' : List String} {n : Named}
    (htypes : ∀ x ∈ types, ∀ n, x.target? = some n → n.name ∉ past → graph.Reaches past' types' n)
    (hpast : past' ⊆ past) (h : graph.Reaches past types n) : graph.Reaches past' types' n := by
  induction h with
  | start mem target fresh => exact htypes _ mem _ target fresh
  | field _ leads fresh ih => exact .field ih leads fun hmem => fresh (hpast hmem)

theorem Reaches.subset {types' : List TypeNode} {n : Named} (h : graph.Reaches past types n)
    (hsubset : types ⊆ types') : graph.Reaches past types' n :=
  h.mono (fun _ hx _ hn hfresh => .start (hsubset hx) hn hfresh) (List.Subset.refl _)

theorem walk_names :
    ((graph.walk seen types).map Named.name).Nodup ∧ ∀ t ∈ graph.walk seen types, t.name ∉ seen := by
  induction seen, types using walk.induct graph with
  | case1 seen =>
    rw [walk]
    exact ⟨.nil, fun _ ht => nomatch ht⟩
  | case2 seen inner rest ih
  | case3 seen inner rest ih
  | case4 seen generic inner rest ih
  | case5 seen parameter rest ih => rwa [walk]
  | case6 seen type rest hseen ih => rwa [walk, if_pos hseen]
  | case7 seen type rest hseen ih =>
    rw [walk, if_neg hseen, List.map_cons, List.nodup_cons, List.forall_mem_cons]
    refine ⟨⟨fun hmem => ?_, ih.1⟩, by simpa using hseen, fun t ht hmem => ?_⟩
    · obtain ⟨t, ht, hname⟩ := List.mem_map.1 hmem
      exact ih.2 t ht (hname ▸ List.mem_cons_self)
    · exact ih.2 t ht (List.mem_cons_of_mem _ hmem)

/-- A walk lists only what can be reached past the names that were seen. -/
theorem reaches_of_mem_walk {t : Named} (ht : t ∈ graph.walk seen types) :
    graph.Reaches seen types t := by
  induction seen, types using walk.induct graph with
  | case1 seen => rw [walk] at ht; cases ht
  | case2 seen inner rest ih
  | case3 seen inner rest ih
  | case4 seen generic inner rest ih =>
    rw [walk] at ht
    refine (ih ht).mono (fun x hx n hn hfresh => ?_) (List.Subset.refl _)
    rcases List.mem_cons.1 hx with rfl | hx
    · exact .start List.mem_cons_self hn hfresh
    · exact .start (List.mem_cons_of_mem _ hx) hn hfresh
  | case5 seen parameter rest ih =>
    rw [walk] at ht
    exact (ih ht).subset (List.subset_cons_self _ _)
  | case6 seen type rest hseen ih =>
    rw [walk, if_pos hseen] at ht
    exact (ih ht).subset (List.subset_cons_self _ _)
  | case7 seen type rest hseen ih =>
    rw [walk, if_neg hseen] at ht
    have htype : graph.Reaches seen (.named type :: rest) type :=
      .start List.mem_cons_self rfl (by simpa using hseen)
    rcases List.mem_cons.1 ht with rfl | ht
    · exact htype
    · refine (ih ht).mono (fun x hx n hn hfresh => ?_) (List.subset_cons_self _ _)
      have hfresh' : n.name ∉ seen := fun hmem => hfresh (List.mem_cons_of_mem _ hmem)
      rcases List.mem_append.1 hx with hx | hx
      · exact .field htype ⟨x, hx, hn⟩ hfresh'
      · exact .start (List.mem_cons_of_mem _ hx) hn hfresh'

/-- A walk passes over no name that it starts with. -/
theorem walk_meets (seen : List String) {x : TypeNode} (hx : x ∈ types) {n : Named}
    (hn : x.target? = some n) :
    n.name ∈ seen ∨ ∃ t ∈ graph.walk seen types, t.name = n.name := by
  induction seen, types using walk.induct graph generalizing x with
  | case1 seen => cases hx
  | case2 seen inner rest ih
  | case3 seen inner rest ih
  | case4 seen generic inner rest ih =>
    rw [walk]
    rcases List.mem_cons.1 hx with rfl | hx
    · exact ih List.mem_cons_self hn
    · exact ih (List.mem_cons_of_mem _ hx) hn
  | case5 seen parameter rest ih =>
    rw [walk]
    rcases List.mem_cons.1 hx with rfl | hx
    · cases hn
    · exact ih hx hn
  | case6 seen type rest hseen ih =>
    rw [walk, if_pos hseen]
    rcases List.mem_cons.1 hx with rfl | hx
    · cases hn
      exact .inl (by simpa using hseen)
    · exact ih hx hn
  | case7 seen type rest hseen ih =>
    rw [walk, if_neg hseen]
    rcases List.mem_cons.1 hx with rfl | hx
    · cases hn
      exact .inr ⟨_, List.mem_cons_self, rfl⟩
    · rcases ih (List.mem_append_right _ hx) hn with hmem | ⟨t, ht, hname⟩
      · rcases List.mem_cons.1 hmem with hname | hmem
        · exact .inr ⟨_, List.mem_cons_self, hname.symm⟩
        · exact .inl hmem
      · exact .inr ⟨t, List.mem_cons_of_mem _ ht, hname⟩

/-- A walk depends on which names were seen, not on their order. -/
theorem walk_congr {seen' : List String} (h : ∀ name, name ∈ seen ↔ name ∈ seen') :
    graph.walk seen types = graph.walk seen' types := by
  induction seen, types using walk.induct graph generalizing seen' with
  | case1 seen => rw [walk, walk]
  | case2 seen inner rest ih
  | case3 seen inner rest ih
  | case4 seen generic inner rest ih
  | case5 seen parameter rest ih => rw [walk, walk, ih h]
  | case6 seen type rest hseen ih =>
    have hseen' : seen'.contains type.name = true := by
      simpa using (h type.name).1 (by simpa using hseen)
    rw [walk, walk, if_pos hseen, if_pos hseen', ih h]
  | case7 seen type rest hseen ih =>
    have hseen' : ¬seen'.contains type.name = true := by
      simpa [← h type.name] using hseen
    have hnext : ∀ name, name ∈ type.name :: seen ↔ name ∈ type.name :: seen' := fun name => by
      rw [List.mem_cons, List.mem_cons, h name]
    rw [walk, walk, if_neg hseen, if_neg hseen', ih hnext]

/-- Right behind a listed type a walk goes through the fields of the type. -/
theorem walk_behind {before after : List Named} {t : Named}
    (h : graph.walk seen types = before ++ t :: after) : ∃ rest, after =
      graph.walk ((before ++ [t]).map Named.name ++ seen)
        (references (graph.fieldsOf t) ++ rest) := by
  induction seen, types using walk.induct graph generalizing before with
  | case1 seen =>
    rw [walk] at h
    simp at h
  | case2 seen inner rest ih
  | case3 seen inner rest ih
  | case4 seen generic inner rest ih
  | case5 seen parameter rest ih =>
    rw [walk] at h
    exact ih h
  | case6 seen type rest hseen ih =>
    rw [walk, if_pos hseen] at h
    exact ih h
  | case7 seen type rest hseen ih =>
    rw [walk, if_neg hseen] at h
    rcases before with _ | ⟨first, before⟩
    · obtain ⟨rfl, rfl⟩ := List.cons.inj h
      exact ⟨rest, rfl⟩
    · obtain ⟨rfl, htail⟩ := List.cons.inj h
      obtain ⟨more, rfl⟩ := ih htail
      refine ⟨more, walk_congr fun name => ?_⟩
      simp only [List.map_append, List.map_cons, List.cons_append, List.mem_append, List.mem_cons]
      tauto

/-- Whatever a listed type leads to was seen before or is listed, under its name. -/
theorem walk_leads {t n : Named} (ht : t ∈ graph.walk seen types) (hlead : graph.LeadsTo t n) :
    n.name ∈ seen ∨ ∃ n' ∈ graph.walk seen types, n'.name = n.name := by
  obtain ⟨before, after, hsplit⟩ := List.append_of_mem ht
  obtain ⟨rest, hafter⟩ := walk_behind hsplit
  obtain ⟨x, hx, hn⟩ := hlead
  rw [hsplit]
  rcases walk_meets ((before ++ [t]).map Named.name ++ seen) (List.mem_append_left rest hx) hn with
    hmem | ⟨n', hn', hname⟩
  · rcases List.mem_append.1 hmem with hlisted | hseen
    · obtain ⟨n', hn', hname⟩ := List.mem_map.1 hlisted
      refine .inr ⟨n', ?_, hname⟩
      rw [List.append_cons]
      exact List.mem_append_left _ hn'
    · exact .inl hseen
  · rw [← hafter] at hn'
    exact .inr ⟨n', List.mem_append_right _ (List.mem_cons_of_mem _ hn'), hname⟩

/-- What the listed types lead to, the latest one first, and what a walk starts from. -/
def ahead (graph : TypeGraph) (start : List TypeNode) (listed : List Named) : List Named :=
  (listed.reverse.flatMap (fun t => references (graph.fieldsOf t)) ++ start).filterMap
    TypeNode.target?

/-- Whether types stand in the order in which a depth-first walk first reaches them. Each is the first
new one that the latest type before it leads to, or else the type before that one, and so on back to
where the walk starts; and the order ends where none is new. -/
def DepthFirst (graph : TypeGraph) (start : List TypeNode) (order : List Named) : Prop :=
  ∀ listed next, order = listed ++ next →
    next.head? = (graph.ahead start listed).find? fun t => t.name ∉ listed.map Named.name

theorem ahead_concat (start : List TypeNode) (listed : List Named) (t : Named) :
    graph.ahead start (listed ++ [t]) =
      (references (graph.fieldsOf t)).filterMap TypeNode.target? ++ graph.ahead start listed := by
  simp [ahead, List.filterMap_append]

/-- A walk that is under way goes on depth first if the types that are still to be visited are, but for
those that are listed, the ones ahead. -/
theorem depthFirst_walk_from {start : List TypeNode} (before : List Named)
    (hseen : ∀ name, name ∈ seen ↔ name ∈ before.map Named.name)
    (hahead : (graph.ahead start before).filter (fun t => t.name ∉ seen) =
      (types.filterMap TypeNode.target?).filter (fun t => t.name ∉ seen))
    {listed next : List Named} (h : graph.walk seen types = listed ++ next) :
    next.head? = (graph.ahead start (before ++ listed)).find? fun t =>
      t.name ∉ (before ++ listed).map Named.name := by
  induction seen, types using walk.induct graph generalizing before listed with
  | case1 seen =>
    rw [walk, eq_comm, List.append_eq_nil_iff] at h
    obtain ⟨rfl, rfl⟩ := h
    simp only [hseen] at hahead
    rw [List.append_nil, ← List.head?_filter, hahead]
    rfl
  | case2 seen inner rest ih
  | case3 seen inner rest ih
  | case4 seen generic inner rest ih
  | case5 seen parameter rest ih =>
    rw [walk] at h
    exact ih before hseen hahead h
  | case6 seen type rest hmem ih =>
    rw [walk, if_pos hmem] at h
    refine ih before hseen (hahead.trans ?_) h
    exact List.filter_cons_of_neg (by simpa using hmem)
  | case7 seen type rest hmem ih =>
    rw [walk, if_neg hmem] at h
    have hnew : type.name ∉ seen := by simpa using hmem
    rcases listed with _ | ⟨first, listed⟩
    · obtain rfl := h
      simp only [hseen] at hahead hnew
      rw [List.append_nil, ← List.head?_filter, hahead]
      exact (congrArg List.head? (List.filter_cons_of_pos (by simpa using hnew))).symm
    · obtain ⟨rfl, htail⟩ := List.cons.inj h
      rw [List.append_cons]
      refine ih _ (fun name => ?_) ?_ htail
      · rw [List.map_append, List.mem_append, ← hseen, List.mem_cons, or_comm, List.map_singleton,
          List.mem_singleton]
      · have hnarrow (ts : List Named) : ts.filter (fun t => t.name ∉ type.name :: seen) =
            (ts.filter fun t => t.name ∉ seen).filter fun t => t.name ≠ type.name := by
          simp [List.filter_filter]
        rw [ahead_concat, List.filterMap_append, List.filter_append, List.filter_append]
        congr 1
        rw [hnarrow, hahead, hnarrow]
        simp [TypeNode.target?, hnew]

/-- A walk lists types depth first. -/
theorem depthFirst_walk (graph : TypeGraph) (start : List TypeNode) :
    graph.DepthFirst start (graph.walk [] start) := fun listed next h => by
  simpa using depthFirst_walk_from [] (by simp) (by simp [ahead]) h

end TypeGraph

namespace Scope

variable {scope : Scope} {s : Resolution} {seen : List String} {types : List TypeNode} {n : Named}

/-- The fields of the types of a graph are closed and refer to types of the graph. -/
theorem Complete.fieldsOf_references (h : scope.Complete s) (t : Named) :
    ∀ x ∈ TypeGraph.references (s.graph.fieldsOf t),
      x.isClosed = true ∧ ∀ n, x.target? = some n → s.Holds n := by
  intro x hx
  unfold TypeGraph.fieldsOf at hx
  split at hx
  · rename_i node hget
    split at hx
    · exact h.node_references (TypeGraph.get?_mem hget) x hx
    · cases hx
  · cases hx

/-- Types of a graph lead to types of the graph. -/
theorem Complete.holds_of_leadsTo (h : scope.Complete s) {t n : Named}
    (hlead : s.graph.LeadsTo t n) : s.Holds n := by
  obtain ⟨x, hx, hn⟩ := hlead
  exact (h.fieldsOf_references t x hx).2 n hn

/-- A walk from the names of roots starts at types of the graph. -/
theorem Complete.holds_of_start (h : scope.Complete s) (roots : List String) :
    ∀ x ∈ roots.flatMap s.graph.start, ∀ n, x.target? = some n → s.Holds n := by
  intro x hx n hn
  obtain ⟨root, -, hx⟩ := List.mem_flatMap.1 hx
  unfold TypeGraph.start at hx
  split at hx
  · rename_i template htemplate
    obtain ⟨_, -, hreferences⟩ := h.template_references (List.mem_of_find?_eq_some htemplate)
    exact (hreferences x hx).2 n hn
  · obtain ⟨node, hnode, rfl⟩ := List.mem_map.1 hx
    cases hn
    exact h.holds_iff.2 ⟨node, TypeGraph.get?_mem (Option.mem_toList.1 hnode), rfl⟩

/-- What is reached from types of the graph is in the graph. -/
theorem Complete.holds_of_reaches (h : scope.Complete s)
    (hstart : ∀ x ∈ types, ∀ n, x.target? = some n → s.Holds n)
    (hn : s.graph.Reaches seen types n) : s.Holds n := by
  cases hn with
  | start mem target _ => exact hstart _ mem _ target
  | field _ leads _ => exact h.holds_of_leadsTo leads

/-- A walk lists exactly what can be reached past the names that were seen. -/
theorem Complete.mem_walk_iff (h : scope.Complete s)
    (hstart : ∀ x ∈ types, ∀ n, x.target? = some n → s.Holds n) :
    n ∈ s.graph.walk seen types ↔ s.graph.Reaches seen types n := by
  refine ⟨TypeGraph.reaches_of_mem_walk, fun hn => ?_⟩
  -- a listed type and the one that is meant have one name, and both are in the graph
  have hsame {n n' : Named} (hn : s.graph.Reaches seen types n)
      (hn' : n' ∈ s.graph.walk seen types) (hname : n'.name = n.name) :
      n ∈ s.graph.walk seen types := by
    rwa [h.holds_inj (h.holds_of_reaches hstart hn)
      (h.holds_of_reaches hstart (TypeGraph.reaches_of_mem_walk hn')) hname.symm]
  induction hn with
  | start mem target fresh =>
    obtain ⟨n', hn', hname⟩ := (TypeGraph.walk_meets seen mem target).resolve_left fresh
    exact hsame (.start mem target fresh) hn' hname
  | field reached leads fresh ih =>
    obtain ⟨n', hn', hname⟩ := (TypeGraph.walk_leads ih leads).resolve_left fresh
    exact hsame (.field reached leads fresh) hn' hname

end Scope

namespace SourceModel

variable {model : SourceModel} {a : Analysis}

theorem holds_of_leadsTo (h : model.analyze = .ok a) {t n : Named} (hlead : a.graph.LeadsTo t n) :
    a.resolution.Holds n :=
  (complete_of_analyze h).holds_of_leadsTo hlead

theorem holds_of_ordered (h : model.analyze = .ok a) {t : Named} (ht : t ∈ a.emission.ordered) :
    a.resolution.Holds t :=
  (complete_of_analyze h).holds_of_reaches ((complete_of_analyze h).holds_of_start _)
    (TypeGraph.reaches_of_mem_walk ht)

theorem ordered_nodup (a : Analysis) : a.emission.ordered.Nodup :=
  TypeGraph.walk_names.1.of_map

/-- Every declared name that stands for a type is reached. -/
theorem mem_ordered (h : model.analyze = .ok a) {t : Named} (ht : a.resolution.Holds t)
    (hdeclared : ∃ d ∈ a.model.declarations, d.name = t.name) : t ∈ a.emission.ordered := by
  have hcomplete := complete_of_analyze h
  obtain ⟨node, hnode, rfl⟩ := hcomplete.holds_iff.1 ht
  obtain ⟨d, hd, hname⟩ := hdeclared
  have hget : a.graph.get? d.name = some node := by
    rw [hname]
    exact TypeGraph.get?_of_mem hcomplete.sound.nodup hnode
  have htemplate : a.graph.template? d.name = none := by
    rw [TypeGraph.template?_eq_none, hname]
    exact fun hmem => List.disjoint_of_nodup_append hcomplete.sound.names
      (List.mem_map_of_mem hnode) hmem
  have hstart : TypeNode.named node.ref ∈ a.emission.roots.flatMap a.resolution.graph.start := by
    refine List.mem_flatMap.2 ⟨d.name, List.mem_map_of_mem hd, ?_⟩
    unfold TypeGraph.start
    rw [show a.resolution.graph = a.graph from rfl, htemplate, hget]
    exact List.mem_singleton_self _
  exact (hcomplete.mem_walk_iff (hcomplete.holds_of_start _)).2 (.start hstart rfl List.not_mem_nil)

end SourceModel

end SchemaCompiler
