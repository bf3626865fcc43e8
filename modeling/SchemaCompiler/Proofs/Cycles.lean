import Mathlib.Logic.Relation
import SchemaCompiler.Proofs.Building
import SchemaCompiler.Proofs.Reached

/-! The search for a cycle. It looks at the fields of one object type after the other, at no type
twice, and answers whether the type that it starts from leads back to itself. In a resolved graph the
types that it looks at are object nodes, and the way back is one from node to node. -/

namespace SchemaCompiler

namespace CycleSearch

variable {sought : Named} {search next : CycleSearch} {types fresh : List Named}

theorem meetAll_eq_none : search.meetAll sought types = none ↔ sought ∈ types := by
  induction types generalizing search with
  | nil => simp [meetAll]
  | cons type rest ih =>
    rw [meetAll, List.mem_cons]
    by_cases hsought : type = sought
    · simp [hsought]
    · rw [if_neg hsought, or_iff_right (Ne.symm hsought)]
      split
      · exact ih
      · exact ih

/-- What a search has come to behind some types: the new ones among them are on the stack. -/
structure Meets (sought : Named) (search : CycleSearch) (types : List Named) (next : CycleSearch)
    (fresh : List Named) : Prop where
  stack : next.stack = fresh ++ search.stack
  met : next.met = fresh ++ search.met
  nodup : fresh.Nodup
  new : ∀ t ∈ fresh, t ≠ sought ∧ t ∈ types ∧ t ∉ search.met
  all : ∀ t ∈ types, t ≠ sought ∧ t ∈ next.met

theorem Meets.mem_stack (h : search.Meets sought types next fresh) {t : Named} :
    t ∈ next.stack ↔ t ∈ fresh ∨ t ∈ search.stack := by
  rw [h.stack, List.mem_append]

theorem Meets.mem_met (h : search.Meets sought types next fresh) {t : Named} :
    t ∈ next.met ↔ t ∈ fresh ∨ t ∈ search.met := by
  rw [h.met, List.mem_append]

theorem exists_meets (h : search.meetAll sought types = some next) :
    ∃ fresh, search.Meets sought types next fresh := by
  induction types generalizing search with
  | nil =>
    cases h
    exact ⟨[], rfl, rfl, .nil, fun _ ht => (nomatch ht), fun _ ht => nomatch ht⟩
  | cons type rest ih =>
    rw [meetAll] at h
    split at h
    · cases h
    · rename_i hsought
      split at h
      · rename_i hmet
        obtain ⟨fresh, hmeets⟩ := ih h
        refine ⟨fresh, hmeets.stack, hmeets.met, hmeets.nodup, fun t ht => ?_, ?_⟩
        · obtain ⟨hne, hrest, hnew⟩ := hmeets.new t ht
          exact ⟨hne, List.mem_cons_of_mem _ hrest, hnew⟩
        · refine List.forall_mem_cons.2 ⟨⟨hsought, ?_⟩, hmeets.all⟩
          exact hmeets.mem_met.2 (.inr (by simpa using hmet))
      · rename_i hmet
        obtain ⟨fresh, hmeets⟩ := ih h
        have hnew : ∀ t ∈ fresh, t ≠ type ∧ t ∉ search.met := fun t ht => by
          simpa using (hmeets.new t ht).2.2
        refine ⟨fresh ++ [type], ?_, ?_, ?_, ?_, ?_⟩
        · rw [hmeets.stack, List.append_assoc]
          rfl
        · rw [hmeets.met, List.append_assoc]
          rfl
        · exact List.nodup_append.2 ⟨hmeets.nodup, List.nodup_singleton _, fun t ht t' ht' => by
            rw [List.mem_singleton.1 ht']
            exact (hnew t ht).1⟩
        · intro t ht
          rcases List.mem_append.1 ht with ht | ht
          · exact ⟨(hmeets.new t ht).1, List.mem_cons_of_mem _ (hmeets.new t ht).2.1, (hnew t ht).2⟩
          · obtain rfl := List.mem_singleton.1 ht
            exact ⟨hsought, List.mem_cons_self, by simpa using hmet⟩
        · refine List.forall_mem_cons.2 ⟨⟨hsought, ?_⟩, hmeets.all⟩
          exact hmeets.mem_met.2 (.inr List.mem_cons_self)

end CycleSearch

namespace TypeGraph

variable {graph : TypeGraph} {sought : Named} {search next : CycleSearch} {looked : List Named}
  {answer : Bool}

/-- The rounds of a search up to its answer, with the types whose fields are looked at. -/
inductive Searches (graph : TypeGraph) (sought : Named) :
    CycleSearch → (looked : List Named) → (answer : Bool) → Prop
  | exhausted (met : List Named) : Searches graph sought ⟨[], met⟩ [] false
  | found {type : Named} {stack met : List Named}
      (meets : CycleSearch.meetAll sought ⟨stack, met⟩ (graph.objectsOf type) = none) :
    Searches graph sought ⟨type :: stack, met⟩ [type] true
  | round {type : Named} {stack met : List Named} {next : CycleSearch} {looked : List Named}
      {answer : Bool}
      (meets : CycleSearch.meetAll sought ⟨stack, met⟩ (graph.objectsOf type) = some next)
      (rest : Searches graph sought next looked answer) :
    Searches graph sought ⟨type :: stack, met⟩ (type :: looked) answer

/-- Every search comes to an end, and its answer is the one that is found. -/
theorem searches_findCycle (graph : TypeGraph) (sought : Named) (search : CycleSearch) :
    ∃ looked, graph.Searches sought search looked (graph.findCycle sought (some search)) := by
  generalize hstart : some search = start
  induction start using findCycle.induct graph sought generalizing search with
  | case1 => cases hstart
  | case2 met =>
    cases hstart
    rw [findCycle]
    exact ⟨[], .exhausted met⟩
  | case3 type stack met ih =>
    cases hstart
    rw [findCycle]
    rcases hmeets : CycleSearch.meetAll sought ⟨stack, met⟩ (graph.objectsOf type) with _ | next
    · rw [findCycle]
      exact ⟨[type], .found hmeets⟩
    · obtain ⟨looked, hrest⟩ := ih next hmeets.symm
      rw [hmeets] at hrest
      exact ⟨type :: looked, .round hmeets hrest⟩

/-- Whether a field or an argument of a type is of an object type. -/
def HasObject (graph : TypeGraph) (t n : Named) : Prop :=
  n ∈ graph.objectsOf t

/-- What every round of a search keeps. Of the types that were met, those that are not on the stack
any more have been looked at: all that they lead to was met, and none of it is the type sought. -/
structure Explored (graph : TypeGraph) (sought : Named) (search : CycleSearch) : Prop where
  reached : ∀ t ∈ search.stack, Relation.ReflTransGen graph.HasObject sought t
  met : ∀ t ∈ search.stack, t = sought ∨ t ∈ search.met
  once : search.stack.Nodup
  closed : ∀ t, t = sought ∨ t ∈ search.met →
    t ∈ search.stack ∨ ∀ n, graph.HasObject t n → n ≠ sought ∧ n ∈ search.met

theorem explored_start (graph : TypeGraph) (sought : Named) :
    graph.Explored sought ⟨[sought], []⟩ where
  reached t ht := by
    rw [List.mem_singleton.1 ht]
  met t ht := .inl (List.mem_singleton.1 ht)
  once := List.nodup_singleton _
  closed t ht := .inl (by simpa using ht)

theorem Explored.round {type : Named} {stack met : List Named}
    (h : graph.Explored sought ⟨type :: stack, met⟩)
    (hmeets : CycleSearch.meetAll sought ⟨stack, met⟩ (graph.objectsOf type) = some next) :
    graph.Explored sought next := by
  obtain ⟨fresh, hmeets⟩ := CycleSearch.exists_meets hmeets
  have hmet : ∀ t ∈ met, t ∈ next.met := fun t ht => hmeets.mem_met.2 (.inr ht)
  refine ⟨fun t ht => ?_, fun t ht => ?_, ?_, fun t ht => ?_⟩
  · rcases hmeets.mem_stack.1 ht with ht | ht
    · exact (h.reached type List.mem_cons_self).tail (hmeets.new t ht).2.1
    · exact h.reached t (List.mem_cons_of_mem _ ht)
  · rcases hmeets.mem_stack.1 ht with ht | ht
    · exact .inr (hmeets.mem_met.2 (.inl ht))
    · exact (h.met t (List.mem_cons_of_mem _ ht)).imp_right (hmet t)
  · rw [hmeets.stack]
    refine List.nodup_append.2 ⟨hmeets.nodup, h.once.of_cons, fun t ht t' ht' hsame => ?_⟩
    obtain ⟨hne, -, hnew⟩ := hmeets.new t ht
    subst hsame
    exact (h.met t (List.mem_cons_of_mem _ ht')).elim hne hnew
  · -- a type is new, has just been looked at, is still on the stack, or was looked at before
    have hold : t ∈ fresh ∨ t = sought ∨ t ∈ met := by
      rw [hmeets.mem_met] at ht
      tauto
    rcases hold with ht | ht
    · exact .inl (hmeets.mem_stack.2 (.inl ht))
    rcases h.closed t ht with hon | hleads
    · rcases List.mem_cons.1 hon with rfl | hon
      · exact .inr hmeets.all
      · exact .inl (hmeets.mem_stack.2 (.inr hon))
    · exact .inr fun n hn => (hleads n hn).imp_right (hmet n)

/-- A search looks at a type once, and only at those that its start leads to. What it looks at is on the
stack or has not been met. -/
theorem Searches.looks_once (h : graph.Searches sought search looked answer)
    (hexplored : graph.Explored sought search) :
    looked.Nodup ∧ (∀ t ∈ looked, Relation.ReflTransGen graph.HasObject sought t) ∧
      ∀ t ∈ looked, t ∈ search.stack ∨ t ≠ sought ∧ t ∉ search.met := by
  induction h with
  | exhausted met => exact ⟨.nil, fun _ ht => (nomatch ht), fun _ ht => nomatch ht⟩
  | @found type stack met meets =>
    refine ⟨List.nodup_singleton _, fun t ht => ?_, fun t ht => .inl ?_⟩
    · rw [List.mem_singleton.1 ht]
      exact hexplored.reached type List.mem_cons_self
    · rw [List.mem_singleton.1 ht]
      exact List.mem_cons_self
  | @round type stack met next looked answer meets rest ih =>
    obtain ⟨hnodup, hreached, hleft⟩ := ih (hexplored.round meets)
    obtain ⟨fresh, hmeets⟩ := CycleSearch.exists_meets meets
    have htype := hexplored.met type List.mem_cons_self
    refine ⟨List.nodup_cons.2 ⟨fun hmem => ?_, hnodup⟩,
      List.forall_mem_cons.2 ⟨hexplored.reached type List.mem_cons_self, hreached⟩,
      List.forall_mem_cons.2 ⟨.inl List.mem_cons_self, fun t ht => ?_⟩⟩
    · -- the type that is looked at was met, is not new, and stood on the stack once
      rcases hleft type hmem with hon | ⟨hne, hnew⟩
      · rcases hmeets.mem_stack.1 hon with hon | hon
        · exact htype.elim (hmeets.new type hon).1 (hmeets.new type hon).2.2
        · exact (List.nodup_cons.1 hexplored.once).1 hon
      · exact htype.elim hne fun hmet => hnew (hmeets.mem_met.2 (.inr hmet))
    · rcases hleft t ht with hon | ⟨hne, hnew⟩
      · rcases hmeets.mem_stack.1 hon with hon | hon
        · exact .inr ⟨(hmeets.new t hon).1, (hmeets.new t hon).2.2⟩
        · exact .inl (List.mem_cons_of_mem _ hon)
      · exact .inr ⟨hne, fun hmet => hnew (hmeets.mem_met.2 (.inr hmet))⟩

/-- A search that is under way finds whether there is a way from the type sought to itself. -/
theorem Searches.answer_iff (h : graph.Searches sought search looked answer)
    (hexplored : graph.Explored sought search) :
    answer = true ↔ Relation.TransGen graph.HasObject sought sought := by
  induction h with
  | exhausted met =>
    refine ⟨fun h => (nomatch h), fun hcycle => ?_⟩
    -- with an empty stack, all that the type sought leads to was met, and it is not among it
    have hclosed : ∀ t, t = sought ∨ t ∈ met →
        ∀ n, graph.HasObject t n → n ≠ sought ∧ n ∈ met :=
      fun t ht => (hexplored.closed t ht).resolve_left List.not_mem_nil
    have hmet : ∀ n, Relation.TransGen graph.HasObject sought n → n ≠ sought ∧ n ∈ met := by
      intro n hn
      induction hn with
      | single hobject => exact hclosed _ (.inl rfl) _ hobject
      | tail _ hobject ih => exact hclosed _ (.inr ih.2) _ hobject
    exact absurd rfl (hmet sought hcycle).1
  | @found type stack met meets =>
    refine ⟨fun _ => ?_, fun _ => rfl⟩
    exact .tail' (hexplored.reached type List.mem_cons_self)
      (CycleSearch.meetAll_eq_none.1 meets)
  | round meets _ ih => exact ih (hexplored.round meets)

/-- A type is found to be on a cycle exactly if it leads to itself. -/
theorem inCycle_iff_hasObject (graph : TypeGraph) (t : Named) :
    graph.inCycle t = true ↔ Relation.TransGen graph.HasObject t t := by
  obtain ⟨looked, hsearch⟩ := graph.searches_findCycle t ⟨[t], []⟩
  exact hsearch.answer_iff (graph.explored_start t)

/-- Whether a field or an argument of a node of the graph is, inside all list and non-null wrappers, of
the type that an object node of the graph holds. -/
structure Points (graph : TypeGraph) (node next : Node) : Prop where
  left : node ∈ graph.nodes
  right : next ∈ graph.nodes
  object : next.kind = .object
  field : ∃ f ∈ node.fields, ∃ x ∈ f.types, x.unwrap = .named next.ref

/-- Only object types have fields to lead anywhere. -/
theorem LeadsTo.kind {t n : Named} (h : graph.LeadsTo t n) : t.kind = .object := by
  obtain ⟨x, hx, -⟩ := h
  unfold fieldsOf at hx
  split at hx
  · rename_i node _
    split at hx
    · rename_i href
      subst href
      cases node with
      | object _ => rfl
      | instantiation _ => rfl
      | enum _ => cases hx
      | scalar _ => cases hx
      | pending _ _ => cases hx
    · cases hx
  · cases hx

end TypeGraph

namespace TypeNode

variable {x : TypeNode} {n : Named}

theorem object?_eq_some : x.object? = some n ↔ x.unwrap = .named n ∧ n.kind = .object := by
  unfold object?
  split
  · rename_i n' hn'
    rw [hn', TypeNode.named.injEq]
    split
    · rename_i hkind
      rw [Option.some.injEq]
      exact ⟨fun h => ⟨h, h ▸ hkind⟩, And.left⟩
    · rename_i hkind
      refine ⟨fun h => (nomatch h), ?_⟩
      rintro ⟨rfl, hn⟩
      exact absurd hn hkind
  · rename_i hother
    exact ⟨fun h => (nomatch h), fun h => absurd h.1 (hother n)⟩

theorem target?_of_unwrap (h : x.unwrap = .named n) : x.target? = some n := by
  induction x with
  | named _ => exact congrArg some (TypeNode.named.inj h)
  | list _ ih => exact ih h
  | nonNull _ ih => exact ih h
  | placeholder _ => cases h
  | applied _ _ _ => cases h

theorem unwrap_of_target? (hclosed : x.isClosed = true) (h : x.target? = some n) :
    x.unwrap = .named n := by
  induction x with
  | named _ => exact congrArg TypeNode.named (Option.some.inj h)
  | list _ ih => exact ih hclosed h
  | nonNull _ ih => exact ih hclosed h
  | placeholder _ => cases h
  | applied _ _ _ => cases hclosed

end TypeNode

namespace Scope

variable {scope : Scope} {s : Resolution} {node : Node} {t n : Named}

namespace Complete

theorem hasObject_iff_leadsTo (h : scope.Complete s) :
    s.graph.HasObject t n ↔ s.graph.LeadsTo t n ∧ n.kind = .object := by
  constructor
  · intro hobject
    obtain ⟨x, hx, hn⟩ := List.mem_filterMap.1 hobject
    obtain ⟨hunwrap, hkind⟩ := TypeNode.object?_eq_some.1 hn
    exact ⟨⟨x, hx, TypeNode.target?_of_unwrap hunwrap⟩, hkind⟩
  · rintro ⟨⟨x, hx, hn⟩, hkind⟩
    have hunwrap := TypeNode.unwrap_of_target? (h.fieldsOf_references t x hx).1 hn
    exact List.mem_filterMap.2 ⟨x, hx, TypeNode.object?_eq_some.2 ⟨hunwrap, hkind⟩⟩

/-- On a way from a type to itself there are object types only. -/
theorem cycle_iff_leadsTo (h : scope.Complete s) :
    Relation.TransGen s.graph.HasObject t t ↔ Relation.TransGen s.graph.LeadsTo t t := by
  constructor
  · exact Relation.TransGen.mono (fun _ _ hobject => (h.hasObject_iff_leadsTo.1 hobject).1) t t
  · intro hcycle
    have hway : ∀ n, Relation.TransGen s.graph.LeadsTo t n → n.kind = .object →
        Relation.TransGen s.graph.HasObject t n := by
      intro n hn
      induction hn with
      | single hlead => exact fun hkind => .single (h.hasObject_iff_leadsTo.2 ⟨hlead, hkind⟩)
      | tail _ hlead ih =>
        exact fun hkind => (ih hlead.kind).tail (h.hasObject_iff_leadsTo.2 ⟨hlead, hkind⟩)
    obtain ⟨_, hlead, -⟩ := Relation.TransGen.head'_iff.1 hcycle
    exact hway t hcycle hlead.kind

/-- What a node of a graph leads to is read off its own fields. -/
theorem fieldsOf_ref (h : scope.Complete s) (hnode : node ∈ s.graph.nodes) :
    s.graph.fieldsOf node.ref = node.fields := by
  have hget : s.graph.get? node.ref.name = some node :=
    TypeGraph.get?_of_mem h.sound.nodup hnode
  rw [TypeGraph.fieldsOf, hget]
  exact if_pos rfl

theorem hasObject_iff_points (h : scope.Complete s) (hnode : node ∈ s.graph.nodes) :
    s.graph.HasObject node.ref n ↔ ∃ next, s.graph.Points node next ∧ next.ref = n := by
  rw [TypeGraph.HasObject, TypeGraph.objectsOf, h.fieldsOf_ref hnode, List.mem_filterMap]
  constructor
  · rintro ⟨x, hx, hn⟩
    obtain ⟨hunwrap, hkind⟩ := TypeNode.object?_eq_some.1 hn
    have hheld := (h.node_references hnode x hx).2 n (TypeNode.target?_of_unwrap hunwrap)
    obtain ⟨next, hnext, rfl⟩ := h.holds_iff.1 hheld
    obtain ⟨f, hf, hx⟩ := List.mem_flatMap.1 hx
    exact ⟨next, ⟨hnode, hnext, hkind, f, hf, x, hx, hunwrap⟩, rfl⟩
  · rintro ⟨next, ⟨-, -, hkind, f, hf, x, hx, hunwrap⟩, rfl⟩
    exact ⟨x, List.mem_flatMap.2 ⟨f, hf, hx⟩, TypeNode.object?_eq_some.2 ⟨hunwrap, hkind⟩⟩

/-- A way through object types goes from node to node. -/
theorem way_iff_points (h : scope.Complete s) (hnode : node ∈ s.graph.nodes) :
    Relation.TransGen s.graph.HasObject node.ref n ↔
      ∃ last, Relation.TransGen s.graph.Points node last ∧ last ∈ s.graph.nodes ∧
        last.ref = n := by
  constructor
  · intro hway
    induction hway with
    | single hobject =>
      obtain ⟨next, hpoints, hnext⟩ := (h.hasObject_iff_points hnode).1 hobject
      exact ⟨next, .single hpoints, hpoints.right, hnext⟩
    | tail _ hobject ih =>
      obtain ⟨mid, hmid, hmem, rfl⟩ := ih
      obtain ⟨next, hpoints, hnext⟩ := (h.hasObject_iff_points hmem).1 hobject
      exact ⟨next, hmid.tail hpoints, hpoints.right, hnext⟩
  · rintro ⟨last, hway, -, rfl⟩
    exact hway.lift Node.ref fun _ _ hpoints =>
      (h.hasObject_iff_points hpoints.left).2 ⟨_, hpoints, rfl⟩

theorem cycle_iff_points (h : scope.Complete s) (hnode : node ∈ s.graph.nodes) :
    Relation.TransGen s.graph.HasObject node.ref node.ref ↔
      Relation.TransGen s.graph.Points node node := by
  rw [h.way_iff_points hnode]
  constructor
  · rintro ⟨last, hway, hlast, href⟩
    obtain rfl := List.inj_on_of_nodup_map h.sound.nodup hlast hnode (congrArg Named.name href)
    exact hway
  · exact fun hway => ⟨node, hway, hnode, rfl⟩

end Complete

/-- In a resolved graph the search for a cycle ends with the answer whether there is a way from an
object node to itself, by fields and arguments of object types. On the way to its answer it looks at
object nodes of the graph, and at none of them twice. -/
theorem searches_cycle_of_resolve (hrun : scope.resolve {} = (.ok (), s))
    (hnode : node ∈ s.graph.nodes) (hobject : node.kind = .object) :
    (s.graph.inCycle node.ref = true ↔ Relation.TransGen s.graph.Points node node) ∧
    ∃ looked, s.graph.Searches node.ref ⟨[node.ref], []⟩ looked (s.graph.inCycle node.ref) ∧
      looked.Nodup ∧ ∀ t ∈ looked, ∃ n ∈ s.graph.nodes, n.kind = .object ∧ n.ref = t := by
  have h := complete_of_resolve hrun
  refine ⟨(s.graph.inCycle_iff_hasObject node.ref).trans (h.cycle_iff_points hnode), ?_⟩
  obtain ⟨looked, hsearch⟩ := s.graph.searches_findCycle node.ref ⟨[node.ref], []⟩
  obtain ⟨hnodup, hreached, -⟩ := hsearch.looks_once (s.graph.explored_start node.ref)
  refine ⟨looked, hsearch, hnodup, fun t ht => ?_⟩
  rcases Relation.reflTransGen_iff_eq_or_transGen.1 (hreached t ht) with rfl | hway
  · exact ⟨node, hnode, hobject, rfl⟩
  · obtain ⟨mid, hmid, hmem, rfl⟩ := (h.way_iff_points hnode).1 hway
    obtain ⟨_, -, hpoints⟩ := Relation.TransGen.tail'_iff.1 hmid
    exact ⟨mid, hmem, hpoints.object, rfl⟩

/-- The trees of strings lead to themselves through their boxes, the forest of such a tree does not. -/
theorem treeUnit_cycles : ∃ (scope : Scope) (s : Resolution) (forest tree : Node),
    treeUnit.extract = .ok scope.model ∧ scope.resolve {} = (.ok (), s) ∧
    forest ∈ s.graph.nodes ∧ forest.kind = .object ∧ forest.name = "Forest" ∧
    tree ∈ s.graph.nodes ∧ tree.kind = .object ∧ tree.name = "StringTree" ∧
    ¬Relation.TransGen s.graph.Points forest forest ∧
    Relation.TransGen s.graph.Points tree tree := by
  have hcycles : (treeUnit.extract.toOption.bind fun model => model.analyze.toOption).map
      (fun a => (a.graph.nodes.filter (·.kind = .object)).map fun n =>
        (n.name, a.graph.inCycle n.ref)) =
      some [("Forest", false), ("StringTreeBox", true), ("StringTree", true)] := by
    decide +kernel
  obtain ⟨a, ha, hcycles⟩ := Option.map_eq_some_iff.1 hcycles
  obtain ⟨model, hmodel, ha⟩ := Option.bind_eq_some_iff.1 ha
  obtain ⟨rfl, -, hrun, -⟩ := SourceModel.analyze_eq_ok.1 (except_toOption_eq_some.1 ha)
  have hnode (name : String) (answer : Bool) (hmem : (name, answer) ∈
      [("Forest", false), ("StringTreeBox", true), ("StringTree", true)]) :
      ∃ node ∈ a.graph.nodes, node.kind = .object ∧ node.name = name ∧
        a.graph.inCycle node.ref = answer := by
    rw [← hcycles] at hmem
    obtain ⟨node, hnode, hpair⟩ := List.mem_map.1 hmem
    obtain ⟨hname, hanswer⟩ := Prod.mk.inj hpair
    obtain ⟨hnode, hobject⟩ := List.mem_filter.1 hnode
    exact ⟨node, hnode, of_decide_eq_true hobject, hname, hanswer⟩
  obtain ⟨forest, hforest, hforestKind, hforestName, hno⟩ :=
    hnode "Forest" false (by decide)
  obtain ⟨tree, htree, htreeKind, htreeName, hyes⟩ :=
    hnode "StringTree" true (by decide)
  refine ⟨a.scope, a.resolution, forest, tree, except_toOption_eq_some.1 hmodel, hrun, hforest,
    hforestKind, hforestName, htree, htreeKind, htreeName, fun hway => ?_, ?_⟩
  · have hcycle := (searches_cycle_of_resolve hrun hforest hforestKind).1.2 hway
    exact Bool.false_ne_true (hno.symm.trans hcycle)
  · exact (searches_cycle_of_resolve hrun htree htreeKind).1.1 hyes

end Scope

end SchemaCompiler
