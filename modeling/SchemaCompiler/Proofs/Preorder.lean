import SchemaCompiler.Proofs.BindingTable
import SchemaCompiler.Proofs.Reached

/-! The order in which a walk lists types. A walk from a list of roots lists exactly the types that can
be reached from them, in depth-first preorder: what is reached from an earlier root stands before what
is reached from later ones only, and right behind each type stands what was first reached through its
fields, one field after the other. -/

namespace SchemaCompiler

namespace TypeGraph

variable {graph : TypeGraph} {seen past : List String} {types : List TypeNode}

/-- What is reached from several lists of types is reached from one of them. -/
theorem reaches_flatMap {α : Type} {roots : List α} {start : α → List TypeNode} {n : Named} :
    graph.Reaches past (roots.flatMap start) n ↔ ∃ root ∈ roots, graph.Reaches past (start root) n := by
  constructor
  · intro h
    induction h with
    | start mem target fresh =>
      obtain ⟨root, hroot, hx⟩ := List.mem_flatMap.1 mem
      exact ⟨root, hroot, .start hx target fresh⟩
    | field _ leads fresh ih =>
      obtain ⟨root, hroot, hreached⟩ := ih
      exact ⟨root, hroot, .field hreached leads fresh⟩
  · rintro ⟨root, hroot, h⟩
    exact h.subset fun x hx => List.mem_flatMap.2 ⟨root, hroot, hx⟩

/-- A walk through two lists of types goes through the first one, and with what it has listed through
the second one. -/
theorem walk_append (seen : List String) (xs ys : List TypeNode) :
    graph.walk seen (xs ++ ys) =
      graph.walk seen xs ++ graph.walk ((graph.walk seen xs).map Named.name ++ seen) ys := by
  induction seen, xs using walk.induct graph with
  | case1 seen => rw [walk]; rfl
  | case2 seen inner rest ih
  | case3 seen inner rest ih
  | case4 seen generic inner rest ih
  | case5 seen parameter rest ih =>
    rw [List.cons_append, walk, walk]
    exact ih
  | case6 seen type rest hseen ih =>
    rw [List.cons_append, walk, walk, if_pos hseen, if_pos hseen]
    exact ih
  | case7 seen type rest hseen ih =>
    rw [List.cons_append, walk, walk, if_neg hseen, if_neg hseen, ← List.append_assoc, ih,
      List.cons_append]
    refine congrArg (type :: ·) (congrArg _ (walk_congr fun name => ?_))
    simp only [List.map_cons, List.mem_append, List.mem_cons]
    tauto

/-- Whether what is reached past some names is listed in turn: first all that is reached from the
earlier types, then all that is reached from the later ones only. -/
def InTurn (graph : TypeGraph) (past : List String) (types : List TypeNode) (order : List Named) :
    Prop :=
  ∀ earlier later, types = earlier ++ later → ∃ front back, order = front ++ back ∧
    (∀ n, n ∈ front ↔ graph.Reaches past earlier n) ∧
    ∀ n, n ∈ back ↔ graph.Reaches past types n ∧ ¬graph.Reaches past earlier n

/-- Whether an order is the depth-first preorder of what is reached from some types. Right behind each
listed type stands, in the order of its fields, what is reached through them past all that was listed
before. -/
structure Preorder (graph : TypeGraph) (types : List TypeNode) (order : List Named) : Prop where
  once : (order.map Named.name).Nodup
  inTurn : graph.InTurn [] types order
  followed : ∀ before t after, order = before ++ t :: after →
    ∃ through elsewhere, after = through ++ elsewhere ∧
      graph.InTurn ((before ++ [t]).map Named.name) (references (graph.fieldsOf t)) through ∧
      ∀ n ∈ elsewhere,
        ¬graph.Reaches ((before ++ [t]).map Named.name) (references (graph.fieldsOf t)) n
  depthFirst : graph.DepthFirst types order

/-- The orders that are depth first from some types are all the same. -/
theorem DepthFirst.unique {order order' : List Named} (h : graph.DepthFirst types order)
    (h' : graph.DepthFirst types order') : order = order' := by
  suffices hrest : ∀ next next' listed, order = listed ++ next → order' = listed ++ next' →
      next = next' from hrest order order' [] rfl rfl
  intro next
  induction next with
  | nil =>
    intro next' listed hnext hnext'
    have hhead := (h listed [] hnext).trans (h' listed next' hnext').symm
    exact (List.head?_eq_none_iff.1 hhead.symm).symm
  | cons t rest ih =>
    intro next' listed hnext hnext'
    have hhead := (h listed _ hnext).trans (h' listed next' hnext').symm
    obtain ⟨rest', rfl⟩ := List.head?_eq_some_iff.1 hhead.symm
    rw [ih rest' (listed ++ [t]) (by rw [hnext, ← List.append_cons])
      (by rw [hnext', ← List.append_cons])]

end TypeGraph

namespace Scope

variable {scope : Scope} {s : Resolution} {seen : List String} {types : List TypeNode}

namespace Complete

theorem inTurn_walk (h : scope.Complete s)
    (hstart : ∀ x ∈ types, ∀ n, x.target? = some n → s.Holds n) :
    s.graph.InTurn seen types (s.graph.walk seen types) := by
  rintro earlier later rfl
  have hearlier : ∀ x ∈ earlier, ∀ n, x.target? = some n → s.Holds n :=
    fun x hx => hstart x (List.mem_append_left _ hx)
  refine ⟨_, _, TypeGraph.walk_append seen earlier later, fun n => h.mem_walk_iff hearlier,
    fun n => ?_⟩
  have hnodup : (s.graph.walk seen (earlier ++ later)).Nodup := TypeGraph.walk_names.1.of_map
  rw [TypeGraph.walk_append] at hnodup
  have hdisjoint := (List.nodup_append.1 hnodup).2.2
  rw [← h.mem_walk_iff hstart, ← h.mem_walk_iff hearlier, TypeGraph.walk_append, List.mem_append]
  constructor
  · exact fun hback => ⟨.inr hback, fun hfront => hdisjoint n hfront n hback rfl⟩
  · exact fun ⟨hmem, hfront⟩ => hmem.resolve_left hfront

/-- A walk through types of the graph is in depth-first preorder. -/
theorem preorder_walk (h : scope.Complete s)
    (hstart : ∀ x ∈ types, ∀ n, x.target? = some n → s.Holds n) :
    s.graph.Preorder types (s.graph.walk [] types) where
  once := TypeGraph.walk_names.1
  inTurn := h.inTurn_walk hstart
  followed before t after hsplit := by
    have hfields : ∀ x ∈ TypeGraph.references (s.graph.fieldsOf t), ∀ n, x.target? = some n →
        s.Holds n := fun x hx n hn => h.holds_of_leadsTo ⟨x, hx, hn⟩
    obtain ⟨rest, hafter⟩ := TypeGraph.walk_behind hsplit
    rw [List.append_nil, TypeGraph.walk_append] at hafter
    refine ⟨_, _, hafter, h.inTurn_walk hfields, fun n hn hreaches => ?_⟩
    have hlisted := (h.mem_walk_iff hfields).2 hreaches
    exact TypeGraph.walk_names.2 n hn (List.mem_append_left _ (List.mem_map_of_mem hlisted))
  depthFirst := s.graph.depthFirst_walk types

end Complete

/-- The types that are listed from names of roots in a resolved graph are the types of the graph that
are reached from a type or a template of such a name. They stand in depth-first preorder, and those
that are reached from an earlier root stand before the others. -/
theorem preorder_of_resolve (hrun : scope.resolve {} = (.ok (), s)) (roots : List String) :
    s.graph.Preorder (roots.flatMap s.graph.start) (s.graph.reach roots) ∧
    (∀ n, n ∈ s.graph.reach roots ↔
      ∃ root ∈ roots, s.graph.Reaches [] (s.graph.start root) n) ∧
    (∀ n ∈ s.graph.reach roots, s.Leads n) ∧
    (∀ earlier later, roots = earlier ++ later → ∃ rest,
      s.graph.reach roots = s.graph.reach earlier ++ rest ∧
      ∀ n ∈ rest, ∀ root ∈ earlier, ¬s.graph.Reaches [] (s.graph.start root) n) ∧
    ∀ order, s.graph.DepthFirst (roots.flatMap s.graph.start) order →
      order = s.graph.reach roots := by
  have h := complete_of_resolve hrun
  have hpreorder := h.preorder_walk (h.holds_of_start roots)
  have hmem (names : List String) (n : Named) : n ∈ s.graph.reach names ↔
      ∃ root ∈ names, s.graph.Reaches [] (s.graph.start root) n := by
    rw [TypeGraph.reach, h.mem_walk_iff (h.holds_of_start names), TypeGraph.reaches_flatMap]
  refine ⟨hpreorder, hmem roots, fun n hn => ?_, ?_, fun order horder =>
    horder.unique hpreorder.depthFirst⟩
  · exact h.leads_of_holds (h.holds_of_reaches (h.holds_of_start roots) (TypeGraph.reaches_of_mem_walk hn))
  · rintro earlier later rfl
    have hsplit : s.graph.reach (earlier ++ later) = s.graph.reach earlier ++
        s.graph.walk ((s.graph.reach earlier).map Named.name ++ [])
          (later.flatMap s.graph.start) := by
      rw [TypeGraph.reach, List.flatMap_append, TypeGraph.walk_append]
      rfl
    refine ⟨_, hsplit, fun n hn root hroot hreaches => ?_⟩
    have hlisted := (hmem earlier n).2 ⟨root, hroot, hreaches⟩
    exact TypeGraph.walk_names.2 n hn (List.mem_append_left _ (List.mem_map_of_mem hlisted))

/-- From a name that is not known, a generic and an object: first the page in the object's field, with
what it holds, then the arguments of the field. -/
theorem catalogUnit_listed : ∃ (scope : Scope) (s : Resolution),
    catalogUnit.extract = .ok scope.model ∧ scope.resolve {} = (.ok (), s) ∧
    (s.graph.reach ["Nope", "Page", "Query", "Order", "Query"]).map Named.name =
      ["Query", "StringPage", "String", "ID", "Order"] ∧
    s.graph.Preorder (["Nope", "Page", "Query", "Order", "Query"].flatMap s.graph.start)
      (s.graph.reach ["Nope", "Page", "Query", "Order", "Query"]) := by
  have hlisted : (catalogUnit.extract.toOption.bind fun model => model.analyze.toOption).map
      (fun a => (a.graph.reach ["Nope", "Page", "Query", "Order", "Query"]).map Named.name) =
      some ["Query", "StringPage", "String", "ID", "Order"] := by
    cbv
  obtain ⟨a, ha, hnames⟩ := Option.map_eq_some_iff.1 hlisted
  obtain ⟨model, hmodel, ha⟩ := Option.bind_eq_some_iff.1 ha
  obtain ⟨rfl, -, hrun, -⟩ := SourceModel.analyze_eq_ok.1 (except_toOption_eq_some.1 ha)
  exact ⟨a.scope, a.resolution, except_toOption_eq_some.1 hmodel, hrun, hnames,
    (preorder_of_resolve hrun _).1⟩

end Scope

end SchemaCompiler
