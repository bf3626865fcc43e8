import SchemaCompiler.Graph.Basic

/-! The types that can be reached from others. An object type leads to the types of its fields and
their arguments, a generic to those of its template, and an open application to its argument.
`TypeGraph.reach` lists them in the order of a depth-first walk. `TypeGraph.inCycle` searches the
object types that an object type leads to for that type itself. -/

namespace SchemaCompiler

namespace TypeNode

def weight : TypeNode → Nat
  | .list element => element.weight + 1
  | .nonNull inner => inner.weight + 1
  | .applied _ argument => argument.weight + 1
  | _ => 1

def totalWeight : List TypeNode → Nat
  | [] => 0
  | t :: rest => t.weight + totalWeight rest

/-- The only named type inside a type, if it has one. -/
def target? : TypeNode → Option Named
  | .named type => some type
  | .list element => element.target?
  | .nonNull inner => inner.target?
  | .applied _ argument => argument.target?
  | .placeholder _ => none

/-- The object type inside all list and non-null wrappers, if it is one. -/
def object? (type : TypeNode) : Option Named :=
  match type.unwrap with
  | .named n => if n.kind = .object then some n else none
  | _ => none

end TypeNode

namespace TypeGraph

/-- The types that the fields of a type refer to, in order. -/
def references (fields : List GraphField) : List TypeNode :=
  fields.flatMap GraphField.types

def unseen (graph : TypeGraph) (seen : List String) : Nat :=
  graph.nodes.countP fun node => !seen.contains node.name

theorem unseen_le (graph : TypeGraph) (seen : List String) (name : String) :
    graph.unseen (name :: seen) ≤ graph.unseen seen := by
  unfold unseen
  apply List.countP_mono_left
  intro node _ h
  simp only [List.contains_cons, Bool.not_or, Bool.and_eq_true] at h
  exact h.2

theorem unseen_lt {graph : TypeGraph} {seen : List String} {node : Node}
    (mem : node ∈ graph.nodes) (fresh : seen.contains node.name = false) :
    graph.unseen (node.name :: seen) < graph.unseen seen := by
  unfold unseen
  generalize graph.nodes = nodes at mem
  induction nodes with
  | nil => cases mem
  | cons first rest ih =>
    have le : rest.countP (fun n => !(node.name :: seen).contains n.name) ≤
        rest.countP fun n => !seen.contains n.name := by
      apply List.countP_mono_left
      intro n _ h
      simp only [List.contains_cons, Bool.not_or, Bool.and_eq_true] at h
      exact h.2
    rcases List.mem_cons.1 mem with same | mem
    · subst same
      rw [List.countP_cons_of_neg (by simp), List.countP_cons_of_pos (by rw [fresh]; rfl)]
      omega
    · have := ih mem
      by_cases h : (node.name :: seen).contains first.name
      · rw [List.countP_cons_of_neg (by rw [h]; simp)]
        exact Nat.lt_of_lt_of_le this (by simp only [List.countP_cons]; omega)
      · have h' : ¬ seen.contains first.name = true := by
          intro mem
          exact h (by simp only [List.contains_cons, mem, Bool.or_true])
        rw [List.countP_cons_of_pos (by simpa using h), List.countP_cons_of_pos (by simpa using h')]
        omega

theorem fieldsOf_eq_nil {graph : TypeGraph} {type : Named}
    (unknown : ∀ node ∈ graph.nodes, node.name ≠ type.name) : graph.fieldsOf type = [] := by
  have : graph.get? type.name = none := by
    unfold get?
    rw [List.find?_eq_none]
    intro node mem
    simpa using unknown node mem
  simp [fieldsOf, this]

/-- Walks through types that are still to be visited and lists the named types that are met for the
first time. The types that a named type refers to are visited right after it. -/
def walk (graph : TypeGraph) (seen : List String) : List TypeNode → List Named
  | [] => []
  | .list element :: rest => graph.walk seen (element :: rest)
  | .nonNull inner :: rest => graph.walk seen (inner :: rest)
  | .applied _ argument :: rest => graph.walk seen (argument :: rest)
  | .placeholder _ :: rest => graph.walk seen rest
  | .named type :: rest =>
    if seen.contains type.name then graph.walk seen rest
    else type :: graph.walk (type.name :: seen) (references (graph.fieldsOf type) ++ rest)
termination_by types => (graph.unseen seen, TypeNode.totalWeight types)
decreasing_by
  · exact Prod.Lex.right _ (by simp only [TypeNode.totalWeight, TypeNode.weight]; omega)
  · exact Prod.Lex.right _ (by simp only [TypeNode.totalWeight, TypeNode.weight]; omega)
  · exact Prod.Lex.right _ (by simp only [TypeNode.totalWeight, TypeNode.weight]; omega)
  · exact Prod.Lex.right _ (by simp only [TypeNode.totalWeight, TypeNode.weight]; omega)
  · exact Prod.Lex.right _ (by simp only [TypeNode.totalWeight, TypeNode.weight]; omega)
  · rename_i fresh
    by_cases known : ∃ node ∈ graph.nodes, node.name = type.name
    · obtain ⟨node, mem, same⟩ := known
      rw [← same] at fresh ⊢
      exact Prod.Lex.left _ _ (unseen_lt mem (by simpa using fresh))
    · have none : graph.fieldsOf type = [] :=
        fieldsOf_eq_nil fun node mem same => known ⟨node, mem, same⟩
      rcases Nat.lt_or_eq_of_le (unseen_le graph seen type.name) with lt | eq
      · exact Prod.Lex.left _ _ lt
      · rw [eq, none]
        exact Prod.Lex.right _ (by simp [references, TypeNode.totalWeight, TypeNode.weight])

/-- Where a walk from a declared name starts: at the type, or at what the fields of a generic refer
to. -/
def start (graph : TypeGraph) (root : String) : List TypeNode :=
  match graph.template? root with
  | some template => references template.fields
  | none => (graph.get? root).toList.map fun node => .named node.ref

/-- The named types that can be reached from declared names, in the order in which a depth-first
walk first meets them. -/
def reach (graph : TypeGraph) (roots : List String) : List Named :=
  graph.walk [] (roots.flatMap graph.start)

/-- The object types that the fields of a type and their arguments refer to, in order. -/
def objectsOf (graph : TypeGraph) (type : Named) : List Named :=
  (references (graph.fieldsOf type)).filterMap TypeNode.object?

/-- The object types that any type of the graph refers to. -/
def allObjects (graph : TypeGraph) : List Named :=
  graph.nodes.flatMap fun node => (references node.fields).filterMap TypeNode.object?

theorem objectsOf_subset (graph : TypeGraph) (type : Named) :
    graph.objectsOf type ⊆ graph.allObjects := by
  intro n hn
  unfold objectsOf fieldsOf at hn
  split at hn
  · rename_i node found
    split at hn
    · exact List.mem_flatMap.2 ⟨node, List.mem_of_find?_eq_some found, hn⟩
    · cases hn
  · cases hn

end TypeGraph

/-- How far a search for a cycle has come: the object types whose fields have still to be looked at,
the latest one first, and the object types that were met. -/
structure CycleSearch where
  stack : List Named
  met : List Named := []
  deriving DecidableEq, Repr

namespace CycleSearch

/-- Goes through object types in turn and puts those that were not met before on the stack. At the
type that is sought the search is over. -/
def meetAll (sought : Named) (search : CycleSearch) : List Named → Option CycleSearch
  | [] => some search
  | type :: rest =>
    if type = sought then none
    else if search.met.contains type then search.meetAll sought rest
    else meetAll sought ⟨type :: search.stack, type :: search.met⟩ rest

/-- The number of types on the stack and of those in `types` that may still get there. -/
def load (types : List Named) (search : CycleSearch) : Nat :=
  (types.filter fun t => !search.met.contains t).length + search.stack.length

theorem load_push {types stack met : List Named} {type : Named} (mem : type ∈ types)
    (fresh : met.contains type = false) :
    load types ⟨type :: stack, type :: met⟩ ≤ load types ⟨stack, met⟩ := by
  have narrow : (types.filter fun t => !(type :: met).contains t) =
      (types.filter fun t => !met.contains t).filter fun t => t != type := by
    rw [List.filter_filter]
    apply List.filter_congr
    intro t _
    rw [List.contains_cons, Bool.not_or]
    rfl
  have shorter : (types.filter fun t => !(type :: met).contains t).length <
      (types.filter fun t => !met.contains t).length := by
    rw [narrow, List.length_filter_lt_length_iff_exists]
    exact ⟨type, List.mem_filter.2 ⟨mem, by rw [fresh]; rfl⟩, by simp⟩
  simp only [load, List.length_cons]
  omega

/-- Going through types makes no more of what is left. -/
theorem load_meetAll {types found : List Named} {sought : Named} {search next : CycleSearch}
    (sub : found ⊆ types) (h : search.meetAll sought found = some next) :
    next.load types ≤ search.load types := by
  induction found generalizing search with
  | nil =>
    cases h
    exact Nat.le_refl _
  | cons type rest ih =>
    have subRest : rest ⊆ types := fun t ht => sub (List.mem_cons_of_mem _ ht)
    rw [meetAll] at h
    split at h
    · cases h
    · split at h
      · exact ih subRest h
      · rename_i fresh
        exact Nat.le_trans (ih subRest h) (load_push (sub List.mem_cons_self) (by simpa using fresh))

end CycleSearch

namespace TypeGraph

/-- Goes on with a search for a cycle through a type, unless it is over. In each round the fields of
the type on top of the stack are looked at. -/
def findCycle (graph : TypeGraph) (sought : Named) : Option CycleSearch → Bool
  | none => true
  | some ⟨[], _⟩ => false
  | some ⟨type :: stack, met⟩ =>
    graph.findCycle sought (CycleSearch.meetAll sought ⟨stack, met⟩ (graph.objectsOf type))
termination_by search? => search?.elim 0 fun search => search.load graph.allObjects + 1
decreasing_by
  rcases h : CycleSearch.meetAll sought ⟨stack, met⟩ (graph.objectsOf type) with _ | next
  · exact Nat.succ_pos _
  · have smaller := CycleSearch.load_meetAll (graph.objectsOf_subset type) h
    simp only [CycleSearch.load, Option.elim, List.length_cons] at smaller ⊢
    omega

/-- Whether an object type can reach itself through the types of fields and arguments. -/
def inCycle (graph : TypeGraph) (type : Named) : Bool :=
  graph.findCycle type (some ⟨[type], []⟩)

end TypeGraph

end SchemaCompiler
