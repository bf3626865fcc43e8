import Mathlib.Data.List.Forall2
import SchemaCompiler.Compilation
import SchemaCompiler.Proofs.Complete

/-! What an analysis consists of: a resolution that is complete, and the resolvers of its types. No
two types or templates share a name, so the resolvers of one are exactly those that carry its
name. -/

namespace SchemaCompiler

section

variable {ε α β : Type} {R : α → β → Prop}

theorem except_ok_bind (a : α) (f : α → Except ε β) : (Except.ok a >>= f) = f a := rfl

theorem except_error_bind (e : ε) (f : α → Except ε β) :
    ((Except.error e : Except ε α) >>= f) = .error e := rfl

theorem except_bind_eq_ok {x : Except ε α} {f : α → Except ε β} {b : β} :
    (x >>= f) = .ok b ↔ ∃ a, x = .ok a ∧ f a = .ok b := by
  rcases x with e | a
  · constructor
    · intro h; cases h
    · rintro ⟨_, h, -⟩; cases h
  · exact ⟨fun h => ⟨a, rfl, h⟩, fun ⟨_, h, h'⟩ => by cases h; exact h'⟩

theorem except_bind_eq_error {x : Except ε α} {f : α → Except ε β} {e : ε} :
    (x >>= f) = .error e ↔ x = .error e ∨ ∃ a, x = .ok a ∧ f a = .error e := by
  rcases x with e' | a
  · constructor
    · intro h
      cases h
      exact .inl rfl
    · rintro (h | ⟨_, h, -⟩)
      · cases h
        rfl
      · cases h
  · constructor
    · exact fun h => .inr ⟨a, rfl, h⟩
    · rintro (h | ⟨_, h, hf⟩)
      · cases h
      · cases h
        exact hf

theorem except_toOption_eq_some {x : Except ε α} {a : α} : x.toOption = some a ↔ x = .ok a := by
  cases x <;> simp [Except.toOption]

theorem mapM_eq_ok {f : α → Except ε β} {as : List α} {bs : List β} :
    as.mapM f = .ok bs ↔ List.Forall₂ (fun a b => f a = .ok b) as bs := by
  induction as generalizing bs with
  | nil =>
    rw [List.mapM_nil, List.forall₂_nil_left_iff]
    exact ⟨fun h => by cases h; rfl, fun h => by rw [h]; rfl⟩
  | cons a rest ih =>
    rw [List.mapM_cons, except_bind_eq_ok, List.forall₂_cons_left_iff]
    constructor
    · rintro ⟨b, hb, h⟩
      obtain ⟨bs', hbs, h⟩ := except_bind_eq_ok.1 h
      cases h
      exact ⟨b, bs', hb, ih.1 hbs, rfl⟩
    · rintro ⟨b, bs', hb, hbs, rfl⟩
      exact ⟨b, hb, except_bind_eq_ok.2 ⟨bs', ih.2 hbs, rfl⟩⟩

theorem mapM_eq_error {f : α → Except ε β} {as : List α} {e : ε} (h : as.mapM f = .error e) :
    ∃ a ∈ as, f a = .error e := by
  induction as with
  | nil => cases h
  | cons a rest ih =>
    rw [List.mapM_cons, except_bind_eq_error] at h
    obtain ha | ⟨b, -, h⟩ := h
    · exact ⟨a, List.mem_cons_self, ha⟩
    · obtain hrest | ⟨bs, -, h⟩ := except_bind_eq_error.1 h
      · obtain ⟨x, hx, hfx⟩ := ih hrest
        exact ⟨x, List.mem_cons_of_mem _ hx, hfx⟩
      · cases h

theorem forall₂_mem_right {as : List α} {bs : List β} (h : List.Forall₂ R as bs) :
    ∀ b ∈ bs, ∃ a ∈ as, R a b := by
  induction h with
  | nil => exact fun _ hb => nomatch hb
  | cons hr _ ih =>
    intro b hb
    rcases List.mem_cons.1 hb with rfl | hb
    · exact ⟨_, List.mem_cons_self, hr⟩
    · obtain ⟨a, ha, hab⟩ := ih b hb
      exact ⟨a, List.mem_cons_of_mem _ ha, hab⟩

theorem forall₂_mem_left {as : List α} {bs : List β} (h : List.Forall₂ R as bs) :
    ∀ a ∈ as, ∃ b ∈ bs, R a b :=
  forall₂_mem_right h.flip

theorem forall₂_imp_of_mem {S : α → β → Prop} {as : List α} {bs : List β}
    (h : List.Forall₂ R as bs) (himp : ∀ a ∈ as, ∀ b ∈ bs, R a b → S a b) :
    List.Forall₂ S as bs := by
  induction h with
  | nil => exact .nil
  | cons hab _ ih =>
    refine .cons (himp _ List.mem_cons_self _ List.mem_cons_self hab) (ih fun a ha b hb => ?_)
    exact himp a (List.mem_cons_of_mem _ ha) b (List.mem_cons_of_mem _ hb)

theorem forall₂_map_eq {γ : Type} {f : α → γ} {g : β → γ} {as : List α} {bs : List β}
    (h : List.Forall₂ (fun a b => g b = f a) as bs) : bs.map g = as.map f := by
  induction h with
  | nil => rfl
  | cons hab _ ih => rw [List.map_cons, List.map_cons, hab, ih]

theorem exists_forall₂ {as : List α} (h : ∀ a ∈ as, ∃ b, R a b) :
    ∃ bs, List.Forall₂ R as bs := by
  induction as with
  | nil => exact ⟨[], .nil⟩
  | cons a rest ih =>
    obtain ⟨b, hb⟩ := h a List.mem_cons_self
    obtain ⟨bs, hbs⟩ := ih fun x hx => h x (List.mem_cons_of_mem _ hx)
    exact ⟨b :: bs, .cons hb hbs⟩

end

theorem TypeGraph.instantiation?_eq_some {graph : TypeGraph} {key : InstanceKey}
    {i : Instantiation} (h : graph.instantiation? key = some i) :
    Node.instantiation i ∈ graph.nodes ∧ i.key = key := by
  unfold instantiation? at h
  split at h
  · rename_i t hget
    split at h
    · rename_i hkey
      cases h
      exact ⟨get?_mem hget, hkey⟩
    · cases h
  · cases h

/-- All names that have fields in a graph, with their fields. -/
def TypeGraph.owners (graph : TypeGraph) : List (String × List GraphField) :=
  graph.nodes.map (fun node => (node.name, node.fields)) ++
    graph.templates.map fun t => (t.name, t.fields)

namespace Bindings

theorem bindField_eq_ok {owner : String} {f : GraphField} {b : Binding} :
    bindField owner f = .ok b ↔ f.type.isSome = true ∧ ∃ as, f.arguments.mapM bindArgument = .ok as ∧
      b = ⟨owner, f.descriptor, as⟩ := by
  unfold bindField
  rcases f.type with _ | t <;> rcases f.arguments.mapM bindArgument with c | as <;>
    simp [eq_comm]

theorem bindFields_typeName {owner : String} {fields : List GraphField} {bs : List Binding}
    (h : bindFields owner fields = .ok bs) : ∀ b ∈ bs, b.typeName = owner := by
  intro b hb
  obtain ⟨f, -, hf⟩ := forall₂_mem_right (mapM_eq_ok.1 h) b hb
  obtain ⟨-, as, -, rfl⟩ := bindField_eq_ok.1 hf
  rfl

theorem ofGraph_eq_mapM (graph : TypeGraph) :
    ofGraph graph = (graph.owners.mapM fun owner => bindFields owner.1 owner.2) >>= fun bss =>
      .ok ⟨bss.flatten⟩ := by
  simp [ofGraph, TypeGraph.owners, List.mapM_append, List.mapM_map]
  rfl

theorem ofGraph_eq_ok {graph : TypeGraph} {bindings : Bindings} :
    ofGraph graph = .ok bindings ↔ ∃ bss,
      List.Forall₂ (fun owner bs => bindFields owner.1 owner.2 = .ok bs) graph.owners bss ∧
        bindings = ⟨bss.flatten⟩ := by
  rw [ofGraph_eq_mapM, except_bind_eq_ok]
  constructor
  · rintro ⟨bss, hbss, h⟩
    cases h
    exact ⟨bss, mapM_eq_ok.1 hbss, rfl⟩
  · rintro ⟨bss, hbss, rfl⟩
    exact ⟨bss, mapM_eq_ok.2 hbss, rfl⟩

theorem forType_eq_nil {owners : List (String × List GraphField)} {bss : List (List Binding)}
    (h : List.Forall₂ (fun owner bs => bindFields owner.1 owner.2 = .ok bs) owners bss)
    {name : String} (hname : ∀ owner ∈ owners, owner.1 ≠ name) :
    (⟨bss.flatten⟩ : Bindings).forType name = [] := by
  rw [forType, List.filter_eq_nil_iff]
  intro b hb heq
  obtain ⟨bs, hbs, hmem⟩ := List.mem_flatten.1 hb
  obtain ⟨owner, howner, hbind⟩ := forall₂_mem_right h bs hbs
  rw [bindFields_typeName hbind b hmem, decide_eq_true_eq] at heq
  exact hname owner howner heq

/-- The resolvers that carry a name are those of its fields. -/
theorem forType_of_mem {owners : List (String × List GraphField)} {bss : List (List Binding)}
    (hnames : (owners.map (·.1)).Nodup)
    (h : List.Forall₂ (fun owner bs => bindFields owner.1 owner.2 = .ok bs) owners bss)
    {owner : String × List GraphField} (howner : owner ∈ owners) :
    bindFields owner.1 owner.2 = .ok ((⟨bss.flatten⟩ : Bindings).forType owner.1) := by
  induction h with
  | nil => cases howner
  | @cons first bs rest bss hfirst hrest ih =>
    rw [List.map_cons, List.nodup_cons] at hnames
    simp only [forType, List.flatten_cons, List.filter_append]
    rcases List.mem_cons.1 howner with rfl | howner
    · have hself : bs.filter (·.typeName = owner.1) = bs := by
        rw [List.filter_eq_self]
        exact fun b hb => by simpa using bindFields_typeName hfirst b hb
      have hnone : bss.flatten.filter (·.typeName = owner.1) = [] :=
        forType_eq_nil hrest fun o ho hname => hnames.1 (hname ▸ List.mem_map_of_mem ho)
      rw [hself, hnone, List.append_nil]
      exact hfirst
    · have hnone : bs.filter (·.typeName = owner.1) = [] := by
        rw [List.filter_eq_nil_iff]
        intro b hb heq
        rw [bindFields_typeName hfirst b hb, decide_eq_true_eq] at heq
        exact hnames.1 (heq ▸ List.mem_map_of_mem howner)
      rw [hnone, List.nil_append]
      exact ih hnames.2 howner

theorem get?_eq_find? (bindings : Bindings) (owner field : String) :
    bindings.get? owner field = (bindings.forType owner).find? (·.field = field) := by
  simp only [get?, forType, List.find?_filter, Bool.decide_and, Bool.decide_eq_true]

end Bindings

def Analysis.scope (a : Analysis) : Scope :=
  { model := a.model, registry := a.registry }

namespace SourceModel

variable {model : SourceModel} {a : Analysis} {further : Nat}

theorem analyze_further_eq_ok : model.analyze further = .ok a ↔ a.model = model ∧
    ScalarRegistry.ofModel model = .ok a.registry ∧
    a.scope.resolveWithin (a.scope.depth + further) {} = (.ok (), a.resolution) ∧
      Bindings.ofGraph a.graph = .ok a.bindings := by
  rw [analyze, except_bind_eq_ok]
  constructor
  · rintro ⟨registry, hregistry, h⟩
    obtain ⟨⟨⟩, hrun, h⟩ := except_bind_eq_ok.1 h
    obtain ⟨bindings, hbindings, h⟩ := except_bind_eq_ok.1 h
    cases h
    exact ⟨rfl, hregistry, Prod.ext hrun rfl, hbindings⟩
  · rintro ⟨rfl, hregistry, hrun, hbindings⟩
    refine ⟨a.registry, hregistry, ?_⟩
    show Analysis.ofRun a.scope (a.scope.resolveWithin (a.scope.depth + further) {}) = .ok a
    rw [hrun]
    exact except_bind_eq_ok.2 ⟨(), rfl, except_bind_eq_ok.2 ⟨a.bindings, hbindings, rfl⟩⟩

theorem analyze_eq_ok : model.analyze = .ok a ↔ a.model = model ∧
    ScalarRegistry.ofModel model = .ok a.registry ∧ a.scope.resolve {} = (.ok (), a.resolution) ∧
      Bindings.ofGraph a.graph = .ok a.bindings :=
  analyze_further_eq_ok

theorem complete_of_analyze (h : model.analyze = .ok a) : a.scope.Complete a.resolution :=
  Scope.complete_of_resolve (analyze_eq_ok.1 h).2.2.1

theorem owners_nodup (h : model.analyze = .ok a) : (a.graph.owners.map (·.1)).Nodup := by
  have hnames := (complete_of_analyze h).sound.names
  rw [TypeGraph.owners, List.map_append, List.map_map, List.map_map]
  exact hnames

theorem templates_nodup (h : model.analyze = .ok a) : (a.graph.templates.map (·.name)).Nodup :=
  (List.nodup_append.1 (complete_of_analyze h).sound.names).2.1

/-- The resolvers of a type or template of an analysis. -/
theorem bindFields_of_owner (h : model.analyze = .ok a) {owner : String × List GraphField}
    (howner : owner ∈ a.graph.owners) :
    bindFields owner.1 owner.2 = .ok (a.bindings.forType owner.1) := by
  obtain ⟨bss, hbss, heq⟩ := Bindings.ofGraph_eq_ok.1 (analyze_eq_ok.1 h).2.2.2
  rw [heq]
  exact Bindings.forType_of_mem (owners_nodup h) hbss howner

theorem bindFields_of_node (h : model.analyze = .ok a) {node : Node} (hnode : node ∈ a.graph.nodes) :
    bindFields node.name node.fields = .ok (a.bindings.forType node.name) :=
  bindFields_of_owner h (List.mem_append_left _ (List.mem_map_of_mem hnode))

theorem bindFields_of_template (h : model.analyze = .ok a) {t : Template}
    (ht : t ∈ a.graph.templates) :
    bindFields t.name t.fields = .ok (a.bindings.forType t.name) :=
  bindFields_of_owner h (List.mem_append_right _ (List.mem_map_of_mem ht))

theorem forType_eq_nil (h : model.analyze = .ok a) {name : String}
    (hname : ∀ owner ∈ a.graph.owners, owner.1 ≠ name) : a.bindings.forType name = [] := by
  obtain ⟨bss, hbss, heq⟩ := Bindings.ofGraph_eq_ok.1 (analyze_eq_ok.1 h).2.2.2
  rw [heq]
  exact Bindings.forType_eq_nil hbss hname

end SourceModel

end SchemaCompiler
