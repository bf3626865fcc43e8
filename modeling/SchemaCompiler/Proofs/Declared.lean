import SchemaCompiler.Proofs.Advance

/-! Declarations. An object is entered once its fields are resolved, a generic as its template. What
one declaration has entered the later ones leave as it is, so at the end of a resolution all that is
declared stands in the graph, and everything in the graph is filled. -/

namespace SchemaCompiler

namespace TypeGraph

theorem get?_of_mem {graph : TypeGraph} (hnames : (graph.nodes.map Node.name).Nodup) {node : Node}
    (h : node ∈ graph.nodes) : graph.get? node.name = some node := by
  rcases hget : graph.get? node.name with _ | found
  · exact absurd (List.mem_map_of_mem h) (get?_eq_none.1 hget)
  · rw [List.inj_on_of_nodup_map hnames (get?_mem hget) h (get?_name hget)]

theorem object?_of_mem {graph : TypeGraph} (hnames : (graph.nodes.map Node.name).Nodup)
    {t : ObjectType} (h : .object t ∈ graph.nodes) : graph.object? t.name = some t := by
  have hget : graph.get? t.name = some (.object t) := get?_of_mem hnames h
  rw [object?, hget]

end TypeGraph

def Node.withObject (name : String) (change : ObjectType → ObjectType) : Node → Node
  | .object t => .object (if t.name = name then change t else t)
  | node => node

def Node.withEnum (name : String) (change : EnumType → EnumType) : Node → Node
  | .enum t => .enum (if t.name = name then change t else t)
  | node => node

namespace Resolution

/-- A later state, in which the objects that were filled before are the same. -/
structure Keeps (s s' : Resolution) : Prop extends s.Below s' where
  objects : ∀ t, Node.object t ∈ s.graph.nodes → t.filled = true → Node.object t ∈ s'.graph.nodes
  enums : ∀ t, Node.enum t ∈ s.graph.nodes → t.filled = true →
    ∃ t', Node.enum t' ∈ s'.graph.nodes ∧ t'.name = t.name ∧ t'.filled = true
  templates : s.graph.templates ⊆ s'.graph.templates

/-- Whether all filled objects and all templates have one of some names. -/
structure Only (names : List String) (s : Resolution) : Prop where
  objects : ∀ t, Node.object t ∈ s.graph.nodes → t.filled = true → t.name ∈ names
  templates : ∀ t ∈ s.graph.templates, t.name ∈ names

variable {s s' s'' : Resolution}

theorem Keeps.refl (s : Resolution) : s.Keeps s :=
  ⟨⟨fun _ h => h, fun _ h _ => h⟩, fun _ h _ => h, fun t h hf => ⟨t, h, rfl, hf⟩, fun _ h => h⟩

theorem Keeps.trans (h₁ : s.Keeps s') (h₂ : s'.Keeps s'') : s.Keeps s'' where
  holds t ht := h₂.holds t (h₁.holds t ht)
  kept i hi hf := h₂.kept i (h₁.kept i hi hf) hf
  objects t ht hf := h₂.objects t (h₁.objects t ht hf) hf
  enums t ht hf := by
    obtain ⟨t', ht', hname, hf'⟩ := h₁.enums t ht hf
    obtain ⟨t'', ht'', hname', hf''⟩ := h₂.enums t' ht' hf'
    exact ⟨t'', ht'', hname'.trans hname, hf''⟩
  templates _ ht := h₂.templates (h₁.templates ht)

theorem Grows.keeps (h : s.Grows s') : s.Keeps s' where
  toBelow := h.below
  objects _ ht _ := h.nodes.subset ht
  enums t ht hf := ⟨t, h.nodes.subset ht, rfl, hf⟩
  templates := by rw [h.templates]; exact fun _ ht => ht

theorem Only.grows {names : List String} (h : s.Only names) (hg : s.Grows s') : s'.Only names :=
  ⟨fun t ht hf => h.objects t (hg.filled t ht hf) hf, fun t ht => h.templates t (hg.templates ▸ ht)⟩

/-- The state after a change of the nodes that leaves what they are. -/
def mapNodes (s : Resolution) (f : Node → Node) : Resolution :=
  { s with graph := { s.graph with nodes := s.graph.nodes.map f } }

/-- A change of nodes that leaves their references and all instantiations. -/
structure Harmless (f : Node → Node) : Prop where
  ref : ∀ node, (f node).ref = node.ref
  instantiation : ∀ t, f (.instantiation t) = .instantiation t

theorem Harmless.refs {f : Node → Node} (hf : Harmless f) (nodes : List Node) :
    (nodes.map f).map Node.ref = nodes.map Node.ref := by
  rw [List.map_map]
  exact List.map_congr_left fun node _ => hf.ref node

theorem Harmless.mem_instantiation {f : Node → Node} (hf : Harmless f) {nodes : List Node}
    {t : Instantiation} : .instantiation t ∈ nodes.map f ↔ .instantiation t ∈ nodes := by
  rw [List.mem_map]
  constructor
  · rintro ⟨node, hnode, heq⟩
    have href := hf.ref node
    rw [heq] at href
    cases node with
    | instantiation t' =>
      rw [hf.instantiation] at heq
      rwa [← heq]
    | _ => cases href
  · exact fun h => ⟨_, h, hf.instantiation t⟩

theorem Harmless.below {f : Node → Node} (hf : Harmless f) (s : Resolution) :
    s.Below (s.mapNodes f) := by
  refine ⟨fun t ht => ht.imp_left fun ht => ?_, fun i hi _ => hi⟩
  show t ∈ (s.graph.nodes.map f).map Node.ref
  rwa [hf.refs]

theorem harmless_withObject {name : String} {change : ObjectType → ObjectType}
    (h : ∀ t, (change t).name = t.name) : Harmless (Node.withObject name change) := by
  refine ⟨fun node => ?_, fun _ => rfl⟩
  cases node with
  | object t =>
    show Named.object (if t.name = name then change t else t).name = Named.object t.name
    split
    · rw [h]
    · rfl
  | _ => rfl

theorem harmless_withEnum {name : String} {change : EnumType → EnumType}
    (h : ∀ t, (change t).name = t.name) : Harmless (Node.withEnum name change) := by
  refine ⟨fun node => ?_, fun _ => rfl⟩
  cases node with
  | enum t =>
    show Named.enum (if t.name = name then change t else t).name = Named.enum t.name
    split
    · rw [h]
    · rfl
  | _ => rfl

end Resolution

namespace Scope

variable {scope : Scope} {s s' : Resolution} {depth : Nat}

theorem Sound.nodup (h : scope.Sound s) : (s.graph.nodes.map Node.name).Nodup :=
  (List.nodup_append.1 h.names).1

/-- A harmless change of nodes keeps the invariant if the nodes it leaves are sound. -/
theorem Sound.mapNodes {f : Node → Node} (h : scope.Sound s) (hf : Resolution.Harmless f)
    (hnodes : ∀ node ∈ s.graph.nodes, scope.NodeSound s (f node)) : scope.Sound (s.mapNodes f) := by
  have hbelow := hf.below s
  refine ⟨?_, h.keys, h.finished, fun key => ?_, fun n hn => ?_, fun t ht => ?_, fun t ht => ?_⟩
  · have hnames : (s.graph.nodes.map f).map Node.name = s.graph.nodes.map Node.name := by
      rw [List.map_map]
      exact List.map_congr_left fun node _ => congrArg Named.name (hf.ref node)
    show ((s.graph.nodes.map f).map Node.name ++ s.graph.templates.map (·.name)).Nodup
    rw [hnames]
    exact h.names
  · exact (h.done key).trans (exists_congr fun t => and_congr_left' hf.mem_instantiation.symm)
  · obtain ⟨node, hnode, rfl⟩ := List.mem_map.1 hn
    exact (hnodes node hnode).mono hbelow
  · obtain ⟨decl, hd⟩ := h.memo t ht
    exact ⟨decl, hd.mono hbelow⟩
  · obtain ⟨decl, hd⟩ := h.templates t ht
    exact ⟨decl, hd.mono hbelow⟩

def describeObject (s : Resolution) (decl : ObjectDecl) : Resolution :=
  s.mapNodes (Node.withObject decl.name fun t => { t with description := decl.description })

def fillObject (s : Resolution) (decl : ObjectDecl) (fields : List GraphField) : Resolution :=
  s.mapNodes (Node.withObject decl.name fun t => { t with fields := fields, filled := true })

def fillEnum (s : Resolution) (decl : EnumDecl) : Resolution :=
  s.mapNodes (Node.withEnum decl.name fun t =>
    { t with description := decl.description, values := decl.members, filled := true })

theorem declareObject_eq_ok {decl : ObjectDecl} :
    scope.declareObject depth decl s = (.ok (), s') ↔ ∃ r g fields s₁,
      s.graph.shell decl.name .object = .ok (r, g) ∧
      (g.object? decl.name).any (·.filled) = false ∧
      scope.resolveFields (instantiateWithin depth) decl.name [] decl.fields
        (describeObject { s with graph := g } decl) = (.ok fields, s₁) ∧
      s' = fillObject s₁ decl fields := by
  rw [declareObject, ResolveM.bind_eq_ok]
  constructor
  · rintro ⟨r, mid, hstep, h⟩
    obtain ⟨g, hshell, rfl⟩ := ResolveM.onGraph_eq_ok.1 hstep
    rw [ResolveM.bind_ok (ResolveM.get_apply _)] at h
    split at h
    · cases h
    · rename_i hfilled
      rw [ResolveM.bind_ok (ResolveM.changeGraph_apply _ _)] at h
      obtain ⟨fields, s₁, hrun, h⟩ := ResolveM.bind_eq_ok.1 h
      exact ⟨r, g, fields, s₁, hshell, by simpa using hfilled, hrun, (Prod.mk.inj h).2.symm⟩
  · rintro ⟨r, g, fields, s₁, hshell, hfilled, hrun, rfl⟩
    refine ⟨r, _, ResolveM.onGraph_eq_ok.2 ⟨g, hshell, rfl⟩, ?_⟩
    rw [ResolveM.bind_ok (ResolveM.get_apply _), if_neg (by simpa using hfilled),
      ResolveM.bind_ok (ResolveM.changeGraph_apply _ _)]
    exact ResolveM.bind_eq_ok.2 ⟨fields, s₁, hrun, rfl⟩

theorem declareEnum_eq_ok {decl : EnumDecl} :
    declareEnum decl s = (.ok (), s') ↔ ∃ r g,
      s.graph.shell decl.name .enum = .ok (r, g) ∧ s' = fillEnum { s with graph := g } decl := by
  rw [declareEnum, ResolveM.bind_eq_ok]
  constructor
  · rintro ⟨r, mid, hstep, h⟩
    obtain ⟨g, hshell, rfl⟩ := ResolveM.onGraph_eq_ok.1 hstep
    exact ⟨r, g, hshell, (Prod.mk.inj h).2.symm⟩
  · rintro ⟨r, g, hshell, rfl⟩
    exact ⟨r, _, ResolveM.onGraph_eq_ok.2 ⟨g, hshell, rfl⟩, rfl⟩

theorem declareScalar_eq_ok {decl : ScalarDecl} :
    scope.declareScalar decl s = (.ok (), s') ↔ ∃ sc r g,
      scope.registry.byName? decl.name = some sc ∧ s.graph.adopt sc = .ok (r, g) ∧
        s' = { s with graph := g } := by
  rw [declareScalar]
  constructor
  · intro h
    rcases hname : scope.registry.byName? decl.name with _ | sc
    · rw [hname] at h; cases h
    · rw [hname] at h
      obtain ⟨r, mid, hstep, h⟩ := ResolveM.bind_eq_ok.1 h
      obtain ⟨g, hadopt, rfl⟩ := ResolveM.onGraph_eq_ok.1 hstep
      exact ⟨sc, r, g, rfl, hadopt, (Prod.mk.inj h).2.symm⟩
  · rintro ⟨sc, r, g, hname, hadopt, rfl⟩
    rw [hname]
    exact ResolveM.bind_eq_ok.2 ⟨r, _, ResolveM.onGraph_eq_ok.2 ⟨g, hadopt, rfl⟩, rfl⟩

def templateOf (decl : GenericDecl) (fields : List GraphField) : Template :=
  ⟨decl.name, [decl.parameter], fields, decl.description⟩

def addTemplate (s : Resolution) (template : Template) : Resolution :=
  { s with graph := { s.graph with templates := s.graph.templates ++ [template] } }

theorem addTemplate_eq_ok {graph g : TypeGraph} {template : Template} :
    graph.addTemplate template = .ok g ↔ graph.template? template.name = none ∧
      graph.get? template.name = none ∧
      g = { graph with templates := graph.templates ++ [template] } := by
  unfold TypeGraph.addTemplate
  rcases graph.template? template.name with _ | _
  · rcases graph.get? template.name with _ | _
    · simp [eq_comm]
    · simp [TypeGraph.refuse]
  · simp [TypeGraph.refuse]

theorem declareGeneric_eq_ok {decl : GenericDecl} :
    scope.declareGeneric depth decl s = (.ok (), s') ↔ ∃ fields s₁,
      scope.resolveFields (instantiateWithin depth) decl.name
        [(decl.parameter, .placeholder decl.parameter)] decl.fields s = (.ok fields, s₁) ∧
      s₁.graph.template? decl.name = none ∧ s₁.graph.get? decl.name = none ∧
      s' = addTemplate s₁ (templateOf decl fields) := by
  rw [declareGeneric, ResolveM.bind_eq_ok]
  have hadd {s₁ : Resolution} {fields : List GraphField} :
      ResolveM.onGraph (fun graph => (graph.addTemplate (templateOf decl fields)).map fun graph =>
        ((), graph)) s₁ = (.ok (), s') ↔ s₁.graph.template? decl.name = none ∧
          s₁.graph.get? decl.name = none ∧ s' = addTemplate s₁ (templateOf decl fields) := by
    rw [ResolveM.onGraph_eq_ok]
    constructor
    · rintro ⟨g, hg, rfl⟩
      rcases h : s₁.graph.addTemplate (templateOf decl fields) with e | g'
      · rw [h] at hg; cases hg
      · rw [h] at hg
        cases hg
        obtain ⟨htemplate, hget, rfl⟩ := addTemplate_eq_ok.1 h
        exact ⟨htemplate, hget, rfl⟩
    · rintro ⟨htemplate, hget, rfl⟩
      exact ⟨_, by rw [addTemplate_eq_ok.2 ⟨htemplate, hget, rfl⟩]; rfl, rfl⟩
  exact exists_congr fun fields => exists_congr fun s₁ => and_congr_right' hadd

end Scope

end SchemaCompiler
