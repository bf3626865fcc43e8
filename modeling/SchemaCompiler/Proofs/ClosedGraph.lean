import SchemaCompiler.Proofs.Building

/-! What a resolution leaves behind is closed. Whatever a field, an argument or an instantiation
refers to is a filled node of the graph, no name is taken twice, and the references of a declaration
are read off its type expressions by one assignment of nodes to names. -/

namespace SchemaCompiler

namespace Plan

variable {α β : Type} {s : Resolution}

/-- A plan answers in a state in which all its requests are met. -/
def Yields (p : Plan α) (s : Resolution) (a : α) : Prop :=
  p.outcome = .ok a ∧ ∀ r ∈ p.requests, s.Met r.2

theorem yields_pure {a b : α} : (pure a : Plan α).Yields s b ↔ a = b := by
  simp [Yields]

theorem yields_bind {p : Plan α} {f : α → Plan β} {b : β} :
    (p >>= f).Yields s b ↔ ∃ a, p.Yields s a ∧ (f a).Yields s b := by
  rcases h : p.outcome with e | a
  · simp [Yields, bind_error h, h]
  · rw [bind_ok h]
    simp only [Yields, h, List.forall_mem_append, Except.ok.injEq]
    exact ⟨fun ⟨hb, hp, hf⟩ => ⟨a, ⟨rfl, hp⟩, hb, hf⟩,
      fun ⟨_, ⟨ha, hp⟩, hb, hf⟩ => by subst ha; exact ⟨hb, hp, hf⟩⟩

end Plan

namespace TypeExpr

open Scope (Environment mark)

/-- What a type expression stands for in a graph when `node` says where a name with a tag leads. A
generic applied to a named type stands for the instantiation that has this type as its argument. -/
inductive Denotes (node : String → Option String → Named) (graph : TypeGraph) (tag : Option String)
    (env : Environment) : (required : Bool) → TypeExpr → TypeNode → Prop
  | ref (required : Bool) (name : String) :
    Denotes node graph tag env required (.ref name) (mark required (.named (node name tag)))
  | param {name : String} {t : TypeNode} (required : Bool) (bound : env.lookup name = some t) :
    Denotes node graph tag env required (.param name) (mark required t)
  | list {element : TypeExpr} {t : TypeNode} (required : Bool)
      (denotes : Denotes node graph tag env true element t) :
    Denotes node graph tag env required (.list element) (mark required (.list t))
  | nullable {inner : TypeExpr} {t : TypeNode} (required : Bool)
      (denotes : Denotes node graph tag env false inner t) :
    Denotes node graph tag env required (.nullable inner) t
  | applied {generic : String} {argument : TypeExpr} {t : TypeNode} (required : Bool)
      (denotes : Denotes node graph tag env false argument t) (isOpen : t.isOpen = true) :
    Denotes node graph tag env required (.apply generic [argument])
      (mark required (.applied generic t))
  | instantiated {generic : String} {argument : TypeExpr} {i : Instantiation} (required : Bool)
      (denotes : Denotes node graph tag env false argument (.named i.argument))
      (mem : .instantiation i ∈ graph.nodes) (ofGeneric : i.key = ⟨generic, i.argument.name⟩) :
    Denotes node graph tag env required (.apply generic [argument])
      (mark required (.named (.instantiation i.key)))

end TypeExpr

/-- A resolved field is what its descriptor stands for: the types of its expressions, in order. -/
structure FieldDescriptor.Denotes (node : String → Option String → Named) (graph : TypeGraph)
    (env : Scope.Environment) (d : FieldDescriptor) (f : GraphField) : Prop where
  descriptor : f.descriptor = d
  name : f.name = d.name
  type : Option.Rel (TypeExpr.Denotes node graph d.tag env true) d.type f.type
  arguments : List.Forall₂
    (fun a g => g.name = a.name ∧ a.type.Denotes node graph a.tag env true g.type)
    d.arguments f.arguments

/-- A graph reads the declarations of a model when `node` says where a name with a tag leads. -/
structure TypeGraph.Reads (graph : TypeGraph) (node : String → Option String → Named)
    (model : SourceModel) : Prop where
  object : ∀ t, .object t ∈ graph.nodes → ∃ decl, .object decl ∈ model.declarations ∧
    decl.name = t.name ∧ List.Forall₂ (FieldDescriptor.Denotes node graph []) decl.fields t.fields
  instantiation : ∀ i, .instantiation i ∈ graph.nodes → ∃ decl,
    .generic decl ∈ model.declarations ∧ i.key = ⟨decl.name, i.argument.name⟩ ∧
      List.Forall₂ (FieldDescriptor.Denotes node graph [(decl.parameter, .named i.argument)])
        decl.fields i.fields
  template : ∀ t ∈ graph.templates, ∃ decl, .generic decl ∈ model.declarations ∧
    decl.name = t.name ∧ t.parameters = [decl.parameter] ∧
      List.Forall₂
        (FieldDescriptor.Denotes node graph [(decl.parameter, .placeholder decl.parameter)])
        decl.fields t.fields

namespace Resolution

/-- A reference leads to the filled node that the graph has under its name; where it is an
instantiation, this is the one that was begun for its key. -/
def Leads (s : Resolution) (n : Named) : Prop :=
  ∃ node, s.graph.get? n.name = some node ∧ node.ref = n ∧ node.filled = true ∧
    ∀ i, node = .instantiation i → s.cached? i.key = some i

/-- A state in which nothing is missing and nothing is there twice. -/
structure Closed (s : Resolution) : Prop where
  names : (s.graph.nodes.map Node.name).Nodup
  templates : (s.graph.templates.map Template.name).Nodup
  apart : ∀ node ∈ s.graph.nodes, ∀ t ∈ s.graph.templates, node.name ≠ t.name
  known : ∀ node ∈ s.graph.nodes, node.kind ≠ .pending
  leads : ∀ node ∈ s.graph.nodes, s.Leads node.ref
  begun : ∀ i ∈ s.memo, .instantiation i ∈ s.graph.nodes
  fields : ∀ node ∈ s.graph.nodes, ∀ t ∈ TypeGraph.references node.fields,
    ∀ n, t.target? = some n → s.Leads n
  templateFields : ∀ template ∈ s.graph.templates, ∀ t ∈ TypeGraph.references template.fields,
    ∀ n, t.target? = some n → s.Leads n
  arguments : ∀ i, .instantiation i ∈ s.graph.nodes → s.Leads i.argument

end Resolution

namespace Scope

variable {scope : Scope} {s : Resolution}

/-- The type that a name with a tag stands for. -/
def node (scope : Scope) (name : String) (tag : Option String) : Named :=
  match scope.target name tag with
  | .ok n => n
  | .error _ => default

theorem planNamed_yields {name : String} {tag : Option String} {n : Named}
    (h : (scope.planNamed name tag).Yields s n) : n = scope.node name tag := by
  rw [planNamed] at h
  rw [node]
  rcases htarget : scope.target name tag with cause | type
  · rw [htarget] at h
    cases h.1
  · rw [htarget] at h
    obtain ⟨_, -, h⟩ := Plan.yields_bind.1 h
    exact (Plan.yields_pure.1 h).symm

namespace Complete

/-- An application that is met is an instantiation of the graph with that very argument. -/
theorem instantiation_of_met (h : scope.Complete s) {decl : GenericDecl} {argument : Named}
    (hmet : s.Met (.apply decl argument)) : ∃ i, Node.instantiation i ∈ s.graph.nodes ∧
      i.argument = argument ∧ i.key = ⟨decl.name, argument.name⟩ := by
  obtain ⟨hargument, hinstance⟩ := hmet
  obtain ⟨node, hnode, href⟩ := h.holds_iff.1 hinstance
  cases node with
  | instantiation i =>
    have hkey := Named.instantiation.inj href
    obtain ⟨decl', hentry⟩ := h.sound.memo i (h.sound.nodes _ hnode).1
    have hname : i.argument.name = argument.name :=
      congrArg InstanceKey.argument (hentry.key.symm.trans hkey)
    exact ⟨i, hnode, h.holds_inj hentry.argument hargument hname, hkey⟩
  | _ => cases href

theorem planApply_yields (h : scope.Complete s) {site : Site} {generic : String}
    {types : List TypeNode} {t : TypeNode}
    (ht : ((scope.focus site).planApply generic types).Yields s t) :
    (∃ x, types = [x] ∧ x.isOpen = true ∧ t = .applied generic x) ∨
      ∃ i, types = [.named i.argument] ∧ Node.instantiation i ∈ s.graph.nodes ∧
        i.key = ⟨generic, i.argument.name⟩ ∧ t = .named (.instantiation i.key) := by
  -- an application of a placeholder stays as it is, any other is asked for and so it is met
  obtain ⟨decl, hget, ⟨x, hx, hopen, heq⟩ | ⟨argument, rfl, rfl⟩⟩ := planApply_cases ht.1
  · exact .inl ⟨x, hx, hopen, heq⟩
  · have hplan : (scope.focus site).planApply generic [.named argument] = (do
        Plan.ask site (.apply decl argument)
        pure (.named (.instantiation ⟨decl.name, argument.name⟩))) := by
      unfold planApply
      rw [hget]
      rfl
    rw [hplan] at ht
    obtain ⟨i, hi, rfl, hkey⟩ := h.instantiation_of_met (ht.2 _ List.mem_cons_self)
    have hname : decl.name = generic := SourceModel.get?_name hget
    refine .inr ⟨i, rfl, hi, by rw [hkey, hname], by rw [hkey]⟩

mutual

/-- The type that a plan answers is what its expression stands for. -/
theorem planExpr_denotes (h : scope.Complete s) (tag : Option String) (env : Environment)
    (site : Site) : ∀ (e : TypeExpr) (required : Bool) {t : TypeNode},
      ((scope.focus site).planExpr tag env required e).Yields s t →
        e.Denotes scope.node s.graph tag env required t
  | .nullable inner, required, t, ht => by
    rw [planExpr] at ht
    exact .nullable required (planExpr_denotes h tag env site inner false ht)
  | .list element, required, t, ht => by
    rw [planExpr] at ht
    obtain ⟨x, hx, ht⟩ := Plan.yields_bind.1 ht
    obtain rfl := Plan.yields_pure.1 ht
    exact .list required (planExpr_denotes h tag env site element true hx)
  | .param name, required, t, ht => by
    rw [planExpr] at ht
    rcases hlookup : env.lookup name with _ | type
    · rw [hlookup] at ht
      cases ht.1
    · rw [hlookup] at ht
      obtain rfl := Plan.yields_pure.1 ht
      exact .param required hlookup
  | .apply generic arguments, required, t, ht => by
    rw [planExpr] at ht
    obtain ⟨types, htypes, ht⟩ := Plan.yields_bind.1 ht
    obtain ⟨x, hx, ht⟩ := Plan.yields_bind.1 ht
    obtain rfl := Plan.yields_pure.1 ht
    have hall := planArguments_denotes h tag env site arguments htypes
    obtain ⟨y, rfl, hopen, rfl⟩ | ⟨i, rfl, hi, hkey, rfl⟩ := h.planApply_yields hx
    · obtain ⟨e, rest, he, hrest, rfl⟩ := List.forall₂_cons_right_iff.1 hall
      obtain rfl := List.forall₂_nil_right_iff.1 hrest
      exact .applied required he hopen
    · obtain ⟨e, rest, he, hrest, rfl⟩ := List.forall₂_cons_right_iff.1 hall
      obtain rfl := List.forall₂_nil_right_iff.1 hrest
      exact .instantiated required he hi hkey
  | .ref name, required, t, ht => by
    rw [planExpr] at ht
    obtain ⟨n, hn, ht⟩ := Plan.yields_bind.1 ht
    obtain rfl := Plan.yields_pure.1 ht
    obtain rfl := planNamed_yields hn
    exact .ref required name

theorem planArguments_denotes (h : scope.Complete s) (tag : Option String) (env : Environment)
    (site : Site) : ∀ (es : List TypeExpr) {ts : List TypeNode},
      ((scope.focus site).planArguments tag env es).Yields s ts →
        List.Forall₂ (TypeExpr.Denotes scope.node s.graph tag env false) es ts
  | [], ts, ht => by
    rw [planArguments] at ht
    obtain rfl := Plan.yields_pure.1 ht
    exact .nil
  | e :: rest, ts, ht => by
    rw [planArguments] at ht
    obtain ⟨x, hx, ht⟩ := Plan.yields_bind.1 ht
    obtain ⟨xs, hxs, ht⟩ := Plan.yields_bind.1 ht
    obtain rfl := Plan.yields_pure.1 ht
    exact .cons (planExpr_denotes h tag env site e false hx)
      (planArguments_denotes h tag env site rest hxs)

end

theorem planFieldArguments_denotes (h : scope.Complete s) {env : Environment} {site : Site}
    {as : List ArgumentDescriptor} {gs : List GraphArgument}
    (hgs : ((scope.focus site).planFieldArguments env as).Yields s gs) :
    List.Forall₂ (fun a g => g.name = a.name ∧
      a.type.Denotes scope.node s.graph a.tag env true g.type) as gs := by
  induction as generalizing gs with
  | nil =>
    obtain rfl := Plan.yields_pure.1 hgs
    exact .nil
  | cons a rest ih =>
    rw [planFieldArguments] at hgs
    obtain ⟨x, hx, hgs⟩ := Plan.yields_bind.1 hgs
    obtain ⟨xs, hxs, hgs⟩ := Plan.yields_bind.1 hgs
    obtain rfl := Plan.yields_pure.1 hgs
    exact .cons ⟨rfl, h.planExpr_denotes a.tag env site a.type true hx⟩ (ih hxs)

theorem planField_denotes (h : scope.Complete s) {env : Environment} {site : Site}
    {d : FieldDescriptor} {f : GraphField} (hf : ((scope.focus site).planField env d).Yields s f) :
    d.Denotes scope.node s.graph env f := by
  rw [planField] at hf
  obtain ⟨x, hx, hf⟩ := Plan.yields_bind.1 hf
  obtain ⟨gs, hgs, hf⟩ := Plan.yields_bind.1 hf
  obtain rfl := Plan.yields_pure.1 hf
  refine ⟨rfl, rfl, ?_, h.planFieldArguments_denotes hgs⟩
  rcases htype : d.type with _ | e
  · rw [htype] at hx
    obtain rfl := Plan.yields_pure.1 hx
    exact .none
  · rw [htype, planType] at hx
    obtain ⟨t, ht, hx⟩ := Plan.yields_bind.1 hx
    obtain rfl := Plan.yields_pure.1 hx
    exact .some (h.planExpr_denotes d.tag env site e true ht)

/-- Resolved fields are what the descriptors of their declaration stand for. -/
theorem planFields_denotes (h : scope.Complete s) {owner : String} {env : Environment}
    {ds : List FieldDescriptor} {fields : List GraphField}
    (hfields : (scope.planFields owner env ds).Yields s fields) :
    List.Forall₂ (FieldDescriptor.Denotes scope.node s.graph env) ds fields := by
  induction ds generalizing fields with
  | nil =>
    obtain rfl := Plan.yields_pure.1 hfields
    exact .nil
  | cons d rest ih =>
    rw [planFields] at hfields
    obtain ⟨f, hf, hfields⟩ := Plan.yields_bind.1 hfields
    obtain ⟨fs, hfs, hfields⟩ := Plan.yields_bind.1 hfields
    obtain rfl := Plan.yields_pure.1 hfields
    exact .cons (h.planField_denotes hf) (ih hfs)

/-- A graph reads the declarations of its model. -/
theorem reads (h : scope.Complete s) : s.graph.Reads scope.node scope.model where
  object t ht := by
    obtain ⟨decl, hdecl, hname, hfilled⟩ := h.sound.nodes _ ht
    obtain ⟨houtcome, hmet⟩ := (hfilled (h.filled _ ht)).2
    exact ⟨decl, hdecl, hname, h.planFields_denotes ⟨houtcome, hmet⟩⟩
  instantiation i hi := by
    obtain ⟨himemo, hfilled⟩ := h.sound.nodes _ hi
    obtain ⟨decl, hentry⟩ := h.sound.memo i himemo
    obtain ⟨houtcome, hmet⟩ := hentry.body hfilled
    exact ⟨decl, SourceModel.get?_mem hentry.declared, hentry.key,
      h.planFields_denotes ⟨houtcome, hmet⟩⟩
  template t ht := by
    obtain ⟨decl, hsound⟩ := h.sound.templates t ht
    obtain ⟨houtcome, hmet⟩ := hsound.body
    exact ⟨decl, hsound.declared, hsound.name.symm, hsound.parameters,
      h.planFields_denotes ⟨houtcome, hmet⟩⟩

/-- What has fields in a graph has those of a declaration. -/
theorem owner_denotes (h : scope.Complete s) {owner : String × List GraphField}
    (howner : owner ∈ s.graph.owners) :
    owner.2 = [] ∨ ∃ d ∈ scope.model.declarations, ∃ env,
      List.Forall₂ (FieldDescriptor.Denotes scope.node s.graph env) d.fields owner.2 := by
  rcases List.mem_append.1 howner with howner | howner
  · obtain ⟨node, hnode, rfl⟩ := List.mem_map.1 howner
    cases node with
    | object t =>
      obtain ⟨decl, hdecl, -, hfields⟩ := h.reads.object t hnode
      exact .inr ⟨_, hdecl, _, hfields⟩
    | instantiation i =>
      obtain ⟨decl, hdecl, -, hfields⟩ := h.reads.instantiation i hnode
      exact .inr ⟨_, hdecl, _, hfields⟩
    | _ => exact .inl rfl
  · obtain ⟨t, ht, rfl⟩ := List.mem_map.1 howner
    obtain ⟨decl, hdecl, -, -, hfields⟩ := h.reads.template t ht
    exact .inr ⟨_, hdecl, _, hfields⟩

/-- The instantiation of the graph is the one that was begun for its key. -/
theorem cached?_of_mem (h : scope.Complete s) {i : Instantiation}
    (hi : Node.instantiation i ∈ s.graph.nodes) : s.cached? i.key = some i := by
  have himemo := (h.sound.nodes _ hi).1
  rcases hcached : s.cached? i.key with _ | j
  · simpa using List.find?_eq_none.1 hcached i himemo
  · have hkey : j.key = i.key := by simpa using List.find?_some hcached
    rw [List.inj_on_of_nodup_map h.sound.keys (List.mem_of_find?_eq_some hcached) himemo hkey]

theorem leads_of_holds (h : scope.Complete s) {n : Named} (hn : s.Holds n) : s.Leads n := by
  obtain ⟨node, hnode, rfl⟩ := h.holds_iff.1 hn
  refine ⟨node, TypeGraph.get?_of_mem h.sound.nodup hnode, rfl, h.filled node hnode, ?_⟩
  rintro i rfl
  exact h.cached?_of_mem hnode

theorem closed_state (h : scope.Complete s) : s.Closed where
  names := h.sound.nodup
  templates := (List.nodup_append.1 h.sound.names).2.1
  apart node hnode t ht := (List.nodup_append.1 h.sound.names).2.2 node.name
    (List.mem_map_of_mem hnode) t.name (List.mem_map_of_mem ht)
  known node hnode hkind := by
    have hfilled := h.filled node hnode
    cases node with
    | pending _ _ => cases hfilled
    | _ => cases hkind
  leads node hnode := h.leads_of_holds (h.holds_iff.2 ⟨node, hnode, rfl⟩)
  begun _ hi := h.instantiation hi
  fields node hnode t ht n hn := h.leads_of_holds ((h.node_references hnode t ht).2 n hn)
  templateFields template htemplate t ht n hn := by
    obtain ⟨parameter, -, hreferences⟩ := h.template_references htemplate
    exact h.leads_of_holds ((hreferences t ht).2 n hn)
  arguments i hi := by
    obtain ⟨decl, hentry⟩ := h.sound.memo i (h.sound.nodes _ hi).1
    exact h.leads_of_holds hentry.argument

end Complete

/-- A resolution that ends well leaves a closed graph behind, and one assignment of nodes to names
and tags reads all declarations into it. -/
theorem closed_of_resolve (h : scope.resolve {} = (.ok (), s)) :
    s.Closed ∧ ∃ node, s.graph.Reads node scope.model :=
  ⟨(complete_of_resolve h).closed_state, scope.node, (complete_of_resolve h).reads⟩

end Scope

theorem treeUnit_closed : ∃ (model : SourceModel) (a : Analysis) (i : Instantiation),
    treeUnit.extract = .ok model ∧ a.scope.resolve {} = (.ok (), a.resolution) ∧
      Node.instantiation i ∈ a.graph.nodes ∧ i.key = ⟨"Tree", "String"⟩ ∧ a.resolution.Closed ∧
        ∃ node, a.graph.Reads node a.scope.model := by
  obtain ⟨model, a, i, hmodel, ha, hi, hkey⟩ := treeUnit_analyzed
  have hrun := (SourceModel.analyze_eq_ok.1 ha).2.2.1
  obtain ⟨hclosed, hreads⟩ := Scope.closed_of_resolve hrun
  exact ⟨model, a, i, hmodel, hrun, hi, hkey, hclosed, hreads⟩

end SchemaCompiler
