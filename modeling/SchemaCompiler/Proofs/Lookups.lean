import SchemaCompiler.Proofs.BindingTable
import SchemaCompiler.Proofs.DefinitionOrder

/-! Writing the module of an analysis. Whatever is looked up for it is there: the types that a module
mentions are filled types of the graph, every field that it writes has a type and a resolver, a type
parameter is met only where a factory has it, and the schema library has all builtin scalars. So only
a header that is no text can stand in the way. -/

namespace SchemaCompiler

namespace Emission

variable {e : Emission}

/-- The objects are written if their fields are. -/
theorem objectEntries_ok {nodes : List Node} (defined : List String)
    (h : ∀ node ∈ nodes, ∀ f ∈ node.fields, ∃ entry, e.fieldEntry node.name [] f = .ok entry) :
    ∃ entries, e.objectEntries defined nodes = .ok entries := by
  induction nodes generalizing defined with
  | nil => exact ⟨[], rfl⟩
  | cons node rest ih =>
    obtain ⟨fields, hfields⟩ := exists_forall₂ (h node List.mem_cons_self)
    obtain ⟨entries, hentries⟩ := ih (defined ++ [safeIdentifier node.name])
      fun node hnode => h node (List.mem_cons_of_mem _ hnode)
    exact ⟨_, except_bind_eq_ok.2 ⟨fields, mapM_eq_ok.2 hfields,
      except_bind_eq_ok.2 ⟨entries, hentries, rfl⟩⟩⟩

theorem toModule_ok {factories : List FactoryEntry} {instances : List InstanceEntry}
    (hfactories : e.factories = .ok factories) (hinstances : e.instances = .ok instances)
    (hobjects : ∀ defined, ∃ objects, e.objectEntries defined e.objectNodes = .ok objects)
    (style : ModuleStyle) : ∃ m, e.toModule style = .ok m := by
  obtain ⟨objects, hobjects⟩ := hobjects
    (e.scalars.map (·.var) ++ e.enums.map (·.var) ++ factories.map (·.var))
  exact ⟨_, except_bind_eq_ok.2 ⟨factories, hfactories, except_bind_eq_ok.2 ⟨objects, hobjects,
    except_bind_eq_ok.2 ⟨instances, hinstances, rfl⟩⟩⟩⟩

end Emission

/-- The style of a module is known unless the header is something else than a text. -/
theorem Config.exists_style_iff {config : Config} : (∃ style, config.style = .ok style) ↔
    (∃ s, config.header = .string s) ∨ config.header.isTruthy = false := by
  rw [Config.style]
  rcases hheader : config.header with _ | b | n | x | s | items | members
  case string => exact ⟨fun _ => .inl ⟨s, rfl⟩, fun _ => ⟨_, rfl⟩⟩
  all_goals
    simp only [reduceCtorEq, exists_false, false_or, ← Bool.not_eq_true]
    split <;> simp_all [bind, Except.bind]

namespace Analysis

/-- What the module of an analysis looks up. -/
structure Supplied (a : Analysis) : Prop where
  /-- The types in the order of the module are filled types of the graph. -/
  ordered : ∀ n ∈ a.emission.ordered, a.resolution.Leads n
  /-- So are those that a written field or one of its arguments refers to, and a builtin scalar among
  them has a name in the schema library. -/
  mentioned : ∀ p ∈ a.emission.writtenFields, ∀ x ∈ p.2.types, ∀ n, x.target? = some n →
    a.resolution.Leads n ∧ n.Written
  /-- So are the instantiations and their arguments. -/
  instances : ∀ i ∈ a.instantiations, a.resolution.Leads (.instantiation i.key) ∧
    a.resolution.Leads i.argument ∧ i.argument.Written
  typed : ∀ p ∈ a.emission.writtenFields, p.2.type.isSome = true
  resolved : ∀ p ∈ a.emission.writtenFields, ∃ b, a.bindings.get? p.1 p.2.name = some b
  /-- In a template only its own parameters are met, and elsewhere none. -/
  parameters : ∀ t ∈ a.graph.templates, ∀ x ∈ TypeGraph.references t.fields,
    ∀ parameter ∈ x.placeholders, parameter ∈ t.parameters
  closed : ∀ node ∈ a.emission.objectNodes, ∀ x ∈ TypeGraph.references node.fields,
    x.placeholders = []

end Analysis

namespace SourceModel

variable {model : SourceModel} {a : Analysis}

/-- A field that a module writes is one of a type or a template of the graph. -/
theorem owner_of_writtenFields {p : String × GraphField} (hp : p ∈ a.emission.writtenFields) :
    ∃ owner ∈ a.graph.owners, owner.1 = p.1 ∧ p.2 ∈ owner.2 := by
  rw [Emission.writtenFields, List.mem_append] at hp
  rcases hp with hp | hp
  · obtain ⟨t, ht, hp⟩ := List.mem_flatMap.1 hp
    obtain ⟨f, hf, rfl⟩ := List.mem_map.1 hp
    exact ⟨(t.name, t.fields), List.mem_append_right _ (List.mem_map_of_mem ht), rfl, hf⟩
  · obtain ⟨node, hnode, hp⟩ := List.mem_flatMap.1 hp
    obtain ⟨f, hf, rfl⟩ := List.mem_map.1 hp
    exact ⟨(node.name, node.fields),
      List.mem_append_left _ (List.mem_map_of_mem (mem_nodes_of_objectNodes hnode)), rfl, hf⟩

/-- What the fields of a graph refer to is in the graph and can be written. -/
theorem leads_of_owner (h : model.analyze = .ok a) {owner : String × List GraphField}
    (howner : owner ∈ a.graph.owners) {x : TypeNode} (hx : x ∈ TypeGraph.references owner.2)
    {n : Named} (hn : x.target? = some n) : a.resolution.Leads n ∧ n.Written := by
  have hcomplete := complete_of_analyze h
  have hheld : a.resolution.Holds n := by
    rcases List.mem_append.1 howner with hmem | hmem
    · obtain ⟨node, hnode, rfl⟩ := List.mem_map.1 hmem
      exact (hcomplete.node_references hnode x hx).2 n hn
    · obtain ⟨t, ht, rfl⟩ := List.mem_map.1 hmem
      obtain ⟨_, -, hreferences⟩ := hcomplete.template_references ht
      exact (hreferences x hx).2 n hn
  exact ⟨hcomplete.leads_of_holds hheld, written_of_holds h hheld⟩

/-- A field has the name that its descriptor has. -/
theorem owner_fields_named (h : model.analyze = .ok a) {owner : String × List GraphField}
    (howner : owner ∈ a.graph.owners) : ∀ f ∈ owner.2, f.descriptor.name = f.name := fun f hf =>
  (complete_of_analyze h).field_name (p := (owner.1, f))
    (List.mem_flatMap.2 ⟨owner, howner, List.mem_map_of_mem hf⟩)

theorem node_placeholders (h : model.analyze = .ok a) {node : Node} (hnode : node ∈ a.graph.nodes)
    {x : TypeNode} (hx : x ∈ TypeGraph.references node.fields) : x.placeholders = [] :=
  TypeNode.placeholders_of_isClosed ((complete_of_analyze h).node_references hnode x hx).1

theorem template_placeholders (h : model.analyze = .ok a) {t : Template}
    (ht : t ∈ a.graph.templates) {x : TypeNode} (hx : x ∈ TypeGraph.references t.fields)
    {parameter : String} (hparameter : parameter ∈ x.placeholders) : parameter ∈ t.parameters := by
  obtain ⟨p, hp, hreferences⟩ := (complete_of_analyze h).template_references ht
  rw [hp, List.mem_singleton]
  exact (hreferences x hx).1.placeholders parameter hparameter

theorem holds_argument (h : model.analyze = .ok a) {i : Instantiation} (hi : i ∈ a.instantiations) :
    a.resolution.Holds i.argument := by
  have hsound := (complete_of_analyze h).sound
  obtain ⟨decl, hentry⟩ := hsound.memo i (hsound.nodes _ ((mem_instantiations h).1 hi)).1
  exact hentry.argument

theorem supplied (h : model.analyze = .ok a) : a.Supplied where
  ordered _ hn := (complete_of_analyze h).leads_of_holds (holds_of_ordered h hn)
  mentioned p hp x hx n hn := by
    obtain ⟨owner, howner, -, hf⟩ := owner_of_writtenFields hp
    exact leads_of_owner h howner (List.mem_flatMap.2 ⟨p.2, hf, hx⟩) hn
  instances i hi := by
    have hcomplete := complete_of_analyze h
    have hnode := (mem_instantiations h).1 hi
    exact ⟨hcomplete.leads_of_holds (hcomplete.holds_iff.2 ⟨_, hnode, rfl⟩),
      hcomplete.leads_of_holds (holds_argument h hi), written_of_holds h (holds_argument h hi)⟩
  typed p hp := by
    obtain ⟨owner, howner, -, hf⟩ := owner_of_writtenFields hp
    exact Option.isSome_iff_exists.2
      (get?_of_forType (owner_fields_named h howner) (bindFields_of_owner h howner) hf).2
  resolved p hp := by
    obtain ⟨owner, howner, hname, hf⟩ := owner_of_writtenFields hp
    rw [← hname]
    exact (get?_of_forType (owner_fields_named h howner) (bindFields_of_owner h howner) hf).1
  parameters _ ht _ hx _ hparameter := template_placeholders h ht hx hparameter
  closed _ hnode _ hx := node_placeholders h (mem_nodes_of_objectNodes hnode) hx

/-- The objects of an analysis can be written behind any others. -/
theorem objects_ok (h : model.analyze = .ok a) (defined : List String) :
    ∃ objects, a.emission.objectEntries defined a.emission.objectNodes = .ok objects := by
  refine Emission.objectEntries_ok defined fun node hnode => ?_
  have hmem := mem_nodes_of_objectNodes hnode
  have howner : (node.name, node.fields) ∈ a.graph.owners :=
    List.mem_append_left _ (List.mem_map_of_mem hmem)
  refine fieldEntry_ok (owner_fields_named h howner) (bindFields_of_node h hmem) fun x hx => ?_
  refine TypeNode.term_ok (fun p hp => ?_) fun n hn => (leads_of_owner h howner hx hn).2
  rw [node_placeholders h hmem hx] at hp
  cases hp

theorem instances_ok (h : model.analyze = .ok a) :
    ∃ instances, a.emission.instances = .ok instances := by
  simp only [Emission.instances, mapM_eq_ok]
  refine exists_forall₂ fun i hi => ?_
  have hwritten : ∀ n, (TypeNode.named i.argument).target? = some n → n.Written := by
    intro n hn
    cases hn
    exact written_of_holds h (holds_argument h hi)
  obtain ⟨term, hterm⟩ : ∃ term, (TypeNode.named i.argument).term [] = .ok term :=
    TypeNode.term_ok (fun p hp => absurd hp List.not_mem_nil) hwritten
  exact ⟨_, except_bind_eq_ok.2 ⟨term, hterm, rfl⟩⟩

/-- Whatever the module of an analysis looks up is there, and under a configuration there is a module
exactly if its header is a text or none. -/
theorem module_iff_header (h : model.analyze = .ok a) (config : Config) : a.Supplied ∧
    ((∃ style m, config.style = .ok style ∧ a.emission.toModule style = .ok m) ↔
      (∃ s, config.header = .string s) ∨ config.header.isTruthy = false) := by
  obtain ⟨factories, hfactories⟩ := factories_ok h
  obtain ⟨instances, hinstances⟩ := instances_ok h
  refine ⟨supplied h, ?_⟩
  rw [← Config.exists_style_iff]
  constructor
  · rintro ⟨style, -, hstyle, -⟩
    exact ⟨style, hstyle⟩
  · rintro ⟨style, hstyle⟩
    obtain ⟨m, hm⟩ := Emission.toModule_ok hfactories hinstances (objects_ok h) style
    exact ⟨style, m, hstyle, hm⟩

end SourceModel

theorem treeUnit_supplied : ∃ (model : SourceModel) (a : Analysis) (style : ModuleStyle)
    (m : SchemaModule), treeUnit.extract = .ok model ∧ model.analyze = .ok a ∧ a.Supplied ∧
      ({ header := .null } : Config).style = .ok style ∧ a.emission.toModule style = .ok m := by
  obtain ⟨model, a, -, hmodel, ha, -⟩ := treeUnit_analyzed
  obtain ⟨hsupplied, hiff⟩ := SourceModel.module_iff_header ha { header := .null }
  obtain ⟨style, m, hstyle, hm⟩ := hiff.2 (.inr rfl)
  exact ⟨model, a, style, m, hmodel, ha, hsupplied, hstyle, hm⟩

end SchemaCompiler
