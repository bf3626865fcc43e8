import SchemaCompiler.Proofs.Written

/-! What the types in a module refer to. Every type and generic that they mention has a variable in
the module, every builtin scalar and every wrapper is imported, and whatever else there is inside a
factory is a parameter of it. -/

namespace SchemaCompiler

namespace SourceModel

variable {model : SourceModel} {a : Analysis}

/-- Every type that is no builtin scalar is an entity of the module. -/
theorem mem_entityNames_of_holds (h : model.analyze = .ok a) {n : Named}
    (hn : a.resolution.Holds n) {place : TypeSection} (hplace : n.definedIn = some place) :
    n.name ∈ a.emission.entityNames := by
  refine (entityNames_perm h).mem_iff.2 (List.mem_append_left _ (List.mem_map_of_mem ?_))
  exact mem_definedTypes_of_holds h hn hplace

/-- Every declared generic is an entity of the module. -/
theorem mem_entityNames_of_generic (h : model.analyze = .ok a) {decl : GenericDecl}
    (hdecl : .generic decl ∈ a.model.declarations) : decl.name ∈ a.emission.entityNames := by
  obtain ⟨t, ht, hsound⟩ := (complete_of_analyze h).template hdecl
  refine (entityNames_perm h).mem_iff.2 (List.mem_append_right _ ?_)
  exact List.mem_map.2 ⟨t, ht, hsound.name⟩

/-- All that a type mentions is an entity of the module. -/
theorem mentions_subset (h : model.analyze = .ok a) {parameter : String} {t : TypeNode}
    (hof : t.OfTemplate a.model parameter)
    (hheld : ∀ n, t.target? = some n → a.resolution.Holds n) :
    t.mentions ⊆ a.emission.entityNames := by
  induction t with
  | named n =>
    have hn := hheld n rfl
    intro name hname
    cases n with
    | pending _ => exact absurd rfl (ne_pending_of_holds h hn _)
    | scalar s =>
      rw [TypeNode.mentions] at hname
      split at hname
      · cases hname
      · rename_i hbuiltin
        rw [List.mem_singleton.1 hname]
        exact mem_entityNames_of_holds h hn (if_neg hbuiltin)
    | _ =>
      rw [List.mem_singleton.1 hname]
      exact mem_entityNames_of_holds h hn rfl
  | list element ih => exact ih hof hheld
  | nonNull inner ih => exact ih hof hheld
  | placeholder _ => exact List.nil_subset _
  | applied generic argument ih =>
    obtain ⟨⟨decl, hget⟩, -, hargument⟩ := hof
    refine List.cons_subset.2 ⟨?_, ih hargument hheld⟩
    rw [← get?_name hget]
    exact mem_entityNames_of_generic h (get?_mem hget)

theorem ofTemplate_of_isClosed (parameter : String) {t : TypeNode} (ht : t.isClosed = true) :
    t.OfTemplate a.model parameter := by
  induction t with
  | named _ => trivial
  | list element ih => exact ih ht
  | nonNull inner ih => exact ih ht
  | placeholder _ => cases ht
  | applied _ _ _ => cases ht

/-- The types in the fields of a node mention entities only. -/
theorem node_mentions (h : model.analyze = .ok a) {node : Node} (hnode : node ∈ a.graph.nodes)
    {t : TypeNode} (ht : t ∈ TypeGraph.references node.fields) :
    t.mentions ⊆ a.emission.entityNames := by
  obtain ⟨hclosed, hheld⟩ := (complete_of_analyze h).node_references hnode t ht
  exact mentions_subset h (ofTemplate_of_isClosed "" hclosed) hheld

theorem template_mentions (h : model.analyze = .ok a) {template : Template}
    (htemplate : template ∈ a.graph.templates) {t : TypeNode}
    (ht : t ∈ TypeGraph.references template.fields) : t.mentions ⊆ a.emission.entityNames := by
  obtain ⟨parameter, -, hreferences⟩ := (complete_of_analyze h).template_references htemplate
  obtain ⟨hof, hheld⟩ := hreferences t ht
  exact mentions_subset h hof hheld

end SourceModel

namespace SchemaModule

/-- Whether a name that stands for a type is imported or assigned. -/
def Offers (m : SchemaModule) (name : String) : Prop :=
  name ∈ m.libraryImports ∨ name ∈ m.assignedNames

/-- Every name that stands for a type in a field map, an argument, an instantiation or the function
that builds the schema is offered by the module or is a parameter of the factory around it. -/
structure Closed (m : SchemaModule) : Prop where
  factories : ∀ f ∈ m.factories, ∀ t ∈ f.fields.flatMap FieldEntry.types,
    ∀ name ∈ t.words, m.Offers name ∨ name ∈ f.parameters
  objects : ∀ o ∈ m.objects, ∀ t ∈ o.fields.flatMap FieldEntry.types,
    ∀ name ∈ t.words, m.Offers name
  instances : ∀ i ∈ m.instances, ∀ name ∈ i.factory :: i.arguments.flatMap TypeTerm.words,
    m.Offers name
  schema : ∀ s, m.schema = some s → ∀ name ∈ s.roots.map (·.2) ++ s.types, name ∈ m.assignedNames

end SchemaModule

/-- What stands in the function that builds the schema. -/
theorem Emission.schemaEntry_parts {objects vars factories : List String} {s : SchemaEntry}
    (h : Emission.schemaEntry objects vars factories = some s) :
    (∀ root ∈ s.roots, ∃ type, (type, root.1) ∈ operationTypes ∧ type ∈ objects ∧
      root.2 = safeIdentifier type) ∧ s.types = vars.filter fun v => !factories.contains v := by
  rw [Emission.schemaEntry] at h
  split at h
  · cases h
    refine ⟨fun root hroot => ?_, rfl⟩
    obtain ⟨⟨type, operation⟩, hmem, rfl⟩ := List.mem_map.1 hroot
    obtain ⟨hoperation, hobject⟩ := List.mem_filter.1 hmem
    exact ⟨type, hoperation, List.contains_iff_mem.1 hobject, rfl⟩
  · cases h

namespace Emission.Sections

variable {model : SourceModel} {a : Analysis} {m : SchemaModule} {style : ModuleStyle}

theorem mem_libraryImports (hm : a.emission.Sections style m) {name : String} :
    name ∈ m.libraryImports ↔ name ∈ a.emission.libraryNames m.schema := by
  rw [hm.libraryImports, Emission.libraryImports, mem_sortedNames]

/-- The words of a written type are offered, apart from parameters. -/
theorem offers_words (hm : a.emission.Sections style m) {params : List (String × String)}
    {t : TypeNode} {term : TypeTerm} (hwrites : t.Writes params term)
    (hmentions : t.mentions ⊆ a.emission.entityNames)
    (hlibrary : t.libraryNames ⊆ a.emission.libraryNames m.schema) {name : String}
    (hname : name ∈ term.words) : m.Offers name ∨ name ∈ params.map (·.2) := by
  rcases (hwrites.mem_words name).1 hname with himport | hvar | hparameter
  · exact .inl (.inl (hm.mem_libraryImports.2 (hlibrary himport)))
  · rw [hwrites.variables_eq] at hvar
    refine .inl (.inr ?_)
    rw [hm.assignedNames]
    exact List.map_subset safeIdentifier hmentions hvar
  · exact .inr (hwrites.parameters name hparameter)

theorem libraryNames_of_written {e : Emission} {owner : String} {f : GraphField}
    (hf : (owner, f) ∈ e.writtenFields) {t : TypeNode} (ht : t ∈ f.types)
    (schema : Option SchemaEntry) : t.libraryNames ⊆ e.libraryNames schema := by
  intro name hname
  have hfield : name ∈ f.libraryNames :=
    List.mem_append_left _ (List.mem_flatMap.2 ⟨t, ht, hname⟩)
  rw [libraryNames]
  simp only [List.mem_append, List.mem_flatMap]
  exact .inl (.inl (.inr ⟨(owner, f), hf, hfield⟩))

/-- The types of written fields are offered, apart from parameters. -/
theorem offers_fields (hm : a.emission.Sections style m) {owner : String}
    {params : List (String × String)} {fields : List GraphField} {entries : List FieldEntry}
    (hwrites : a.emission.WritesFields owner params fields entries)
    (hwritten : ∀ f ∈ fields, (owner, f) ∈ a.emission.writtenFields)
    (hmentions : ∀ t ∈ TypeGraph.references fields, t.mentions ⊆ a.emission.entityNames)
    {term : TypeTerm} (hterm : term ∈ entries.flatMap FieldEntry.types) {name : String}
    (hname : name ∈ term.words) : m.Offers name ∨ name ∈ params.map (·.2) := by
  obtain ⟨type, htype, hwrites⟩ := forall₂_mem_right hwrites.types term hterm
  obtain ⟨f, hf, hmem⟩ := List.mem_flatMap.1 htype
  exact hm.offers_words hwrites (hmentions type htype)
    (libraryNames_of_written (hwritten f hf) hmem _) hname

theorem schemaEntry_of_some (hm : a.emission.Sections style m) {s : SchemaEntry}
    (hs : m.schema = some s) : schemaEntry (m.objects.map (·.name)) m.assignedNames
      (m.factories.map (·.var)) = some s := by
  have hentry := hm.schema
  rw [hs] at hentry
  split at hentry
  · exact hentry.symm
  · cases hentry

theorem closed (h : model.analyze = .ok a) (hm : a.emission.Sections style m) : m.Closed where
  factories f hf term hterm name hname := by
    obtain ⟨t, ht, hfactory⟩ := forall₂_mem_right (writesFactories hm.factories) f hf
    rw [hfactory.parameters]
    exact hm.offers_fields hfactory.fields
      (fun field hfield => List.mem_append_left _
        (List.mem_flatMap.2 ⟨t, ht, List.mem_map_of_mem hfield⟩))
      (fun type htype => SourceModel.template_mentions h ht htype) hterm hname
  objects o ho term hterm name hname := by
    obtain ⟨node, hnode, hobject⟩ := forall₂_mem_right (writesObjects hm.objects) o ho
    have hgraph := SourceModel.mem_nodes_of_objectNodes hnode
    have hoffers := hm.offers_fields hobject.fields
      (fun field hfield => List.mem_append_right _
        (List.mem_flatMap.2 ⟨node, hnode, List.mem_map_of_mem hfield⟩))
      (fun type htype => SourceModel.node_mentions h hgraph htype) hterm hname
    exact hoffers.resolve_right List.not_mem_nil
  instances entry hentry name hname := by
    obtain ⟨i, hi, hinstance⟩ := forall₂_mem_right (writesInstances hm.instances) entry hentry
    obtain ⟨term, harguments, hwrites⟩ := hinstance.argument
    rw [harguments, List.flatMap_singleton] at hname
    rcases List.mem_cons.1 hname with rfl | hname
    · rw [hinstance.factory]
      exact .inr (List.mem_append_left _ (SourceModel.factory_bound h hm hi))
    · have hmentions : (TypeNode.named i.argument).mentions ⊆ a.emission.entityNames :=
        SourceModel.mentions_subset h (SourceModel.ofTemplate_of_isClosed "" rfl) fun n hn =>
          Option.some.inj hn ▸ SourceModel.argument_held h hi
      have hlibrary :
          (TypeNode.named i.argument).libraryNames ⊆ a.emission.libraryNames m.schema := by
        intro n hn
        rw [Emission.libraryNames]
        simp only [List.mem_append, List.mem_flatMap]
        exact .inl (.inr ⟨i, hi, hn⟩)
      exact (hm.offers_words hwrites hmentions hlibrary hname).resolve_right List.not_mem_nil
  schema s hs name hname := by
    obtain ⟨hroots, htypes⟩ := schemaEntry_parts (hm.schemaEntry_of_some hs)
    rcases List.mem_append.1 hname with hroot | htype
    · obtain ⟨root, hmem, rfl⟩ := List.mem_map.1 hroot
      obtain ⟨type, -, hobject, hvar⟩ := hroots root hmem
      obtain ⟨o, ho, rfl⟩ := List.mem_map.1 hobject
      obtain ⟨node, -, hwrites⟩ := forall₂_mem_right (writesObjects hm.objects) o ho
      rw [hvar, hwrites.name, ← hwrites.var]
      exact List.mem_append_left _ (List.mem_append_right _ (List.mem_map_of_mem ho))
    · rw [htypes] at htype
      exact (List.mem_filter.1 htype).1

end Emission.Sections

end SchemaCompiler
