import SchemaCompiler.Proofs.Emitted
import SchemaCompiler.Proofs.Building
import SchemaCompiler.Proofs.FinishOrder
import SchemaCompiler.Proofs.Importing

/-! The order of the definitions in a module. All that a definition reads at once has been assigned
before, apart from instantiations that others are applied to. These follow one another as they were
finished, and an instantiation that refers to an application of itself is finished after it. -/

namespace SchemaCompiler

def Named.variables : Named → List String
  | .scalar s => if s.builtin then [] else [safeIdentifier s.name]
  | type => [safeIdentifier type.name]

theorem Named.term_variables {n : Named} {params : List (String × String)} {term : TypeTerm}
    (h : (TypeNode.named n).term params = .ok term) : term.variables = n.variables := by
  cases n with
  | scalar s =>
    rw [TypeNode.term] at h
    rw [Named.variables]
    split at h
    · rename_i hbuiltin
      rw [if_pos hbuiltin]
      split at h <;> cases h
      rfl
    · rename_i hbuiltin
      cases h
      rw [if_neg hbuiltin]
      rfl
  | _ => cases h; rfl

/-- A closed type is written with the variables of its target. -/
theorem TypeNode.term_variables {t : TypeNode} (ht : t.isClosed = true) {term : TypeTerm}
    (h : t.term [] = .ok term) : ∃ n, t.target? = some n ∧ term.variables = n.variables := by
  induction t generalizing term with
  | named n => exact ⟨n, rfl, Named.term_variables h⟩
  | list element ih =>
    rw [TypeNode.term, except_bind_eq_ok] at h
    obtain ⟨term', hterm', h⟩ := h
    cases h
    have helement := ih ht hterm'
    exact helement
  | nonNull inner ih =>
    rw [TypeNode.term, except_bind_eq_ok] at h
    obtain ⟨term', hterm', h⟩ := h
    cases h
    have hinner := ih ht hterm'
    exact hinner
  | placeholder _ => cases ht
  | applied _ _ _ => cases ht

/-- The variable of a closed type's target counts as one that has to be assigned. -/
theorem TypeNode.mem_assigned? {t : TypeNode} (ht : t.isClosed = true) {n : Named}
    (hn : t.target? = some n) (hknown : ∀ name, n ≠ .pending name) {var : String}
    (hvar : var ∈ n.variables) : t.assigned? = some var := by
  induction t with
  | named n' =>
    cases hn
    cases n with
    | pending name => exact absurd rfl (hknown name)
    | scalar s =>
      rw [Named.variables] at hvar
      show (if s.builtin then none else some (safeIdentifier s.name)) = some var
      split at hvar
      · cases hvar
      · rename_i hbuiltin
        rw [List.mem_singleton.1 hvar]
        exact if_neg hbuiltin
    | _ => rw [List.mem_singleton.1 hvar]; rfl
  | list element ih => exact ih ht hn
  | nonNull inner ih => exact ih ht hn
  | placeholder _ => cases ht
  | applied _ _ _ => cases ht

namespace Emission

variable {e : Emission}

theorem mem_fieldEntry_variables {typeName : String} {f : GraphField} {entry : FieldEntry}
    (hclosed : ∀ t ∈ f.types, t.isClosed = true) (h : e.fieldEntry typeName [] f = .ok entry)
    {var : String} (hvar : var ∈ entry.variables) :
    ∃ t ∈ f.types, ∃ n, t.target? = some n ∧ var ∈ n.variables := by
  unfold fieldEntry at h
  split at h
  · cases h
  · cases h
  · rename_i type _ htype
    obtain ⟨term, hterm, h⟩ := except_bind_eq_ok.1 h
    obtain ⟨arguments, harguments, h⟩ := except_bind_eq_ok.1 h
    cases h
    have hmem : type ∈ f.types := List.mem_append_left _ (by rw [htype]; exact List.mem_cons_self)
    rcases List.mem_append.1 hvar with hvar | hvar
    · obtain ⟨n, hn, heq⟩ := TypeNode.term_variables (hclosed type hmem) hterm
      exact ⟨type, hmem, n, hn, heq ▸ hvar⟩
    · obtain ⟨entry, hentry, hvar⟩ := List.mem_flatMap.1 hvar
      obtain ⟨g, hg, hentry⟩ := forall₂_mem_right (mapM_eq_ok.1 harguments) entry hentry
      obtain ⟨term', hterm', hentry⟩ := except_bind_eq_ok.1 hentry
      cases hentry
      have hmem' : g.type ∈ f.types := List.mem_append_right _ (List.mem_map_of_mem hg)
      obtain ⟨n, hn, heq⟩ := TypeNode.term_variables (hclosed g.type hmem') hterm'
      exact ⟨g.type, hmem', n, hn, heq ▸ hvar⟩

/-- The fields of an object type, to be written outside of templates. -/
def Plain (node : Node) : Prop :=
  ∀ t ∈ TypeGraph.references node.fields,
    t.isClosed = true ∧ ∀ n, t.target? = some n → ∀ name, n ≠ .pending name

/-- Objects can be defined one after the other: what an eager one reads is defined before it. -/
theorem run_objectEntries {defined : List String} {nodes : List Node} {entries : List ObjectEntry}
    (hnodes : ∀ node ∈ nodes, Plain node) (h : e.objectEntries defined nodes = .ok entries) :
    Definition.run defined (entries.map ObjectEntry.definition) =
      .ok (defined ++ entries.map (·.var)) := by
  induction nodes generalizing defined entries with
  | nil =>
    cases h
    rw [List.map_nil, List.map_nil, List.append_nil, Definition.run]
  | cons node rest ih =>
    rw [objectEntries] at h
    obtain ⟨fields, hfields, h⟩ := except_bind_eq_ok.1 h
    obtain ⟨others, hothers, h⟩ := except_bind_eq_ok.1 h
    cases h
    rw [List.map_cons, List.map_cons]
    refine Definition.run_cons_eq_ok.2 ⟨fun var hvar => ?_, ?_⟩
    · rw [ObjectEntry.definition] at hvar
      split at hvar
      · cases hvar
      · rename_i heager
        have hassigned : ∀ x ∈ (TypeGraph.references node.fields).filterMap TypeNode.assigned?,
            x ∈ defined := by
          simp only [isLazy, Bool.or_eq_true, Bool.not_eq_true', not_or, Bool.not_eq_false,
            List.all_eq_true, List.contains_iff_mem] at heager
          exact heager.1
        obtain ⟨entry, hentry, hvar⟩ := List.mem_flatMap.1 hvar
        obtain ⟨f, hf, hentry⟩ := forall₂_mem_right (mapM_eq_ok.1 hfields) entry hentry
        have hplain : ∀ t ∈ f.types, t.isClosed = true ∧
            ∀ n, t.target? = some n → ∀ name, n ≠ .pending name := fun t ht =>
          hnodes node List.mem_cons_self t (List.mem_flatMap.2 ⟨f, hf, ht⟩)
        obtain ⟨t, ht, n, hn, hvar⟩ :=
          mem_fieldEntry_variables (fun t ht => (hplain t ht).1) hentry hvar
        exact hassigned var (List.mem_filterMap.2 ⟨t, List.mem_flatMap.2 ⟨f, hf, ht⟩,
          TypeNode.mem_assigned? (hplain t ht).1 hn ((hplain t ht).2 n hn) hvar⟩)
    · have hrest := ih (fun x hx => hnodes x (List.mem_cons_of_mem _ hx)) hothers
      rw [List.append_assoc, List.singleton_append] at hrest
      exact hrest

theorem instances_definitions {entries : List InstanceEntry} (h : e.instances = .ok entries) :
    entries.map InstanceEntry.definition = e.instantiations.map fun i =>
      ⟨safeIdentifier i.key.name, safeIdentifier i.key.generic :: i.argument.variables⟩ := by
  refine forall₂_map_eq ((mapM_eq_ok.1 h).imp fun i entry hentry => ?_)
  obtain ⟨argument, hargument, hentry⟩ := except_bind_eq_ok.1 hentry
  cases hentry
  simp only [InstanceEntry.definition, List.flatMap_cons, List.flatMap_nil, List.append_nil,
    Named.term_variables hargument]

end Emission

namespace Analysis

/-- Every instantiation that is applied to another one was finished after it. -/
def ArgumentsFirst (a : Analysis) : Prop :=
  ∀ earlier i later, a.instantiations = earlier ++ i :: later →
    ∀ key, i.argument = .instantiation key → ∃ j ∈ earlier, j.key = key

/-- Every instantiation that is applied to another one follows an entity with the variable of that
one. -/
def ArgumentsAssigned (a : Analysis) (m : SchemaModule) : Prop :=
  ∀ earlier i later, a.instantiations = earlier ++ i :: later →
    ∀ key, i.argument = .instantiation key → safeIdentifier key.name ∈
      m.varsBeforeInstances ++ earlier.map fun j => safeIdentifier j.key.name

theorem ArgumentsFirst.assigned {a : Analysis} (h : a.ArgumentsFirst) (m : SchemaModule) :
    a.ArgumentsAssigned m := by
  intro earlier i later hsplit key hkey
  obtain ⟨j, hj, rfl⟩ := h earlier i later hsplit key hkey
  exact List.mem_append_right _ (List.mem_map_of_mem hj)

end Analysis

namespace SourceModel

variable {model : SourceModel} {a : Analysis} {m : SchemaModule} {style : ModuleStyle}

theorem ne_pending_of_holds (h : model.analyze = .ok a) {n : Named} (hn : a.resolution.Holds n)
    (name : String) : n ≠ .pending name := by
  rintro rfl
  obtain ⟨node, hnode, href⟩ := (complete_of_analyze h).holds_iff.1 hn
  have hfilled := (complete_of_analyze h).filled node hnode
  cases node with
  | pending _ _ => cases hfilled
  | _ => cases href

theorem plain_of_mem (h : model.analyze = .ok a) {node : Node} (hnode : node ∈ a.graph.nodes) :
    Emission.Plain node := fun t ht => by
  obtain ⟨hclosed, hheld⟩ := (complete_of_analyze h).node_references hnode t ht
  exact ⟨hclosed, fun n hn => ne_pending_of_holds h (hheld n hn)⟩

theorem mem_nodes_of_objectNodes {node : Node} (hnode : node ∈ a.emission.objectNodes) :
    node ∈ a.graph.nodes := by
  obtain ⟨t, -, ht⟩ := List.mem_filterMap.1 hnode
  split at ht
  · rename_i hget
    cases ht
    exact TypeGraph.get?_mem hget
  · rename_i hget
    split at ht
    · cases ht
    · cases ht
      exact TypeGraph.get?_mem hget
  · cases ht

/-- The definitions of a module run up to the instantiations. -/
theorem run_before_instances (h : model.analyze = .ok a) (hm : a.emission.Sections style m) :
    Definition.run [] (m.closedDefinitions ++ m.objects.map ObjectEntry.definition) =
      .ok m.varsBeforeInstances := by
  have hclosed : Definition.run [] m.closedDefinitions = .ok m.varsBeforeObjects := by
    rw [Definition.run_of_reads_nil]
    · simp [SchemaModule.closedDefinitions, SchemaModule.varsBeforeObjects, Function.comp_def]
    · intro d hd
      simp only [SchemaModule.closedDefinitions, List.mem_append, List.mem_map] at hd
      rcases hd with (⟨s, -, rfl⟩ | ⟨e, -, rfl⟩) | ⟨f, -, rfl⟩ <;> rfl
  rw [Definition.run_append hclosed]
  exact Emission.run_objectEntries
    (fun node hnode => plain_of_mem h (mem_nodes_of_objectNodes hnode)) hm.objects

/-- A type that is no instantiation is declared under its name and as a type of its kind, unless it
is a builtin scalar. -/
theorem declared_of_holds (h : model.analyze = .ok a) {n : Named} (hn : a.resolution.Holds n)
    {place : TypeSection} (hplace : n.definedIn = some place) (hother : place ≠ .instances) :
    ∃ d ∈ a.model.declarations, d.name = n.name ∧ d.definedIn = some place := by
  have hcomplete := complete_of_analyze h
  obtain ⟨node, hnode, rfl⟩ := hcomplete.holds_iff.1 hn
  have hsound := hcomplete.sound.nodes node hnode
  cases node with
  | object t =>
    obtain ⟨decl, hdecl, hname, -⟩ := hsound
    exact ⟨_, hdecl, hname, hplace⟩
  | enum t =>
    obtain ⟨decl, hdecl, hname, -⟩ := hsound
    exact ⟨_, hdecl, hname, hplace⟩
  | scalar s =>
    have hmem : s ∈ a.registry.scalars := hsound
    rw [(ScalarRegistry.ofModel_eq_ok (analyze_eq_ok.1 h).2.1).2, List.mem_append] at hmem
    rcases hmem with hmem | hmem
    · have hbuiltin := (by decide : ∀ b ∈ builtinScalars, b.builtin = true) s hmem
      rw [Node.ref, Named.definedIn, if_pos hbuiltin] at hplace
      cases hplace
    · obtain ⟨decl, hdecl, rfl⟩ := List.mem_map.1 hmem
      obtain ⟨d, hd, hscalar⟩ := List.mem_filterMap.1 hdecl
      cases d with
      | scalar d =>
        cases hscalar
        exact ⟨.scalar _, (analyze_eq_ok.1 h).1 ▸ hd, rfl, hplace⟩
      | _ => cases hscalar
  | pending _ _ => cases hplace
  | instantiation i =>
    cases hplace
    exact absurd rfl hother

/-- A type stands in the section that defines it. -/
theorem mem_typesIn_of_holds (h : model.analyze = .ok a) {n : Named} (hn : a.resolution.Holds n)
    {place : TypeSection} (hplace : n.definedIn = some place) : n ∈ a.typesIn place := by
  by_cases hinstance : place = .instances
  · subst hinstance
    obtain ⟨node, hnode, rfl⟩ := (complete_of_analyze h).holds_iff.1 hn
    cases node with
    | instantiation i =>
      exact List.mem_map.2 ⟨i, (mem_instantiations h).2 hnode, rfl⟩
    | scalar s =>
      rw [Node.ref, Named.definedIn] at hplace
      split at hplace <;> cases hplace
    | _ => cases hplace
  · obtain ⟨d, hd, hname, -⟩ := declared_of_holds h hn hplace hinstance
    have hordered := mem_ordered h hn ⟨d, hd, hname⟩
    cases place with
    | instances => exact absurd rfl hinstance
    | _ => exact List.mem_filter.2 ⟨hordered, decide_eq_true hplace⟩

theorem mem_definedTypes_of_holds (h : model.analyze = .ok a) {n : Named}
    (hn : a.resolution.Holds n) {place : TypeSection} (hplace : n.definedIn = some place) :
    n ∈ a.definedTypes :=
  List.mem_flatMap.2 ⟨place, by cases place <;> decide, mem_typesIn_of_holds h hn hplace⟩

/-- A type is written as the variable of its name, unless it is a builtin scalar. -/
theorem variables_eq {n : Named} {var : String} (hvar : var ∈ n.variables)
    (hknown : ∀ name, n ≠ .pending name) :
    var = safeIdentifier n.name ∧ ∃ place, n.definedIn = some place := by
  cases n with
  | pending name => exact absurd rfl (hknown name)
  | scalar s =>
    rw [Named.variables] at hvar
    split at hvar
    · cases hvar
    · rename_i hbuiltin
      exact ⟨List.mem_singleton.1 hvar, .scalars, if_neg hbuiltin⟩
  | _ => exact ⟨List.mem_singleton.1 hvar, _, rfl⟩

/-- A type that is no instantiation has been assigned before the instantiations. -/
theorem variables_bound (h : model.analyze = .ok a) (hm : a.emission.Sections style m) {n : Named}
    (hn : a.resolution.Holds n) (hother : ∀ key, n ≠ .instantiation key) {var : String}
    (hvar : var ∈ n.variables) : var ∈ m.varsBeforeInstances := by
  obtain ⟨rfl, place, hplace⟩ := variables_eq hvar (ne_pending_of_holds h hn)
  have hne : place ≠ .instances := by
    rintro rfl
    cases n with
    | instantiation key => exact hother key rfl
    | scalar s =>
      rw [Named.definedIn] at hplace
      split at hplace <;> cases hplace
    | _ => cases hplace
  have hreached : n.name ∈ (a.typesIn place).map Named.name :=
    List.mem_map_of_mem (mem_typesIn_of_holds h hn hplace)
  rw [hm.varsBeforeInstances, Emission.namesBeforeInstances, scalars_names, enums_names h,
    objects_names h]
  refine List.mem_map_of_mem ?_
  cases place with
  | scalars => simp only [List.mem_append, hreached, true_or]
  | enums => simp only [List.mem_append, hreached, true_or, or_true]
  | objects => simp only [List.mem_append, hreached, or_true]
  | instances => exact absurd rfl hne

/-- The factory of an instantiation has been assigned before all instantiations. -/
theorem factory_bound (h : model.analyze = .ok a) (hm : a.emission.Sections style m)
    {i : Instantiation} (hi : i ∈ a.instantiations) :
    safeIdentifier i.key.generic ∈ m.varsBeforeInstances := by
  obtain ⟨template, htemplate, -, -, hkey, -⟩ :=
    instantiation_fill h ((mem_instantiations h).1 hi)
  have hname : i.key.generic ∈ a.emission.graph.templates.map (·.name) := by
    rw [hkey]
    exact List.mem_map_of_mem htemplate
  rw [hm.varsBeforeInstances, Emission.namesBeforeInstances]
  refine List.mem_map_of_mem ?_
  simp only [List.mem_append, hname, true_or, or_true]

theorem argument_held (h : model.analyze = .ok a) {i : Instantiation} (hi : i ∈ a.instantiations) :
    a.resolution.Holds i.argument := by
  have hcomplete := complete_of_analyze h
  have hsound := hcomplete.sound.nodes _ ((mem_instantiations h).1 hi)
  obtain ⟨decl, hentry⟩ := hcomplete.sound.memo i hsound.1
  exact hentry.argument

theorem load_ok_iff (h : model.analyze = .ok a) (hm : a.emission.Sections style m) :
    (∃ vars, m.load = .ok vars) ↔ a.ArgumentsAssigned m := by
  rw [SchemaModule.load, SchemaModule.definitions,
    Definition.run_append (run_before_instances h hm), Definition.run_ok_iff,
    Emission.instances_definitions hm.instances]
  constructor
  · intro hall earlier i later hsplit key hkey
    have hread := hall (earlier.map _) _ (later.map _)
      (by rw [show a.emission.instantiations = _ from hsplit, List.map_append, List.map_cons])
      (safeIdentifier key.name) (by simp [hkey, Named.variables, Named.name])
    rwa [List.map_map] at hread
  · intro hall before d after hsplit name hname
    obtain ⟨earlier, rest, hinstantiations, rfl, hrest⟩ := List.map_eq_append_iff.1 hsplit
    obtain ⟨i, later, rfl, rfl, rfl⟩ := List.map_eq_cons_iff.1 hrest
    have hi : i ∈ a.instantiations := by
      rw [show a.instantiations = _ from hinstantiations]
      exact List.mem_append_right _ List.mem_cons_self
    rw [List.map_map]
    rcases List.mem_cons.1 hname with rfl | hname
    · exact List.mem_append_left _ (factory_bound h hm hi)
    · by_cases hkey : ∃ key, i.argument = .instantiation key
      · obtain ⟨key, hkey⟩ := hkey
        rw [hkey] at hname
        rw [List.mem_singleton.1 hname]
        exact hall earlier i later hinstantiations key hkey
      · exact List.mem_append_left _ (variables_bound h hm (argument_held h hi)
          (fun key heq => hkey ⟨key, heq⟩) hname)

/-- Where no variable is shared, only the instantiation itself is assigned to its variable. -/
theorem argumentsFirst_of_assigned (h : model.analyze = .ok a) (hm : a.emission.Sections style m)
    (hdistinct : m.assignedNames.Nodup) (hassigned : a.ArgumentsAssigned m) : a.ArgumentsFirst := by
  intro earlier i later hsplit key hkey
  have hi : i ∈ a.instantiations := by
    rw [hsplit]
    exact List.mem_append_right _ List.mem_cons_self
  have hheld := argument_held h hi
  rw [hkey] at hheld
  obtain ⟨node, hnode, href⟩ := (complete_of_analyze h).holds_iff.1 hheld
  cases node with
  | instantiation j =>
    obtain rfl : j.key = key := Named.instantiation.inj href
    have hj : j ∈ a.instantiations := (mem_instantiations h).2 hnode
    have hvars : m.assignedNames = m.varsBeforeInstances ++
        a.instantiations.map fun j => safeIdentifier j.key.name := by
      rw [SchemaModule.assignedNames, Emission.instances_var hm.instances]
      rfl
    rw [hvars, List.nodup_append] at hdistinct
    obtain ⟨-, hinstances, hapart⟩ := hdistinct
    rcases List.mem_append.1 (hassigned earlier i later hsplit j.key hkey) with hbefore | hearlier
    · exact absurd rfl (hapart _ hbefore _ (List.mem_map_of_mem hj))
    · obtain ⟨j', hj', hvar⟩ := List.mem_map.1 hearlier
      have hmem : j' ∈ a.instantiations := by
        rw [hsplit]
        exact List.mem_append_left _ hj'
      exact ⟨j', hj', by rw [List.inj_on_of_nodup_map hinstances hmem hj hvar]⟩
  | _ => cases href

theorem argumentsFirst_of_orderly (h : model.analyze = .ok a) (ho : a.resolution.Orderly) :
    a.ArgumentsFirst := by
  intro earlier i later hsplit key hkey
  have hi : i ∈ a.instantiations := by
    rw [hsplit]
    exact List.mem_append_right _ List.mem_cons_self
  have hfinished : a.resolution.finished =
      earlier.map (·.key) ++ i.key :: later.map (·.key) := by
    rw [← instantiations_keys h, hsplit, List.map_append, List.map_cons]
  have hmemo := (complete_of_analyze h).sound.nodes _ ((mem_instantiations h).1 hi)
  exact List.mem_map.1 (ho _ _ _ hfinished i hmemo.1 rfl key hkey)

end SourceModel

/-- A module can be imported exactly if every instantiation that is applied to another one stands
after it, or after something else that has its variable. No other name is ever read before it is
assigned. Modules can be imported if no body leads to an application of its own instantiation. -/
theorem UnitSource.load_iff {source : UnitSource} {config : Config} {hooks : Hooks}
    {schema : EmittedSchema} (h : source.compile config hooks = .ok schema) :
    ∃ a m, source.Emits config hooks a m schema ∧
      ((∃ vars, m.load = .ok vars) ↔ a.ArgumentsAssigned m) ∧
      (m.assignedNames.Nodup → (a.ArgumentsAssigned m ↔ a.ArgumentsFirst)) ∧
      (¬a.scope.SelfApplied → ∃ vars, m.load = .ok vars) := by
  obtain ⟨a, m, hemits⟩ := compile_eq_ok.1 h
  obtain ⟨model, -, ha⟩ := hemits.analyzed
  obtain ⟨style, -, hsections⟩ := hemits.written
  have hload := SourceModel.load_ok_iff ha hsections
  refine ⟨a, m, hemits, hload, fun hdistinct => ⟨?_, fun hfirst => hfirst.assigned m⟩,
    fun hself => hload.2 ?_⟩
  · exact SourceModel.argumentsFirst_of_assigned ha hsections hdistinct
  · have horderly := Scope.orderly_of_resolve hself (SourceModel.analyze_eq_ok.1 ha).2.2.1
    exact (SourceModel.argumentsFirst_of_orderly ha horderly).assigned m

/-- The module of `treeUnit`, in which `StringTreeBox` stands before the `StringTree` that it is
applied to. -/
def treeModule : SchemaModule where
  header := ""
  docstring := "Generated GraphQL schema. Do not edit."
  runtimeModule := "gql_schemagen.runtime"
  libraryImports := ["GraphQLField", "GraphQLNonNull", "GraphQLObjectType", "GraphQLString"]
  runtimeImports := ["generic_factory", "read_property"]
  scalars := []
  enums := []
  factories := [
    { var := "Box", name := "Box", parameters := ["t_type"], description := none
      fields := [{
        name := "value", type := .nonNull (.parameter "t_type"), arguments := []
        resolver := {
          typeName := "Box"
          descriptor := { owner := "Box", name := "value", type := some (.param "T") } }
        description := none, deprecationReason := none }] },
    { var := "Tree", name := "Tree", parameters := ["t_type"], description := none
      fields := [{
        name := "boxes", arguments := []
        type := .nonNull (.call "Box" (.call "Tree" (.parameter "t_type")))
        resolver := {
          typeName := "Tree"
          descriptor := {
            owner := "Tree", name := "boxes"
            type := some (.apply "Box" [.apply "Tree" [.param "T"]]) } }
        description := none, deprecationReason := none }] }]
  objects := [
    { var := "Forest", name := "Forest", description := none, isLazy := true
      fields := [{
        name := "tree", type := .nonNull (.var "StringTree"), arguments := []
        resolver := {
          typeName := "Forest"
          descriptor := {
            owner := "Forest", name := "tree", type := some (.apply "Tree" [.ref "string"]) } }
        description := none, deprecationReason := none }] }]
  instances := [⟨"StringTreeBox", "Box", [.var "StringTree"]⟩,
    ⟨"StringTree", "Tree", [.library "GraphQLString"]⟩]
  schema := none

theorem treeModule_load : treeModule.load = .error "StringTree" := by
  decide

theorem treeUnit_emits :
    ∃ a schema, (UnitSource.loaded treeUnit).Emits {} {} a treeModule schema := by
  refine HostUnit.emits_of_parts
    ["GraphQLObjectType", "GraphQLField", "GraphQLNonNull", "GraphQLString"]
    ["generic_factory", "read_property"] ?_ rfl ?_ ?_ rfl ?_
  · cbv
  · simp [List.mergeSort, List.MergeSort.Internal.splitInTwo, treeModule]
  · simp [List.mergeSort, List.MergeSort.Internal.splitInTwo, treeModule]
  · decide +kernel

/-- Not all modules can be imported. -/
theorem load_may_fail :
    ¬∀ (source : UnitSource) (config : Config) (hooks : Hooks) (schema : EmittedSchema)
      (a : Analysis) (m : SchemaModule), source.compile config hooks = .ok schema →
        source.Emits config hooks a m schema → ∃ vars, m.load = .ok vars := by
  intro hall
  obtain ⟨a, schema, hemits⟩ := treeUnit_emits
  obtain ⟨vars, hvars⟩ :=
    hall _ _ _ _ _ _ (UnitSource.compile_eq_ok.2 ⟨a, treeModule, hemits⟩) hemits
  rw [treeModule_load] at hvars
  cases hvars

theorem treeUnit_load : ∃ schema a m,
    (UnitSource.loaded treeUnit).compile {} {} = .ok schema ∧
      (UnitSource.loaded treeUnit).Emits {} {} a m schema ∧ m.load = .error "StringTree" ∧
      m.assignedNames.Nodup ∧ ¬a.ArgumentsFirst ∧ a.scope.SelfApplied := by
  obtain ⟨a₀, schema, hemits₀⟩ := treeUnit_emits
  have hcompiles := UnitSource.compile_eq_ok.2 ⟨a₀, treeModule, hemits₀⟩
  obtain ⟨a, m, hemits, hload, hfirst, hself⟩ := UnitSource.load_iff hcompiles
  obtain ⟨rfl, rfl⟩ := hemits.unique hemits₀
  have hdistinct : treeModule.assignedNames.Nodup := by
    decide
  have hfails : ¬∃ vars, treeModule.load = .ok vars := by
    rintro ⟨vars, hvars⟩
    rw [treeModule_load] at hvars
    cases hvars
  refine ⟨schema, a, treeModule, hcompiles, hemits, treeModule_load, hdistinct, fun hall => ?_, ?_⟩
  · exact hfails (hload.2 ((hfirst hdistinct).2 hall))
  · by_contra hnone
    exact hfails (hself hnone)

end SchemaCompiler
