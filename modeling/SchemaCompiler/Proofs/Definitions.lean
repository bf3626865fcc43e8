import SchemaCompiler.Proofs.Assigned
import SchemaCompiler.Proofs.WellFormed

/-! What a module defines. Every declaration and every instantiation is defined once, in the section
of its kind and in the order of that section, and nothing else is. The types listed in the schema
are all of these but the factories, as long as no type has the variable of a factory. -/

namespace SchemaCompiler

def Declaration.generic? : Declaration → Option GenericDecl
  | .generic d => some d
  | _ => none

namespace Scope

variable {scope : Scope} {s s' : Resolution} {depth : Nat}

/-- A generic adds its template behind the others, and no other declaration adds one. -/
theorem declare_templates {d : Declaration} (hs : scope.Sound s)
    (hd : d ∈ scope.model.declarations) (h : scope.declare depth d s = (.ok (), s')) :
    s'.graph.templates.map (·.name) =
      s.graph.templates.map (·.name) ++ d.generic?.toList.map (·.name) := by
  cases d with
  | object decl =>
    obtain ⟨r, g, fields, s₂, hshell, hunfilled, hrun, rfl⟩ := declareObject_eq_ok.1 h
    obtain ⟨hs₀, hgrows₀, -⟩ := enter_ok (t := .object decl.name) hs ⟨decl, hd, rfl⟩ hshell
    obtain ⟨-, hgrows, -, -⟩ :=
      resolveFields_ok (sound_describeObject hs₀ hunfilled) (fun _ _ h => by cases h) hrun
    exact ((congrArg _ hgrows.templates).trans (congrArg _ hgrows₀.templates)).trans
      (List.append_nil _).symm
  | enum decl =>
    obtain ⟨r, g, hshell, rfl⟩ := declareEnum_eq_ok.1 h
    obtain ⟨-, hgrows₀, -⟩ := enter_ok (t := .enum decl.name) hs ⟨decl, hd, rfl⟩ hshell
    exact (congrArg _ hgrows₀.templates).trans (List.append_nil _).symm
  | scalar decl =>
    obtain ⟨sc, r, g, hsc, hadopt, rfl⟩ := declareScalar_eq_ok.1 h
    obtain ⟨-, hgrows₀, -⟩ :=
      enter_ok (t := .scalar sc) hs (ScalarRegistry.byName?_mem hsc) hadopt
    exact (congrArg _ hgrows₀.templates).trans (List.append_nil _).symm
  | generic decl =>
    obtain ⟨fields, s₁, hrun, -, -, rfl⟩ := declareGeneric_eq_ok.1 h
    obtain ⟨-, hgrows, -, -⟩ := resolveFields_ok hs (envKnown_placeholder _ _) hrun
    rw [addTemplate, List.map_append, hgrows.templates]
    rfl

theorem declareAll_templates {ds : List Declaration} (hs : scope.Sound s)
    (hds : ∀ d ∈ ds, d ∈ scope.model.declarations)
    (h : scope.declareAllWithin depth ds s = (.ok (), s')) :
    s'.graph.templates.map (·.name) =
      s.graph.templates.map (·.name) ++ (ds.filterMap Declaration.generic?).map (·.name) := by
  induction ds generalizing s with
  | nil =>
    cases h
    exact (List.append_nil _).symm
  | cons first rest ih =>
    obtain ⟨mid, hfirst, hrest⟩ := declareAll_cons_eq_ok.1 h
    have hfirstMem := hds first List.mem_cons_self
    rw [ih (declare_declares hs hfirstMem hfirst).sound
      (fun d hd => hds d (List.mem_cons_of_mem _ hd)) hrest, declare_templates hs hfirstMem hfirst,
      List.append_assoc, ← List.map_append]
    rcases hgeneric : first.generic? with _ | decl <;> simp [hgeneric]

end Scope

namespace Analysis

def typeNames (a : Analysis) : List String :=
  (a.typesIn .scalars).map Named.name ++ (a.typesIn .enums).map Named.name ++
    (a.typesIn .objects).map Named.name ++ a.resolution.finished.map InstanceKey.name

/-- The names of the types and generics that a module defines, section by section. -/
def definedNames (a : Analysis) : List String :=
  (a.typesIn .scalars).map Named.name ++ (a.typesIn .enums).map Named.name ++
    a.model.generics.map (·.name) ++ (a.typesIn .objects).map Named.name ++
    a.resolution.finished.map InstanceKey.name

/-- A module defines what is declared and what was instantiated. Scalars, enums and objects stand in
the order of a depth-first walk from the declarations, factories in that of their declarations, and
instantiations in that in which they were finished. -/
structure DefinedBy (a : Analysis) (m : SchemaModule) : Prop where
  walked : a.graph.DepthFirst (a.model.declarations.flatMap fun d => a.graph.start d.name)
    a.emission.ordered
  scalars : m.scalars.map (·.name) = (a.typesIn .scalars).map Named.name
  enums : m.enums.map (·.name) = (a.typesIn .enums).map Named.name
  factories : m.factories.map (·.name) = a.model.generics.map (·.name)
  objects : m.objects.map (·.name) = (a.typesIn .objects).map Named.name
  instances : m.instances.map (fun i => (i.var, i.factory)) = a.resolution.finished.map fun key =>
    (safeIdentifier key.name, safeIdentifier key.generic)
  declared : ∀ place, place ≠ .instances → ∀ name, name ∈ (a.typesIn place).map Named.name ↔
    ∃ d ∈ a.model.declarations, d.definedIn = some place ∧ d.name = name
  begun : ∀ key, key ∈ a.resolution.finished ↔ key ∈ a.resolution.memo.map (·.key)
  once : a.definedNames.Nodup
  assigned : m.assignedNames = a.definedNames.map safeIdentifier

/-- No type and generic have names of which one is reserved and the other is the same name with an
underscore. -/
def ApartFromFactories (a : Analysis) : Prop :=
  ∀ r ∈ reservedNames, ∀ generic ∈ a.model.generics,
    ¬(generic.name = r ∧ r ++ "_" ∈ a.typeNames) ∧ ¬(generic.name = r ++ "_" ∧ r ∈ a.typeNames)

end Analysis

def SchemaModule.typeVars (m : SchemaModule) : List String :=
  m.scalars.map (·.var) ++ m.enums.map (·.var) ++ m.objects.map (·.var) ++ m.instances.map (·.var)

/-- What a module assigns are the factories and the types. -/
theorem SchemaModule.assignedNames_perm (m : SchemaModule) :
    m.assignedNames.Perm (m.factories.map (·.var) ++ m.typeVars) := by
  rw [assignedNames, typeVars]
  simp only [← List.append_assoc]
  refine List.Perm.append_right _ (List.Perm.append_right _ ?_)
  rw [List.append_assoc (m.factories.map _)]
  exact List.perm_append_comm

namespace SourceModel

variable {model : SourceModel} {a : Analysis} {m : SchemaModule} {style : ModuleStyle}

theorem generics_templates (h : model.analyze = .ok a) :
    a.graph.templates.map (·.name) = a.model.generics.map (·.name) := by
  obtain ⟨hrun, -⟩ := Scope.resolveWithin_eq_ok.1 (analyze_eq_ok.1 h).2.2.1
  exact Scope.declareAll_templates (Scope.sound_empty _) (fun _ hd => hd) hrun

/-- What is declared as a type stands in the graph as such. -/
theorem holds_of_declared (h : model.analyze = .ok a) {d : Declaration}
    (hd : d ∈ a.model.declarations) {place : TypeSection} (hplace : d.definedIn = some place) :
    ∃ n, a.resolution.Holds n ∧ n.definedIn = some place ∧ n.name = d.name := by
  have hentered := (complete_of_analyze h).entered d hd
  cases d with
  | object decl =>
    obtain ⟨t, ht, hname, -⟩ := hentered
    exact ⟨.object decl.name, Resolution.holds_object.2 ⟨t, ht, hname⟩, hplace, rfl⟩
  | enum decl =>
    obtain ⟨t, ht, hname, -⟩ := hentered
    exact ⟨.enum decl.name, Resolution.holds_enum.2 ⟨t, ht, hname⟩, hplace, rfl⟩
  | scalar decl =>
    obtain ⟨sc, hsc, hheld⟩ := hentered
    obtain ⟨hunambiguous, hscalars⟩ := ScalarRegistry.ofModel_eq_ok (analyze_eq_ok.1 h).2.1
    have hregistered : decl.scalar ∈ a.registry.scalars := by
      rw [hscalars, ← (analyze_eq_ok.1 h).1]
      exact List.mem_append_right _ (List.mem_map_of_mem (List.mem_filterMap.2 ⟨_, hd, rfl⟩))
    obtain rfl : decl.scalar = sc :=
      Option.some.inj ((hunambiguous.byName?_of_mem hregistered).symm.trans hsc)
    exact ⟨_, hheld, hplace, rfl⟩
  | generic decl => cases hplace

/-- A section holds what is declared for it. -/
theorem mem_typesIn (h : model.analyze = .ok a) {place : TypeSection} (hother : place ≠ .instances)
    (name : String) : name ∈ (a.typesIn place).map Named.name ↔
      ∃ d ∈ a.model.declarations, d.definedIn = some place ∧ d.name = name := by
  have htypes : a.typesIn place = a.emission.ordered.filter (·.definedIn = some place) := by
    cases place with
    | instances => exact absurd rfl hother
    | _ => rfl
  rw [htypes, List.mem_map]
  constructor
  · rintro ⟨n, hn, rfl⟩
    obtain ⟨hordered, hplace⟩ := List.mem_filter.1 hn
    obtain ⟨d, hd, hname, hdplace⟩ :=
      declared_of_holds h (holds_of_ordered h hordered) (of_decide_eq_true hplace) hother
    exact ⟨d, hd, hdplace, hname⟩
  · rintro ⟨d, hd, hplace, rfl⟩
    obtain ⟨n, hn, hnplace, hname⟩ := holds_of_declared h hd hplace
    have hordered := mem_ordered h hn ⟨d, hd, hname.symm⟩
    exact ⟨n, List.mem_filter.2 ⟨hordered, decide_eq_true hnplace⟩, hname⟩

theorem entityNames_eq (h : model.analyze = .ok a) : a.emission.entityNames = a.definedNames := by
  rw [Emission.entityNames, Emission.namesBeforeInstances, scalars_names, enums_names h,
    objects_names h, Analysis.definedNames, ← generics_templates h, ← instantiations_keys h,
    List.map_map]
  rfl

theorem definedBy (h : model.analyze = .ok a) (hm : a.emission.Sections style m) :
    a.DefinedBy m where
  walked := by
    have hroots : a.emission.roots = a.model.declarations.map (·.name) := rfl
    rw [Emission.ordered, TypeGraph.reach, hroots, List.flatMap_map]
    exact TypeGraph.depthFirst_walk _ _
  scalars := by rw [hm.scalars, scalars_names]
  enums := by rw [hm.enums, enums_names h]
  factories := by
    rw [← generics_templates h]
    exact forall₂_map_eq ((Emission.writesFactories hm.factories).imp fun _ _ hf => hf.name)
  objects := by
    rw [← objects_names h]
    exact forall₂_map_eq ((Emission.writesObjects hm.objects).imp fun _ _ ho => ho.name)
  instances := by
    rw [← instantiations_keys h, List.map_map]
    exact forall₂_map_eq ((Emission.writesInstances hm.instances).imp fun _ _ hi => by
      rw [hi.var, hi.factory]
      rfl)
  declared _ hother := mem_typesIn h hother
  begun key := by
    have hcomplete := complete_of_analyze h
    constructor
    · intro hkey
      obtain ⟨i, hi, rfl⟩ := (hcomplete.sound.done key).1 hkey
      exact List.mem_map_of_mem (hcomplete.sound.nodes _ hi).1
    · intro hkey
      by_contra hunfinished
      exact hcomplete.closed key ⟨hkey, hunfinished⟩
  once := entityNames_eq h ▸ entityNames_nodup h
  assigned := entityNames_eq h ▸ hm.assignedNames

theorem typeNames_eq (h : model.analyze = .ok a) :
    a.typeNames = a.definedTypes.map Named.name := by
  have hinstances : a.resolution.finished.map InstanceKey.name =
      (a.typesIn .instances).map Named.name := by
    rw [← instantiations_keys h, Analysis.typesIn, List.map_map, List.map_map]
    rfl
  rw [Analysis.typeNames, hinstances, Analysis.definedTypes]
  simp only [List.flatMap_cons, List.flatMap_nil, List.append_nil, List.map_append, List.append_assoc]

theorem typeVars_eq (h : model.analyze = .ok a) (hm : a.emission.Sections style m) :
    m.typeVars = a.typeNames.map safeIdentifier := by
  rw [SchemaModule.typeVars, hm.scalars, hm.enums, Emission.scalars_var, Emission.enums_var,
    Emission.objectEntries_var hm.objects, Emission.instances_var hm.instances, scalars_names,
    enums_names h, Analysis.typeNames, ← objects_names h, ← instantiations_keys h]
  simp only [List.map_append, List.map_map, Function.comp_def]
  rfl

theorem generic_not_mem_typeNames (h : model.analyze = .ok a) {generic : GenericDecl}
    (hgeneric : generic ∈ a.model.generics) : generic.name ∉ a.typeNames := by
  have honce := entityNames_eq h ▸ entityNames_nodup h
  have hperm : a.definedNames.Perm (a.model.generics.map (·.name) ++ a.typeNames) := by
    rw [Analysis.definedNames, Analysis.typeNames]
    simp only [← List.append_assoc]
    refine List.Perm.append_right _ (List.Perm.append_right _ ?_)
    rw [List.append_assoc (a.model.generics.map _)]
    exact List.perm_append_comm
  exact List.disjoint_of_nodup_append (hperm.nodup_iff.1 honce) (List.mem_map_of_mem hgeneric)

/-- A type and a generic have one variable only if the underscore of a reserved name comes in
between. -/
theorem apartFromFactories_iff (h : model.analyze = .ok a) : a.ApartFromFactories ↔
    ∀ name ∈ a.typeNames, ∀ generic ∈ a.model.generics,
      safeIdentifier generic.name ≠ safeIdentifier name := by
  constructor
  · intro hapart name hname generic hgeneric heq
    rcases safeIdentifier_eq_iff.1 heq with hsame | ⟨hr, hsame⟩ | ⟨hr, hsame⟩
    · exact generic_not_mem_typeNames h hgeneric (hsame ▸ hname)
    · exact (hapart _ hr generic hgeneric).1 ⟨rfl, hsame ▸ hname⟩
    · exact (hapart name hr generic hgeneric).2 ⟨hsame, hname⟩
  · intro hall r hr generic hgeneric
    have htaken : safeIdentifier r = safeIdentifier (r ++ "_") :=
      safeIdentifier_eq_iff.2 (.inr (.inl ⟨hr, rfl⟩))
    refine ⟨fun ⟨hname, hmem⟩ => ?_, fun ⟨hname, hmem⟩ => ?_⟩
    · exact hall _ hmem generic hgeneric (by rw [hname, htaken])
    · exact hall _ hmem generic hgeneric (by rw [hname, htaken])

/-- The types listed in a schema are all types of the module, unless one has the variable of a
factory. -/
theorem schema_types_iff (h : model.analyze = .ok a) (hm : a.emission.Sections style m)
    {s : SchemaEntry} (hs : m.schema = some s) :
    s.types = m.typeVars ↔ a.ApartFromFactories := by
  have hfactories : m.factories.map (·.var) =
      (a.model.generics.map (·.name)).map safeIdentifier := by
    rw [Emission.factories_var hm.factories, ← generics_templates h, List.map_map]
    rfl
  have htypes : s.types = m.typeVars.filter fun v => !(m.factories.map (·.var)).contains v := by
    have hnone : (m.factories.map (·.var)).filter
        (fun v => !(m.factories.map (·.var)).contains v) = [] :=
      List.filter_eq_nil_iff.2 fun v hv => by simpa using hv
    rw [(Emission.schemaEntry_parts (hm.schemaEntry_of_some hs)).2, SchemaModule.assignedNames,
      SchemaModule.typeVars]
    simp only [List.filter_append, hnone, List.append_nil]
  rw [htypes, List.filter_eq_self, apartFromFactories_iff h, typeVars_eq h hm, hfactories]
  simp only [Bool.not_eq_true', List.contains_eq_mem, decide_eq_false_iff_not,
    List.mem_map, not_exists, not_and, forall_exists_index, and_imp, forall_apply_eq_imp_iff₂]

end SourceModel

/-- The module of a unit defines its declarations, as the hooks leave them, and its instantiations,
each of them once and nothing else. The types listed in the schema are all that it defines but the
factories, unless a type has the variable of a factory. -/
theorem UnitSource.definitions_iff {source : UnitSource} {config : Config} {hooks : Hooks}
    {schema : EmittedSchema} (h : source.compile config hooks = .ok schema) :
    ∃ unit model a m, source.load = .ok unit ∧ unit.Becomes model ∧ a.model = hooks.runPre model ∧
      source.Emits config hooks a m schema ∧ a.DefinedBy m ∧
      m.exports = schema.typeNames ++ (if m.schema.isSome then ["build_schema"] else []) ∧
      ∀ s, m.schema = some s → (s.types = m.typeVars ↔ a.ApartFromFactories) := by
  obtain ⟨a, m, hemits⟩ := compile_eq_ok.1 h
  obtain ⟨model, hextract, ha⟩ := hemits.analyzed
  obtain ⟨style, -, hsections⟩ := hemits.written
  obtain ⟨unit, hload, hunit⟩ := except_bind_eq_ok.1 hextract
  refine ⟨unit, model, a, m, hload, (HostUnit.extract_eq_ok.1 hunit).2,
    (SourceModel.analyze_eq_ok.1 ha).1, hemits, SourceModel.definedBy ha hsections, ?_,
    fun s hs => SourceModel.schema_types_iff ha hsections hs⟩
  rw [hemits.typeNames]
  rfl

/-- A unit whose object `match_` has the variable of the factory of `match`. -/
def scoreUnit : HostUnit where
  name := "scores"
  declarations := [
    { kind := .genericObject, name := "match", participates := true, typeParameters := ["T"]
      fields := [{ name := "value", type := some (.named "T") }] },
    { kind := .object, name := "match_", participates := true
      fields := [{ name := "label", type := some (.named "string") }] },
    { kind := .object, name := "Query", participates := true
      fields := [{ name := "title", type := some (.named "string") }] }]

/-- The module of `scoreUnit`. Its schema does not list `match_`. -/
def scoreModule : SchemaModule where
  header := ""
  docstring := "Generated GraphQL schema. Do not edit."
  runtimeModule := "gql_schemagen.runtime"
  libraryImports :=
    ["GraphQLField", "GraphQLNonNull", "GraphQLObjectType", "GraphQLSchema", "GraphQLString"]
  runtimeImports := ["generic_factory", "read_property"]
  scalars := []
  enums := []
  factories := [
    { var := "match_", name := "match", parameters := ["t_type"], description := none
      fields := [{
        name := "value", type := .nonNull (.parameter "t_type"), arguments := []
        resolver := {
          typeName := "match"
          descriptor := { owner := "match", name := "value", type := some (.param "T") } }
        description := none, deprecationReason := none }] }]
  objects := [
    { var := "match_", name := "match_", description := none, isLazy := false
      fields := [{
        name := "label", type := .nonNull (.library "GraphQLString"), arguments := []
        resolver := {
          typeName := "match_"
          descriptor := { owner := "match_", name := "label", type := some (.ref "string") } }
        description := none, deprecationReason := none }] },
    { var := "Query", name := "Query", description := none, isLazy := false
      fields := [{
        name := "title", type := .nonNull (.library "GraphQLString"), arguments := []
        resolver := {
          typeName := "Query"
          descriptor := { owner := "Query", name := "title", type := some (.ref "string") } }
        description := none, deprecationReason := none }] }]
  instances := []
  schema := some ⟨[("query", "Query")], ["Query"]⟩

theorem scoreUnit_emits :
    ∃ a schema, (UnitSource.loaded scoreUnit).Emits {} {} a scoreModule schema := by
  refine HostUnit.emits_of_parts
    ["GraphQLObjectType", "GraphQLField", "GraphQLNonNull", "GraphQLString", "GraphQLSchema"]
    ["generic_factory", "read_property"] ?_ rfl ?_ ?_ ?_ ?_
  · cbv
  · simp [List.mergeSort, List.MergeSort.Internal.splitInTwo, scoreModule]
  · simp [List.mergeSort, List.MergeSort.Internal.splitInTwo, scoreModule]
  · decide
  · decide +kernel

/-- Not all schemas list every type of their module. -/
theorem schema_may_lack_types :
    ¬∀ (source : UnitSource) (config : Config) (hooks : Hooks) (schema : EmittedSchema)
      (a : Analysis) (m : SchemaModule), source.compile config hooks = .ok schema →
        source.Emits config hooks a m schema → ∀ s, m.schema = some s → s.types = m.typeVars := by
  intro hall
  obtain ⟨a, schema, hemits⟩ := scoreUnit_emits
  have htypes :=
    hall _ _ _ _ _ _ (UnitSource.compile_eq_ok.2 ⟨a, scoreModule, hemits⟩) hemits _ rfl
  exact absurd htypes (by decide)

theorem scoreUnit_definitions : ∃ schema a m s,
    (UnitSource.loaded scoreUnit).compile {} {} = .ok schema ∧
      (UnitSource.loaded scoreUnit).Emits {} {} a m schema ∧ a.DefinedBy m ∧
      m.schema = some s ∧ s.types = ["Query"] ∧ m.typeVars = ["match_", "Query"] ∧
      ¬a.ApartFromFactories := by
  obtain ⟨a₀, schema, hemits₀⟩ := scoreUnit_emits
  have hcompiles := UnitSource.compile_eq_ok.2 ⟨a₀, scoreModule, hemits₀⟩
  obtain ⟨-, -, a, m, -, -, -, hemits, hdefined, -, htypes⟩ := UnitSource.definitions_iff hcompiles
  obtain ⟨rfl, rfl⟩ := hemits.unique hemits₀
  refine ⟨schema, a, scoreModule, _, hcompiles, hemits, hdefined, rfl, rfl, rfl, fun hapart => ?_⟩
  exact absurd ((htypes _ rfl).2 hapart) (by decide)

end SchemaCompiler
