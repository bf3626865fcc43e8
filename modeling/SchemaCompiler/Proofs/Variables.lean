import SchemaCompiler.Proofs.Emitted

/-! The variables of a module. A variable is never a name that the module imports or `build_schema`.
Two entities share a variable exactly if the name of one is reserved and that of the other is the
same name with an underscore behind it. -/

namespace SchemaCompiler

theorem safeIdentifier_of_isTaken {name : String} (h : isTaken name = true) :
    safeIdentifier name = name ++ "_" := by
  rw [safeIdentifier, h, cond_true]

theorem safeIdentifier_of_free {name : String} (h : isTaken name = false) :
    safeIdentifier name = name := by
  rw [safeIdentifier, h, cond_false]

theorem isTaken_iff {name : String} : isTaken name = true ↔
    name ∈ reservedNames ∨ "GraphQL".toList <+: name.toList := by
  rw [isTaken, Bool.or_eq_true, List.contains_iff_mem, List.isPrefixOf_iff_prefix]

/-- No reserved name with an underscore is taken. -/
theorem isTaken_underscore {r : String} (hr : r ∈ reservedNames) : isTaken (r ++ "_") = false :=
  (by decide +kernel : ∀ r ∈ reservedNames, isTaken (r ++ "_") = false) r hr

/-- A name of the schema library keeps its place with an underscore behind it. -/
theorem mem_reservedNames_of_free {name : String} (h : isTaken name = true)
    (h' : isTaken (name ++ "_") = false) : name ∈ reservedNames := by
  rcases isTaken_iff.1 h with hmem | hstart
  · exact hmem
  · have htaken : isTaken (name ++ "_") = true := by
      rw [isTaken_iff, String.toList_append]
      exact .inr (hstart.trans (List.prefix_append _ _))
    rw [h'] at htaken
    cases htaken

/-- When two names have the same variable. -/
theorem safeIdentifier_eq_iff {name name' : String} :
    safeIdentifier name = safeIdentifier name' ↔ name = name' ∨
      (name ∈ reservedNames ∧ name' = name ++ "_") ∨
      (name' ∈ reservedNames ∧ name = name' ++ "_") := by
  have hshared : ∀ r ∈ reservedNames, safeIdentifier r = safeIdentifier (r ++ "_") := by
    intro r hr
    rw [safeIdentifier_of_isTaken (isTaken_iff.2 (.inl hr)),
      safeIdentifier_of_free (isTaken_underscore hr)]
  constructor
  · intro h
    rcases hname : isTaken name with _ | _ <;> rcases hname' : isTaken name' with _ | _
    · rw [safeIdentifier_of_free hname, safeIdentifier_of_free hname'] at h
      exact .inl h
    · rw [safeIdentifier_of_free hname, safeIdentifier_of_isTaken hname'] at h
      exact .inr (.inr ⟨mem_reservedNames_of_free hname' (h ▸ hname), h⟩)
    · rw [safeIdentifier_of_isTaken hname, safeIdentifier_of_free hname'] at h
      exact .inr (.inl ⟨mem_reservedNames_of_free hname (h ▸ hname'), h.symm⟩)
    · rw [safeIdentifier_of_isTaken hname, safeIdentifier_of_isTaken hname'] at h
      exact .inl (String.append_left_inj _ |>.1 h)
  · rintro (rfl | ⟨hr, rfl⟩ | ⟨hr, rfl⟩)
    · rfl
    · exact hshared _ hr
    · exact (hshared _ hr).symm

/-- No underscore makes a reserved name out of a name that is taken. -/
theorem underscore_not_mem_reservedNames {name : String} (h : isTaken name = true) :
    name ++ "_" ∉ reservedNames := by
  have hends : ∀ r ∈ reservedNames, r.toList.getLast? = some '_' →
      isTaken (String.ofList r.toList.dropLast) = false := by
    decide +kernel
  intro hmem
  have hlist : (name ++ "_").toList = name.toList ++ ['_'] := String.toList_append
  have hfree := hends _ hmem (by rw [hlist, List.getLast?_concat])
  rw [hlist, List.dropLast_concat, String.ofList_toList, h] at hfree
  cases hfree

theorem safeIdentifier_not_mem_reservedNames (name : String) :
    safeIdentifier name ∉ reservedNames := by
  intro hmem
  rcases hname : isTaken name with _ | _
  · rw [safeIdentifier_of_free hname] at hmem
    rw [isTaken_iff.2 (.inl hmem)] at hname
    cases hname
  · rw [safeIdentifier_of_isTaken hname] at hmem
    exact underscore_not_mem_reservedNames hname hmem

def schemaLibraryNames : List String :=
  ["GraphQLArgument", "GraphQLEnumType", "GraphQLEnumValue", "GraphQLField", "GraphQLList",
    "GraphQLNonNull", "GraphQLObjectType", "GraphQLSchema"] ++ libraryScalars.map (·.2)

theorem safeIdentifier_not_mem_schemaLibraryNames (name : String) :
    safeIdentifier name ∉ schemaLibraryNames := by
  have hlibrary : ∀ n ∈ schemaLibraryNames, isTaken n = true ∧ n.toList.getLast? ≠ some '_' := by
    decide +kernel
  intro hmem
  obtain ⟨htaken, hlast⟩ := hlibrary _ hmem
  rcases hname : isTaken name with _ | _
  · rw [safeIdentifier_of_free hname, hname] at htaken
    cases htaken
  · rw [safeIdentifier_of_isTaken hname] at hlast
    exact hlast (by simp [String.toList_append])

theorem mem_sortedNames {name : String} {names : List String} :
    name ∈ sortedNames names ↔ name ∈ names := by
  rw [sortedNames, List.mem_mergeSort, List.mem_eraseDups]

theorem sortedNames_subset {names names' : List String} (h : names ⊆ names') :
    sortedNames names ⊆ names' :=
  fun _ hname => h (mem_sortedNames.1 hname)

theorem flatMap_subset {α β : Type} {f : α → List β} {as : List α} {bs : List β}
    (h : ∀ a, f a ⊆ bs) : as.flatMap f ⊆ bs := by
  intro b hb
  obtain ⟨a, -, hb⟩ := List.mem_flatMap.1 hb
  exact h a hb

theorem TypeNode.libraryNames_subset (t : TypeNode) : t.libraryNames ⊆ schemaLibraryNames := by
  induction t with
  | named n =>
    cases n with
    | scalar s =>
      intro name hname
      rw [libraryNames] at hname
      split at hname
      · obtain ⟨l₁, l₂, hscalars, -⟩ := List.lookup_eq_some_iff.1 (Option.mem_toList.1 hname)
        refine List.mem_append_right _ (List.mem_map.2 ⟨(s.name, name), ?_, rfl⟩)
        rw [hscalars]
        exact List.mem_append_right _ List.mem_cons_self
      · cases hname
    | _ => exact List.nil_subset _
  | list element ih => exact List.cons_subset.2 ⟨by decide, ih⟩
  | nonNull inner ih => exact List.cons_subset.2 ⟨by decide, ih⟩
  | placeholder _ => exact List.nil_subset _
  | applied _ _ ih => exact ih

theorem GraphField.libraryNames_subset (f : GraphField) : f.libraryNames ⊆ schemaLibraryNames := by
  refine List.append_subset.2 ⟨flatMap_subset TypeNode.libraryNames_subset, ?_⟩
  split <;> decide

theorem Binding.runtimeNames_subset (b : Binding) :
    b.runtimeNames ⊆ SchemaCompiler.runtimeNames := by
  refine List.cons_subset.2 ⟨?_, flatMap_subset fun a => ?_⟩
  · cases b.helper <;> decide
  · rw [ArgumentBinding.converter]
    split <;> decide

namespace Emission

variable {e : Emission}

theorem libraryImports_subset (schema : Option SchemaEntry) :
    e.libraryImports schema ⊆ schemaLibraryNames := by
  refine sortedNames_subset ?_
  rw [libraryNames]
  simp only [List.append_subset]
  refine ⟨⟨⟨⟨?_, ?_⟩, flatMap_subset fun x => x.2.libraryNames_subset⟩,
    flatMap_subset fun i => TypeNode.libraryNames_subset _⟩, ?_⟩
  all_goals split <;> decide

theorem runtimeImports_subset : e.runtimeImports ⊆ SchemaCompiler.runtimeNames := by
  refine sortedNames_subset ?_
  rw [runtimeNames]
  simp only [List.append_subset]
  refine ⟨⟨?_, ?_⟩, flatMap_subset fun x => ?_⟩
  · split <;> decide
  · split <;> decide
  · rcases e.bindings.get? x.1 x.2.name with _ | b
    · exact List.nil_subset _
    · exact b.runtimeNames_subset

end Emission

/-- The variables of a module are those of its entities, which have names of their own. They are
distinct unless a reserved name and the same name with an underscore are both among these, and
nothing that the module imports or defines besides has one of them. -/
theorem UnitSource.variables_distinct_iff {source : UnitSource} {config : Config} {hooks : Hooks}
    {schema : EmittedSchema} (h : source.compile config hooks = .ok schema) :
    ∃ a m, source.Emits config hooks a m schema ∧ a.emission.entityNames.Nodup ∧
      m.assignedNames = a.emission.entityNames.map safeIdentifier ∧
      (m.assignedNames.Nodup ↔ ∀ r ∈ reservedNames,
        ¬(r ∈ a.emission.entityNames ∧ r ++ "_" ∈ a.emission.entityNames)) ∧
      ∀ var ∈ m.assignedNames,
        var ∉ m.libraryImports ∧ var ∉ m.runtimeImports ∧ var ≠ "build_schema" := by
  obtain ⟨a, m, hemits⟩ := compile_eq_ok.1 h
  obtain ⟨model, -, ha⟩ := hemits.analyzed
  obtain ⟨style, -, hsections⟩ := hemits.written
  have hnames := SourceModel.entityNames_nodup ha
  refine ⟨a, m, hemits, hnames, hsections.assignedNames, ?_, fun var hvar => ?_⟩
  · rw [hsections.assignedNames, List.nodup_map_iff_inj_on hnames]
    constructor
    · intro hinj r hr ⟨hmem, hmem'⟩
      have hsame := hinj r hmem _ hmem' (safeIdentifier_eq_iff.2 (.inr (.inl ⟨hr, rfl⟩)))
      have hlength := congrArg String.length hsame
      simp at hlength
    · intro hapart name hname name' hname' heq
      rcases safeIdentifier_eq_iff.1 heq with hsame | ⟨hr, rfl⟩ | ⟨hr, rfl⟩
      · exact hsame
      · exact absurd ⟨hname, hname'⟩ (hapart name hr)
      · exact absurd ⟨hname', hname⟩ (hapart name' hr)
  · rw [hsections.assignedNames] at hvar
    obtain ⟨name, -, rfl⟩ := List.mem_map.1 hvar
    have hreserved := safeIdentifier_not_mem_reservedNames name
    refine ⟨fun hmem => ?_, fun hmem => hreserved ?_, fun heq => hreserved (by rw [heq]; decide)⟩
    · rw [hsections.libraryImports] at hmem
      exact safeIdentifier_not_mem_schemaLibraryNames name (Emission.libraryImports_subset _ hmem)
    · rw [hsections.runtimeImports] at hmem
      exact (by decide : runtimeNames ⊆ reservedNames) (Emission.runtimeImports_subset hmem)

/-- A unit with two scalars whose variable is `match_`. -/
def matchUnit : HostUnit where
  name := "matches"
  declarations := [
    { kind := .scalar, name := "match", participates := true, internalType := some "pattern" },
    { kind := .scalar, name := "match_", participates := true, internalType := some "result" }]

theorem matchUnit_emits :
    ∃ a m schema, (UnitSource.loaded matchUnit).Emits {} {} a m schema ∧
      m.assignedNames = ["match_", "match_"] := by
  have hmodule : matchUnit.emission?.map (·.toModule ⟨"gql_schemagen.runtime",
      "Generated GraphQL schema. Do not edit.", "", true⟩) = some (.ok {
        header := ""
        docstring := "Generated GraphQL schema. Do not edit."
        runtimeModule := "gql_schemagen.runtime"
        libraryImports := []
        runtimeImports := ["define_scalar"]
        scalars := [⟨"match_", "match", none, none⟩, ⟨"match_", "match_", none, none⟩]
        enums := []
        factories := []
        objects := []
        instances := []
        schema := none }) := by
    cbv
  obtain ⟨e, he, hm⟩ := Option.map_eq_some_iff.1 hmodule
  obtain ⟨a, schema, hemits, -⟩ :=
    HostUnit.emits_of_emission? Config.style_default rfl he (Emission.toModule_eq_ok.1 hm) (by
      rw [isModuleText_eq, SchemaModule.text_toList]
      decide +kernel)
  exact ⟨a, _, schema, hemits, rfl⟩

/-- Not all modules keep their variables apart. -/
theorem variables_not_always_distinct :
    ¬∀ (source : UnitSource) (config : Config) (hooks : Hooks) (schema : EmittedSchema),
      source.compile config hooks = .ok schema → schema.typeNames.Nodup := by
  intro hall
  obtain ⟨a, m, schema, hemits, hnames⟩ := matchUnit_emits
  have hnodup := hall _ _ _ _ (UnitSource.compile_eq_ok.2 ⟨a, m, hemits⟩)
  rw [hemits.typeNames, hnames] at hnodup
  exact absurd hnodup (by decide)

theorem matchUnit_variables : ∃ schema a m,
    (UnitSource.loaded matchUnit).compile {} {} = .ok schema ∧
      (UnitSource.loaded matchUnit).Emits {} {} a m schema ∧ ¬m.assignedNames.Nodup ∧
      ∃ r ∈ reservedNames, r ∈ a.emission.entityNames ∧ r ++ "_" ∈ a.emission.entityNames := by
  obtain ⟨a₀, m₀, schema, hemits₀, hnames⟩ := matchUnit_emits
  have hcompiles := UnitSource.compile_eq_ok.2 ⟨a₀, m₀, hemits₀⟩
  obtain ⟨a, m, hemits, -, -, hdistinct, -⟩ := UnitSource.variables_distinct_iff hcompiles
  have hshared : ¬m.assignedNames.Nodup := by
    rw [← hemits.typeNames, hemits₀.typeNames, hnames]
    decide
  refine ⟨schema, a, m, hcompiles, hemits, hshared, ?_⟩
  by_contra hnone
  exact hshared (hdistinct.2 fun r hr hboth => hnone ⟨r, hr, hboth⟩)

end SchemaCompiler
