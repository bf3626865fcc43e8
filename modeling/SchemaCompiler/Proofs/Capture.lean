import SchemaCompiler.Proofs.References
import SchemaCompiler.Proofs.Written

/-! The parameters of factories. Inside a factory its parameter hides a variable of the same name,
which there is if the template refers to a type or a generic of that name. Otherwise the parameter
stands exactly where the template has its placeholder. -/

namespace SchemaCompiler

theorem eq_of_ofNat_eq {n : Nat} {c : Char} (hc : c.toNat ≠ 0) (h : Char.ofNat n = c) :
    n = c.toNat := by
  subst h
  rw [Char.toNat_ofNat] at hc ⊢
  split at hc
  · rw [if_pos ‹_›]
  · exact absurd rfl hc

theorem lowerRows_apply_ne_G {c : Char} (hc : ¬c.toNat < 0x80) : lowerRows.apply c ≠ 'G' := by
  have hrows : ∀ row ∈ lowerRows,
      ¬(max (row.1 : Int) 0x80 ≤ 0x47 - row.2.2.2 ∧ 0x47 - row.2.2.2 ≤ (row.2.1 : Int)) := by
    decide +kernel
  intro heq
  unfold CodeMap.apply at heq
  split at heq
  · rename_i first last step offset hfind
    have hrange := List.find?_some hfind
    have hrow := hrows _ (List.mem_of_find?_eq_some hfind)
    simp only [Bool.and_eq_true, decide_eq_true_eq] at hrange hrow
    have hcode := eq_of_ofNat_eq (by decide) heq
    have : 'G'.toNat = 0x47 := rfl
    omega
  · subst heq
    exact hc (by decide)

/-- No character in lower case is a capital G. -/
theorem lowerAfter_ne_G {before cs : List Char} {c : Char} (hc : c ∈ lowerAfter before cs) :
    c ≠ 'G' := by
  have hascii : ∀ n < 0x80, (Char.ofNat n).toLower ≠ 'G' := by decide +kernel
  induction cs generalizing before with
  | nil => cases hc
  | cons x rest ih =>
    rw [lowerAfter] at hc
    rcases List.mem_append.1 hc with hmapped | hrest
    · -- a plain letter, a sigma, a capital I with a dot, or a letter of the table
      split_ifs at hmapped with hplain
      · rw [List.mem_singleton.1 hmapped, ← Char.ofNat_toNat x]
        exact hascii _ hplain
      · rw [List.mem_singleton.1 hmapped]
        decide
      · rw [List.mem_singleton.1 hmapped]
        decide
      · rcases List.mem_cons.1 hmapped with rfl | hdot
        · decide
        · rw [List.mem_singleton.1 hdot]
          exact fun heq => absurd (eq_of_ofNat_eq (by decide) heq) (by decide)
      · rw [List.mem_singleton.1 hmapped]
        exact lowerRows_apply_ne_G hplain
    · exact ih hrest

/-- A parameter is never a name that means something else in a module. -/
theorem isTaken_parameterIdentifier (parameter : String) :
    isTaken (parameterIdentifier parameter) = false := by
  rw [Bool.eq_false_iff, ne_eq, isTaken_iff, parameterIdentifier, String.toList_append]
  rintro (hmem | hstart)
  · have hends : ∀ r ∈ reservedNames, ¬"_type".toList <:+ r.toList := by decide +kernel
    exact hends _ hmem (by rw [String.toList_append]; exact List.suffix_append _ _)
  · rcases List.mem_append.1 (hstart.subset (by decide : 'G' ∈ "GraphQL".toList)) with hname | hend
    · rw [snakeCase, lowerText, String.toList_ofList] at hname
      exact lowerAfter_ne_G hname rfl
    · exact absurd hend (by decide)

theorem parameterIdentifier_not_mem_schemaLibraryNames (parameter : String) :
    parameterIdentifier parameter ∉ schemaLibraryNames := by
  have hlibrary : ∀ n ∈ schemaLibraryNames, isTaken n = true := by decide +kernel
  intro hmem
  have htaken := hlibrary _ hmem
  rw [isTaken_parameterIdentifier] at htaken
  cases htaken

/-- The variable of a name is a parameter only if the name is. -/
theorem safeIdentifier_eq_parameterIdentifier {name parameter : String} :
    safeIdentifier name = parameterIdentifier parameter ↔ name = parameterIdentifier parameter := by
  constructor
  · intro h
    rcases hname : isTaken name with _ | _
    · rwa [safeIdentifier_of_free hname] at h
    · rw [safeIdentifier_of_isTaken hname, parameterIdentifier] at h
      have hlast := congrArg (·.toList.getLast?) h
      simp [String.toList_append] at hlast
  · rintro rfl
    exact safeIdentifier_of_free (isTaken_parameterIdentifier parameter)

/-- No variable in the types of a factory's fields is hidden by a parameter of the factory. -/
def FactoryEntry.CapturesNothing (f : FactoryEntry) : Prop :=
  ∀ term ∈ f.fields.flatMap FieldEntry.types, ∀ p ∈ f.parameters, p ∉ term.variables

/-- The words of written types are equal to a parameter exactly where the types have
placeholders. -/
def MarksPlaceholders (parameter : String) : List TypeNode → List TypeTerm → Prop :=
  List.Forall₂ fun type term => term.words.map (fun w => decide (w = parameter)) = type.holes

theorem FactoryEntry.capturesNothing_eq {f : FactoryEntry} {parameter : String}
    (h : f.parameters = [parameter]) : f.CapturesNothing =
      ∀ term ∈ f.fields.flatMap FieldEntry.types, parameter ∉ term.variables := by
  simp only [CapturesNothing, h, List.mem_singleton, forall_eq]

theorem forall₂_iff_forall_right {α β : Type} {R S : α → β → Prop} {P : β → Prop} {as : List α}
    {bs : List β} (h : List.Forall₂ R as bs) (hiff : ∀ a b, R a b → (S a b ↔ P b)) :
    List.Forall₂ S as bs ↔ ∀ b ∈ bs, P b := by
  induction h with
  | nil => simp
  | cons hab _ ih => rw [List.forall₂_cons, ih, hiff _ _ hab, List.forall_mem_cons]

namespace Emission.WritesFactory

variable {e : Emission} {t : Template} {f : FactoryEntry} {parameter : String}

theorem single (h : e.WritesFactory t f) (hparameters : t.parameters = [parameter]) :
    f.parameters = [parameterIdentifier parameter] := by
  rw [h.parameters, factoryParameters, hparameters]
  rfl

theorem types (h : e.WritesFactory t f) (hparameters : t.parameters = [parameter]) :
    List.Forall₂ (TypeNode.Writes [(parameter, parameterIdentifier parameter)])
      (TypeGraph.references t.fields) (f.fields.flatMap FieldEntry.types) := by
  have hfields := h.fields
  rw [factoryParameters, hparameters] at hfields
  exact hfields.types

theorem capturesNothing_iff_mentions (h : e.WritesFactory t f)
    (hparameters : t.parameters = [parameter]) : f.CapturesNothing ↔
      ∀ type ∈ TypeGraph.references t.fields, parameterIdentifier parameter ∉ type.mentions := by
  have hhidden : ∀ {type : TypeNode} {term : TypeTerm},
      type.Writes [(parameter, parameterIdentifier parameter)] term →
        (parameterIdentifier parameter ∈ term.variables ↔
          parameterIdentifier parameter ∈ type.mentions) := by
    intro type term hwrites
    rw [hwrites.variables_eq, List.mem_map]
    simp only [safeIdentifier_eq_parameterIdentifier, exists_eq_right]
  rw [FactoryEntry.capturesNothing_eq (h.single hparameters)]
  have htypes := h.types hparameters
  constructor
  · intro hterms type htype hmem
    obtain ⟨term, hterm, hwrites⟩ := forall₂_mem_left htypes _ htype
    exact hterms term hterm ((hhidden hwrites).2 hmem)
  · intro hmentions term hterm hmem
    obtain ⟨type, htype, hwrites⟩ := forall₂_mem_right htypes _ hterm
    exact hmentions type htype ((hhidden hwrites).1 hmem)

theorem marksPlaceholders_iff (h : e.WritesFactory t f) (hparameters : t.parameters = [parameter]) :
    f.CapturesNothing ↔ MarksPlaceholders (parameterIdentifier parameter)
      (TypeGraph.references t.fields) (f.fields.flatMap FieldEntry.types) := by
  rw [FactoryEntry.capturesNothing_eq (h.single hparameters)]
  exact (forall₂_iff_forall_right (h.types hparameters) fun _ _ hwrites =>
    hwrites.holes_eq_iff (parameterIdentifier_not_mem_schemaLibraryNames parameter)).symm

end Emission.WritesFactory

/-- A factory hides a variable that its fields need exactly if its template mentions a type or a
generic that has the name of the parameter. If it hides none, its parameter stands exactly where the
template has its placeholder. -/
theorem UnitSource.capturesNothing_iff {source : UnitSource} {config : Config} {hooks : Hooks}
    {schema : EmittedSchema} (h : source.compile config hooks = .ok schema) :
    ∃ a m, source.Emits config hooks a m schema ∧
      List.Forall₂ (fun (t : Template) (f : FactoryEntry) => ∃ parameter,
        t.parameters = [parameter] ∧ f.var = safeIdentifier t.name ∧
        f.parameters = [parameterIdentifier parameter] ∧
        (f.CapturesNothing ↔ MarksPlaceholders (parameterIdentifier parameter)
          (TypeGraph.references t.fields) (f.fields.flatMap FieldEntry.types)) ∧
        (f.CapturesNothing ↔ ∀ type ∈ TypeGraph.references t.fields,
          parameterIdentifier parameter ∉ type.mentions))
        a.graph.templates m.factories := by
  obtain ⟨a, m, hemits⟩ := compile_eq_ok.1 h
  obtain ⟨model, -, ha⟩ := hemits.analyzed
  obtain ⟨style, -, hsections⟩ := hemits.written
  have hsingle : ∀ t ∈ a.graph.templates, ∃ parameter, t.parameters = [parameter] := by
    intro t ht
    obtain ⟨parameter, hparameters, -⟩ :=
      (SourceModel.complete_of_analyze ha).template_references ht
    exact ⟨parameter, hparameters⟩
  have hwrites : List.Forall₂ a.emission.WritesFactory a.graph.templates m.factories :=
    Emission.writesFactories hsections.factories
  refine ⟨a, m, hemits, ((List.forall₂_and_left _ _).2 ⟨hsingle, hwrites⟩).imp ?_⟩
  rintro t f ⟨⟨parameter, hparameters⟩, hfactory⟩
  exact ⟨parameter, hparameters, hfactory.var, hfactory.single hparameters,
    hfactory.marksPlaceholders_iff hparameters, hfactory.capturesNothing_iff_mentions hparameters⟩

/-- A unit in which a generic refers to a type that has the name of its factory's parameter. -/
def boxUnit : HostUnit where
  name := "boxes"
  declarations := [
    { kind := .object, name := "t_type", participates := true
      fields := [{ name := "label", type := some (.named "string") }] },
    { kind := .genericObject, name := "Box", participates := true, typeParameters := ["T"]
      fields := [{ name := "value", type := some (.named "T") },
        { name := "tag", type := some (.named "t_type") }] },
    { kind := .object, name := "Shelf", participates := true
      fields := [{ name := "box", type := some (.generic "Box" [.named "string"]) }] }]

/-- The module of `boxUnit`. Both fields of `Box` have the type of its parameter. -/
def boxModule : SchemaModule where
  header := ""
  docstring := "Generated GraphQL schema. Do not edit."
  runtimeModule := "gql_schemagen.runtime"
  libraryImports := ["GraphQLField", "GraphQLNonNull", "GraphQLObjectType", "GraphQLString"]
  runtimeImports := ["generic_factory", "read_property"]
  scalars := []
  enums := []
  factories := [
    { var := "Box", name := "Box", parameters := ["t_type"], description := none
      fields := [
        { name := "value", type := .nonNull (.parameter "t_type"), arguments := []
          resolver := {
            typeName := "Box"
            descriptor := { owner := "Box", name := "value", type := some (.param "T") } }
          description := none, deprecationReason := none },
        { name := "tag", type := .nonNull (.var "t_type"), arguments := []
          resolver := {
            typeName := "Box"
            descriptor := { owner := "Box", name := "tag", type := some (.ref "t_type") } }
          description := none, deprecationReason := none }] }]
  objects := [
    { var := "t_type", name := "t_type", description := none, isLazy := false
      fields := [{
        name := "label", type := .nonNull (.library "GraphQLString"), arguments := []
        resolver := {
          typeName := "t_type"
          descriptor := { owner := "t_type", name := "label", type := some (.ref "string") } }
        description := none, deprecationReason := none }] },
    { var := "Shelf", name := "Shelf", description := none, isLazy := true
      fields := [{
        name := "box", type := .nonNull (.var "StringBox"), arguments := []
        resolver := {
          typeName := "Shelf"
          descriptor := {
            owner := "Shelf", name := "box", type := some (.apply "Box" [.ref "string"]) } }
        description := none, deprecationReason := none }] }]
  instances := [⟨"StringBox", "Box", [.library "GraphQLString"]⟩]
  schema := none

theorem boxUnit_emits :
    ∃ a schema, (UnitSource.loaded boxUnit).Emits {} {} a boxModule schema := by
  refine HostUnit.emits_of_parts
    ["GraphQLObjectType", "GraphQLField", "GraphQLNonNull", "GraphQLString"]
    ["generic_factory", "read_property"] ?_ rfl ?_ ?_ rfl ?_
  · cbv
  · simp [List.mergeSort, List.MergeSort.Internal.splitInTwo, boxModule]
  · simp [List.mergeSort, List.MergeSort.Internal.splitInTwo, boxModule]
  · decide +kernel

theorem boxModule_captures : ∃ f ∈ boxModule.factories, ¬f.CapturesNothing := by
  refine ⟨_, List.mem_singleton_self _, ?_⟩
  rw [FactoryEntry.capturesNothing_eq rfl]
  decide

/-- Not all factories leave the variables that they need alone. -/
theorem factories_may_capture :
    ¬∀ (source : UnitSource) (config : Config) (hooks : Hooks) (schema : EmittedSchema)
      (a : Analysis) (m : SchemaModule), source.compile config hooks = .ok schema →
        source.Emits config hooks a m schema → ∀ f ∈ m.factories, f.CapturesNothing := by
  intro hall
  obtain ⟨a, schema, hemits⟩ := boxUnit_emits
  obtain ⟨f, hf, hcaptures⟩ := boxModule_captures
  exact hcaptures (hall _ _ _ _ _ _ (UnitSource.compile_eq_ok.2 ⟨a, _, hemits⟩) hemits f hf)

theorem boxUnit_captures : ∃ schema a m,
    (UnitSource.loaded boxUnit).compile {} {} = .ok schema ∧
      (UnitSource.loaded boxUnit).Emits {} {} a m schema ∧
      ∃ t ∈ a.graph.templates, ∃ parameter, t.parameters = [parameter] ∧
        ∃ type ∈ TypeGraph.references t.fields, parameterIdentifier parameter ∈ type.mentions := by
  obtain ⟨a₀, schema, hemits₀⟩ := boxUnit_emits
  have hcompiles := UnitSource.compile_eq_ok.2 ⟨a₀, _, hemits₀⟩
  obtain ⟨a, m, hemits, hfactories⟩ := UnitSource.capturesNothing_iff hcompiles
  obtain ⟨-, rfl⟩ := hemits₀.unique hemits
  obtain ⟨f, hf, hcaptures⟩ := boxModule_captures
  obtain ⟨t, ht, parameter, hparameters, -, -, -, hmentions⟩ := forall₂_mem_right hfactories f hf
  rw [hmentions] at hcaptures
  push Not at hcaptures
  exact ⟨schema, a, _, hcompiles, hemits, t, ht, parameter, hparameters, hcaptures⟩

end SchemaCompiler
