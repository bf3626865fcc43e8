import Mathlib
import SchemaCompiler.Proofs.Reached

/-! What a compilation emits: the module of an analysis, section by section. Every type and every
generic of the analysis is defined in one section, under the variable of its name, and no two of
them share a name. -/

namespace SchemaCompiler

theorem map_filterMap_eq {α β γ : Type} {f : α → Option β} {g : β → γ} {p : α → Bool} {k : α → γ}
    {as : List α} (h : ∀ a ∈ as, (f a).map g = if p a then some (k a) else none) :
    (as.filterMap f).map g = (as.filter p).map k := by
  rw [List.map_filterMap]
  induction as with
  | nil => rfl
  | cons a rest ih =>
    rw [List.filterMap_cons, h a List.mem_cons_self, List.filter_cons]
    have hrest := ih fun x hx => h x (List.mem_cons_of_mem _ hx)
    by_cases hp : p a = true
    · rw [if_pos hp, if_pos hp, List.map_cons, ← hrest]
    · rw [if_neg hp, if_neg hp, ← hrest]

namespace SchemaModule

def varsBeforeObjects (m : SchemaModule) : List String :=
  m.scalars.map (·.var) ++ m.enums.map (·.var) ++ m.factories.map (·.var)

def varsBeforeInstances (m : SchemaModule) : List String :=
  m.varsBeforeObjects ++ m.objects.map (·.var)

end SchemaModule

namespace Emission

variable {e : Emission} {m : SchemaModule} {style : ModuleStyle}

def namesBeforeInstances (e : Emission) : List String :=
  e.scalars.map (·.name) ++ e.enums.map (·.name) ++ e.graph.templates.map (·.name) ++
    e.objectNodes.map Node.name

def entityNames (e : Emission) : List String :=
  e.namesBeforeInstances ++ e.instantiations.map (·.key.name)

/-- The parts of a module are what its emission has for them. -/
structure Sections (e : Emission) (style : ModuleStyle) (m : SchemaModule) : Prop where
  header : m.header = dropFinalLineFeeds style.header
  docstring : m.docstring = style.docstring
  runtimeModule : m.runtimeModule = style.runtimeModule
  libraryImports : m.libraryImports = e.libraryImports m.schema
  runtimeImports : m.runtimeImports = e.runtimeImports
  scalars : m.scalars = e.scalars
  enums : m.enums = e.enums
  factories : e.factories = .ok m.factories
  objects : e.objectEntries m.varsBeforeObjects e.objectNodes = .ok m.objects
  instances : e.instances = .ok m.instances
  schema : m.schema = if style.buildSchema then
    schemaEntry (m.objects.map (·.name)) m.assignedNames (m.factories.map (·.var)) else none

theorem toModule_eq_ok :
    e.toModule style = .ok m ↔ e.Sections style m := by
  constructor
  · intro h
    obtain ⟨factories, hfactories, h⟩ := except_bind_eq_ok.1 h
    obtain ⟨objects, hobjects, h⟩ := except_bind_eq_ok.1 h
    obtain ⟨instances, hinstances, h⟩ := except_bind_eq_ok.1 h
    cases h
    exact ⟨rfl, rfl, rfl, rfl, rfl, rfl, rfl, hfactories, hobjects, hinstances, rfl⟩
  · intro h
    obtain ⟨header, docstring, runtimeModule, libraryImports, runtimeImports, scalars, enums,
      factories, objects, instances, schema⟩ := m
    obtain ⟨hheader, hdocstring, hruntimeModule, hlibrary, hruntime, hscalars, henums, hfactories,
      hobjects, hinstances, hschema⟩ := h
    simp only at hheader hdocstring hruntimeModule hlibrary hruntime hscalars henums hschema
    subst hheader hdocstring hruntimeModule hlibrary hruntime hscalars henums
    refine except_bind_eq_ok.2 ⟨factories, hfactories, except_bind_eq_ok.2 ⟨objects, hobjects,
      except_bind_eq_ok.2 ⟨instances, hinstances, ?_⟩⟩⟩
    rw [hschema]
    rfl

theorem factories_var {entries : List FactoryEntry} (h : e.factories = .ok entries) :
    entries.map (·.var) = e.graph.templates.map fun t => safeIdentifier t.name := by
  refine forall₂_map_eq ((mapM_eq_ok.1 h).imp fun t entry hentry => ?_)
  obtain ⟨fields, -, hentry⟩ := except_bind_eq_ok.1 hentry
  cases hentry
  rfl

theorem instances_var {entries : List InstanceEntry} (h : e.instances = .ok entries) :
    entries.map (·.var) = e.instantiations.map fun i => safeIdentifier i.key.name := by
  refine forall₂_map_eq ((mapM_eq_ok.1 h).imp fun i entry hentry => ?_)
  obtain ⟨argument, -, hentry⟩ := except_bind_eq_ok.1 hentry
  cases hentry
  rfl

theorem objectEntries_var {defined : List String} {nodes : List Node} {entries : List ObjectEntry}
    (h : e.objectEntries defined nodes = .ok entries) :
    entries.map (·.var) = nodes.map fun node => safeIdentifier node.name := by
  induction nodes generalizing defined entries with
  | nil => cases h; rfl
  | cons node rest ih =>
    rw [objectEntries] at h
    obtain ⟨fields, -, h⟩ := except_bind_eq_ok.1 h
    obtain ⟨others, hothers, h⟩ := except_bind_eq_ok.1 h
    cases h
    rw [List.map_cons, List.map_cons, ih hothers]

theorem scalars_var (e : Emission) :
    e.scalars.map (·.var) = (e.scalars.map (·.name)).map safeIdentifier := by
  rw [List.map_map]
  refine List.map_congr_left fun entry hentry => ?_
  obtain ⟨t, -, ht⟩ := List.mem_filterMap.1 hentry
  split at ht
  · split at ht <;> cases ht
    rfl
  · cases ht

theorem enums_var (e : Emission) :
    e.enums.map (·.var) = (e.enums.map (·.name)).map safeIdentifier := by
  rw [List.map_map]
  refine List.map_congr_left fun entry hentry => ?_
  obtain ⟨t, -, ht⟩ := List.mem_filterMap.1 hentry
  split at ht
  · split at ht <;> cases ht
    rfl
  · cases ht

theorem Sections.varsBeforeInstances (h : e.Sections style m) :
    m.varsBeforeInstances = e.namesBeforeInstances.map safeIdentifier := by
  rw [SchemaModule.varsBeforeInstances, SchemaModule.varsBeforeObjects, h.scalars, h.enums,
    factories_var h.factories, objectEntries_var h.objects, scalars_var, enums_var,
    namesBeforeInstances]
  simp only [List.map_append, List.map_map, Function.comp_def]

/-- A module assigns every type and generic to the variable of its name. -/
theorem Sections.assignedNames (h : e.Sections style m) :
    m.assignedNames = e.entityNames.map safeIdentifier := by
  rw [entityNames, List.map_append, ← h.varsBeforeInstances, List.map_map, Function.comp_def,
    ← instances_var h.instances]
  rfl

end Emission

/-- What a unit is compiled to by way of an analysis, the module that is made from it, and the text
that a template makes of the module. -/
structure UnitSource.Renders (source : UnitSource) (config : Config) (hooks : Hooks)
    (templates : String → Option ModuleTemplate) (a : Analysis) (m : SchemaModule)
    (schema : EmittedSchema) : Prop where
  analyzed : ∃ model, source.extract = .ok model ∧ (hooks.runPre model).analyze = .ok a
  written : ∃ style, config.style = .ok style ∧ a.emission.Sections style m
  rendered : ∃ template text, config.template templates = .ok template ∧ template m = .ok text ∧
    isModuleText text = true ∧ schema.content = hooks.runPost schema.file text
  unit : schema.unit = a.model.unit
  file : schema.file = moduleFileName a.model.unit
  typeNames : schema.typeNames = m.assignedNames

/-- What a unit is compiled to where no directory holds a template. -/
structure UnitSource.Emits (source : UnitSource) (config : Config) (hooks : Hooks) (a : Analysis)
    (m : SchemaModule) (schema : EmittedSchema) : Prop where
  analyzed : ∃ model, source.extract = .ok model ∧ (hooks.runPre model).analyze = .ok a
  written : ∃ style, config.style = .ok style ∧ a.emission.Sections style m
  template : config.template (fun _ => none) = .ok SchemaModule.template
  accepted : isModuleText m.text = true
  unit : schema.unit = a.model.unit
  file : schema.file = moduleFileName a.model.unit
  content : schema.content = hooks.runPost schema.file m.text
  typeNames : schema.typeNames = m.assignedNames

theorem orFailure_eq_ok {ε α : Type} {wrap : ε → Failure} {x : Except ε α} {a : α} :
    orFailure wrap x = .ok a ↔ x = .ok a := by
  rcases x with e | b
  · exact ⟨fun h => (nomatch h), fun h => nomatch h⟩
  · exact ⟨fun h => by cases h; rfl, fun h => by cases h; rfl⟩

/-- Steps that always answer leave what they leave one after the other. -/
theorem foldlM_ok {ε α β : Type} (step : β → α → β) (xs : List α) (b : β) :
    xs.foldlM (m := Except ε) (fun b x => .ok (step b x)) b = .ok (xs.foldl step b) := by
  induction xs generalizing b with
  | nil => rfl
  | cons x xs ih => exact ih (step b x)

@[simp]
theorem Hooks.runner_runPre (hooks : Hooks) (model : SourceModel) :
    hooks.runner.runPre model = .ok (hooks.runPre model) := by
  rw [HookRunner.runPre, Hooks.runner, List.foldlM_map]
  exact foldlM_ok (fun model f => f model) hooks.pre model

@[simp]
theorem Hooks.runner_runPost (hooks : Hooks) (file content : String) :
    hooks.runner.runPost file content = .ok (hooks.runPost file content) := by
  rw [HookRunner.runPost, Hooks.runner, List.foldlM_map]
  exact foldlM_ok (fun content f => f file content) hooks.post content

/-- The own template is taken where there is no other one and the configuration is not at fault. -/
theorem Config.template_none_of_ok {config : Config} {templates : String → Option ModuleTemplate}
    {template : ModuleTemplate} (h : config.template templates = .ok template) :
    config.template (fun _ => none) = .ok SchemaModule.template := by
  unfold Config.template at h ⊢
  split at h
  · rfl
  · rfl
  · split at h
    · cases h
    · rename_i hfalsy
      rw [if_neg hfalsy]

/-- A unit is compiled exactly if there is such an analysis and such a module. -/
theorem UnitSource.compile_eq_ok_renders {source : UnitSource} {config : Config} {hooks : Hooks}
    {templates : String → Option ModuleTemplate} {schema : EmittedSchema} :
    source.compile config hooks { templates } = .ok schema ↔
      ∃ a m, source.Renders config hooks templates a m schema := by
  simp only [UnitSource.compile, UnitSource.compileWith, SourceModel.compileWith,
    Emission.emitWith, except_bind_eq_ok, orFailure_eq_ok, Emission.toModule_eq_ok,
    Hooks.runner_runPre, Hooks.runner_runPost]
  constructor
  · rintro ⟨model, hmodel, _, ⟨⟩, a, ha, template, htemplate, style, hstyle, m, hm, text, htext, h⟩
    split at h
    · rename_i haccepted
      cases h
      exact ⟨a, m, ⟨model, hmodel, ha⟩, ⟨style, hstyle, hm⟩,
        ⟨template, text, htemplate, htext, haccepted, rfl⟩, rfl, rfl, rfl⟩
    · cases h
  · rintro ⟨a, m, ⟨model, hmodel, ha⟩, ⟨style, hstyle, hm⟩,
      ⟨template, text, htemplate, htext, haccepted, hcontent⟩, hunit, hfile, htypeNames⟩
    obtain ⟨unit, file, content, typeNames⟩ := schema
    simp only at hunit hfile hcontent htypeNames
    subst hunit hfile hcontent htypeNames
    exact ⟨model, hmodel, _, rfl, a, ha, template, htemplate, style, hstyle, m, hm, text, htext,
      if_pos haccepted⟩

/-- With the own template the text is that of the module. -/
theorem UnitSource.Renders.emits {source : UnitSource} {config : Config} {hooks : Hooks}
    {templates : String → Option ModuleTemplate} {a : Analysis} {m : SchemaModule}
    {schema : EmittedSchema} (h : source.Renders config hooks templates a m schema)
    (hown : config.template templates = .ok SchemaModule.template) :
    source.Emits config hooks a m schema := by
  obtain ⟨template, text, htemplate, htext, haccepted, hcontent⟩ := h.rendered
  obtain rfl : SchemaModule.template = template := Except.ok.inj (hown.symm.trans htemplate)
  obtain rfl : m.text = text := Except.ok.inj htext
  exact ⟨h.analyzed, h.written, Config.template_none_of_ok hown, haccepted, h.unit, h.file, hcontent,
    h.typeNames⟩

theorem UnitSource.compile_eq_ok {source : UnitSource} {config : Config} {hooks : Hooks}
    {schema : EmittedSchema} : source.compile config hooks = .ok schema ↔
      ∃ a m, source.Emits config hooks a m schema := by
  refine compile_eq_ok_renders.trans (exists_congr fun a => exists_congr fun m => ⟨fun h => ?_,
    fun h => ?_⟩)
  · obtain ⟨template, -, htemplate, -⟩ := h.rendered
    exact h.emits (Config.template_none_of_ok htemplate)
  · exact ⟨h.analyzed, h.written, ⟨_, _, h.template, rfl, h.accepted, h.content⟩, h.unit, h.file,
      h.typeNames⟩

/-- A unit has one analysis and one module. -/
theorem UnitSource.Emits.unique {source : UnitSource} {config : Config} {hooks : Hooks}
    {a a' : Analysis} {m m' : SchemaModule} {schema schema' : EmittedSchema}
    (h : source.Emits config hooks a m schema) (h' : source.Emits config hooks a' m' schema') :
    a = a' ∧ m = m' := by
  obtain ⟨model, hmodel, ha⟩ := h.analyzed
  obtain ⟨model', hmodel', ha'⟩ := h'.analyzed
  obtain rfl : model = model' := Except.ok.inj (hmodel.symm.trans hmodel')
  obtain rfl : a = a' := Except.ok.inj (ha.symm.trans ha')
  obtain ⟨style, hstyle, hm⟩ := h.written
  obtain ⟨style', hstyle', hm'⟩ := h'.written
  obtain rfl : style = style' := Except.ok.inj (hstyle.symm.trans hstyle')
  rw [← Emission.toModule_eq_ok] at hm hm'
  exact ⟨rfl, Except.ok.inj (hm.symm.trans hm')⟩

/-- The text of a module, line by line. -/
theorem SchemaModule.text_toList (m : SchemaModule) :
    m.text.toList = m.lines.flatMap fun line => line.toList ++ ['\n'] := by
  rw [SchemaModule.text, String.toList_join, List.flatMap_map]
  simp only [String.toList_append]
  rfl

def areModuleText (chars : List Char) : Bool :=
  match Token.ofChars? chars with
  | some ts =>
    (Phrase.derive (16 * (chars.length + 1)) .statements ts).any fun (_, rest) => rest = []
  | none => false

theorem isModuleText_eq (text : String) : isModuleText text = areModuleText text.toList := by
  rw [areModuleText, String.length_toList]
  rfl

theorem Config.style_default : ({} : Config).style = .ok ⟨"gql_schemagen.runtime",
    "Generated GraphQL schema. Do not edit.", "", true⟩ := by
  cbv

def HostUnit.emission? (unit : HostUnit) : Option Emission :=
  (unit.extract.toOption.bind fun model => model.analyze.toOption).map Analysis.emission

theorem HostUnit.emits_of_emission? {unit : HostUnit} {config : Config} {style : ModuleStyle}
    {e : Emission} {m : SchemaModule} (hstyle : config.style = .ok style)
    (htemplate : config.template (fun _ => none) = .ok SchemaModule.template)
    (he : unit.emission? = some e) (hsections : e.Sections style m)
    (haccepted : isModuleText m.text = true) :
    ∃ a schema, (UnitSource.loaded unit).Emits config {} a m schema ∧ a.emission = e := by
  obtain ⟨a, ha, rfl⟩ := Option.map_eq_some_iff.1 he
  obtain ⟨model, hmodel, ha⟩ := Option.bind_eq_some_iff.1 ha
  rw [except_toOption_eq_some] at hmodel ha
  refine ⟨a, ⟨a.model.unit, moduleFileName a.model.unit, m.text, m.assignedNames⟩, ?_, rfl⟩
  refine ⟨⟨model, hmodel, ?_⟩, ⟨style, hstyle, hsections⟩, htemplate, haccepted, ?_, ?_, ?_, ?_⟩
  · rwa [Hooks.runPre, List.foldl_nil]
  · rfl
  · rfl
  · rw [Hooks.runPost, List.foldl_nil]
  · rfl

/-- A unit is emitted, under the default configuration, as the module whose parts are those of its
emission. -/
theorem HostUnit.emits_of_parts {unit : HostUnit} {m : SchemaModule} (library runtime : List String)
    (hparts : unit.emission?.map (fun e => (e.scalars, e.enums, e.factories,
      e.objectEntries m.varsBeforeObjects e.objectNodes, e.instances,
      (e.libraryNames m.schema).eraseDups, e.runtimeNames.eraseDups)) =
      some (m.scalars, m.enums, .ok m.factories, .ok m.objects, .ok m.instances, library, runtime))
    (hstyle : (m.runtimeModule, m.docstring, m.header) =
      ("gql_schemagen.runtime", "Generated GraphQL schema. Do not edit.", ""))
    (hlibraryImports : m.libraryImports = library.mergeSort fun a b => a ≤ b)
    (hruntimeImports : m.runtimeImports = runtime.mergeSort fun a b => a ≤ b)
    (hschema : m.schema =
      Emission.schemaEntry (m.objects.map (·.name)) m.assignedNames (m.factories.map (·.var)))
    (haccepted : areModuleText (m.lines.flatMap fun line => line.toList ++ ['\n']) = true) :
    ∃ a schema, (UnitSource.loaded unit).Emits {} {} a m schema := by
  obtain ⟨e, he, hparts⟩ := Option.map_eq_some_iff.1 hparts
  simp only [Prod.mk.injEq] at hparts hstyle
  obtain ⟨hscalars, henums, hfactories, hobjects, hinstances, hlibrary, hruntime⟩ := hparts
  obtain ⟨hruntimeModule, hdocstring, hheader⟩ := hstyle
  have hsections : e.Sections ⟨"gql_schemagen.runtime",
      "Generated GraphQL schema. Do not edit.", "", true⟩ m := by
    refine ⟨?_, hdocstring, hruntimeModule, ?_, ?_, hscalars.symm, henums.symm, hfactories,
      hobjects, hinstances, hschema⟩
    · rw [hheader]
      rfl
    · rw [Emission.libraryImports, sortedNames, hlibrary, hlibraryImports]
    · rw [Emission.runtimeImports, sortedNames, hruntime, hruntimeImports]
  have htext : isModuleText m.text = true := by
    rw [isModuleText_eq, SchemaModule.text_toList]
    exact haccepted
  obtain ⟨a, schema, hemits, -⟩ := emits_of_emission? Config.style_default rfl he hsections htext
  exact ⟨a, schema, hemits⟩

inductive TypeSection where
  | scalars
  | enums
  | objects
  | instances
  deriving DecidableEq

/-- The section that defines a type. A builtin scalar is not defined, and nothing is known of a
pending type. -/
def Named.definedIn : Named → Option TypeSection
  | .scalar s => if s.builtin then none else some .scalars
  | .enum _ => some .enums
  | .object _ => some .objects
  | .instantiation _ => some .instances
  | .pending _ => none

/-- The section that defines what is declared. A generic is no type by itself. -/
def Declaration.definedIn : Declaration → Option TypeSection
  | .scalar _ => some .scalars
  | .enum _ => some .enums
  | .object _ => some .objects
  | .generic _ => none

namespace Analysis

def typesIn (a : Analysis) : TypeSection → List Named
  | .instances => a.instantiations.map fun i => .instantiation i.key
  | place => a.emission.ordered.filter (·.definedIn = some place)

def definedTypes (a : Analysis) : List Named :=
  [TypeSection.scalars, .enums, .objects, .instances].flatMap a.typesIn

theorem definedIn_of_mem {a : Analysis} {place : TypeSection} {t : Named}
    (ht : t ∈ a.typesIn place) : t.definedIn = some place := by
  cases place with
  | instances =>
    obtain ⟨i, -, rfl⟩ := List.mem_map.1 ht
    rfl
  | _ => simpa using (List.mem_filter.1 ht).2

end Analysis

namespace SourceModel

variable {model : SourceModel} {a : Analysis}

theorem instantiations_keys (h : model.analyze = .ok a) :
    a.instantiations.map (·.key) = a.resolution.finished := by
  have hcomplete := complete_of_analyze h
  rw [Analysis.instantiations, Resolution.listed, map_filterMap_eq (p := fun _ => true) (k := id), List.map_id,
    List.filter_true]
  intro key hkey
  obtain ⟨i, hi, rfl⟩ := (hcomplete.sound.done key).1 hkey
  have hget : a.resolution.graph.get? i.key.name = some (.instantiation i) :=
    TypeGraph.get?_of_mem hcomplete.sound.nodup hi
  simp [TypeGraph.instantiation?, hget]

theorem mem_instantiations (h : model.analyze = .ok a) {i : Instantiation} :
    i ∈ a.instantiations ↔ Node.instantiation i ∈ a.graph.nodes := by
  have hcomplete := complete_of_analyze h
  constructor
  · intro hi
    obtain ⟨key, -, hkey⟩ := List.mem_filterMap.1 hi
    exact (TypeGraph.instantiation?_eq_some hkey).1
  · intro hi
    have hkey : i.key ∈ a.instantiations.map (·.key) := by
      rw [instantiations_keys h]
      exact (hcomplete.sound.done i.key).2 ⟨i, hi, rfl⟩
    obtain ⟨j, hj, hsame⟩ := List.mem_map.1 hkey
    obtain ⟨key, -, hj'⟩ := List.mem_filterMap.1 hj
    have hnode := (TypeGraph.instantiation?_eq_some hj').1
    have heq : Node.instantiation j = .instantiation i :=
      List.inj_on_of_nodup_map hcomplete.sound.nodup hnode hi (congrArg InstanceKey.name hsame)
    rwa [← Node.instantiation.inj heq]

/-- The node of a type that the walk reaches. -/
theorem node_of_ordered (h : model.analyze = .ok a) {t : Named} (ht : t ∈ a.emission.ordered) :
    ∃ node ∈ a.graph.nodes, node.ref = t ∧ a.graph.get? t.name = some node := by
  have hcomplete := complete_of_analyze h
  obtain ⟨node, hnode, rfl⟩ := hcomplete.holds_iff.1 (holds_of_ordered h ht)
  exact ⟨node, hnode, rfl, TypeGraph.get?_of_mem hcomplete.sound.nodup hnode⟩

theorem scalars_names (a : Analysis) :
    a.emission.scalars.map (·.name) = (a.typesIn .scalars).map Named.name := by
  refine map_filterMap_eq fun t _ => ?_
  cases t with
  | scalar s => by_cases hs : s.builtin <;> simp [Named.definedIn, Named.name, hs]
  | _ => rfl

theorem enums_names (h : model.analyze = .ok a) :
    a.emission.enums.map (·.name) = (a.typesIn .enums).map Named.name := by
  refine map_filterMap_eq fun t ht => ?_
  obtain ⟨node, -, href, hget⟩ := node_of_ordered h ht
  cases t with
  | enum name =>
    cases node with
    | enum t =>
      simp only
      rw [show a.emission.graph.get? name = some (.enum t) from hget]
      rfl
    | _ => cases href
  | scalar s => by_cases hs : s.builtin <;> simp [Named.definedIn, hs]
  | _ => rfl

theorem objects_names (h : model.analyze = .ok a) :
    a.emission.objectNodes.map Node.name = (a.typesIn .objects).map Named.name := by
  refine map_filterMap_eq fun t ht => ?_
  obtain ⟨node, hnode, href, hget⟩ := node_of_ordered h ht
  rw [show a.emission.graph.get? t.name = some node from hget]
  cases t with
  | object name =>
    cases node with
    | object t =>
      cases href
      rfl
    | _ => cases href
  | instantiation key =>
    cases node with
    | instantiation i =>
      cases href
      have hany : a.emission.instantiations.any (·.key = i.key) = true :=
        List.any_eq_true.2 ⟨i, (mem_instantiations h).2 hnode, by simp⟩
      simp [hany, Named.definedIn]
    | _ => cases href
  | scalar s => by_cases hs : s.builtin <;> simp [Named.definedIn, hs]
  | _ => rfl

theorem definedTypes_nodup (h : model.analyze = .ok a) : a.definedTypes.Nodup := by
  refine List.nodup_flatMap.2 ⟨fun place _ => ?_, ?_⟩
  · cases place with
    | instances =>
      have hkeys := (complete_of_analyze h).sound.finished
      rw [← instantiations_keys h] at hkeys
      exact hkeys.of_map.map_on fun i hi j hj heq =>
        List.inj_on_of_nodup_map hkeys hi hj (Named.instantiation.inj heq)
    | _ => exact (ordered_nodup a).filter _
  · refine (by decide : [TypeSection.scalars, .enums, .objects, .instances].Nodup).imp ?_
    intro place place' hne t ht ht'
    exact hne (Option.some.inj
      ((Analysis.definedIn_of_mem ht).symm.trans (Analysis.definedIn_of_mem ht')))

theorem holds_of_definedTypes (h : model.analyze = .ok a) {t : Named} (ht : t ∈ a.definedTypes) :
    a.resolution.Holds t := by
  obtain ⟨place, -, ht⟩ := List.mem_flatMap.1 ht
  cases place with
  | instances =>
    obtain ⟨i, hi, rfl⟩ := List.mem_map.1 ht
    exact .inl (List.mem_map_of_mem (f := Node.ref) ((mem_instantiations h).1 hi))
  | _ => exact holds_of_ordered h (List.mem_filter.1 ht).1

/-- The names in a module are those of the types that it defines and of its generics. -/
theorem entityNames_perm (h : model.analyze = .ok a) : a.emission.entityNames.Perm
    (a.definedTypes.map Named.name ++ a.graph.templates.map (·.name)) := by
  have hinstances : a.emission.instantiations.map (·.key.name) =
      (a.typesIn .instances).map Named.name := by
    rw [Analysis.typesIn, List.map_map]
    rfl
  rw [Emission.entityNames, Emission.namesBeforeInstances, scalars_names, enums_names h,
    objects_names h, hinstances, Analysis.definedTypes]
  simp only [List.flatMap_cons, List.flatMap_nil, List.append_nil, List.map_append, List.append_assoc]
  refine List.Perm.append_left _ (List.Perm.append_left _ ?_)
  exact List.perm_append_comm.trans (by rw [List.append_assoc]; rfl)

/-- No two entities of a module share a name. -/
theorem entityNames_nodup (h : model.analyze = .ok a) : a.emission.entityNames.Nodup := by
  have hcomplete := complete_of_analyze h
  refine (entityNames_perm h).nodup_iff.2 (List.Nodup.append ?_ (templates_nodup h) ?_)
  · exact (definedTypes_nodup h).map_on fun t ht t' ht' =>
      hcomplete.holds_inj (holds_of_definedTypes h ht) (holds_of_definedTypes h ht')
  · intro name hname htemplate
    obtain ⟨t, ht, rfl⟩ := List.mem_map.1 hname
    obtain ⟨node, hnode, rfl⟩ := hcomplete.holds_iff.1 (holds_of_definedTypes h ht)
    exact List.disjoint_of_nodup_append hcomplete.sound.names (List.mem_map_of_mem hnode) htemplate

end SourceModel

end SchemaCompiler
