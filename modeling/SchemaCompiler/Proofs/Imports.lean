import SchemaCompiler.Proofs.Capture
import SchemaCompiler.Proofs.ImportSection
import SchemaCompiler.Proofs.Spelling

/-! The imports of a module. A module imports the names of the schema library and of the runtime
that stand in its definitions and no others, and every other word there is a word of the layout, a
variable that the module assigns, or a parameter. -/

namespace SchemaCompiler

/-- The words that are written between names: those of the language, of keyword arguments, and the
name of the function that builds the schema. -/
def layoutWords : List String :=
  ["None", "args", "build_schema", "def", "deprecation_reason", "description", "fields", "lambda",
    "mutation", "name", "query", "resolve", "return", "subscription", "types"]

section

variable {w : String} (hw : w ∉ layoutWords)

include hw

theorem not_mem_keywordWords {keyword : String} (hkeyword : keyword ∈ layoutWords)
    (s : Option String) : w ∉ keywordWords keyword s := by
  intro hmem
  obtain ⟨-, -, rfl⟩ := List.mem_map.1 hmem
  exact hw hkeyword

theorem not_mem_textWords? (s : Option String) : w ∉ textWords? s := by
  intro hmem
  rw [textWords?] at hmem
  split at hmem
  · exact hw (List.mem_singleton.1 hmem ▸ by decide)
  · cases hmem

theorem ScalarEntry.mem_words {s : ScalarEntry} :
    w ∈ s.words ↔ w = s.var ∨ w = "define_scalar" := by
  have hkeyword : w ≠ "description" := fun heq => hw (heq ▸ by decide)
  simp [words, not_mem_textWords? hw, hkeyword]

theorem EnumEntry.mem_words {e : EnumEntry} : w ∈ e.words ↔
    w = e.var ∨ w = "GraphQLEnumType" ∨ ∃ v ∈ e.values, w = "GraphQLEnumValue" := by
  have hdescription := not_mem_keywordWords hw (by decide : "description" ∈ layoutWords)
  simp only [words, List.mem_append, List.mem_cons, List.not_mem_nil, List.mem_flatMap,
    hdescription, or_false, or_assoc]

theorem ArgumentEntry.mem_words {a : ArgumentEntry} :
    w ∈ a.words ↔ w = "GraphQLArgument" ∨ w ∈ a.type.words := by
  have hdescription := not_mem_keywordWords hw (by decide : "description" ∈ layoutWords)
  simp only [words, List.cons_append, List.mem_append, List.mem_cons, hdescription, or_false]

theorem FieldEntry.mem_words {f : FieldEntry} : w ∈ f.words ↔ w = "GraphQLField" ∨
    (∃ a ∈ f.arguments, w = "GraphQLArgument") ∨ w ∈ f.resolver.runtimeNames ∨
      ∃ t ∈ f.types, w ∈ t.words := by
  have hdescription := not_mem_keywordWords hw (by decide : "description" ∈ layoutWords)
  have hreason := not_mem_keywordWords hw (by decide : "deprecation_reason" ∈ layoutWords)
  have hresolve : w ≠ "resolve" := fun heq => hw (heq ▸ by decide)
  have hargs : w ≠ "args" := fun heq => hw (heq ▸ by decide)
  have harguments : (w ∈ if f.arguments.isEmpty then [] else
      "args" :: f.arguments.flatMap ArgumentEntry.words) ↔
        (∃ a ∈ f.arguments, w = "GraphQLArgument") ∨ ∃ a ∈ f.arguments, w ∈ a.type.words := by
    split
    · rename_i hempty
      rw [List.isEmpty_iff.1 hempty]
      simp
    · simp only [List.mem_cons, hargs, false_or, List.mem_flatMap, ArgumentEntry.mem_words hw,
        and_or_left, exists_or]
  have htypes : (∃ t ∈ f.types, w ∈ t.words) ↔
      w ∈ f.type.words ∨ ∃ a ∈ f.arguments, w ∈ a.type.words := by
    simp [types]
  rw [htypes]
  simp only [words, List.mem_append, List.mem_cons, hdescription, hreason, hresolve, harguments,
    or_false, false_or]
  simp only [or_assoc, or_left_comm, or_comm]

theorem FactoryEntry.mem_words {f : FactoryEntry} : w ∈ f.words ↔
    w = "generic_factory" ∨ w = f.var ∨ w ∈ f.parameters ∨ w = "GraphQLObjectType" ∨
      ∃ field ∈ f.fields, w ∈ field.words := by
  have hdescription := not_mem_keywordWords hw (by decide : "description" ∈ layoutWords)
  have hlayout : ∀ n ∈ layoutWords, w ≠ n := fun n hn heq => hw (heq ▸ hn)
  have hdef := hlayout "def" (by decide)
  have hreturn := hlayout "return" (by decide)
  have hname := hlayout "name" (by decide)
  have hfields := hlayout "fields" (by decide)
  have hlambda := hlayout "lambda" (by decide)
  simp [words, fieldMapWords, *]

theorem ObjectEntry.mem_words {o : ObjectEntry} : w ∈ o.words ↔
    w = o.var ∨ w = "GraphQLObjectType" ∨ ∃ field ∈ o.fields, w ∈ field.words := by
  have hdescription := not_mem_keywordWords hw (by decide : "description" ∈ layoutWords)
  have hlayout : ∀ n ∈ layoutWords, w ≠ n := fun n hn heq => hw (heq ▸ hn)
  have hname := hlayout "name" (by decide)
  have hstart : w ∉ (if o.isLazy then ["fields", "lambda"] else ["fields"]) := by
    split <;> simp [hlayout "fields" (by decide), hlayout "lambda" (by decide)]
  simp [words, fieldMapWords, hdescription, hname, hstart]

theorem SchemaEntry.mem_words {s : SchemaEntry} (hroots : ∀ root ∈ s.roots, root.1 ∈ layoutWords) :
    w ∈ s.words ↔ w = "GraphQLSchema" ∨ w ∈ s.roots.map (·.2) ++ s.types := by
  have hlayout : ∀ n ∈ layoutWords, w ≠ n := fun n hn heq => hw (heq ▸ hn)
  have hdef := hlayout "def" (by decide)
  have hname := hlayout "build_schema" (by decide)
  have hreturn := hlayout "return" (by decide)
  have hkeyword := hlayout "types" (by decide)
  have hpairs : (w ∈ s.roots.flatMap fun root => [root.1, root.2]) ↔
      w ∈ s.roots.map (·.2) := by
    rw [List.mem_flatMap, List.mem_map]
    refine exists_congr fun root => and_congr_right fun hroot => ?_
    simp [hlayout _ (hroots root hroot), eq_comm]
  simp only [words, List.mem_append, List.mem_cons, hpairs, hdef, hname, hreturn, hkeyword,
    List.not_mem_nil, or_false, false_or, or_self, or_assoc]

end

namespace SchemaModule

variable {m : SchemaModule} {w : String}

/-- Whether a name is one that a module imports or assigns, or a word of the layout. -/
def Knows (m : SchemaModule) (name : String) : Prop :=
  name ∈ layoutWords ∨ name ∈ m.libraryImports ∨ name ∈ m.runtimeImports ∨ name ∈ m.assignedNames

def fieldEntries (m : SchemaModule) : List FieldEntry :=
  m.factories.flatMap (·.fields) ++ m.objects.flatMap (·.fields)

end SchemaModule

namespace Emission

variable {e : Emission} {owner : String} {params : List (String × String)} {f : GraphField}
  {entry : FieldEntry} {w : String}

theorem mem_writtenFields : (owner, f) ∈ e.writtenFields ↔
    (∃ t ∈ e.graph.templates, t.name = owner ∧ f ∈ t.fields) ∨
      ∃ node ∈ e.objectNodes, node.name = owner ∧ f ∈ node.fields := by
  simp [writtenFields, and_comm]

theorem WritesField.mem_words (hwrites : e.WritesField owner params f entry) (hw : w ∉ layoutWords)
    (hname : w ∈ f.libraryNames) : w ∈ entry.words := by
  rw [FieldEntry.mem_words hw]
  rcases List.mem_append.1 hname with htype | hargument
  · obtain ⟨t, ht, hname⟩ := List.mem_flatMap.1 htype
    obtain ⟨term, hterm, hwrites⟩ := forall₂_mem_left hwrites.types t ht
    exact .inr (.inr (.inr ⟨term, hterm, (hwrites.mem_words w).2 (.inl hname)⟩))
  · split at hargument
    · cases hargument
    · rename_i hsome
      obtain ⟨g, hg⟩ := List.exists_mem_of_ne_nil _ (mt List.isEmpty_iff.2 hsome)
      obtain ⟨entry', hentry, -⟩ := forall₂_mem_left hwrites.arguments g hg
      exact .inr (.inl ⟨entry', hentry, List.mem_singleton.1 hargument⟩)

namespace Sections

variable {model : SourceModel} {a : Analysis} {m : SchemaModule} {style : ModuleStyle}

/-- A field that the module writes stands in one of its field maps. -/
theorem exists_fieldEntry (hm : a.emission.Sections style m)
    (hf : (owner, f) ∈ a.emission.writtenFields) :
    ∃ params, ∃ entry ∈ m.fieldEntries, a.emission.WritesField owner params f entry := by
  rcases mem_writtenFields.1 hf with ⟨t, ht, rfl, hmem⟩ | ⟨node, hnode, rfl, hmem⟩
  · obtain ⟨factory, hfactory, hwrites⟩ := forall₂_mem_left (writesFactories hm.factories) t ht
    obtain ⟨entry, hentry, hentryOf⟩ := forall₂_mem_left hwrites.fields f hmem
    exact ⟨_, entry, List.mem_append_left _ (List.mem_flatMap.2 ⟨factory, hfactory, hentry⟩),
      hentryOf⟩
  · obtain ⟨o, ho, hwrites⟩ := forall₂_mem_left (writesObjects hm.objects) node hnode
    obtain ⟨entry, hentry, hentryOf⟩ := forall₂_mem_left hwrites.fields f hmem
    exact ⟨_, entry, List.mem_append_right _ (List.mem_flatMap.2 ⟨o, ho, hentry⟩), hentryOf⟩

/-- What stands in a field map is the entry of a written field. -/
theorem exists_writtenField (hm : a.emission.Sections style m) {entry : FieldEntry}
    (hentry : entry ∈ m.fieldEntries) :
    ∃ owner f, (owner, f) ∈ a.emission.writtenFields ∧
      ∃ params, a.emission.WritesField owner params f entry := by
  rcases List.mem_append.1 hentry with hentry | hentry
  · obtain ⟨factory, hfactory, hentry⟩ := List.mem_flatMap.1 hentry
    obtain ⟨t, ht, hwrites⟩ := forall₂_mem_right (writesFactories hm.factories) factory hfactory
    obtain ⟨f, hf, hentryOf⟩ := forall₂_mem_right hwrites.fields entry hentry
    exact ⟨_, f, mem_writtenFields.2 (.inl ⟨t, ht, rfl, hf⟩), _, hentryOf⟩
  · obtain ⟨o, ho, hentry⟩ := List.mem_flatMap.1 hentry
    obtain ⟨node, hnode, hwrites⟩ := forall₂_mem_right (writesObjects hm.objects) o ho
    obtain ⟨f, hf, hentryOf⟩ := forall₂_mem_right hwrites.fields entry hentry
    exact ⟨_, f, mem_writtenFields.2 (.inr ⟨node, hnode, rfl, hf⟩), _, hentryOf⟩

theorem kind_of_objectNodes {node : Node} (hnode : node ∈ a.emission.objectNodes) :
    node.kind = .object := by
  obtain ⟨t, -, ht⟩ := List.mem_filterMap.1 hnode
  split at ht
  · cases ht
    rfl
  · split at ht <;> cases ht
    rfl
  · cases ht

end Sections

end Emission

namespace Emission.Sections

variable {e : Emission} {m : SchemaModule} {style : ModuleStyle} {w : String}

end Emission.Sections

theorem UnitSource.analyzed_proper {source : UnitSource} {hooks : Hooks} {a : Analysis}
    (h : ∃ model, source.extract = .ok model ∧ (hooks.runPre model).analyze = .ok a)
    (hpre : hooks.KeepProper) : a.model.Proper := by
  obtain ⟨model, hmodel, ha⟩ := h
  rw [(SourceModel.analyze_eq_ok.1 ha).1]
  exact hpre.runPre (UnitSource.extract_proper hmodel)

theorem UnitSource.Emits.model_proper {source : UnitSource} {config : Config} {hooks : Hooks}
    {a : Analysis} {m : SchemaModule} {schema : EmittedSchema}
    (h : source.Emits config hooks a m schema) (hpre : hooks.KeepProper) : a.model.Proper :=
  analyzed_proper h.analyzed hpre

end SchemaCompiler
