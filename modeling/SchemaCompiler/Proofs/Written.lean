import SchemaCompiler.Proofs.DefinitionOrder
import SchemaCompiler.Proofs.Variables
import SchemaCompiler.Proofs.Words

/-! How the types of a graph are written. The words of a written type are names of the schema
library, variables of the types and generics that it mentions, and parameters of the factory around
it, each of them where the type has it. -/

namespace SchemaCompiler

namespace TypeNode

/-- The names of the types and generics that a type mentions, apart from builtin scalars. -/
def mentions : TypeNode → List String
  | .named (.scalar s) => if s.builtin then [] else [s.name]
  | .named type => [type.name]
  | .list element => element.mentions
  | .nonNull inner => inner.mentions
  | .placeholder _ => []
  | .applied generic argument => generic :: argument.mentions

/-- For each word of the written type, whether the type has a placeholder there. -/
def holes : TypeNode → List Bool
  | .named _ => [false]
  | .list element => false :: element.holes
  | .nonNull inner => false :: inner.holes
  | .placeholder _ => [true]
  | .applied _ argument => false :: argument.holes

/-- Under the parameters of a factory, a type is written as a term. -/
inductive Writes (params : List (String × String)) : TypeNode → TypeTerm → Prop
  | list {element : TypeNode} {inner : TypeTerm} (writes : Writes params element inner) :
    Writes params (.list element) (.list inner)
  | nonNull {inner : TypeNode} {inner' : TypeTerm} (writes : Writes params inner inner') :
    Writes params (.nonNull inner) (.nonNull inner')
  | placeholder {name parameter : String} (lookup : params.lookup name = some parameter) :
    Writes params (.placeholder name) (.parameter parameter)
  | applied (generic : String) {argument : TypeNode} {inner : TypeTerm}
      (writes : Writes params argument inner) :
    Writes params (.applied generic argument) (.call (safeIdentifier generic) inner)
  | builtin {s : Scalar} {name : String} (builtin : s.builtin = true)
      (lookup : libraryScalars.lookup s.name = some name) :
    Writes params (.named (.scalar s)) (.library name)
  | named {n : Named} (other : ∀ s, n = .scalar s → s.builtin = false) :
    Writes params (.named n) (.var (safeIdentifier n.name))

variable {params : List (String × String)} {t : TypeNode} {term : TypeTerm}

theorem writes_of_term (h : t.term params = .ok term) : t.Writes params term := by
  induction t generalizing term with
  | named n =>
    cases n with
    | scalar s =>
      rw [TypeNode.term] at h
      split at h
      · rename_i hbuiltin
        split at h
        · rename_i name hlookup
          cases h
          exact .builtin hbuiltin hlookup
        · cases h
      · rename_i hother
        cases h
        exact .named (n := .scalar s) fun s' hs => by
          cases hs
          simpa using hother
    | _ =>
      cases h
      exact .named fun s hs => by cases hs
  | list element ih =>
    rw [TypeNode.term, except_bind_eq_ok] at h
    obtain ⟨inner, hinner, h⟩ := h
    cases h
    exact .list (ih hinner)
  | nonNull inner ih =>
    rw [TypeNode.term, except_bind_eq_ok] at h
    obtain ⟨inner', hinner, h⟩ := h
    cases h
    exact .nonNull (ih hinner)
  | placeholder name =>
    rw [TypeNode.term] at h
    split at h
    · rename_i parameter hlookup
      cases h
      exact .placeholder hlookup
    · cases h
  | applied generic argument ih =>
    rw [TypeNode.term, except_bind_eq_ok] at h
    obtain ⟨inner, hinner, h⟩ := h
    cases h
    exact .applied generic (ih hinner)

end TypeNode

def TypeTerm.parameters : TypeTerm → List String
  | .library _ => []
  | .var _ => []
  | .parameter name => [name]
  | .list element => element.parameters
  | .nonNull inner => inner.parameters
  | .call _ argument => argument.parameters

namespace TypeNode.Writes

variable {params : List (String × String)} {t : TypeNode} {term : TypeTerm}

theorem mentions_of_other {n : Named} (hother : ∀ s, n = .scalar s → s.builtin = false) :
    (TypeNode.named n).mentions = [n.name] ∧ (TypeNode.named n).libraryNames = [] := by
  cases n with
  | scalar s => simp [mentions, libraryNames, hother s rfl, Named.name]
  | _ => exact ⟨rfl, rfl⟩

/-- The variables are those of the types and generics that are mentioned. -/
theorem variables_eq (h : t.Writes params term) :
    term.variables = t.mentions.map safeIdentifier := by
  induction h with
  | list _ ih => exact ih
  | nonNull _ ih => exact ih
  | placeholder _ => rfl
  | applied generic _ ih => rw [TypeTerm.variables, mentions, List.map_cons, ih]
  | builtin hbuiltin _ =>
    rw [mentions, if_pos hbuiltin]
    rfl
  | named hother =>
    rw [(mentions_of_other hother).1]
    rfl

theorem parameters (h : t.Writes params term) : ∀ q ∈ term.parameters, q ∈ params.map (·.2) := by
  induction h with
  | list _ ih => exact ih
  | nonNull _ ih => exact ih
  | applied _ _ ih => exact ih
  | placeholder hlookup =>
    intro q hq
    obtain rfl := List.mem_singleton.1 hq
    obtain ⟨l₁, l₂, hparams, -⟩ := List.lookup_eq_some_iff.1 hlookup
    rw [hparams]
    simp
  | builtin _ _ => exact fun _ hq => nomatch hq
  | named _ => exact fun _ hq => nomatch hq

theorem mem_words (h : t.Writes params term) (w : String) : w ∈ term.words ↔
    w ∈ t.libraryNames ∨ w ∈ term.variables ∨ w ∈ term.parameters := by
  induction h with
  | list _ ih =>
    rw [TypeTerm.words, libraryNames, List.mem_cons, List.mem_cons, ih, or_assoc]
    rfl
  | nonNull _ ih =>
    rw [TypeTerm.words, libraryNames, List.mem_cons, List.mem_cons, ih, or_assoc]
    rfl
  | placeholder _ => simp [TypeTerm.words, libraryNames, TypeTerm.variables, TypeTerm.parameters]
  | applied generic _ ih =>
    rw [TypeTerm.words, List.mem_cons, ih, TypeTerm.variables, List.mem_cons, libraryNames,
      TypeTerm.parameters, or_assoc, or_left_comm]
  | builtin hbuiltin hlookup =>
    simp [TypeTerm.words, libraryNames, TypeTerm.variables, TypeTerm.parameters, hbuiltin, hlookup]
  | named hother =>
    rw [(mentions_of_other hother).2]
    simp [TypeTerm.words, TypeTerm.variables, TypeTerm.parameters]

/-- A parameter stands exactly where the type has a placeholder if no variable is equal to it. -/
theorem holes_eq_iff {p q : String} (h : t.Writes [(p, q)] term)
    (hlibrary : q ∉ schemaLibraryNames) :
    term.words.map (fun w => decide (w = q)) = t.holes ↔ q ∉ term.variables := by
  have hother : ∀ n ∈ schemaLibraryNames, n ≠ q := by
    rintro n hn rfl
    exact hlibrary hn
  induction h with
  | list _ ih =>
    have hlist := hother "GraphQLList" (by decide)
    simpa [TypeTerm.words, holes, hlist, TypeTerm.variables] using ih
  | nonNull _ ih =>
    have hnonNull := hother "GraphQLNonNull" (by decide)
    simpa [TypeTerm.words, holes, hnonNull, TypeTerm.variables] using ih
  | placeholder hlookup =>
    have hmem := (Writes.placeholder hlookup).parameters _ (List.mem_singleton_self _)
    rw [List.mem_singleton.1 hmem]
    simp [TypeTerm.words, holes, TypeTerm.variables]
  | applied generic _ ih =>
    simp [TypeTerm.words, holes, TypeTerm.variables, ih, @eq_comm _ q]
  | builtin hbuiltin hlookup =>
    -- the name of a builtin scalar is one of the library's, so it is not the parameter
    have hmem := libraryNames_subset (.named (.scalar _)) (by
      rw [libraryNames, if_pos hbuiltin, hlookup]
      exact List.mem_singleton_self _)
    simp [TypeTerm.words, holes, hother _ hmem, TypeTerm.variables]
  | named _ => simp [TypeTerm.words, holes, TypeTerm.variables, @eq_comm _ q]

end TypeNode.Writes

def FieldEntry.types (f : FieldEntry) : List TypeTerm :=
  f.type :: f.arguments.map (·.type)

namespace Emission

variable {e : Emission}

/-- A field of a type is written as an entry. -/
structure WritesField (e : Emission) (typeName : String) (params : List (String × String))
    (f : GraphField) (entry : FieldEntry) : Prop where
  name : entry.name = f.name
  resolver : e.bindings.get? typeName f.name = some entry.resolver
  type : ∃ t, f.type = some t ∧ t.Writes params entry.type
  arguments : List.Forall₂ (fun g a => a.name = g.name ∧ g.type.Writes params a.type)
    f.arguments entry.arguments

theorem writesField_of_entry {typeName : String} {params : List (String × String)} {f : GraphField}
    {entry : FieldEntry} (h : e.fieldEntry typeName params f = .ok entry) :
    e.WritesField typeName params f entry := by
  obtain ⟨resolver, type, term, arguments, hresolver, htype, hterm, harguments, rfl⟩ :=
    fieldEntry_eq_ok.1 h
  refine ⟨rfl, hresolver, ⟨type, htype, TypeNode.writes_of_term hterm⟩,
    harguments.imp fun g a ha => ?_⟩
  obtain ⟨term', hterm', rfl⟩ := argumentEntry_eq_ok.1 ha
  exact ⟨rfl, TypeNode.writes_of_term hterm'⟩

theorem WritesField.types {typeName : String} {params : List (String × String)} {f : GraphField}
    {entry : FieldEntry} (h : e.WritesField typeName params f entry) :
    List.Forall₂ (TypeNode.Writes params) f.types entry.types := by
  obtain ⟨t, htype, hwrites⟩ := h.type
  have harguments : List.Forall₂ (TypeNode.Writes params) (f.arguments.map (·.type))
      (entry.arguments.map (·.type)) := by
    rw [List.forall₂_map_left_iff, List.forall₂_map_right_iff]
    exact h.arguments.imp fun _ _ ha => ha.2
  rw [GraphField.types, htype]
  exact .cons hwrites harguments

abbrev WritesFields (e : Emission) (typeName : String) (params : List (String × String)) :
    List GraphField → List FieldEntry → Prop :=
  List.Forall₂ (e.WritesField typeName params)

theorem WritesFields.types {typeName : String} {params : List (String × String)}
    {fields : List GraphField} {entries : List FieldEntry}
    (h : e.WritesFields typeName params fields entries) : List.Forall₂ (TypeNode.Writes params)
      (TypeGraph.references fields) (entries.flatMap FieldEntry.types) :=
  List.rel_flatMap h fun _ _ hentry => hentry.types

/-- A template is written as a factory. -/
structure WritesFactory (e : Emission) (t : Template) (f : FactoryEntry) : Prop where
  var : f.var = safeIdentifier t.name
  name : f.name = t.name
  parameters : f.parameters = (factoryParameters t).map (·.2)
  fields : e.WritesFields t.name (factoryParameters t) t.fields f.fields

theorem writesFactories {entries : List FactoryEntry} (h : e.factories = .ok entries) :
    List.Forall₂ e.WritesFactory e.graph.templates entries := by
  refine (factories_eq_ok.1 h).imp fun t f hf => ?_
  obtain ⟨fields, hfields, rfl⟩ := hf
  exact ⟨rfl, rfl, rfl, hfields.imp fun _ _ => writesField_of_entry⟩

/-- An object type is written in full. -/
structure WritesObject (e : Emission) (node : Node) (o : ObjectEntry) : Prop where
  var : o.var = safeIdentifier node.name
  name : o.name = node.name
  fields : e.WritesFields node.name [] node.fields o.fields

theorem writesObjects {defined : List String} {nodes : List Node} {entries : List ObjectEntry}
    (h : e.objectEntries defined nodes = .ok entries) :
    List.Forall₂ e.WritesObject nodes entries := by
  induction nodes generalizing defined entries with
  | nil =>
    cases h
    exact .nil
  | cons node rest ih =>
    rw [objectEntries] at h
    obtain ⟨fields, hfields, h⟩ := except_bind_eq_ok.1 h
    obtain ⟨others, hothers, h⟩ := except_bind_eq_ok.1 h
    cases h
    exact .cons ⟨rfl, rfl, (mapM_eq_ok.1 hfields).imp fun _ _ => writesField_of_entry⟩ (ih hothers)

/-- An instantiation is written as a call of its factory. -/
structure WritesInstance (i : Instantiation) (entry : InstanceEntry) : Prop where
  var : entry.var = safeIdentifier i.key.name
  factory : entry.factory = safeIdentifier i.key.generic
  argument : ∃ term, entry.arguments = [term] ∧ (TypeNode.named i.argument).Writes [] term

theorem writesInstances {entries : List InstanceEntry} (h : e.instances = .ok entries) :
    List.Forall₂ WritesInstance e.instantiations entries := by
  refine (mapM_eq_ok.1 h).imp fun i entry hentry => ?_
  obtain ⟨term, hterm, hentry⟩ := except_bind_eq_ok.1 hentry
  cases hentry
  exact ⟨rfl, rfl, term, rfl, TypeNode.writes_of_term hterm⟩

end Emission

end SchemaCompiler
