import SchemaCompiler.Proofs.Definitions
import SchemaCompiler.Proofs.Imports

/-! Reading written types back. The expression of a type is made of calls of one argument each, and
read as such, under what its names stand for, it gives back the type that it was written for. -/

namespace SchemaCompiler

/-- A name, or a function that is called with one argument. -/
inductive NestedCall where
  | name (name : String)
  | call (function : String) (argument : NestedCall)
  deriving DecidableEq, Repr

namespace NestedCall

/-- Reads a call at the start of a text. -/
def read? (cs : List Char) : Option (NestedCall × List Char) :=
  let name := cs.takeWhile isNamePart
  if name.head?.any (!·.isDigit) then
    match _h : cs.dropWhile isNamePart with
    | '(' :: rest =>
      match read? rest with
      | some (argument, ')' :: rest) => some (.call (String.ofList name) argument, rest)
      | _ => none
    | rest => some (.name (String.ofList name), rest)
  else none
termination_by cs.length
decreasing_by
  have hlength := (List.dropWhile_suffix isNamePart (l := cs)).length_le
  rw [_h, List.length_cons] at hlength
  omega

def ofText? (text : String) : Option NestedCall :=
  match read? text.toList with
  | some (c, []) => some c
  | _ => none

end NestedCall

def TypeTerm.calls : TypeTerm → NestedCall
  | .library name => .name name
  | .var name => .name name
  | .parameter name => .name name
  | .list element => .call "GraphQLList" element.calls
  | .nonNull inner => .call "GraphQLNonNull" inner.calls
  | .call factory argument => .call factory argument.calls

namespace NestedCall

/-- A word is read up to what cannot stand in it. -/
theorem split_word {name : String} (h : IsName name) (rest : List Char)
    (hrest : rest.head?.all (!isNamePart ·) = true) :
    (name.toList ++ rest).takeWhile isNamePart = name.toList ∧
      (name.toList ++ rest).dropWhile isNamePart = rest := by
  rw [List.takeWhile_append_of_pos h, List.dropWhile_append_of_pos h]
  rcases rest with _ | ⟨c, rest⟩
  · exact ⟨List.append_nil _, rfl⟩
  · have hc : ¬isNamePart c = true := by simpa using hrest
    rw [List.takeWhile_cons_of_neg hc, List.dropWhile_cons_of_neg hc]
    exact ⟨List.append_nil _, rfl⟩

theorem read?_name {name : String} (h : IsWord name) {rest : List Char}
    (hrest : rest.head?.all (fun c => !isNamePart c && c ≠ '(') = true) :
    read? (name.toList ++ rest) = some (.name name, rest) := by
  obtain ⟨htake, hdrop⟩ := split_word h.isName rest (by
    revert hrest
    cases rest.head? <;> simp +contextual)
  rw [read?, htake, if_pos (isWord_iff.1 h).2]
  split
  · rename_i hcall
    rw [hdrop] at hcall
    rw [hcall] at hrest
    cases hrest
  · rw [hdrop, String.ofList_toList]

theorem read?_call {function text : String} (h : IsWord function) {argument : NestedCall}
    {rest : List Char} (hargument : read? (text.toList ++ ')' :: rest) =
      some (argument, ')' :: rest)) :
    read? ((function ++ "(" ++ text ++ ")").toList ++ rest) =
      some (.call function argument, rest) := by
  have hlist : (function ++ "(" ++ text ++ ")").toList ++ rest =
      function.toList ++ '(' :: (text.toList ++ ')' :: rest) := by
    simp
  obtain ⟨htake, hdrop⟩ := split_word h.isName ('(' :: (text.toList ++ ')' :: rest)) rfl
  rw [hlist, read?, htake, if_pos (isWord_iff.1 h).2]
  split
  · rename_i hcall
    rw [hdrop] at hcall
    cases hcall
    simp only [hargument, String.ofList_toList]
  · rename_i hother
    exact absurd hdrop (hother _)

end NestedCall

/-- A written type is read to its end. -/
theorem TypeTerm.read?_text {t : TypeTerm} (h : ∀ name ∈ t.words, IsWord name) (rest : List Char)
    (hrest : rest.head?.all (fun c => !isNamePart c && c ≠ '(') = true) :
    NestedCall.read? (t.text.toList ++ rest) = some (t.calls, rest) := by
  induction t generalizing rest with
  | library name => exact NestedCall.read?_name (h name List.mem_cons_self) hrest
  | var name => exact NestedCall.read?_name (h name List.mem_cons_self) hrest
  | parameter name => exact NestedCall.read?_name (h name List.mem_cons_self) hrest
  | list element ih =>
    obtain ⟨hfunction, helement⟩ := List.forall_mem_cons.1 h
    exact NestedCall.read?_call hfunction (ih helement (')' :: rest) rfl)
  | nonNull inner ih =>
    obtain ⟨hfunction, hinner⟩ := List.forall_mem_cons.1 h
    exact NestedCall.read?_call hfunction (ih hinner (')' :: rest) rfl)
  | call factory argument ih =>
    obtain ⟨hfactory, hargument⟩ := List.forall_mem_cons.1 h
    exact NestedCall.read?_call hfactory (ih hargument (')' :: rest) rfl)

theorem TypeTerm.ofText?_text {t : TypeTerm} (h : ∀ name ∈ t.words, IsWord name) :
    NestedCall.ofText? t.text = some t.calls := by
  have hread := read?_text h [] rfl
  rw [List.append_nil] at hread
  rw [NestedCall.ofText?, hread]

inductive Meaning where
  | nonNull
  | list
  | generic (name : String)
  | type (type : TypeNode)

/-- The type that calls make if their names have these meanings. -/
def NestedCall.type? (meanings : List (String × Meaning)) : NestedCall → Option TypeNode
  | .name x =>
    match meanings.lookup x with
    | some (.type t) => some t
    | _ => none
  | .call function argument =>
    match meanings.lookup function with
    | some .nonNull => (argument.type? meanings).map .nonNull
    | some .list => (argument.type? meanings).map .list
    | some (.generic g) => (argument.type? meanings).map (.applied g)
    | _ => none

def readType? (meanings : List (String × Meaning)) (text : String) : Option TypeNode :=
  (NestedCall.ofText? text).bind (·.type? meanings)

def libraryMeanings : List (String × Meaning) :=
  [("GraphQLNonNull", .nonNull), ("GraphQLList", .list)] ++
    builtinScalars.filterMap fun s =>
      (libraryScalars.lookup s.name).map fun name => (name, .type (.named (.scalar s)))

/-- The parameters of a factory, given with the type parameters that they were made from, stand for
placeholders, the names of the schema library for what they are in the schema, and the variables of a
module for the types and generics that are assigned to them. -/
def Analysis.meanings (a : Analysis) (m : SchemaModule) (params : List (String × String)) :
    List (String × Meaning) :=
  params.map (fun (name, parameter) => (parameter, .type (.placeholder name))) ++ libraryMeanings ++
    m.typeVars.zip (a.definedTypes.map fun n => .type (.named n)) ++
    (m.factories.map (·.var)).zip (a.graph.templates.map fun t => .generic t.name)

/-- The types of a field and of its arguments are read back from a written field. -/
def FieldEntry.ReadsAs (meanings : List (String × Meaning)) (entry : FieldEntry)
    (g : GraphField) : Prop :=
  entry.name = g.name ∧
    List.Forall₂ (fun t term => readType? meanings term.text = some t) g.types entry.types

theorem FieldEntry.WellSpelled.types {entry : FieldEntry} (h : entry.WellSpelled) :
    ∀ term ∈ entry.types, ∀ name ∈ term.words, IsWord name := by
  refine List.forall_mem_cons.2 ⟨h.type, fun term hterm => ?_⟩
  obtain ⟨argument, hargument, rfl⟩ := List.mem_map.1 hterm
  exact (h.arguments argument hargument).type

theorem lookup_of_mem {α β : Type} [BEq α] [LawfulBEq α] {pairs : List (α × β)}
    (hnodup : (pairs.map (·.1)).Nodup) {key : α} {value : β} (hmem : (key, value) ∈ pairs) :
    pairs.lookup key = some value := by
  obtain ⟨before, after, rfl⟩ := List.append_of_mem hmem
  rw [List.map_append, List.map_cons, List.nodup_append'] at hnodup
  refine List.lookup_eq_some_iff.2 ⟨before, after, rfl, fun p hp => bne_iff_ne.2 ?_⟩
  rintro rfl
  exact hnodup.2.2 (List.mem_map_of_mem hp) List.mem_cons_self

/-- What the names in the types of an analysis are looked up as, under the parameters of a
factory. -/
structure Analysis.Interprets (a : Analysis) (params : List (String × String))
    (meanings : List (String × Meaning)) : Prop where
  nonNull : meanings.lookup "GraphQLNonNull" = some .nonNull
  list : meanings.lookup "GraphQLList" = some .list
  placeholder : ∀ name parameter, params.lookup name = some parameter →
    meanings.lookup parameter = some (.type (.placeholder name))
  builtin : ∀ s name, a.resolution.Holds (.scalar s) → s.builtin = true →
    libraryScalars.lookup s.name = some name →
      meanings.lookup name = some (.type (.named (.scalar s)))
  named : ∀ n place, a.resolution.Holds n → n.definedIn = some place →
    meanings.lookup (safeIdentifier n.name) = some (.type (.named n))
  generic : ∀ decl, .generic decl ∈ a.model.declarations →
    meanings.lookup (safeIdentifier decl.name) = some (.generic decl.name)

theorem Named.definedIn_of_other {n : Named} (hother : ∀ s, n = .scalar s → s.builtin = false)
    (hknown : ∀ name, n ≠ .pending name) : ∃ place, n.definedIn = some place := by
  cases n with
  | scalar s => exact ⟨.scalars, by simp [definedIn, hother s rfl]⟩
  | pending name => exact absurd rfl (hknown name)
  | _ => exact ⟨_, rfl⟩

namespace SourceModel

variable {model : SourceModel} {a : Analysis} {m : SchemaModule} {style : ModuleStyle}
  {params : List (String × String)}

/-- The calls that a type is written as make that type. -/
theorem type?_calls (h : model.analyze = .ok a) {meanings : List (String × Meaning)}
    (hmeanings : a.Interprets params meanings) {t : TypeNode} {term : TypeTerm}
    (hwrites : t.Writes params term) {parameter : String} (hof : t.OfTemplate a.model parameter)
    (hheld : ∀ n, t.target? = some n → a.resolution.Holds n) :
    term.calls.type? meanings = some t := by
  induction hwrites with
  | list _ ih =>
    rw [TypeTerm.calls, NestedCall.type?, hmeanings.list]
    simp only [ih hof hheld, Option.map_some]
  | nonNull _ ih =>
    rw [TypeTerm.calls, NestedCall.type?, hmeanings.nonNull]
    simp only [ih hof hheld, Option.map_some]
  | placeholder hlookup =>
    rw [TypeTerm.calls, NestedCall.type?, hmeanings.placeholder _ _ hlookup]
  | applied generic _ ih =>
    obtain ⟨⟨decl, hget⟩, -, hargument⟩ := hof
    obtain rfl : decl.name = generic := get?_name hget
    rw [TypeTerm.calls, NestedCall.type?, hmeanings.generic decl (get?_mem hget)]
    simp only [ih hargument hheld, Option.map_some]
  | builtin hbuiltin hlookup =>
    rw [TypeTerm.calls, NestedCall.type?, hmeanings.builtin _ _ (hheld _ rfl) hbuiltin hlookup]
  | @named n hother =>
    have hn := hheld n rfl
    obtain ⟨place, hplace⟩ := Named.definedIn_of_other hother (ne_pending_of_holds h hn)
    rw [TypeTerm.calls, NestedCall.type?, hmeanings.named n place hn hplace]

theorem typeVars_eq_map (h : model.analyze = .ok a) (hm : a.emission.Sections style m) :
    m.typeVars = a.definedTypes.map fun n => safeIdentifier n.name := by
  rw [typeVars_eq h hm, typeNames_eq h, List.map_map]
  rfl

/-- The variables of a module, with what is assigned to them. -/
theorem meanings_eq (h : model.analyze = .ok a) (hm : a.emission.Sections style m)
    (params : List (String × String)) : a.meanings m params =
      params.map (fun (name, parameter) => (parameter, .type (.placeholder name))) ++
        libraryMeanings ++
        a.definedTypes.map (fun n => (safeIdentifier n.name, .type (.named n))) ++
        a.graph.templates.map fun t => (safeIdentifier t.name, .generic t.name) := by
  have hfactories : m.factories.map (·.var) = a.graph.templates.map fun t => safeIdentifier t.name :=
    Emission.factories_var hm.factories
  rw [Analysis.meanings, typeVars_eq_map h hm, hfactories, List.zip_map', List.zip_map']

/-- The names that have a meaning: parameters, names of the schema library and variables. -/
theorem meanings_names (h : model.analyze = .ok a) (hm : a.emission.Sections style m)
    (params : List (String × String)) : (a.meanings m params).map (·.1) =
      params.map (·.2) ++ libraryMeanings.map (·.1) ++ m.typeVars ++ m.factories.map (·.var) := by
  have hfactories : m.factories.map (·.var) = a.graph.templates.map fun t => safeIdentifier t.name :=
    Emission.factories_var hm.factories
  rw [meanings_eq h hm, typeVars_eq_map h hm, hfactories]
  simp only [List.map_append, List.map_map, Function.comp_def]

theorem libraryMeanings_subset : libraryMeanings.map (·.1) ⊆ schemaLibraryNames := by
  decide

theorem meanings_nodup (h : model.analyze = .ok a) (hm : a.emission.Sections style m)
    (hdistinct : m.assignedNames.Nodup) (hparams : (params.map (·.2)).Nodup)
    (hapart : ∀ p ∈ params.map (·.2), p ∉ schemaLibraryNames ∧ p ∉ m.assignedNames) :
    ((a.meanings m params).map (·.1)).Nodup := by
  have hassigned : (m.typeVars ++ m.factories.map (·.var)).Perm m.assignedNames :=
    List.perm_append_comm.trans m.assignedNames_perm.symm
  have hlibrary : ∀ name ∈ libraryMeanings.map (·.1), name ∉ m.assignedNames := by
    intro name hname hvar
    rw [hm.assignedNames] at hvar
    obtain ⟨entity, -, rfl⟩ := List.mem_map.1 hvar
    exact safeIdentifier_not_mem_schemaLibraryNames entity (libraryMeanings_subset hname)
  rw [meanings_names h hm, List.append_assoc]
  refine List.Nodup.append (List.Nodup.append hparams (by decide) ?_)
    (hassigned.nodup_iff.2 hdistinct) ?_
  · exact fun p hp hname => (hapart p hp).1 (libraryMeanings_subset hname)
  · intro name hname hvar
    rw [hassigned.mem_iff] at hvar
    rcases List.mem_append.1 hname with hparam | hname
    · exact (hapart name hparam).2 hvar
    · exact hlibrary name hname hvar

/-- A builtin scalar is known by the name that the schema library has for it. -/
theorem mem_libraryMeanings (h : model.analyze = .ok a) {s : Scalar}
    (hs : a.resolution.Holds (.scalar s)) (hbuiltin : s.builtin = true) {name : String}
    (hname : libraryScalars.lookup s.name = some name) :
    (name, .type (.named (.scalar s))) ∈ libraryMeanings := by
  refine List.mem_append_right _
    (List.mem_filterMap.2 ⟨s, mem_builtinScalars_of_holds h hs hbuiltin, ?_⟩)
  rw [hname]
  rfl

/-- Where no two variables are the same and no parameter is a variable, every name is looked up as what
it stands for. -/
theorem interprets_meanings (h : model.analyze = .ok a) (hm : a.emission.Sections style m)
    (hdistinct : m.assignedNames.Nodup) (hparams : (params.map (·.2)).Nodup)
    (hapart : ∀ p ∈ params.map (·.2), p ∉ schemaLibraryNames ∧ p ∉ m.assignedNames) :
    a.Interprets params (a.meanings m params) := by
  have hnodup := meanings_nodup h hm hdistinct hparams hapart
  have hfind {name : String} {meaning : Meaning} (hmem : (name, meaning) ∈ a.meanings m params) :=
    lookup_of_mem hnodup hmem
  have hlibrary {name : String} {meaning : Meaning} (hmem : (name, meaning) ∈ libraryMeanings) :
      (a.meanings m params).lookup name = some meaning := by
    refine hfind ?_
    rw [meanings_eq h hm]
    simp only [List.mem_append, hmem, true_or, or_true]
  refine ⟨?_, ?_, fun name parameter hlookup => hfind ?_, fun s name hs hbuiltin hname => ?_,
    fun n place hn hplace => hfind ?_, fun decl hdecl => hfind ?_⟩
  · exact hlibrary List.mem_cons_self
  · exact hlibrary (List.mem_cons_of_mem _ List.mem_cons_self)
  · obtain ⟨before, after, hsplit, -⟩ := List.lookup_eq_some_iff.1 hlookup
    have hmem : (name, parameter) ∈ params := by
      rw [hsplit]
      exact List.mem_append_right _ List.mem_cons_self
    rw [meanings_eq h hm]
    simp only [List.mem_append]
    exact .inl (.inl (.inl (List.mem_map_of_mem hmem)))
  · exact hlibrary (mem_libraryMeanings h hs hbuiltin hname)
  · have htype : (safeIdentifier n.name, Meaning.type (.named n)) ∈
        a.definedTypes.map fun n => (safeIdentifier n.name, Meaning.type (.named n)) :=
      List.mem_map_of_mem (mem_definedTypes_of_holds h hn hplace)
    rw [meanings_eq h hm]
    simp only [List.mem_append, htype, true_or, or_true]
  · obtain ⟨t, ht, hsound⟩ := (complete_of_analyze h).template hdecl
    rw [meanings_eq h hm, ← hsound.name]
    exact List.mem_append_right _ (List.mem_map_of_mem ht)

/-- The types of a field are read back one by one. -/
theorem field_readsAs (h : model.analyze = .ok a) {meanings : List (String × Meaning)}
    (hmeanings : a.Interprets params meanings) (parameter : String) {owner : String} {g : GraphField}
    {entry : FieldEntry} (hwrites : a.emission.WritesField owner params g entry)
    (hspelled : entry.WellSpelled)
    (hreferences : ∀ t ∈ g.types, t.OfTemplate a.model parameter ∧
      ∀ n, t.target? = some n → a.resolution.Holds n) : entry.ReadsAs meanings g := by
  refine ⟨hwrites.name, forall₂_imp_of_mem hwrites.types fun t ht term hterm hwrites => ?_⟩
  obtain ⟨hof, hheld⟩ := hreferences t ht
  rw [readType?, TypeTerm.ofText?_text (hspelled.types term hterm)]
  exact type?_calls h hmeanings hwrites hof hheld

/-- The fields of the objects are read back. -/
theorem objects_readAs (h : model.analyze = .ok a) (hproper : a.model.Proper)
    (hm : a.emission.Sections style m) (hdistinct : m.assignedNames.Nodup) :
    List.Forall₂ (fun node o => o.name = node.name ∧
      List.Forall₂ (fun g entry => FieldEntry.ReadsAs (a.meanings m []) entry g) node.fields o.fields)
      a.emission.objectNodes m.objects := by
  have hmeanings : a.Interprets [] (a.meanings m []) :=
    interprets_meanings h hm hdistinct List.nodup_nil fun _ hp => nomatch hp
  refine forall₂_imp_of_mem (Emission.writesObjects hm.objects) fun node hnode o ho hobject => ?_
  have hspelled := (module_wellSpelled h hproper hm).objects o ho
  have hreferences :=
    (complete_of_analyze h).node_references (mem_nodes_of_objectNodes hnode)
  refine ⟨hobject.name, forall₂_imp_of_mem hobject.fields fun g hg entry hentry hfield => ?_⟩
  refine field_readsAs h hmeanings "" hfield (hspelled.fields entry hentry) fun t ht => ?_
  obtain ⟨hclosed, hheld⟩ := hreferences t (List.mem_flatMap.2 ⟨g, hg, ht⟩)
  exact ⟨ofTemplate_of_isClosed _ hclosed, hheld⟩

/-- The fields of the templates are read back from their factories. -/
theorem templates_readAs (h : model.analyze = .ok a) (hproper : a.model.Proper)
    (hm : a.emission.Sections style m) (hdistinct : m.assignedNames.Nodup)
    (hapart : ∀ f ∈ m.factories, ∀ p ∈ f.parameters, p ∉ m.assignedNames) :
    List.Forall₂ (fun t f => f.name = t.name ∧ f.parameters = t.parameters.map parameterIdentifier ∧
      List.Forall₂ (fun g entry =>
        FieldEntry.ReadsAs (a.meanings m (t.parameters.zip f.parameters)) entry g) t.fields f.fields)
      a.graph.templates m.factories := by
  refine forall₂_imp_of_mem (Emission.writesFactories hm.factories) fun t ht f hf hfactory => ?_
  obtain ⟨parameter, hparameters, hreferences⟩ := (complete_of_analyze h).template_references ht
  have hsingle : f.parameters = [parameterIdentifier parameter] := by
    rw [hfactory.parameters, Emission.factoryParameters, hparameters]
    rfl
  have hzip : t.parameters.zip f.parameters = Emission.factoryParameters t := by
    rw [hsingle, Emission.factoryParameters, hparameters]
    rfl
  have hmeanings : a.Interprets (Emission.factoryParameters t)
      (a.meanings m (Emission.factoryParameters t)) := by
    have hmap : (Emission.factoryParameters t).map (·.2) = [parameterIdentifier parameter] := by
      rw [← hfactory.parameters, hsingle]
    refine interprets_meanings h hm hdistinct ?_ fun p hp => ?_
    · rw [hmap]
      exact List.nodup_singleton _
    · have hparam := hapart f hf p (hfactory.parameters ▸ hp)
      rw [hmap] at hp
      obtain rfl := List.mem_singleton.1 hp
      exact ⟨parameterIdentifier_not_mem_schemaLibraryNames parameter, hparam⟩
  refine ⟨hfactory.name, ?_, ?_⟩
  · rw [hsingle, hparameters]
    rfl
  · rw [hzip]
    have hspelled := (module_wellSpelled h hproper hm).factories f hf
    refine forall₂_imp_of_mem hfactory.fields fun g hg entry hentry hfield => ?_
    exact field_readsAs h hmeanings parameter hfield (hspelled.fields entry hentry)
      fun x hx => hreferences x (List.mem_flatMap.2 ⟨g, hg, hx⟩)

end SourceModel

/-- Where no two variables are the same and no parameter of a factory is a variable, every type in the
fields of an object or a template is read back from its expression. A name is read as the type or
generic that is assigned to it, the builtin scalar or wrapper that the schema library has under it,
or the placeholder that the parameter was made from. -/
theorem UnitSource.types_readBack {source : UnitSource} {config : Config} {hooks : Hooks}
    {schema : EmittedSchema} (h : source.compile config hooks = .ok schema)
    (hpre : hooks.KeepProper) :
    ∃ a m, source.Emits config hooks a m schema ∧ (m.assignedNames.Nodup →
      (∀ f ∈ m.factories, ∀ p ∈ f.parameters, p ∉ m.assignedNames) →
      List.Forall₂ (fun node o => o.name = node.name ∧
        List.Forall₂ (fun g entry => FieldEntry.ReadsAs (a.meanings m []) entry g)
          node.fields o.fields) a.emission.objectNodes m.objects ∧
      List.Forall₂ (fun t f => f.name = t.name ∧
        f.parameters = t.parameters.map parameterIdentifier ∧
        List.Forall₂ (fun g entry =>
          FieldEntry.ReadsAs (a.meanings m (t.parameters.zip f.parameters)) entry g)
          t.fields f.fields) a.graph.templates m.factories) := by
  obtain ⟨a, m, hemits⟩ := compile_eq_ok.1 h
  obtain ⟨_, -, ha⟩ := hemits.analyzed
  obtain ⟨style, -, hm⟩ := hemits.written
  have hproper := hemits.model_proper hpre
  exact ⟨a, m, hemits, fun hdistinct hapart =>
    ⟨SourceModel.objects_readAs ha hproper hm hdistinct,
      SourceModel.templates_readAs ha hproper hm hdistinct hapart⟩⟩

theorem treeUnit_readBack : ∃ schema a,
    (UnitSource.loaded treeUnit).compile {} {} = .ok schema ∧ ({} : Hooks).KeepProper ∧
      (UnitSource.loaded treeUnit).Emits {} {} a treeModule schema ∧
      treeModule.assignedNames.Nodup ∧
      (∀ f ∈ treeModule.factories, ∀ p ∈ f.parameters, p ∉ treeModule.assignedNames) ∧
      ∃ t ∈ a.graph.templates, t.name = "Tree" ∧ ∃ g ∈ t.fields, g.name = "boxes" ∧
        ∃ type ∈ g.types, readType? (a.meanings treeModule (t.parameters.zip ["t_type"]))
          "GraphQLNonNull(Box(Tree(t_type)))" = some type := by
  obtain ⟨a₀, schema, hemits₀⟩ := treeUnit_emits
  have hcompiles := UnitSource.compile_eq_ok.2 ⟨a₀, treeModule, hemits₀⟩
  obtain ⟨a, m, hemits, hread⟩ := UnitSource.types_readBack hcompiles Hooks.keepProper_empty
  obtain ⟨-, rfl⟩ := hemits₀.unique hemits
  have hdistinct : treeModule.assignedNames.Nodup := by decide
  have hapart : ∀ f ∈ treeModule.factories, ∀ p ∈ f.parameters, p ∉ treeModule.assignedNames := by
    decide
  obtain ⟨-, htemplates⟩ := hread hdistinct hapart
  obtain ⟨t, ht, hname, -, hfields⟩ :=
    forall₂_mem_right htemplates _ (List.mem_cons_of_mem _ List.mem_cons_self)
  obtain ⟨g, hg, hfield, htypes⟩ := forall₂_mem_right hfields _ List.mem_cons_self
  obtain ⟨type, htype, hreads⟩ := forall₂_mem_right htypes _ List.mem_cons_self
  exact ⟨schema, a, hcompiles, Hooks.keepProper_empty, hemits, hdistinct, hapart, t, ht, hname.symm,
    g, hg, hfield.symm, type, htype, hreads⟩

end SchemaCompiler
