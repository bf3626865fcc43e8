import SchemaCompiler.Proofs.Assigned
import SchemaCompiler.Proofs.ClosedGraph
import SchemaCompiler.Proofs.Lines
import SchemaCompiler.Proofs.Proper

/-! How the names of a module are spelled. The schema names of a proper model are words, and so are
the variables and parameters that are made from them. -/

namespace SchemaCompiler

theorem isWord_iff {name : String} : IsWord name ↔
    IsName name ∧ name.toList.head?.any (fun c => !c.isDigit) = true := by
  constructor
  · rintro ⟨hname, hended⟩
    refine ⟨hname, ?_⟩
    unfold Reading.ended at hended
    split at hended
    · cases hended
    · rename_i c rest hlist
      split at hended
      · cases hended
      · rename_i hdigit
        rw [hlist]
        simpa using hdigit
  · rintro ⟨hname, hfirst⟩
    refine ⟨hname, ?_⟩
    rcases hlist : name.toList with _ | ⟨c, rest⟩
    · rw [hlist] at hfirst
      cases hfirst
    · rw [hlist] at hfirst
      have hdigit : c.isDigit = false := by simpa using hfirst
      rw [Reading.ended, hdigit, ← hlist, String.ofList_toList]
      rfl

theorem IsName.append {s t : String} (hs : IsName s) (ht : IsName t) : IsName (s ++ t) := by
  intro c hc
  rw [String.toList_append] at hc
  rcases List.mem_append.1 hc with hc | hc
  · exact hs c hc
  · exact ht c hc

theorem IsWord.append {s t : String} (hs : IsWord s) (ht : IsName t) : IsWord (s ++ t) := by
  obtain ⟨hname, hfirst⟩ := isWord_iff.1 hs
  refine isWord_iff.2 ⟨hname.append ht, ?_⟩
  rw [String.toList_append, List.head?_append]
  rcases hhead : s.toList.head? with _ | c
  · rw [hhead] at hfirst
    cases hfirst
  · rwa [hhead] at hfirst

theorem IsWord.length_pos {name : String} (h : IsWord name) : 0 < name.length := by
  obtain ⟨-, hfirst⟩ := isWord_iff.1 h
  rw [← String.length_toList]
  rcases hlist : name.toList with _ | ⟨c, rest⟩
  · rw [hlist] at hfirst
    cases hfirst
  · exact Nat.succ_pos _

theorem isNameChar_lt {c : Char} (h : isNameChar c = true) : c.toNat < 0x80 := by
  have hcode : c.toNat = c.val.toNat := rfl
  simp only [isNameChar, Char.isAlphanum, Char.isDigit, Char.isAlpha, Char.isUpper, Char.isLower,
    Bool.or_eq_true, Bool.and_eq_true, decide_eq_true_eq] at h
  rcases h with ((⟨-, hupper⟩ | ⟨-, hlower⟩) | ⟨-, hdigit⟩) | rfl
  · have hle := UInt32.le_iff_toNat_le.1 hupper
    simp at hle
    omega
  · have hle := UInt32.le_iff_toNat_le.1 hlower
    simp at hle
    omega
  · have hle := UInt32.le_iff_toNat_le.1 hdigit
    simp at hle
    omega
  · decide

/-- A property of the characters of names can be looked up in a table. -/
theorem of_isNameChar {P : Char → Prop} (htable : ∀ n < 0x80, isNameChar (Char.ofNat n) = true →
    P (Char.ofNat n)) {c : Char} (h : isNameChar c = true) : P c := by
  have hc := htable c.toNat (isNameChar_lt h)
  rw [Char.ofNat_toNat] at hc
  exact hc h

theorem isNameChar_of_isNameStart {c : Char} (h : isNameStart c = true) : isNameChar c = true := by
  simp only [isNameStart, isNameChar, Char.isAlphanum, Bool.or_eq_true] at *
  exact h.imp_left .inl

theorem isNamePart_of_isNameChar {c : Char} (h : isNameChar c = true) : isNamePart c = true :=
  of_isNameChar (P := fun c => isNamePart c = true) (by decide) h

theorem isDigit_of_isNameStart {c : Char} (h : isNameStart c = true) : c.isDigit = false :=
  of_isNameChar (P := fun c => isNameStart c = true → c.isDigit = false) (by decide)
    (isNameChar_of_isNameStart h) h

/-- The characters of a schema name. -/
theorem isSchemaName_chars {name : String} (h : isSchemaName name = true) :
    ∃ c rest, name.toList = c :: rest ∧ isNameStart c = true ∧
      ∀ x ∈ rest, isNameChar x = true ∨ x = '\n' := by
  rw [isSchemaName, dropFinalLineFeed] at h
  split at h
  · cases h
  · rename_i c rest hlist
    simp only [Bool.and_eq_true, List.all_eq_true] at h
    obtain ⟨⟨hstart, hrest⟩, -⟩ := h
    split at hlist
    · rename_i hlast
      refine ⟨c, rest ++ ['\n'], ?_, hstart, fun x hx => ?_⟩
      · rw [← List.cons_append, ← hlist]
        exact (List.dropLast_append_getLast? _ hlast).symm
      · rcases List.mem_append.1 hx with hx | hx
        · exact .inl (hrest x hx)
        · exact .inr (List.mem_singleton.1 hx)
    · exact ⟨c, rest, hlist, hstart, fun x hx => .inl (hrest x hx)⟩

theorem isWord_of_isSchemaName {name : String} (h : isSchemaName name = true) : IsWord name := by
  obtain ⟨c, rest, hlist, hstart, hrest⟩ := isSchemaName_chars h
  refine isWord_iff.2 ⟨fun x hx => ?_, ?_⟩
  · rw [hlist] at hx
    rcases List.mem_cons.1 hx with rfl | hx
    · exact isNamePart_of_isNameChar (isNameChar_of_isNameStart hstart)
    · rcases hrest x hx with hchar | rfl
      · exact isNamePart_of_isNameChar hchar
      · rfl
  · rw [hlist]
    simp [isDigit_of_isNameStart hstart]

theorem isWord_safeIdentifier {name : String} (h : IsWord name) : IsWord (safeIdentifier name) := by
  rw [safeIdentifier]
  cases isTaken name
  · exact h
  · exact h.append (isName_literal rfl)

theorem isWord_of_library {name : String} (h : name ∈ schemaLibraryNames) : IsWord name :=
  isWord_of_isSchemaName
    ((by decide : ∀ n ∈ schemaLibraryNames, isSchemaName n = true) name h)

/-- Splitting a name puts nothing in but underscores. -/
theorem splitWords_forall {P : Char → Prop} (hunderscore : P '_') {inWord : Bool} {cs : List Char}
    (h : ∀ c ∈ cs, P c) : ∀ c ∈ splitWords inWord cs, P c := by
  induction inWord, cs using splitWords.induct with
  | case1 inWord c u rest hword ih =>
    obtain ⟨hc, hrest⟩ := List.forall_mem_cons.1 h
    rw [splitWords, if_pos hword]
    exact List.forall_mem_cons.2 ⟨hc, ih hrest⟩
  | case2 inWord c u rest hword hsplit ih =>
    obtain ⟨hc, hrest⟩ := List.forall_mem_cons.1 h
    obtain ⟨hu, hrest⟩ := List.forall_mem_cons.1 hrest
    rw [splitWords, if_neg hword, if_pos hsplit]
    simp only [List.forall_mem_cons]
    exact ⟨hc, hunderscore, hu, ih hrest⟩
  | case3 inWord c u rest hword hsplit ih =>
    obtain ⟨hc, hrest⟩ := List.forall_mem_cons.1 h
    rw [splitWords, if_neg hword, if_neg hsplit]
    exact List.forall_mem_cons.2 ⟨hc, ih hrest⟩
  | case4 inWord cs hshort =>
    rw [splitWords]
    · exact h
    · exact hshort

theorem splitCapitals_forall {P : Char → Prop} (hunderscore : P '_') {cs : List Char}
    (h : ∀ c ∈ cs, P c) : ∀ c ∈ splitCapitals cs, P c := by
  induction cs using splitCapitals.induct with
  | case1 c u rest hsplit ih =>
    obtain ⟨hc, hrest⟩ := List.forall_mem_cons.1 h
    rw [splitCapitals, if_pos hsplit]
    simp only [List.forall_mem_cons]
    exact ⟨hc, hunderscore, ih hrest⟩
  | case2 c u rest hsplit ih =>
    obtain ⟨hc, hrest⟩ := List.forall_mem_cons.1 h
    rw [splitCapitals, if_neg hsplit]
    exact List.forall_mem_cons.2 ⟨hc, ih hrest⟩
  | case3 cs hshort =>
    rw [splitCapitals]
    · exact h
    · exact hshort

theorem splitWords_head? (inWord : Bool) (cs : List Char) :
    (splitWords inWord cs).head? = cs.head? := by
  fun_cases splitWords inWord cs <;> rfl

theorem splitCapitals_head? (cs : List Char) : (splitCapitals cs).head? = cs.head? := by
  fun_cases splitCapitals cs <;> rfl

theorem lowerAfter_of_ascii {cs : List Char} (h : ∀ c ∈ cs, c.toNat < 0x80) (before : List Char) :
    lowerAfter before cs = cs.map Char.toLower := by
  induction cs generalizing before with
  | nil => rfl
  | cons c rest ih =>
    rw [lowerAfter, if_pos (h c List.mem_cons_self),
      ih fun x hx => h x (List.mem_cons_of_mem _ hx)]
    rfl

/-- A schema name in snake case is a word. -/
theorem isWord_snakeCase {name : String} (h : isSchemaName name = true) :
    IsWord (snakeCase name) := by
  obtain ⟨c, rest, hlist, hstart, hrest⟩ := isSchemaName_chars h
  have hchars : ∀ x ∈ splitCapitals (splitWords false name.toList),
      isNameChar x = true ∨ x = '\n' := by
    refine splitCapitals_forall (.inl rfl) (splitWords_forall (.inl rfl) ?_)
    rw [hlist]
    exact List.forall_mem_cons.2 ⟨.inl (isNameChar_of_isNameStart hstart), hrest⟩
  -- the first character stays in front, and no letter turns into a digit
  have hhead : (splitCapitals (splitWords false name.toList)).head? = some c := by
    rw [splitCapitals_head?, splitWords_head?, hlist]
    rfl
  have hlower : (snakeCase name).toList =
      (splitCapitals (splitWords false name.toList)).map Char.toLower := by
    rw [snakeCase, lowerText, String.toList_ofList, String.toList_ofList]
    refine lowerAfter_of_ascii (fun x hx => ?_) []
    rcases hchars x hx with hchar | rfl
    · exact isNameChar_lt hchar
    · decide
  refine isWord_iff.2 ⟨fun x hx => ?_, ?_⟩
  · rw [hlower] at hx
    obtain ⟨y, hy, rfl⟩ := List.mem_map.1 hx
    rcases hchars y hy with hchar | rfl
    · exact of_isNameChar (P := fun c => isNamePart c.toLower = true) (by decide) hchar
    · rfl
  · rw [hlower, List.head?_map, hhead]
    have hdigit : c.toLower.isDigit = false :=
      of_isNameChar (P := fun c => isNameStart c = true → c.toLower.isDigit = false) (by decide)
        (isNameChar_of_isNameStart hstart) hstart
    simp [hdigit]

theorem isWord_parameterIdentifier {parameter : String} (h : isSchemaName parameter = true) :
    IsWord (parameterIdentifier parameter) :=
  (isWord_snakeCase h).append (isName_literal rfl)

/-- The names of a field of the graph are those of its declaration. -/
structure GraphField.Proper (f : GraphField) : Prop where
  name : isSchemaName f.name = true
  descriptor : f.descriptor.Proper
  arguments : ∀ g ∈ f.arguments, isSchemaName g.name = true

theorem FieldDescriptor.Denotes.proper {node : String → Option String → Named} {graph : TypeGraph}
    {env : Scope.Environment} {d : FieldDescriptor} {f : GraphField}
    (h : d.Denotes node graph env f) (hd : d.Proper) : f.Proper := by
  refine ⟨by rw [h.name]; exact hd.name, by rwa [h.descriptor], fun g hg => ?_⟩
  obtain ⟨a, ha, hname, -⟩ := forall₂_mem_right h.arguments g hg
  rw [hname]
  exact hd.arguments a ha

/-- Fields of the graph whose names are all different, and of which there is at least one. -/
structure ProperGraphFields (fields : List GraphField) : Prop where
  nonempty : fields ≠ []
  names : (fields.map (·.name)).Nodup
  named : ∀ f ∈ fields, f.descriptor.name = f.name
  proper : ∀ f ∈ fields, f.Proper

theorem ProperFields.denoted {node : String → Option String → Named} {graph : TypeGraph}
    {env : Scope.Environment} {ds : List FieldDescriptor} {fs : List GraphField}
    (hds : ProperFields ds) (h : List.Forall₂ (FieldDescriptor.Denotes node graph env) ds fs) :
    ProperGraphFields fs where
  nonempty := by
    rintro rfl
    exact hds.nonempty (List.forall₂_nil_right_iff.1 h)
  names := by
    rw [forall₂_map_eq (h.imp fun d f hdenotes => hdenotes.name)]
    exact hds.names
  named f hf := by
    obtain ⟨d, -, hdenotes⟩ := forall₂_mem_right h f hf
    rw [hdenotes.descriptor, hdenotes.name]
  proper f hf := by
    obtain ⟨d, hd, hdenotes⟩ := forall₂_mem_right h f hf
    exact hdenotes.proper (hds.proper d hd)

theorem bindArgument_name {g : GraphArgument} {b : ArgumentBinding} (h : bindArgument g = .ok b) :
    b.name = g.name := by
  unfold bindArgument at h
  split at h <;> cases h <;> rfl

namespace SourceModel

variable {model : SourceModel} {a : Analysis}

/-- The fields of the types and templates of a proper model. -/
theorem owners_proper (h : model.analyze = .ok a) (hproper : a.model.Proper) :
    (∀ node ∈ a.graph.nodes, node.kind = .object → ProperGraphFields node.fields) ∧
      ∀ t ∈ a.graph.templates, ProperGraphFields t.fields := by
  have hreads := (complete_of_analyze h).reads
  refine ⟨fun node hnode hkind => ?_, fun t ht => ?_⟩
  · cases node with
    | object t =>
      obtain ⟨decl, hdecl, -, hfields⟩ := hreads.object t hnode
      exact ProperFields.denoted (hproper _ hdecl).body hfields
    | instantiation i =>
      obtain ⟨decl, hdecl, -, hfields⟩ := hreads.instantiation i hnode
      exact (hproper _ hdecl).body.2.denoted hfields
    | _ => cases hkind
  · obtain ⟨decl, hdecl, -, -, hfields⟩ := hreads.template t ht
    exact (hproper _ hdecl).body.2.denoted hfields

theorem node_fields_proper (h : model.analyze = .ok a) (hproper : a.model.Proper) {node : Node}
    (hnode : node ∈ a.graph.nodes) : ∀ f ∈ node.fields, f.Proper := by
  have hfields := (owners_proper h hproper).1 node hnode
  cases node with
  | object t => exact (hfields rfl).proper
  | instantiation i => exact (hfields rfl).proper
  | _ => exact fun _ hf => nomatch hf

/-- The members of the enums of a proper model. -/
theorem enum_proper (h : model.analyze = .ok a) (hproper : a.model.Proper) {t : EnumType}
    (ht : Node.enum t ∈ a.graph.nodes) :
    t.values ≠ [] ∧ ∀ v ∈ t.values, isSchemaName v.name = true := by
  have hcomplete := complete_of_analyze h
  obtain ⟨decl, hdecl, -, hfilled⟩ := hcomplete.sound.nodes _ ht
  rw [(hfilled (hcomplete.filled _ ht)).2]
  exact (hproper _ hdecl).body

/-- The name of every type is a word. -/
theorem isWord_of_holds (h : model.analyze = .ok a) (hproper : a.model.Proper) {n : Named}
    (hn : a.resolution.Holds n) : IsWord n.name := by
  have hcomplete := complete_of_analyze h
  -- the argument of an instantiation has a shorter name
  induction hlength : n.name.length using Nat.strongRecOn generalizing n with
  | ind k ih =>
    obtain ⟨node, hnode, rfl⟩ := hcomplete.holds_iff.1 hn
    have hdeclared : ∀ place, node.ref.definedIn = some place → place ≠ .instances →
        IsWord node.ref.name := by
      intro place hplace hother
      obtain ⟨d, hd, hname, -⟩ := declared_of_holds h hn hplace hother
      rw [← hname]
      exact isWord_of_isSchemaName (hproper d hd).name
    cases node with
    | object t => exact hdeclared .objects rfl (by decide)
    | enum t => exact hdeclared .enums rfl (by decide)
    | pending name site => exact absurd rfl (ne_pending_of_holds h hn name)
    | scalar s =>
      have hmem : s ∈ a.registry.scalars := hcomplete.sound.nodes _ hnode
      rw [(ScalarRegistry.ofModel_eq_ok (analyze_eq_ok.1 h).2.1).2, List.mem_append] at hmem
      rcases hmem with hmem | hmem
      · have hbuiltin : ∀ b ∈ builtinScalars, isSchemaName b.name = true := by decide
        exact isWord_of_isSchemaName (hbuiltin s hmem)
      · obtain ⟨decl, -, rfl⟩ := List.mem_map.1 hmem
        exact hdeclared .scalars rfl (by decide)
    | instantiation i =>
      obtain ⟨decl, hentry⟩ := hcomplete.sound.memo i (hcomplete.sound.nodes _ hnode).1
      have hgeneric := isWord_of_isSchemaName (hproper _ (get?_mem hentry.declared)).name
      have hname : (Node.instantiation i).ref.name = i.argument.name ++ decl.name := by
        show i.key.name = _
        rw [hentry.key]
        rfl
      have hshorter : i.argument.name.length < k := by
        rw [← hlength, hname, String.length_append]
        exact Nat.lt_add_of_pos_right hgeneric.length_pos
      rw [hname]
      exact (ih _ hshorter hentry.argument rfl).append hgeneric.isName

/-- The name of every entity of a module is a word. -/
theorem isWord_of_entity (h : model.analyze = .ok a) (hproper : a.model.Proper) {name : String}
    (hname : name ∈ a.emission.entityNames) : IsWord name := by
  rcases List.mem_append.1 ((entityNames_perm h).mem_iff.1 hname) with htype | htemplate
  · obtain ⟨n, hn, rfl⟩ := List.mem_map.1 htype
    exact isWord_of_holds h hproper (holds_of_definedTypes h hn)
  · obtain ⟨t, ht, rfl⟩ := List.mem_map.1 htemplate
    obtain ⟨decl, hsound⟩ := (complete_of_analyze h).sound.templates t ht
    rw [hsound.name]
    exact isWord_of_isSchemaName (hproper _ hsound.declared).name

/-- The resolver of a field is spelled in names of the schema. -/
theorem binding_wellSpelled (h : model.analyze = .ok a) (hproper : a.model.Proper) {b : Binding}
    (hb : b ∈ a.bindings.all) : b.WellSpelled := by
  obtain ⟨bss, hbss, hall⟩ := Bindings.ofGraph_eq_ok.1 (analyze_eq_ok.1 h).2.2.2
  rw [hall] at hb
  obtain ⟨bs, hbs, hb⟩ := List.mem_flatten.1 hb
  obtain ⟨owner, howner, hbind⟩ := forall₂_mem_right hbss bs hbs
  obtain ⟨f, hf, hfield⟩ := forall₂_mem_right (mapM_eq_ok.1 hbind) b hb
  obtain ⟨-, as, has, rfl⟩ := Bindings.bindField_eq_ok.1 hfield
  have hf : f.Proper := by
    rcases List.mem_append.1 howner with howner | howner
    · obtain ⟨node, hnode, rfl⟩ := List.mem_map.1 howner
      exact node_fields_proper h hproper hnode f hf
    · obtain ⟨t, ht, rfl⟩ := List.mem_map.1 howner
      exact ((owners_proper h hproper).2 t ht).proper f hf
  refine ⟨(isWord_of_isSchemaName hf.descriptor.name).isName, fun b hb => ?_⟩
  obtain ⟨g, hg, hargument⟩ := forall₂_mem_right (mapM_eq_ok.1 has) b hb
  rw [bindArgument_name hargument]
  exact (isWord_of_isSchemaName (hf.arguments g hg)).isName

variable {params : List (String × String)} (h : model.analyze = .ok a) (hproper : a.model.Proper)

include h hproper

theorem words_wellSpelled {t : TypeNode} {term : TypeTerm} (hwrites : t.Writes params term)
    (hmentions : t.mentions ⊆ a.emission.entityNames)
    (hparams : ∀ p ∈ params.map (·.2), IsWord p) : ∀ name ∈ term.words, IsWord name := by
  intro name hname
  rcases (hwrites.mem_words name).1 hname with hlibrary | hvar | hparameter
  · exact isWord_of_library (t.libraryNames_subset hlibrary)
  · rw [hwrites.variables_eq] at hvar
    obtain ⟨n, hn, rfl⟩ := List.mem_map.1 hvar
    exact isWord_safeIdentifier (isWord_of_entity h hproper (hmentions hn))
  · exact hparams name (hwrites.parameters name hparameter)

theorem field_wellSpelled {owner : String} {f : GraphField} {entry : FieldEntry}
    (hwrites : a.emission.WritesField owner params f entry) (hf : f.Proper)
    (hmentions : ∀ t ∈ f.types, t.mentions ⊆ a.emission.entityNames)
    (hparams : ∀ p ∈ params.map (·.2), IsWord p) : entry.WellSpelled where
  name := by
    rw [hwrites.name]
    exact (isWord_of_isSchemaName hf.name).isName
  type := by
    obtain ⟨t, htype, hterm⟩ := hwrites.type
    have ht : t ∈ f.types := List.mem_append_left _ (by rw [htype]; exact List.mem_singleton_self t)
    exact words_wellSpelled h hproper hterm (hmentions t ht) hparams
  arguments entry' hentry := by
    obtain ⟨g, hg, hname, hterm⟩ := forall₂_mem_right hwrites.arguments entry' hentry
    have ht : g.type ∈ f.types := List.mem_append_right _ (List.mem_map_of_mem hg)
    refine ⟨?_, words_wellSpelled h hproper hterm (hmentions _ ht) hparams⟩
    rw [hname]
    exact (isWord_of_isSchemaName (hf.arguments g hg)).isName
  resolver := binding_wellSpelled h hproper (List.mem_of_find?_eq_some hwrites.resolver)

theorem factory_wellSpelled {t : Template} {f : FactoryEntry} (ht : t ∈ a.graph.templates)
    (hwrites : a.emission.WritesFactory t f) : f.WellSpelled := by
  obtain ⟨decl, hsound⟩ := (complete_of_analyze h).sound.templates t ht
  have hname : IsWord t.name := by
    rw [hsound.name]
    exact isWord_of_isSchemaName (hproper _ hsound.declared).name
  have hparams : ∀ p ∈ (Emission.factoryParameters t).map (·.2), IsWord p := by
    rw [Emission.factoryParameters, hsound.parameters]
    rintro p hp
    obtain rfl : p = parameterIdentifier decl.parameter := List.mem_singleton.1 hp
    exact isWord_parameterIdentifier (hproper _ hsound.declared).body.1
  refine ⟨?_, ?_, ?_, fun entry hentry => ?_⟩
  · rw [hwrites.var]
    exact isWord_safeIdentifier hname
  · rw [hwrites.name]
    exact hname.isName
  · rwa [hwrites.parameters]
  · obtain ⟨field, hfield, hentry⟩ := forall₂_mem_right hwrites.fields entry hentry
    have hproperField := ((owners_proper h hproper).2 t ht).proper field hfield
    exact field_wellSpelled h hproper hentry hproperField
      (fun type htype => template_mentions h ht (List.mem_flatMap.2 ⟨field, hfield, htype⟩)) hparams

theorem object_wellSpelled {node : Node} {o : ObjectEntry} (hnode : node ∈ a.graph.nodes)
    (hwrites : a.emission.WritesObject node o) : o.WellSpelled := by
  have hname : IsWord node.name :=
    isWord_of_holds h hproper ((complete_of_analyze h).holds_iff.2 ⟨node, hnode, rfl⟩)
  refine ⟨?_, ?_, fun entry hentry => ?_⟩
  · rw [hwrites.var]
    exact isWord_safeIdentifier hname
  · rw [hwrites.name]
    exact hname.isName
  · obtain ⟨field, hfield, hentry⟩ := forall₂_mem_right hwrites.fields entry hentry
    exact field_wellSpelled h hproper hentry (node_fields_proper h hproper hnode field hfield)
      (fun type htype => node_mentions h hnode (List.mem_flatMap.2 ⟨field, hfield, htype⟩))
      fun _ hp => nomatch hp

theorem isWord_of_offers {m : SchemaModule} {style : ModuleStyle}
    (hm : a.emission.Sections style m) {name : String} (hname : m.Offers name) : IsWord name := by
  rcases hname with himport | hassigned
  · rw [hm.libraryImports] at himport
    exact isWord_of_library (Emission.libraryImports_subset _ himport)
  · rw [hm.assignedNames] at hassigned
    obtain ⟨n, hn, rfl⟩ := List.mem_map.1 hassigned
    exact isWord_safeIdentifier (isWord_of_entity h hproper hn)

/-- All names in the module of a proper model are spelled as words. -/
theorem module_wellSpelled {m : SchemaModule} {style : ModuleStyle}
    (hm : a.emission.Sections style m) : m.WellSpelled where
  scalars entry hentry := by
    rw [hm.scalars] at hentry
    obtain ⟨n, hn, hsome⟩ := List.mem_filterMap.1 hentry
    have hname := isWord_of_holds h hproper (holds_of_ordered h hn)
    split at hsome
    · split at hsome <;> cases hsome
      exact ⟨isWord_safeIdentifier hname, hname.isName⟩
    · cases hsome
  enums entry hentry := by
    rw [hm.enums] at hentry
    obtain ⟨n, hn, hsome⟩ := List.mem_filterMap.1 hentry
    have hname := isWord_of_holds h hproper (holds_of_ordered h hn)
    split at hsome
    · split at hsome <;> cases hsome
      rename_i t hget
      refine ⟨isWord_safeIdentifier hname, hname.isName, fun v hv => ?_⟩
      have hvalues := (enum_proper h hproper (TypeGraph.get?_mem hget)).2
      exact (isWord_of_isSchemaName (hvalues v hv)).isName
    · cases hsome
  factories f hf := by
    obtain ⟨t, ht, hwrites⟩ := forall₂_mem_right (Emission.writesFactories hm.factories) f hf
    exact factory_wellSpelled h hproper ht hwrites
  objects o ho := by
    obtain ⟨node, hnode, hwrites⟩ := forall₂_mem_right (Emission.writesObjects hm.objects) o ho
    exact object_wellSpelled h hproper (mem_nodes_of_objectNodes hnode) hwrites
  instances entry hentry := by
    have hvar : entry.var ∈ m.assignedNames := List.mem_append_right _ (List.mem_map_of_mem hentry)
    have hnames := (hm.closed h).instances entry hentry
    refine ⟨isWord_of_offers h hproper hm (.inr hvar),
      isWord_of_offers h hproper hm (hnames _ List.mem_cons_self), fun t ht name hname => ?_⟩
    exact isWord_of_offers h hproper hm
      (hnames name (List.mem_cons_of_mem _ (List.mem_flatMap.2 ⟨t, ht, hname⟩)))
  schema s hs := by
    have hnames := (hm.closed h).schema s hs
    have hoperations : ∀ operation ∈ operationTypes, isSchemaName operation.2 = true := by decide
    obtain ⟨hroots, -⟩ := Emission.schemaEntry_parts (hm.schemaEntry_of_some hs)
    refine ⟨fun root hroot => ⟨?_, ?_⟩, fun t ht => ?_⟩
    · obtain ⟨type, hoperation, -⟩ := hroots root hroot
      exact isWord_of_isSchemaName (hoperations _ hoperation)
    · exact isWord_of_offers h hproper hm
        (.inr (hnames _ (List.mem_append_left _ (List.mem_map_of_mem hroot))))
    · exact isWord_of_offers h hproper hm (.inr (hnames _ (List.mem_append_right _ ht)))

end SourceModel

end SchemaCompiler
