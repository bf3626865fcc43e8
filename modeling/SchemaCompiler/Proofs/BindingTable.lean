import SchemaCompiler.Proofs.Calling
import SchemaCompiler.Proofs.ClosedGraph

/-! The table of resolvers. A field can be bound if it has a type and all its arguments are scalars
or enums inside their lists and non-nulls. Where all fields of a resolved graph are so, the table has
one entry for each of them; where one is not, it is the reason why there is no table. -/

namespace SchemaCompiler

section

variable {ε α β : Type} {f : α → Except ε β}

theorem mapM_flatten (ass : List (List α)) :
    ass.flatten.mapM f = (ass.mapM fun as => as.mapM f) >>= fun bss => pure bss.flatten := by
  induction ass with
  | nil => rfl
  | cons as rest ih =>
    simp only [List.flatten_cons, List.mapM_append, List.mapM_cons, ih, bind_assoc, pure_bind]

end

namespace GraphArgument

/-- Whether an argument is a scalar or an enum, or lists and non-nulls of these. -/
def IsInput (a : GraphArgument) : Prop :=
  (∃ s, a.type.unwrap = .named (.scalar s)) ∨ ∃ name, a.type.unwrap = .named (.enum name)

/-- How an argument is passed on; one of the scalar `ID` is turned into an identifier. -/
def text (a : GraphArgument) : String :=
  "argument(" ++ nameLiteral a.name ++ if a.isId then ", to_id)" else ")"

end GraphArgument

namespace GraphField

/-- Whether there is a way to a field: it has a type, and its arguments can be given. -/
structure Reachable (f : GraphField) : Prop where
  typed : f.type.isSome = true
  inputs : ∀ a ∈ f.arguments, a.IsInput

/-- The text of a field's resolver, by how it is reached and awaited and by its arguments. -/
def resolverText (f : GraphField) : String :=
  let helper := match f.descriptor.access, f.descriptor.effect with
    | .property, .immediate => "read_property"
    | .property, .deferred => "read_deferred_property"
    | .accessor, .immediate => "call_accessor"
    | .accessor, .deferred => "call_deferred_accessor"
  helper ++ "(" ++ ", ".intercalate (nameLiteral f.name :: f.arguments.map GraphArgument.text) ++ ")"

end GraphField

/-- The fields of objects, instantiations and templates, each with the name of its type. -/
def TypeGraph.ownedFields (graph : TypeGraph) : List (String × GraphField) :=
  graph.owners.flatMap fun owner => owner.2.map fun f => (owner.1, f)

def Binding.key (b : Binding) : String × String :=
  (b.typeName, b.field)

/-- Whether a binding is that of a field of a type. -/
structure Binds (p : String × GraphField) (b : Binding) : Prop where
  key : b.key = (p.1, p.2.name)
  expression : b.expression = p.2.resolverText

section

variable {a : GraphArgument} {f : GraphField} {owner : String}

theorem bindArgument_isInput {b : ArgumentBinding} (h : bindArgument a = .ok b) : a.IsInput := by
  rw [bindArgument] at h
  rw [GraphArgument.IsInput]
  generalize a.type.unwrap = t at h ⊢
  rcases t with (name | name | s | name | key) | element | inner | parameter | generic <;> cases h
  · exact .inr ⟨name, rfl⟩
  · exact .inl ⟨s, rfl⟩

theorem bindArgument_text {b : ArgumentBinding} (h : bindArgument a = .ok b) :
    b.expression = a.text := by
  rw [ArgumentBinding.expression_eq, bindArgument_name h, bindArgument_toId h, GraphArgument.text]

theorem bindArgument_error {c : Cause} (h : bindArgument a = .error c) :
    ¬a.IsInput ∧ c.kind = .unboundAccessor := by
  rw [bindArgument] at h
  rw [GraphArgument.IsInput]
  generalize a.type.unwrap = t at h ⊢
  rcases t with (name | name | s | name | key) | element | inner | parameter | generic <;> cases h <;>
    exact ⟨by simp, rfl⟩

/-- A field that is bound can be reached, and its arguments are passed on in order. -/
theorem bindField_ok {b : Binding} (h : bindField owner f = .ok b) :
    f.Reachable ∧ b.typeName = owner ∧ b.descriptor = f.descriptor ∧
      b.arguments.map ArgumentBinding.expression = f.arguments.map GraphArgument.text := by
  obtain ⟨htype, as, has, rfl⟩ := Bindings.bindField_eq_ok.1 h
  have hforall := mapM_eq_ok.1 has
  refine ⟨⟨htype, fun a ha => ?_⟩, rfl, rfl, ?_⟩
  · obtain ⟨b, -, hb⟩ := forall₂_mem_left hforall a ha
    exact bindArgument_isInput hb
  · exact forall₂_map_eq (hforall.imp fun _ _ hb => bindArgument_text hb)

theorem bindField_error {e : CompileError} (h : bindField owner f = .error e) :
    ¬f.Reachable ∧ e.cause.kind = .unboundAccessor ∧
      e.site = ⟨some f.descriptor.owner, some f.descriptor.name⟩ := by
  unfold bindField at h
  split at h
  · rename_i htype
    cases h
    exact ⟨fun hf => by simpa [htype] using hf.typed, rfl, rfl⟩
  · rename_i c harguments
    cases h
    obtain ⟨a, ha, hc⟩ := mapM_eq_error harguments
    exact ⟨fun hf => (bindArgument_error hc).1 (hf.inputs a ha), (bindArgument_error hc).2, rfl⟩
  · cases h

end

/-- Where the descriptor of a field has its name, a binding of the field has its resolver's text. -/
theorem binds_of_bindField {p : String × GraphField} {b : Binding}
    (hname : p.2.descriptor.name = p.2.name) (h : bindField p.1 p.2 = .ok b) : Binds p b := by
  obtain ⟨-, htype, hdescriptor, harguments⟩ := bindField_ok h
  constructor
  · rw [Binding.key, Binding.field, htype, hdescriptor, hname]
  · rw [Binding.expression, GraphField.resolverText, harguments, Binding.helper, hdescriptor, hname]
    cases p.2.descriptor.access <;> cases p.2.descriptor.effect <;> rfl

namespace Bindings

/-- Resolvers are made for one field after the other. -/
theorem ofGraph_eq_ownedFields (graph : TypeGraph) :
    ofGraph graph =
      (graph.ownedFields.mapM fun p => bindField p.1 p.2) >>= fun bs => .ok ⟨bs⟩ := by
  rw [ofGraph_eq_mapM, TypeGraph.ownedFields, List.flatMap_def, mapM_flatten]
  simp only [List.mapM_map, bindFields, bind_assoc, pure_bind, Function.comp_def]

end Bindings

theorem Declaration.Proper.fieldNames {d : Declaration} (h : d.Proper) :
    (d.fields.map (·.name)).Nodup := by
  cases d with
  | object decl => exact h.body.names
  | generic decl => exact h.body.2.names
  | _ => exact List.nodup_nil

namespace Scope

variable {scope : Scope} {s : Resolution}

theorem Complete.field_name (h : scope.Complete s) {p : String × GraphField}
    (hp : p ∈ s.graph.ownedFields) : p.2.descriptor.name = p.2.name := by
  obtain ⟨owner, howner, hp⟩ := List.mem_flatMap.1 hp
  obtain ⟨f, hf, rfl⟩ := List.mem_map.1 hp
  rcases h.owner_denotes howner with hempty | ⟨d, -, env, hfields⟩
  · rw [hempty] at hf
    cases hf
  · obtain ⟨descriptor, -, hdenotes⟩ := forall₂_mem_right hfields f hf
    rw [hdenotes.descriptor, hdenotes.name]

/-- No two fields of a proper model's graph have both their type's name and their own in common. -/
theorem Complete.ownedFields_nodup (h : scope.Complete s) (hproper : scope.model.Proper) :
    (s.graph.ownedFields.map fun p => (p.1, p.2.name)).Nodup := by
  have howners : (s.graph.owners.map (·.1)).Nodup := by
    rw [TypeGraph.owners, List.map_append, List.map_map, List.map_map]
    exact h.sound.names
  rw [TypeGraph.ownedFields, List.map_flatMap, List.nodup_flatMap]
  -- inside a type by the names of its fields, between two types by their own names
  constructor
  · intro owner howner
    rw [List.map_map]
    rcases h.owner_denotes howner with hempty | ⟨d, hd, env, hfields⟩
    · rw [hempty]
      exact List.nodup_nil
    · have hnames : (owner.2.map (·.name)).Nodup := by
        rw [forall₂_map_eq (hfields.imp fun _ _ hf => hf.name)]
        exact (hproper d hd).fieldNames
      exact List.Nodup.of_map Prod.snd (by rwa [List.map_map])
  · refine (List.pairwise_map.1 howners).imp fun {x y} hne => ?_
    simp only [Function.onFun, List.disjoint_left, List.map_map, List.mem_map]
    rintro _ ⟨f, -, rfl⟩ ⟨g, -, heq⟩
    exact hne (congrArg Prod.fst heq).symm

/-- A resolved graph is bound exactly if there is a way to each of its fields. Then the bindings are
those of the fields, one for each, and in a proper model one for each pair of names. Otherwise the
error is about a field that there is no way to. -/
theorem binds_iff_reachable (hrun : scope.resolve {} = (.ok (), s)) :
    ((∃ b, Bindings.ofGraph s.graph = .ok b) ↔ ∀ p ∈ s.graph.ownedFields, p.2.Reachable) ∧
    (∀ b, Bindings.ofGraph s.graph = .ok b → List.Forall₂ Binds s.graph.ownedFields b.all ∧
      (scope.model.Proper → (b.all.map Binding.key).Nodup)) ∧
    ∀ e, Bindings.ofGraph s.graph = .error e → e.cause.kind = .unboundAccessor ∧
      ∃ p ∈ s.graph.ownedFields, ¬p.2.Reachable ∧
        e.site = ⟨some p.2.descriptor.owner, some p.2.descriptor.name⟩ := by
  have h := complete_of_resolve hrun
  rcases hmapM : s.graph.ownedFields.mapM fun p => bindField p.1 p.2 with e | bs
  · have hofGraph : Bindings.ofGraph s.graph = .error e := by
      rw [Bindings.ofGraph_eq_ownedFields, hmapM]
      rfl
    obtain ⟨p, hp, hbind⟩ := mapM_eq_error hmapM
    obtain ⟨hunreachable, hkind, hsite⟩ := bindField_error hbind
    rw [hofGraph]
    refine ⟨⟨fun ⟨_, hb⟩ => (nomatch hb), fun hall => absurd (hall p hp) hunreachable⟩,
      fun _ hb => (nomatch hb), fun e' he => ?_⟩
    cases he
    exact ⟨hkind, p, hp, hunreachable, hsite⟩
  · have hofGraph : Bindings.ofGraph s.graph = .ok ⟨bs⟩ := by
      rw [Bindings.ofGraph_eq_ownedFields, hmapM]
      rfl
    have hforall := mapM_eq_ok.1 hmapM
    have hbinds : List.Forall₂ Binds s.graph.ownedFields bs :=
      ((List.forall₂_and_left _ _).2 ⟨fun _ hp => h.field_name hp, hforall⟩).imp
        fun _ _ hb => binds_of_bindField hb.1 hb.2
    rw [hofGraph]
    refine ⟨⟨fun _ p hp => ?_, fun _ => ⟨_, rfl⟩⟩, fun b hb => ?_, fun _ he => nomatch he⟩
    · obtain ⟨b, -, hb⟩ := forall₂_mem_left hforall p hp
      exact (bindField_ok hb).1
    · cases hb
      refine ⟨hbinds, fun hproper => ?_⟩
      rw [forall₂_map_eq (hbinds.imp fun _ _ hb => hb.key)]
      exact h.ownedFields_nodup hproper

/-- A unit in which a deferred accessor of a page of items takes identifiers and an enum. -/
def catalogUnit : HostUnit where
  name := "catalog"
  declarations := [
    { kind := .enum, name := "Order", participates := true
      values := [{ name := "ASC" }, { name := "DESC" }] },
    { kind := .genericObject, name := "Page", participates := true, typeParameters := ["T"]
      fields := [{ name := "items", type := some (.array (.named "T")) }] },
    { kind := .object, name := "Query", participates := true
      fields := [
        { name := "find", type := some (.generic "Page" [.named "string"]), access := .accessor
          deferred := true
          arguments := [{ name := "ids", type := .array (.named "ID") },
            { name := "order", type := .named "Order" }] }] }]

def catalogTable : List ((String × String) × String) :=
  [(("Query", "find"),
      "call_deferred_accessor(\"find\", argument(\"ids\", to_id), argument(\"order\"))"),
    (("StringPage", "items"), "read_property(\"items\")"),
    (("Page", "items"), "read_property(\"items\")")]

theorem catalogUnit_bound : ∃ (scope : Scope) (s : Resolution) (b : Bindings),
    catalogUnit.extract = .ok scope.model ∧ scope.resolve {} = (.ok (), s) ∧
    Bindings.ofGraph s.graph = .ok b ∧ (∀ p ∈ s.graph.ownedFields, p.2.Reachable) ∧
    List.Forall₂ Binds s.graph.ownedFields b.all ∧ (b.all.map Binding.key).Nodup ∧
    b.all.map (fun x => (x.key, x.expression)) = catalogTable := by
  have hrun : (catalogUnit.extract.toOption.bind fun model => model.analyze.toOption).map
      (fun a => a.bindings.all.map fun x => (x.key, x.expression)) = some catalogTable := by
    decide +kernel
  obtain ⟨a, ha, htable⟩ := Option.map_eq_some_iff.1 hrun
  obtain ⟨model, hmodel, ha⟩ := Option.bind_eq_some_iff.1 ha
  obtain ⟨rfl, -, hresolve, hbindings⟩ := SourceModel.analyze_eq_ok.1 (except_toOption_eq_some.1 ha)
  have hextract := except_toOption_eq_some.1 hmodel
  obtain ⟨hreachable, hbound, -⟩ := binds_iff_reachable hresolve
  obtain ⟨hbinds, hnodup⟩ := hbound _ hbindings
  exact ⟨a.scope, a.resolution, a.bindings, hextract, hresolve, hbindings,
    hreachable.1 ⟨_, hbindings⟩, hbinds, hnodup (HostUnit.extract_proper hextract), htable⟩

end Scope

end SchemaCompiler
