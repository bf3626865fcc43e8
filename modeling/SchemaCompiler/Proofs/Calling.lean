import SchemaCompiler.Proofs.Identifiers
import SchemaCompiler.Proofs.Imports
import SchemaCompiler.Proofs.ResolverText

/-! Calling accessors. The resolver of an accessor passes one value for each declared argument, in
order; where the type of an argument is `ID` the value is turned into an identifier. It does so
unless an argument is supplied under the name of one of the resolver's own parameters. -/

namespace SchemaCompiler

variable {φ : Type}

namespace Value

theorem member_eq_lookup (name : String) (members : List (String × Value φ)) :
    member name members = (members.lookup name).getD .null := by
  induction members with
  | nil => rfl
  | cons m rest ih =>
    obtain ⟨key, value⟩ := m
    rw [member, List.lookup_cons]
    by_cases hkey : key = name
    · simp [hkey]
    · have hne : (name == key) = false := by simpa using Ne.symm hkey
      rw [if_neg hkey, hne, ih]

end Value

/-- Whether the type inside an argument's lists and non-null marks is the scalar `ID`. -/
def GraphArgument.isId (g : GraphArgument) : Bool :=
  match g.type.unwrap with
  | .named (.scalar s) => s.name = "ID"
  | _ => false

/-- The value that is due for an argument: null if it is not supplied. -/
def GraphArgument.due (g : GraphArgument) (supplied : List (String × Value φ)) : Value φ :=
  match supplied.lookup g.name with
  | none => .null
  | some value => if g.isId then value.toId else value

def GraphField.due (f : GraphField) (supplied : List (String × Value φ)) : List (Value φ) :=
  f.arguments.map fun g => g.due supplied

/-- How the answer of an accessor reaches the caller. -/
def Effect.deliver (effect : Effect) (answer : Except CallFault (Value φ)) :
    Except CallFault (Value φ) :=
  match effect with
  | .immediate => answer
  | .deferred => answer.map fun value => .later value.awaited

namespace Resolver

/-- A resolver calls the member of a field with the values that are due, and answers what the member
answers. -/
def Passes (r : Resolver) (f : GraphField) (supplied : List (String × Value φ)) : Prop :=
  ∀ (calls : Calls φ) (parent : Parent φ) (g : φ), parent.member f.name = .function g →
    r.resolve calls parent supplied = f.descriptor.effect.deliver (calls g (f.due supplied))

variable {r : Resolver} {supplied : List (String × Value φ)}

theorem resolve_of_free {effect : Effect} (hhelper : r.helper = .of .accessor effect)
    (hfree : ∀ x ∈ supplied, x.1 ∉ parameters) {calls : Calls φ} {parent : Parent φ} {g : φ}
    (hmember : parent.member r.name = .function g) :
    r.resolve calls parent supplied = effect.deliver (calls g (r.values supplied)) := by
  have hfind : (supplied.find? fun x => parameters.contains x.1) = none := by
    rw [List.find?_eq_none]
    exact fun x hx hmem => hfree x hx (List.contains_iff_mem.1 hmem)
  have hinvoke : r.invoke calls parent supplied = calls g (r.values supplied) := by
    rw [invoke, hmember]
  rw [resolve, hfind]
  cases effect <;> simp only [hhelper, ResolverHelper.of, hinvoke, Effect.deliver]

/-- An argument with the name of a parameter stops the resolver before it looks at its parent. -/
theorem resolve_of_taken (htaken : ∃ x ∈ supplied, x.1 ∈ parameters) :
    ∃ name ∈ parameters, ∀ (calls : Calls φ) (parent : Parent φ),
      r.resolve calls parent supplied = .error (.parameterTaken r.helper name) := by
  obtain ⟨x, hx, hmem⟩ := htaken
  have hsome : (supplied.find? fun x => parameters.contains x.1).isSome = true :=
    List.find?_isSome.2 ⟨x, hx, List.contains_iff_mem.2 hmem⟩
  obtain ⟨⟨name, value⟩, hfind⟩ := Option.isSome_iff_exists.1 hsome
  have hname := List.find?_some hfind
  refine ⟨name, List.contains_iff_mem.1 hname, fun calls parent => ?_⟩
  rw [resolve, hfind]

end Resolver

/-- An argument is turned into an identifier exactly if its type is `ID`. -/
theorem bindArgument_toId {g : GraphArgument} {b : ArgumentBinding} (h : bindArgument g = .ok b) :
    b.toId = g.isId := by
  unfold bindArgument at h
  rw [GraphArgument.isId]
  split at h <;> cases h <;> rename_i hunwrap <;> rw [hunwrap]

theorem bindArgument_value {g : GraphArgument} {b : ArgumentBinding} (h : bindArgument g = .ok b)
    (supplied : List (String × Value φ)) :
    (⟨b.name, b.toId⟩ : ArgumentSpec).value supplied = g.due supplied := by
  rw [ArgumentSpec.value, GraphArgument.due, bindArgument_name h, bindArgument_toId h,
    Value.member_eq_lookup]
  rcases supplied.lookup g.name with _ | value
  · cases g.isId <;> rfl
  · cases g.isId <;> rfl

/-- The resolver of a field passes the values that are due. -/
theorem bindField_values {owner : String} {f : GraphField} {b : Binding}
    (h : bindField owner f = .ok b) (supplied : List (String × Value φ)) :
    b.resolver.values supplied = f.due supplied := by
  obtain ⟨-, as, has, rfl⟩ := Bindings.bindField_eq_ok.1 h
  rw [Resolver.values, Binding.resolver, GraphField.due, List.map_map]
  exact forall₂_map_eq ((mapM_eq_ok.1 has).imp fun g b hb => bindArgument_value hb supplied)

theorem bindField_passes {owner : String} {f : GraphField} {b : Binding}
    (h : bindField owner f = .ok b) (hnamed : f.descriptor.name = f.name)
    (haccess : f.descriptor.access = .accessor) {supplied : List (String × Value φ)}
    (hfree : ∀ x ∈ supplied, x.1 ∉ Resolver.parameters) : b.resolver.Passes f supplied := by
  intro calls parent g hmember
  rw [← bindField_values h]
  obtain ⟨-, as, -, rfl⟩ := Bindings.bindField_eq_ok.1 h
  refine Resolver.resolve_of_free ?_ hfree ?_
  · rw [← haccess]
    rfl
  · rw [← hmember, ← hnamed]
    rfl

/-- The resolver of a field is the one that is found under its name. -/
theorem bindField_of_get? {bindings : Bindings} {owner : String} {fields : List GraphField}
    (hfields : ProperGraphFields fields)
    (h : bindFields owner fields = .ok (bindings.forType owner)) {f : GraphField} (hf : f ∈ fields)
    {b : Binding} (hb : bindings.get? owner f.name = some b) : bindField owner f = .ok b := by
  rw [Bindings.get?_eq_find?] at hb
  obtain ⟨f', hf', hbind⟩ :=
    forall₂_mem_right (mapM_eq_ok.1 h) b (List.mem_of_find?_eq_some hb)
  have hfield : b.field = f.name := by simpa using List.find?_some hb
  have hname : f'.name = f.name := by
    rw [← hfield, ← hfields.named f' hf']
    obtain ⟨-, as, -, rfl⟩ := Bindings.bindField_eq_ok.1 hbind
    rfl
  rwa [List.inj_on_of_nodup_map hfields.names hf' hf hname] at hbind

namespace SourceModel

variable {model : SourceModel} {a : Analysis}

/-- The fields of every declaration are written. -/
theorem declared_written (h : model.analyze = .ok a) {d : Declaration}
    (hd : d ∈ a.model.declarations) {x : FieldDescriptor} (hx : x ∈ d.fields) :
    ∃ env f, (d.name, f) ∈ a.emission.writtenFields ∧ x.Denotes a.scope.node a.graph env f := by
  have hcomplete := complete_of_analyze h
  have hentered := hcomplete.entered d hd
  cases d with
  | object decl =>
    obtain ⟨t, ht, hname, -, houtcome, hmet⟩ := hentered
    obtain ⟨f, hf, hdenotes⟩ :=
      forall₂_mem_left (hcomplete.planFields_denotes ⟨houtcome, hmet⟩) x hx
    have hheld : a.resolution.Holds (.object t.name) := hcomplete.holds_iff.2 ⟨_, ht, rfl⟩
    have hget : a.emission.graph.get? t.name = some (.object t) :=
      TypeGraph.get?_of_mem hcomplete.sound.nodup ht
    have hnode : Node.object t ∈ a.emission.objectNodes := by
      refine List.mem_filterMap.2 ⟨_, mem_ordered h hheld ⟨_, hd, hname.symm⟩, ?_⟩
      simp only [Named.name, hget]
    exact ⟨_, f, Emission.mem_writtenFields.2 (.inr ⟨_, hnode, hname, hf⟩), hdenotes⟩
  | generic decl =>
    obtain ⟨t, ht, hsound⟩ := hentered
    obtain ⟨f, hf, hdenotes⟩ :=
      forall₂_mem_left (hcomplete.planFields_denotes ⟨hsound.body.1, hsound.body.2⟩) x hx
    exact ⟨_, f, Emission.mem_writtenFields.2 (.inl ⟨t, ht, hsound.name, hf⟩), hdenotes⟩
  | enum decl => cases hx
  | scalar decl => cases hx

/-- A written field has the resolver that it is bound to. -/
theorem bindField_of_written (h : model.analyze = .ok a) (hproper : a.model.Proper) {owner : String}
    {f : GraphField} (hf : (owner, f) ∈ a.emission.writtenFields) {b : Binding}
    (hb : a.emission.bindings.get? owner f.name = some b) : bindField owner f = .ok b := by
  obtain ⟨hnodes, htemplates⟩ := owners_proper h hproper
  rcases Emission.mem_writtenFields.1 hf with ⟨t, ht, rfl, hmem⟩ | ⟨node, hnode, rfl, hmem⟩
  · exact bindField_of_get? (htemplates t ht) (bindFields_of_template h ht) hmem hb
  · have hgraph := mem_nodes_of_objectNodes hnode
    exact bindField_of_get? (hnodes node hgraph (Emission.Sections.kind_of_objectNodes hnode))
      (bindFields_of_node h hgraph) hmem hb

/-- The entry of a written field has the resolver of the field, and its expression makes it. -/
theorem entry_bound (h : model.analyze = .ok a) (hproper : a.model.Proper) {owner : String}
    {f : GraphField} (hf : (owner, f) ∈ a.emission.writtenFields)
    {params : List (String × String)} {entry : FieldEntry}
    (hwrites : a.emission.WritesField owner params f entry) :
    bindField owner f = .ok entry.resolver ∧
      Resolver.read? entry.resolver.expression = some entry.resolver.resolver :=
  ⟨bindField_of_written h hproper hf hwrites.resolver,
    Binding.read?_expression
      (binding_wellSpelled h hproper (List.mem_of_find?_eq_some hwrites.resolver))⟩

end SourceModel

/-- Every accessor of a unit gets the arguments that its field is called with, in the order of their
declarations, null for those that are not supplied, and identifiers for those of the type `ID`. The
only calls that do not reach it are those with an argument under the name of a parameter of the
resolver. -/
theorem UnitSource.accessors_served {source : UnitSource} {config : Config} {hooks : Hooks}
    {schema : EmittedSchema} (h : source.compile config hooks = .ok schema)
    (hpre : hooks.KeepProper) : ∃ a m, source.Emits config hooks a m schema ∧
      (∀ d ∈ a.model.declarations, ∀ x ∈ d.fields, x.access = .accessor →
        ∃ entry ∈ m.fieldEntries, ∃ params env f r,
          a.emission.WritesField d.name params f entry ∧ x.Denotes a.scope.node a.graph env f ∧
          Resolver.read? entry.resolver.expression = some r ∧
          ∀ (φ : Type) (supplied : List (String × Value φ)),
            ((∀ y ∈ supplied, y.1 ∉ Resolver.parameters) → r.Passes f supplied) ∧
            ((∃ y ∈ supplied, y.1 ∈ Resolver.parameters) → ∃ name ∈ Resolver.parameters,
              ∀ (calls : Calls φ) (parent : Parent φ),
                r.resolve calls parent supplied = .error (.parameterTaken r.helper name))) ∧
      ∀ (φ : Type) (v : Value φ), v.toId.nesting = v.nesting ∧
        v.toId.leaves = v.leaves.map (fun leaf => .id leaf.plainText) ∧ v.toId.toId = v.toId := by
  obtain ⟨a, m, hemits⟩ := compile_eq_ok.1 h
  obtain ⟨_, -, ha⟩ := hemits.analyzed
  obtain ⟨style, -, hm⟩ := hemits.written
  have hproper := hemits.model_proper hpre
  refine ⟨a, m, hemits, fun d hd x hx haccess => ?_, fun φ v =>
    ⟨v.toId_nesting, v.toId_leaves, v.toId_toId⟩⟩
  obtain ⟨env, f, hf, hdenotes⟩ := SourceModel.declared_written ha hd hx
  obtain ⟨params, entry, hentry, hwrites⟩ := hm.exists_fieldEntry hf
  obtain ⟨hbind, hread⟩ := SourceModel.entry_bound ha hproper hf hwrites
  have hnamed : f.descriptor.name = f.name := by rw [hdenotes.descriptor, hdenotes.name]
  have haccessor : f.descriptor.access = .accessor := by rw [hdenotes.descriptor, haccess]
  refine ⟨entry, hentry, params, env, f, entry.resolver.resolver, hwrites, hdenotes, hread,
    fun φ supplied => ⟨?_, ?_⟩⟩
  · exact bindField_passes hbind hnamed haccessor
  · exact Resolver.resolve_of_taken

/-- A unit whose accessor has an argument with the name of a parameter of resolvers. -/
def cardUnit : HostUnit where
  name := "cards"
  declarations := [
    { kind := .object, name := "Card", participates := true
      fields := [
        { name := "show", type := some (.named "string"), access := .accessor
          arguments := [{ name := "info", type := .named "string" }] }] }]

def cardBinding : Binding where
  typeName := "Card"
  descriptor := {
    owner := "Card", name := "show", type := some (.ref "string"), access := .accessor
    arguments := [{ name := "info", type := .ref "string" }] }
  arguments := [{
    name := "info"
    type := .nonNull (.named
      (.scalar { name := "String", internalType := "string", builtin := true })) }]

def cardModule : SchemaModule where
  header := ""
  docstring := "Generated GraphQL schema. Do not edit."
  runtimeModule := "gql_schemagen.runtime"
  libraryImports := [
    "GraphQLArgument", "GraphQLField", "GraphQLNonNull", "GraphQLObjectType", "GraphQLString"]
  runtimeImports := ["argument", "call_accessor"]
  scalars := []
  enums := []
  factories := []
  objects := [
    { var := "Card", name := "Card", description := none, isLazy := false
      fields := [{
        name := "show", type := .nonNull (.library "GraphQLString")
        arguments := [
          { name := "info", type := .nonNull (.library "GraphQLString"), description := none }]
        resolver := cardBinding
        description := none, deprecationReason := none }] }]
  instances := []
  schema := none

theorem cardUnit_emits :
    ∃ a schema, (UnitSource.loaded cardUnit).Emits {} {} a cardModule schema := by
  refine HostUnit.emits_of_parts
    ["GraphQLObjectType", "GraphQLField", "GraphQLNonNull", "GraphQLString", "GraphQLArgument"]
    ["call_accessor", "argument"] ?_ rfl ?_ ?_ rfl ?_
  · cbv
  · simp [List.mergeSort, List.MergeSort.Internal.splitInTwo, cardModule]
  · simp [List.mergeSort, List.MergeSort.Internal.splitInTwo, cardModule]
  · decide +kernel

/-- The argument `info` is declared, but its value does not reach the accessor. -/
theorem cardBinding_drops {f : GraphField} (hname : f.name = "show") :
    ¬cardBinding.resolver.Passes f [("info", (.text "plain" : Value Unit))] := by
  intro hpasses
  have hanswer := hpasses (fun _ _ => .ok .null) (.mapping [("show", .function ())]) () (by
    rw [hname]
    rfl)
  generalize f.descriptor.effect = effect at hanswer
  cases effect <;> cases hanswer

/-- Not all accessors get their declared arguments. -/
theorem arguments_may_be_lost :
    ¬∀ (source : UnitSource) (config : Config) (hooks : Hooks) (schema : EmittedSchema)
      (a : Analysis) (m : SchemaModule), source.compile config hooks = .ok schema →
        hooks.KeepProper → source.Emits config hooks a m schema →
        ∀ owner params f, ∀ entry ∈ m.fieldEntries, a.emission.WritesField owner params f entry →
          f.descriptor.access = .accessor →
          ∀ r, Resolver.read? entry.resolver.expression = some r →
            ∀ supplied : List (String × Value Unit),
              (∀ y ∈ supplied, y.1 ∈ f.arguments.map (·.name)) → r.Passes f supplied := by
  intro hall
  obtain ⟨a, schema, hemits⟩ := cardUnit_emits
  obtain ⟨_, -, ha⟩ := hemits.analyzed
  obtain ⟨style, -, hm⟩ := hemits.written
  have hproper := hemits.model_proper Hooks.keepProper_empty
  -- the module has no other field than that of the accessor
  have hentry : cardModule.fieldEntries = [_] := rfl
  obtain ⟨owner, f, hf, params, hwrites⟩ :=
    hm.exists_writtenField (hentry ▸ List.mem_singleton_self _)
  obtain ⟨hbind, hread⟩ := SourceModel.entry_bound ha hproper hf hwrites
  obtain ⟨-, as, -, hbinding⟩ := Bindings.bindField_eq_ok.1 hbind
  have haccess : f.descriptor.access = .accessor :=
    (congrArg (·.descriptor.access) hbinding).symm
  have harguments : f.arguments.map (·.name) = ["info"] :=
    (forall₂_map_eq (hwrites.arguments.imp fun _ _ hg => hg.1)).symm
  refine cardBinding_drops hwrites.name.symm (hall _ _ _ _ _ _
    (UnitSource.compile_eq_ok.2 ⟨a, _, hemits⟩) Hooks.keepProper_empty hemits owner params f _
    (hentry ▸ List.mem_singleton_self _) hwrites haccess _ hread _ ?_)
  intro y hy
  rw [harguments, List.mem_singleton.1 hy]
  exact List.mem_singleton_self _

theorem cardUnit_extracted : cardUnit.extract = .ok {
    unit := "cards"
    declarations := [.object ⟨"Card", [cardBinding.descriptor], none⟩] } := by
  cbv

theorem cardUnit_served : ∃ schema a,
    (UnitSource.loaded cardUnit).compile {} {} = .ok schema ∧ ({} : Hooks).KeepProper ∧
      (UnitSource.loaded cardUnit).Emits {} {} a cardModule schema ∧
      ∃ entry ∈ cardModule.fieldEntries, ∃ f r, f.descriptor = cardBinding.descriptor ∧
        Resolver.read? entry.resolver.expression = some r ∧
        r.Passes f ([] : List (String × Value Unit)) ∧
        ∃ name ∈ Resolver.parameters, ∀ (calls : Calls Unit) (parent : Parent Unit),
          r.resolve calls parent [("info", .null)] = .error (.parameterTaken r.helper name) := by
  obtain ⟨a₀, schema, hemits₀⟩ := cardUnit_emits
  have hcompiles := UnitSource.compile_eq_ok.2 ⟨a₀, cardModule, hemits₀⟩
  obtain ⟨a, m, hemits, hserved, -⟩ := UnitSource.accessors_served hcompiles Hooks.keepProper_empty
  obtain ⟨-, rfl⟩ := hemits₀.unique hemits
  obtain ⟨model, hmodel, ha⟩ := hemits.analyzed
  cases hmodel.symm.trans cardUnit_extracted
  have hdeclared : Declaration.object ⟨"Card", [cardBinding.descriptor], none⟩ ∈
      a.model.declarations := by
    rw [(SourceModel.analyze_eq_ok.1 ha).1]
    exact List.mem_singleton_self _
  obtain ⟨entry, hentry, params, env, f, r, -, hdenotes, hread, hr⟩ :=
    hserved _ hdeclared _ (List.mem_singleton_self _) rfl
  exact ⟨schema, a, hcompiles, Hooks.keepProper_empty, hemits, entry, hentry, f, r,
    hdenotes.descriptor, hread, (hr Unit []).1 (List.forall_mem_nil _),
    (hr Unit [("info", .null)]).2 ⟨_, List.mem_singleton_self _, by decide⟩⟩

end SchemaCompiler
