import SchemaCompiler.Proofs.Analyzed
import SchemaCompiler.Proofs.Filling
import SchemaCompiler.Proofs.Registry

/-! The types that the fields of an analysis refer to. All of them are in the graph, and outside of
templates none is open. A builtin scalar is one that the schema library defines, so the module can
write all of them. -/

namespace SchemaCompiler

namespace Scope

variable {scope : Scope} {s : Resolution}

/-- What resolved fields refer to is held. -/
theorem Resolved.references_held {owner : String} {env : Environment} {ds : List FieldDescriptor}
    {fields : List GraphField} (h : Resolved s (scope.planFields owner env ds) fields)
    (henv : EnvKnown s.Holds env) : ∀ t ∈ TypeGraph.references fields, ∀ n, t.target? = some n →
      s.Holds n := by
  intro t ht n hn
  rcases (planFields_careful scope henv owner ds).answered fields h.outcome t ht n hn with
    hheld | ⟨r, hr, rfl⟩
  · exact hheld
  · exact Request.holds_type (h.met r hr)

/-- The fields of a type in the graph refer to types in the graph, and they hold no type
parameter. -/
theorem Complete.node_references (h : scope.Complete s) {node : Node}
    (hnode : node ∈ s.graph.nodes) : ∀ t ∈ TypeGraph.references node.fields,
      t.isClosed = true ∧ ∀ n, t.target? = some n → s.Holds n := by
  have hsound := h.sound.nodes node hnode
  cases node with
  | object o =>
    obtain ⟨decl, -, -, hfilled⟩ := hsound
    have hfields := (hfilled (h.filled _ hnode)).2
    have hclosed := (planFields_kept (kept_isClosed fun _ _ h => by cases h) hfields.outcome).2
    exact fun t ht => ⟨hclosed t ht, hfields.references_held (fun _ _ h => by cases h) t ht⟩
  | instantiation i =>
    obtain ⟨decl, hentry⟩ := h.sound.memo i hsound.1
    have hfields := hentry.body hsound.2
    have hclosed := (planFields_kept (kept_isClosed fun _ _ hlookup => by
      rw [(lookup_singleton_eq_some hlookup).2]; rfl) hfields.outcome).2
    exact fun t ht => ⟨hclosed t ht,
      hfields.references_held (envKnown_singleton _ hentry.argument) t ht⟩
  | _ => exact fun _ ht => nomatch ht

theorem Complete.template_references (h : scope.Complete s) {template : Template}
    (htemplate : template ∈ s.graph.templates) :
    ∃ parameter, template.parameters = [parameter] ∧
      ∀ t ∈ TypeGraph.references template.fields, t.OfTemplate scope.model parameter ∧
        ∀ n, t.target? = some n → s.Holds n := by
  obtain ⟨decl, hsound⟩ := h.sound.templates template htemplate
  have hof := (planFields_kept (kept_ofTemplate _) hsound.body.outcome).2
  exact ⟨decl.parameter, hsound.parameters, fun t ht => ⟨hof t ht,
    hsound.body.references_held (envKnown_placeholder _ _) t ht⟩⟩

end Scope

namespace Emission

theorem argumentEntry_eq_ok {params : List (String × String)} {g : GraphArgument}
    {entry : ArgumentEntry} : argumentEntry params g = .ok entry ↔
      ∃ term, g.type.term params = .ok term ∧ entry = ⟨g.name, term, g.description⟩ := by
  rw [argumentEntry, except_bind_eq_ok]
  exact exists_congr fun term => and_congr_right fun _ => by rw [Except.ok.injEq, eq_comm]

/-- A field is written if it has a resolver and a type and its types can be written. -/
theorem fieldEntry_eq_ok {e : Emission} {typeName : String} {params : List (String × String)}
    {f : GraphField} {entry : FieldEntry} : e.fieldEntry typeName params f = .ok entry ↔
      ∃ resolver type term arguments, e.bindings.get? typeName f.name = some resolver ∧
        f.type = some type ∧ type.term params = .ok term ∧
        List.Forall₂ (fun g a => argumentEntry params g = .ok a) f.arguments arguments ∧
        entry = ⟨f.name, term, arguments, resolver, f.description, f.deprecationReason⟩ := by
  rw [fieldEntry]
  rcases e.bindings.get? typeName f.name with _ | resolver
  · simp
  rcases f.type with _ | type
  · simp
  · simp only [except_bind_eq_ok, mapM_eq_ok, Option.some.injEq, Except.ok.injEq]
    constructor
    · rintro ⟨term, hterm, arguments, harguments, rfl⟩
      exact ⟨_, _, term, arguments, rfl, rfl, hterm, harguments, rfl⟩
    · rintro ⟨_, _, term, arguments, rfl, rfl, hterm, harguments, rfl⟩
      exact ⟨term, hterm, arguments, harguments, rfl⟩

theorem factories_eq_ok {e : Emission} {entries : List FactoryEntry} :
    e.factories = .ok entries ↔ List.Forall₂ (fun t f => ∃ fields,
      List.Forall₂ (fun g entry => e.fieldEntry t.name (factoryParameters t) g = .ok entry)
        t.fields fields ∧
      f = ⟨safeIdentifier t.name, t.name, (factoryParameters t).map (·.2), t.description, fields⟩)
      e.graph.templates entries := by
  rw [factories, mapM_eq_ok]
  refine iff_of_eq (congrArg (List.Forall₂ · _ _) ?_)
  funext t f
  simp only [except_bind_eq_ok, mapM_eq_ok, Except.ok.injEq, @eq_comm _ f]

end Emission

def Named.Written : Named → Prop
  | .scalar s => s.builtin = true → ∃ name, libraryScalars.lookup s.name = some name
  | _ => True

namespace TypeNode

def placeholders : TypeNode → List String
  | .list element => element.placeholders
  | .nonNull inner => inner.placeholders
  | .named _ => []
  | .placeholder name => [name]
  | .applied _ argument => argument.placeholders

theorem OfTemplate.placeholders {model : SourceModel} {parameter : String} {t : TypeNode}
    (ht : t.OfTemplate model parameter) : ∀ p ∈ t.placeholders, p = parameter := by
  induction t with
  | named n => exact fun _ hp => nomatch hp
  | list element ih => exact ih ht
  | nonNull inner ih => exact ih ht
  | placeholder name => exact fun p hp => (List.mem_singleton.1 hp).trans ht
  | applied generic argument ih => exact ih ht.2.2

theorem placeholders_of_isClosed {t : TypeNode} (ht : t.isClosed = true) : t.placeholders = [] := by
  induction t with
  | named n => rfl
  | list element ih => exact ih ht
  | nonNull inner ih => exact ih ht
  | placeholder name => cases ht
  | applied generic argument => cases ht

/-- A type can be written where its parameters are known and the named type in it can be. -/
theorem term_ok {params : List (String × String)} {t : TypeNode}
    (hparams : ∀ p ∈ t.placeholders, (params.lookup p).isSome = true)
    (hwritten : ∀ n, t.target? = some n → n.Written) : ∃ term, t.term params = .ok term := by
  induction t with
  | named n =>
    have hn := hwritten n rfl
    cases n with
    | scalar s =>
      rw [term]
      split
      · rename_i hbuiltin
        obtain ⟨name, hname⟩ := hn hbuiltin
        exact ⟨_, by rw [hname]⟩
      · exact ⟨_, rfl⟩
    | _ => exact ⟨_, rfl⟩
  | list element ih =>
    obtain ⟨term, hterm⟩ := ih hparams hwritten
    exact ⟨.list term, by rw [TypeNode.term, hterm]; rfl⟩
  | nonNull inner ih =>
    obtain ⟨term, hterm⟩ := ih hparams hwritten
    exact ⟨.nonNull term, by rw [TypeNode.term, hterm]; rfl⟩
  | placeholder name =>
    obtain ⟨parameter, hparameter⟩ :=
      Option.isSome_iff_exists.1 (hparams name (List.mem_singleton_self _))
    exact ⟨.parameter parameter, by rw [TypeNode.term, hparameter]⟩
  | applied generic argument ih =>
    obtain ⟨term, hterm⟩ := ih hparams hwritten
    exact ⟨.call (safeIdentifier generic) term, by rw [TypeNode.term, hterm]; rfl⟩

end TypeNode

namespace SourceModel

variable {model : SourceModel} {a : Analysis}

/-- A planned field has the name that its descriptor has. -/
theorem template_fields_named (h : model.analyze = .ok a) {t : Template}
    (ht : t ∈ a.graph.templates) : ∀ f ∈ t.fields, f.descriptor.name = f.name := by
  obtain ⟨decl, hsound⟩ := (complete_of_analyze h).sound.templates t ht
  exact (Scope.planFields_kept (Scope.kept_ofTemplate _) hsound.body.outcome).1

/-- A field that is bound together with those of its type has a resolver there, and a type. -/
theorem get?_of_forType {bindings : Bindings} {owner : String} {fields : List GraphField}
    (hnames : ∀ f ∈ fields, f.descriptor.name = f.name)
    (h : bindFields owner fields = .ok (bindings.forType owner)) {f : GraphField}
    (hf : f ∈ fields) : (∃ b, bindings.get? owner f.name = some b) ∧ ∃ t, f.type = some t := by
  obtain ⟨b, hb, hbind⟩ := forall₂_mem_left (mapM_eq_ok.1 h) f hf
  obtain ⟨htype, as, -, rfl⟩ := Bindings.bindField_eq_ok.1 hbind
  refine ⟨?_, Option.isSome_iff_exists.1 htype⟩
  rw [Bindings.get?_eq_find?]
  refine Option.isSome_iff_exists.1 (List.find?_isSome.2 ⟨_, hb, ?_⟩)
  exact decide_eq_true (hnames f hf)

/-- A type that is marked as a builtin scalar is one of those that the schema library defines. -/
theorem mem_builtinScalars_of_holds (h : model.analyze = .ok a) {s : Scalar}
    (hs : a.resolution.Holds (.scalar s)) (hbuiltin : s.builtin = true) : s ∈ builtinScalars := by
  obtain ⟨node, hnode, href⟩ := (complete_of_analyze h).holds_iff.1 hs
  have hsound := (complete_of_analyze h).sound.nodes node hnode
  cases node with
  | scalar s' =>
    cases href
    have hmem : s ∈ a.registry.scalars := hsound
    rw [(ScalarRegistry.ofModel_eq_ok (analyze_eq_ok.1 h).2.1).2, List.mem_append] at hmem
    refine hmem.resolve_right fun hdeclared => ?_
    obtain ⟨d, -, rfl⟩ := List.mem_map.1 hdeclared
    cases hbuiltin
  | _ => cases href

/-- A module can write all types of an analysis. -/
theorem written_of_holds (h : model.analyze = .ok a) {n : Named} (hn : a.resolution.Holds n) :
    n.Written := by
  cases n with
  | scalar s =>
    intro hbuiltin
    have hall : ∀ b ∈ builtinScalars, (libraryScalars.lookup b.name).isSome = true := by decide
    exact Option.isSome_iff_exists.1 (hall s (mem_builtinScalars_of_holds h hn hbuiltin))
  | _ => trivial

/-- The fields of a type can be written if they have resolvers and their types can be written. -/
theorem fieldEntry_ok {e : Emission} {typeName : String} {params : List (String × String)}
    {fields : List GraphField} (hnames : ∀ f ∈ fields, f.descriptor.name = f.name)
    (hbind : bindFields typeName fields = .ok (e.bindings.forType typeName))
    (hterm : ∀ x ∈ TypeGraph.references fields, ∃ term, x.term params = .ok term) :
    ∀ f ∈ fields, ∃ entry, e.fieldEntry typeName params f = .ok entry := by
  intro f hf
  obtain ⟨⟨b, hb⟩, type, htype⟩ := get?_of_forType hnames hbind hf
  obtain ⟨term, hterm'⟩ := hterm type
    (List.mem_flatMap.2 ⟨f, hf, by simp [GraphField.types, htype]⟩)
  have harguments : ∀ g ∈ f.arguments, ∃ entry, Emission.argumentEntry params g = .ok entry := by
    intro g hg
    obtain ⟨x, hx⟩ := hterm g.type (List.mem_flatMap.2
      ⟨f, hf, List.mem_append_right _ (List.mem_map_of_mem hg)⟩)
    exact ⟨_, Emission.argumentEntry_eq_ok.2 ⟨x, hx, rfl⟩⟩
  obtain ⟨entries, hentries⟩ := exists_forall₂ harguments
  exact ⟨_, Emission.fieldEntry_eq_ok.2 ⟨b, type, term, entries, hb, htype, hterm', hentries, rfl⟩⟩

/-- The factories of an analysis can be written. -/
theorem factories_ok (h : model.analyze = .ok a) :
    ∃ factories, a.emission.factories = .ok factories := by
  simp only [Emission.factories_eq_ok]
  refine exists_forall₂ fun t ht => ?_
  obtain ⟨parameter, hparameters, hreferences⟩ :=
    (complete_of_analyze h).template_references ht
  have hparams : Emission.factoryParameters t = [(parameter, parameterIdentifier parameter)] := by
    simp [Emission.factoryParameters, hparameters]
  have hterm : ∀ x ∈ TypeGraph.references t.fields,
      ∃ term, x.term (Emission.factoryParameters t) = .ok term := by
    intro x hx
    refine TypeNode.term_ok (fun p hp => ?_) fun n hn =>
      written_of_holds h ((hreferences x hx).2 n hn)
    rw [hparams, (hreferences x hx).1.placeholders p hp, List.lookup_cons_self]
    rfl
  have hfields : ∀ f ∈ t.fields,
      ∃ entry, a.emission.fieldEntry t.name (Emission.factoryParameters t) f = .ok entry :=
    fieldEntry_ok (template_fields_named h ht) (bindFields_of_template h ht) hterm
  obtain ⟨entries, hentries⟩ := exists_forall₂ hfields
  exact ⟨_, entries, hentries, rfl⟩

end SourceModel

end SchemaCompiler
