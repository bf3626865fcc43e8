import SchemaCompiler.Proofs.References

/-! Building instantiations from templates. What is built from the template of a generic, with an
argument in the place of the type parameter and what is known in the place of applications, is the
instantiation, and its resolvers are those of the template. -/

namespace SchemaCompiler

/-- What a factory builds from a type of its template: a type parameter is replaced by its argument,
and an application, once its argument is built, by the instantiation that is known under its key. -/
def TypeNode.build (s : Resolution) (env : Scope.Environment) : TypeNode → Option TypeNode
  | .named t => some (.named t)
  | .list element => (element.build s env).map .list
  | .nonNull inner => (inner.build s env).map .nonNull
  | .placeholder name => env.lookup name
  | .applied generic argument =>
    match argument.build s env with
    | some (.named t) =>
      (s.cached? ⟨generic, t.name⟩).map fun known => .named (.instantiation known.key)
    | _ => none

namespace TypeNode

/-- A type that is open in a template becomes what it is filled with, as long as the instantiations
that it opens are known. -/
theorem build_eq_fill {s : Resolution} {model : SourceModel} {parameter : String} {type : Named}
    {t : TypeNode} (ht : t.OfTemplate model parameter)
    (hknown : ∀ x ∈ t.applications, ∃ i ∈ s.memo, i.key = ⟨x.1, (x.2.filling type).name⟩) :
    t.build s [(parameter, .named type)] = some (t.fill type) := by
  induction t with
  | named n => rfl
  | list element ih => rw [build, ih ht hknown]; rfl
  | nonNull inner ih => rw [build, ih ht hknown]; rfl
  | placeholder name =>
    obtain rfl : name = parameter := ht
    simp [build, fill]
  | applied generic argument ih =>
    have hargument := ih ht.2.2 fun x hx => hknown x (List.mem_append_left _ hx)
    obtain ⟨i, hi, hkey⟩ := hknown (generic, argument)
      (List.mem_append_right _ (List.mem_singleton_self _))
    have hcached : ∃ j, s.cached? ⟨generic, (argument.filling type).name⟩ = some j ∧
        j.key = ⟨generic, (argument.filling type).name⟩ := by
      rcases h : s.cached? ⟨generic, (argument.filling type).name⟩ with _ | j
      · exact absurd (hkey ▸ List.mem_map_of_mem hi) (Scope.cached?_eq_none.1 h)
      · exact ⟨j, rfl, by simpa using List.find?_some h⟩
    obtain ⟨j, hj, hjkey⟩ := hcached
    rw [build, hargument, fill_of_isOpen ht.2.1]
    simp only [hj, Option.map_some, hjkey, fill]

/-- Only declared generics are applied in a template. -/
theorem OfTemplate.declared {model : SourceModel} {parameter : String} {t : TypeNode}
    (ht : t.OfTemplate model parameter) :
    ∀ x ∈ t.applications, ∃ decl, model.get? x.1 = some (.generic decl) := by
  induction t with
  | list element ih => exact ih ht
  | nonNull inner ih => exact ih ht
  | applied generic argument ih =>
    intro x hx
    rcases List.mem_append.1 hx with hx | hx
    · exact ih ht.2.2 x hx
    · rw [List.mem_singleton.1 hx]
      exact ht.1
  | _ => exact fun _ hx => nomatch hx

end TypeNode

namespace SourceModel

variable {model : SourceModel} {a : Analysis}

/-- The generic of an instantiation has a template, of which the instantiation is the filling. -/
theorem instantiation_fill (h : model.analyze = .ok a) {i : Instantiation}
    (hi : Node.instantiation i ∈ a.graph.nodes) :
    ∃ template ∈ a.graph.templates, ∃ parameter, template.parameters = [parameter] ∧
      i.key = ⟨template.name, i.argument.name⟩ ∧ i.description = template.description ∧
      i.fields = template.fields.map (GraphField.fill i.argument) ∧
      ∀ t ∈ TypeGraph.references template.fields,
        t.build a.resolution [(parameter, .named i.argument)] = some (t.fill i.argument) := by
  have hcomplete := complete_of_analyze h
  obtain ⟨himemo, hfilled⟩ := hcomplete.sound.nodes _ hi
  obtain ⟨decl, hentry⟩ := hcomplete.sound.memo i himemo
  obtain ⟨template, htemplate, hsound⟩ := hcomplete.template (get?_mem hentry.declared)
  obtain ⟨houtcome, hmet⟩ := hentry.body hfilled
  have hfills := Scope.planFields_fills i.argument hsound.body.outcome
  have hof := (Scope.planFields_kept (Scope.kept_ofTemplate _) hsound.body.outcome).2
  have hfields : i.fields = template.fields.map (GraphField.fill i.argument) :=
    Except.ok.inj (houtcome.symm.trans hfills.after)
  refine ⟨template, htemplate, decl.parameter, hsound.parameters, by rw [hsound.name, hentry.key],
    by rw [hsound.description, hentry.description], hfields, fun t ht => TypeNode.build_eq_fill (hof t ht) fun x hx => ?_⟩
  -- what the template leaves open, the body has asked for
  obtain ⟨decl', hdecl'⟩ := TypeNode.OfTemplate.declared (hof t ht) x hx
  obtain ⟨site, hsite⟩ := (hfills.asks _).2 (.inr ⟨t, ht, x, hx, decl', hdecl', rfl⟩)
  have hheld := (hmet _ hsite).2
  rw [show decl'.name = x.1 from get?_name hdecl'] at hheld
  obtain ⟨node, hnode, href⟩ := hcomplete.holds_iff.1 hheld
  cases node with
  | instantiation j => exact ⟨j, (hcomplete.sound.nodes _ hnode).1, Named.instantiation.inj href⟩
  | _ => cases href

end SourceModel

/-- A unit in which a generic refers to another one that is applied to it. -/
def treeUnit : HostUnit where
  name := "trees"
  declarations := [
    { kind := .genericObject, name := "Box", participates := true, typeParameters := ["T"]
      fields := [{ name := "value", type := some (.named "T") }] },
    { kind := .genericObject, name := "Tree", participates := true, typeParameters := ["T"]
      fields := [{ name := "boxes", type := some (.generic "Box" [.generic "Tree" [.named "T"]]) }] },
    { kind := .object, name := "Forest", participates := true
      fields := [{ name := "tree", type := some (.generic "Tree" [.named "string"]) }] }]

theorem treeUnit_analyzed : ∃ model a i, treeUnit.extract = .ok model ∧ model.analyze = .ok a ∧
    Node.instantiation i ∈ a.graph.nodes ∧ i.key = ⟨"Tree", "String"⟩ := by
  have hrun : ((treeUnit.extract.toOption.bind fun model => model.analyze.toOption).bind fun a =>
      a.graph.instantiation? ⟨"Tree", "String"⟩).isSome = true := by
    decide +kernel
  obtain ⟨i, hi⟩ := Option.isSome_iff_exists.1 hrun
  obtain ⟨a, ha, hi⟩ := Option.bind_eq_some_iff.1 hi
  obtain ⟨model, hmodel, ha⟩ := Option.bind_eq_some_iff.1 ha
  exact ⟨model, a, i, except_toOption_eq_some.1 hmodel, except_toOption_eq_some.1 ha,
    TypeGraph.instantiation?_eq_some hi⟩

end SchemaCompiler
