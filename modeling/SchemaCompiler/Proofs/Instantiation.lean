import SchemaCompiler.Proofs.Agreement

/-! Instantiating a generic. What was begun before is answered as it stands; otherwise the fields are
resolved as the plan of the body says, and the finished instantiation is added to the graph. -/

namespace SchemaCompiler

namespace Scope

variable {scope : Scope}

theorem arguments_types (scope : Scope) (types : List TypeNode) :
    scope.arguments (types.map .type) = match namedTypes types with
      | some ts => pure ts
      | none => ResolveM.refuse .argumentNotNamed := by
  induction types with
  | nil => rfl
  | cons type rest ih =>
    simp only [List.map_cons, arguments, ih]
    cases type with
    | named t =>
      simp only [argument, namedTypes, pure_bind]
      rcases namedTypes rest with _ | ts <;> rfl
    | _ => rfl

/-- The instantiation of a declared generic with at most `depth` others inside one another. -/
def instantiateDecl (scope : Scope) (depth : Nat) (decl : GenericDecl) (argument : Named) :
    ResolveM InstanceKey :=
  match depth with
  | 0 => scope.instantiateAt none decl argument
  | depth + 1 => scope.instantiateAt (some (instantiateWithin depth)) decl argument

theorem instantiateWithin_types (depth : Nat) (scope : Scope) (generic : String)
    (types : List TypeNode) :
    instantiateWithin depth scope generic (types.map .type) =
      match scope.model.get? generic with
      | none => throw ⟨.unresolved generic, scope.site⟩
      | some (.generic decl) =>
        match namedTypes types with
        | some [argument] => scope.instantiateDecl depth decl argument
        | some types => ResolveM.refuse (.wrongArity generic types.length)
        | none => ResolveM.refuse .argumentNotNamed
      | some _ => ResolveM.refuse (.notGeneric generic) := by
  rw [instantiateWithin.eq_def]
  dsimp only
  rw [arguments_types]
  rcases scope.model.get? generic with _ | ⟨d | decl | d | d⟩
  case some.generic =>
    rcases namedTypes types with _ | ⟨_ | ⟨argument, _ | ⟨second, rest⟩⟩⟩
    · rfl
    · rfl
    · cases depth <;> rfl
    · rfl
  all_goals rfl

theorem instantiateWithin_named (scope : Scope) (depth : Nat) {decl : GenericDecl}
    (hdecl : scope.model.get? decl.name = some (.generic decl)) (argument : Named) :
    instantiateWithin depth scope decl.name [.type (.named argument)] =
      scope.instantiateDecl depth decl argument := by
  have h := instantiateWithin_types depth scope decl.name [.named argument]
  simpa only [hdecl, List.map_cons, List.map_nil, namedTypes, Option.map_some] using h

theorem strict_instantiateWithin (depth : Nat) (scope : Scope) :
    scope.Strict (instantiateWithin depth) := by
  intro generic types
  rw [instantiateWithin_types]
  rcases hget : scope.model.get? generic with _ | ⟨d | decl | d | d⟩
  case some.generic =>
    obtain rfl : decl.name = generic := SourceModel.get?_name hget
    simp only
    rcases namedTypes types with _ | ⟨_ | ⟨argument, _ | ⟨second, rest⟩⟩⟩
    · rfl
    · rfl
    · exact (instantiateWithin_named scope depth hget argument).symm
    · rfl
  all_goals rfl

/-- The types of a generic's fields for a type that its parameter stands for. -/
def planBody (scope : Scope) (decl : GenericDecl) (type : TypeNode) : Plan (List GraphField) :=
  scope.planFields decl.name [(decl.parameter, type)] decl.fields

def begun (decl : GenericDecl) (argument : Named) : Instantiation :=
  ⟨⟨decl.name, argument.name⟩, argument, [], decl.description, false⟩

/-- The end of an instantiation: it is filled, enters the graph and counts as finished. -/
def finish (decl : GenericDecl) (argument : Named) (fields : List GraphField) :
    ResolveM InstanceKey := do
  modify (·.fill ⟨decl.name, argument.name⟩ fields)
  let type : Instantiation := ⟨⟨decl.name, argument.name⟩, argument, fields, decl.description, true⟩
  let _ ← ResolveM.onGraph (·.add (.instantiation type))
  modify fun state => { state with finished := state.finished ++ [⟨decl.name, argument.name⟩] }
  pure ⟨decl.name, argument.name⟩

theorem instantiateDecl_cached (depth : Nat) {decl : GenericDecl} {argument : Named}
    {s : Resolution} {t : Instantiation} (h : s.cached? ⟨decl.name, argument.name⟩ = some t) :
    scope.instantiateDecl depth decl argument s = (.ok ⟨decl.name, argument.name⟩, s) := by
  cases depth <;>
    simp only [instantiateDecl, instantiateAt, ResolveM.bind_apply, ResolveM.get_apply, h,
      ResolveM.pure_apply]

theorem instantiateDecl_zero {decl : GenericDecl} {argument : Named} {s : Resolution}
    (h : s.cached? ⟨decl.name, argument.name⟩ = none) :
    scope.instantiateDecl 0 decl argument s = (.error ⟨.endlessInstantiation decl.name, {}⟩, s) := by
  simp only [instantiateDecl, instantiateAt, ResolveM.bind_apply, ResolveM.get_apply, h,
    ResolveM.refuse_apply]

theorem instantiateDecl_succ (depth : Nat) {decl : GenericDecl} {argument : Named} {s : Resolution}
    (h : s.cached? ⟨decl.name, argument.name⟩ = none) :
    scope.instantiateDecl (depth + 1) decl argument s =
      (scope.resolveFields (instantiateWithin depth) decl.name
        [(decl.parameter, .named argument)] decl.fields >>= finish decl argument)
        (s.begin (begun decl argument)) := by
  simp only [instantiateDecl, instantiateAt]
  rw [ResolveM.bind_ok (ResolveM.get_apply s)]
  simp only [h]
  rfl

def filled (decl : GenericDecl) (argument : Named) (fields : List GraphField) : Instantiation :=
  ⟨⟨decl.name, argument.name⟩, argument, fields, decl.description, true⟩

theorem finish_apply (decl : GenericDecl) (argument : Named) (fields : List GraphField)
    (s : Resolution) :
    finish decl argument fields s =
      match s.graph.add (.instantiation (filled decl argument fields)) with
      | .ok (_, graph) =>
        (.ok ⟨decl.name, argument.name⟩,
          { s.fill ⟨decl.name, argument.name⟩ fields with
            graph := graph
            finished := s.finished ++ [⟨decl.name, argument.name⟩] })
      | .error e => (.error e, s.fill ⟨decl.name, argument.name⟩ fields) := by
  unfold finish
  rw [ResolveM.bind_ok (ResolveM.modify_apply _ s), ResolveM.bind_apply, ResolveM.onGraph_apply,
    show (s.fill ⟨decl.name, argument.name⟩ fields).graph = s.graph from rfl,
    show (⟨⟨decl.name, argument.name⟩, argument, fields, decl.description, true⟩ : Instantiation) =
      filled decl argument fields from rfl]
  rcases s.graph.add (.instantiation (filled decl argument fields)) with e | ⟨r, g⟩ <;> rfl

theorem tidy_finish {decl : GenericDecl} {argument : Named} {fields : List GraphField}
    {s : Resolution} (hs : scope.Tidy s) : scope.Tidy (finish decl argument fields s).2 := by
  rw [finish_apply]
  rcases h : s.graph.add (.instantiation (filled decl argument fields)) with e | ⟨r, g⟩
  · exact hs
  · obtain ⟨-, -, -, rfl⟩ := TypeGraph.add_eq_ok h
    intro node hnode hunknown
    rcases List.mem_append.1 hnode with hnode | hnode
    · exact hs node hnode hunknown
    · exact .inr ⟨_, List.mem_singleton.1 hnode⟩

/-- Instantiation keeps states tidy and answers the key that it was asked for. -/
theorem regular_instantiateWithin (depth : Nat) (scope : Scope) :
    scope.Regular (instantiateWithin depth) := by
  induction depth with
  | zero =>
    intro site decl argument s hdecl hs
    rw [instantiateWithin_named (scope.focus site) 0 hdecl]
    rcases hc : s.cached? ⟨decl.name, argument.name⟩ with _ | t
    · rw [instantiateDecl_zero hc]
      exact ⟨hs, fun _ h => by cases h⟩
    · rw [instantiateDecl_cached 0 hc]
      exact ⟨hs, fun _ h => by cases h; rfl⟩
  | succ depth ih =>
    intro site decl argument s hdecl hs
    rw [instantiateWithin_named (scope.focus site) _ hdecl]
    rcases hc : s.cached? ⟨decl.name, argument.name⟩ with _ | t
    · rw [instantiateDecl_succ depth hc, ResolveM.bind_apply]
      have hfields := (fields_agree (scope.focus site) ih
        (fun _ => strict_instantiateWithin depth _) decl.name
        [(decl.parameter, .named argument)] decl.fields (s.begin (begun decl argument)) hs).2
      rcases hrun : (scope.focus site).resolveFields (instantiateWithin depth) decl.name
        [(decl.parameter, .named argument)] decl.fields (s.begin (begun decl argument))
        with ⟨e | fields, mid⟩
      · rw [hrun] at hfields
        exact ⟨hfields, fun _ h => by cases h⟩
      · rw [hrun] at hfields
        refine ⟨tidy_finish hfields, fun key h => ?_⟩
        simp only [finish_apply] at h
        rcases hadd : mid.graph.add (.instantiation (filled decl argument fields)) with e | ⟨r, g⟩
        · rw [hadd] at h; cases h
        · rw [hadd] at h; cases h; rfl
    · rw [instantiateDecl_cached _ hc]
      exact ⟨hs, fun _ h => by cases h; rfl⟩

/-- From a tidy state the fields of a declaration are resolved as planned. -/
theorem resolveFields_eq (depth : Nat) (scope : Scope) (owner : String) (env : Environment)
    (ds : List FieldDescriptor) {s : Resolution} (hs : scope.Tidy s) :
    scope.resolveFields (instantiateWithin depth) owner env ds s =
      scope.perform (instantiateWithin depth) (scope.planFields owner env ds) s :=
  (fields_agree scope (regular_instantiateWithin depth scope)
    (fun _ => strict_instantiateWithin depth _) owner env ds s hs).1

theorem le_depth (scope : Scope) : scope.model.instantiationDepth ≤ scope.depth := by
  rw [depth, SourceModel.instantiationDepth, SourceModel.instantiationDepth]
  refine Nat.mul_le_mul_left _ (Nat.add_le_add_right (Nat.add_le_add_left ?_ _) 1)
  simp only [List.flatMap_append, List.length_append, List.flatMap_nil, List.length_nil]
  omega

end Scope

end SchemaCompiler
