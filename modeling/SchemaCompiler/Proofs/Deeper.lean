import SchemaCompiler.Proofs.Analyzed

/-! Following instantiations further. The depth that a resolution is given shows in nothing but in
when instantiations are taken to be endless: a resolution that ends otherwise ends in the same way at
every greater depth. -/

namespace SchemaCompiler

def IsEndless {α : Type} (x : Except CompileError α) : Prop :=
  ∃ e generic, x = .error e ∧ e.cause = .endlessInstantiation generic

namespace ResolveM

variable {α β : Type} {x y : ResolveM α} {f g : α → ResolveM β}

/-- Whether a step that is not taken to be endless is the same as another one. -/
def Deepens (x y : ResolveM α) : Prop :=
  ∀ s, IsEndless (x s).1 ∨ x s = y s

theorem Deepens.refl (x : ResolveM α) : Deepens x x :=
  fun _ => .inr rfl

theorem Deepens.trans {z : ResolveM α} (h : Deepens x y) (h' : Deepens y z) : Deepens x z := by
  intro s
  rcases h s with hendless | heq
  · exact .inl hendless
  · rw [heq]
    exact h' s

theorem Deepens.bind (h : Deepens x y) (hf : ∀ a, Deepens (f a) (g a)) :
    Deepens (x >>= f) (y >>= g) := by
  intro s
  rcases hx : x s with ⟨e | a, s'⟩
  · rw [bind_error hx]
    rcases h s with hendless | heq
    · rw [hx] at hendless
      obtain ⟨_, generic, ⟨⟩, hcause⟩ := hendless
      exact .inl ⟨e, generic, rfl, hcause⟩
    · exact .inr (bind_error (heq ▸ hx)).symm
  · rcases h s with ⟨_, _, hendless, _⟩ | heq
    · rw [hx] at hendless
      cases hendless
    · rw [bind_ok hx, bind_ok (heq ▸ hx)]
      exact hf a s'

theorem Deepens.attaching (h : Deepens x y) (site : Site) :
    Deepens (ResolveM.attaching site x) (ResolveM.attaching site y) := by
  intro s
  rcases h s with ⟨e, generic, hendless, hcause⟩ | heq
  · refine .inl ⟨e.attach site, generic, ?_, ?_⟩
    · rw [ResolveM.attaching]
      rcases hx : x s with ⟨_ | _, _⟩ <;> rw [hx] at hendless <;> cases hendless
      rfl
    · rw [CompileError.attach]
      split <;> exact hcause
  · rw [ResolveM.attaching, ResolveM.attaching, heq]
    exact .inr rfl

end ResolveM

namespace Scope

open ResolveM (Deepens)

variable {inst inst' : Instantiate}

def GoesDeeper (inst inst' : Instantiate) : Prop :=
  ∀ scope generic args, Deepens (inst scope generic args) (inst' scope generic args)

theorem apply_deepens (h : GoesDeeper inst inst') (scope : Scope) (generic : String)
    (types : List TypeNode) :
    Deepens (scope.apply inst generic types) (scope.apply inst' generic types) := by
  unfold apply
  split
  · exact .refl _
  · exact (h scope generic _).bind fun _ => .refl _

mutual

theorem resolveExpr_deepens (h : GoesDeeper inst inst') (scope : Scope) (tag : Option String)
    (env : Environment) (required : Bool) : ∀ e : TypeExpr,
    Deepens (scope.resolveExpr inst tag env required e)
      (scope.resolveExpr inst' tag env required e)
  | .ref name => by
    rw [resolveExpr, resolveExpr]
    exact .refl _
  | .param name => by
    rw [resolveExpr, resolveExpr]
    exact .refl _
  | .list element => by
    rw [resolveExpr, resolveExpr]
    exact (resolveExpr_deepens h scope tag env true element).bind fun _ => .refl _
  | .nullable inner => by
    rw [resolveExpr, resolveExpr]
    exact resolveExpr_deepens h scope tag env false inner
  | .apply generic arguments => by
    rw [resolveExpr, resolveExpr]
    refine (resolveArguments_deepens h scope tag env arguments).bind fun types => ?_
    exact (apply_deepens h scope generic types).bind fun _ => .refl _

theorem resolveArguments_deepens (h : GoesDeeper inst inst') (scope : Scope) (tag : Option String)
    (env : Environment) : ∀ es : List TypeExpr,
    Deepens (scope.resolveArguments inst tag env es) (scope.resolveArguments inst' tag env es)
  | [] => by
    rw [resolveArguments, resolveArguments]
    exact .refl _
  | e :: rest => by
    rw [resolveArguments, resolveArguments]
    refine (resolveExpr_deepens h scope tag env false e).bind fun _ => ?_
    exact (resolveArguments_deepens h scope tag env rest).bind fun _ => .refl _

end

theorem resolveFieldArguments_deepens (h : GoesDeeper inst inst') (scope : Scope)
    (env : Environment) (as : List ArgumentDescriptor) :
    Deepens (scope.resolveFieldArguments inst env as) (scope.resolveFieldArguments inst' env as) := by
  induction as with
  | nil => exact .refl _
  | cons a rest ih =>
    exact (resolveExpr_deepens h scope a.tag env true a.type).bind fun _ =>
      ih.bind fun _ => .refl _

theorem resolveField_deepens (h : GoesDeeper inst inst') (scope : Scope) (env : Environment)
    (d : FieldDescriptor) :
    Deepens (scope.resolveField inst env d) (scope.resolveField inst' env d) := by
  have harguments (type : Option TypeNode) :=
    (resolveFieldArguments_deepens h scope env d.arguments).bind fun arguments =>
      .refl (pure (⟨d.name, type, d, arguments⟩ : GraphField))
  rcases htype : d.type with _ | e
  · simp only [resolveField, htype]
    exact (Deepens.refl _).bind harguments
  · simp only [resolveField, htype]
    exact ((resolveExpr_deepens h scope d.tag env true e).bind fun _ => .refl _).bind harguments

theorem resolveFields_deepens (h : GoesDeeper inst inst') (scope : Scope) (owner : String)
    (env : Environment) (ds : List FieldDescriptor) :
    Deepens (scope.resolveFields inst owner env ds) (scope.resolveFields inst' owner env ds) := by
  induction ds with
  | nil => exact .refl _
  | cons d rest ih =>
    exact ((resolveField_deepens h (scope.focus _) env d).attaching _).bind fun _ =>
      ih.bind fun _ => .refl _

theorem instantiateAt_deepens (h : GoesDeeper inst inst') (scope : Scope) (decl : GenericDecl)
    (argument : Named) :
    Deepens (scope.instantiateAt (some inst) decl argument)
      (scope.instantiateAt (some inst') decl argument) := by
  refine (Deepens.refl get).bind fun state => ?_
  dsimp only
  rcases state.cached? ⟨decl.name, argument.name⟩ with _ | _
  · refine (Deepens.refl _).bind fun _ => ?_
    exact (resolveFields_deepens h scope decl.name _ decl.fields).bind fun _ => .refl _
  · exact .refl _

/-- Without any depth only what was begun before is answered. -/
theorem instantiateAt_none_deepens (scope : Scope) (decl : GenericDecl) (argument : Named) :
    Deepens (scope.instantiateAt none decl argument)
      (scope.instantiateAt (some inst) decl argument) := by
  refine (Deepens.refl get).bind fun state => ?_
  dsimp only
  rcases state.cached? ⟨decl.name, argument.name⟩ with _ | _
  · exact fun _ => .inl ⟨_, decl.name, rfl, rfl⟩
  · exact .refl _

theorem goesDeeper_of_decl {depth depth' : Nat}
    (h : ∀ (scope : Scope) decl argument, Deepens (scope.instantiateDecl depth decl argument)
      (scope.instantiateDecl depth' decl argument)) :
    GoesDeeper (instantiateWithin depth) (instantiateWithin depth') := by
  intro scope generic args
  rw [instantiateWithin.eq_def, instantiateWithin.eq_def]
  dsimp only
  rcases scope.model.get? generic with _ | ⟨d | decl | d | d⟩
  case some.generic =>
    refine (Deepens.refl _).bind fun types => ?_
    rcases types with _ | ⟨argument, _ | ⟨second, rest⟩⟩
    · exact .refl _
    · exact h scope decl argument
    · exact .refl _
  all_goals exact .refl _

/-- One more level changes an application only where it was taken to be endless. -/
theorem instantiateWithin_deepens (depth : Nat) :
    GoesDeeper (instantiateWithin depth) (instantiateWithin (depth + 1)) := by
  induction depth with
  | zero => exact goesDeeper_of_decl instantiateAt_none_deepens
  | succ depth ih => exact goesDeeper_of_decl (instantiateAt_deepens ih)

theorem goesDeeper_add (depth more : Nat) :
    GoesDeeper (instantiateWithin depth) (instantiateWithin (depth + more)) := by
  induction more with
  | zero => exact fun _ _ _ => .refl _
  | succ more ih =>
    exact fun scope generic args => (ih scope generic args).trans
      (instantiateWithin_deepens (depth + more) scope generic args)

theorem declare_deepens (scope : Scope) (depth more : Nat) (d : Declaration) :
    Deepens (scope.declare depth d) (scope.declare (depth + more) d) := by
  have hfields := resolveFields_deepens (goesDeeper_add depth more) scope
  cases d with
  | object decl =>
    refine (Deepens.refl _).bind fun _ => (Deepens.refl get).bind fun state => ?_
    split
    · exact .refl _
    · exact (Deepens.refl _).bind fun _ => (hfields decl.name [] decl.fields).bind fun _ => .refl _
  | generic decl => exact (hfields decl.name _ decl.fields).bind fun _ => .refl _
  | enum decl => exact .refl _
  | scalar decl => exact .refl _

theorem declareAllWithin_deepens (scope : Scope) (depth more : Nat) (ds : List Declaration) :
    Deepens (scope.declareAllWithin depth ds) (scope.declareAllWithin (depth + more) ds) := by
  induction ds with
  | nil => exact .refl _
  | cons d rest ih => exact ((declare_deepens _ depth more d).attaching _).bind fun _ => ih

theorem resolveWithin_deepens (scope : Scope) (depth more : Nat) :
    Deepens (scope.resolveWithin depth) (scope.resolveWithin (depth + more)) :=
  (declareAllWithin_deepens scope depth more _).bind fun _ => .refl _

end Scope

/-- An analysis that does not take instantiations to be endless does not depend on how much further
they are followed. -/
theorem SourceModel.analyze_further (model : SourceModel) (further more : Nat) :
    IsEndless (model.analyze further) ∨
      model.analyze further = model.analyze (further + more) := by
  rw [analyze, analyze]
  rcases ScalarRegistry.ofModel model with e | registry
  · rw [except_error_bind, except_error_bind]
    exact .inr rfl
  · rw [except_ok_bind, except_ok_bind]
    dsimp only
    generalize ({ model, registry } : Scope) = scope
    rcases scope.resolveWithin_deepens (scope.depth + further) more {} with
      ⟨e, generic, he, hcause⟩ | heq
    · refine .inl ⟨e, generic, ?_, hcause⟩
      rw [Analysis.ofRun, he, except_error_bind]
    · rw [heq, Nat.add_assoc]
      exact .inr rfl

theorem IsEndless.failure {x : Except CompileError Analysis} (h : IsEndless x) :
    ∃ generic, orFailure Failure.ofError x = .error (.endless generic) := by
  obtain ⟨e, generic, rfl, hcause⟩ := h
  refine ⟨generic, ?_⟩
  rw [orFailure, Failure.ofError, hcause]

/-- A unit that is not taken to be endless is compiled to the same however much further instantiations
are followed. -/
theorem UnitSource.compileWith_further (source : UnitSource) (config : Config) (runner : HookRunner)
    (setting : Setting) (more : Nat) :
    (∃ generic, source.compileWith config runner setting = .error (.endless generic)) ∨
      source.compileWith config runner setting =
        source.compileWith config runner { setting with further := setting.further + more } := by
  rw [compileWith, compileWith]
  rcases orFailure .compile source.extract with failure | model
  · rw [except_error_bind, except_error_bind]
    exact .inr rfl
  rw [except_ok_bind, except_ok_bind, SourceModel.compileWith, SourceModel.compileWith]
  rcases orFailure Failure.ofHook (runner.runPre model) with failure | selected
  · rw [except_error_bind, except_error_bind]
    exact .inr rfl
  rw [except_ok_bind, except_ok_bind]
  rcases selected.analyze_further setting.further more with hendless | heq
  · obtain ⟨generic, hfailure⟩ := hendless.failure
    rw [hfailure, except_error_bind]
    exact .inl ⟨generic, rfl⟩
  · rw [heq]
    exact .inr rfl

end SchemaCompiler
