import SchemaCompiler.Proofs.ClosedGraph
import SchemaCompiler.Proofs.Deeper
import SchemaCompiler.Proofs.Emitted
import SchemaCompiler.Proofs.Placing
import SchemaCompiler.Proofs.WellFormed

/-! The errors of a unit are located. Whatever stage ends with an error, the extraction, the
registration of scalars, the resolution or the binding, the error names a declaration of the unit
that takes part, and if it names a field, this is one of that very declaration. An error about the
module names the unit. -/

namespace SchemaCompiler

/-- Whether the error of a result, if it has one, is at certain sites. -/
def ErrorsAt {α : Type} (P : Site → Prop) (x : Except CompileError α) : Prop :=
  ∀ e, x = .error e → P e.site

section

variable {α β : Type} {P Q : Site → Prop}

theorem ErrorsAt.ok (a : α) : ErrorsAt P (.ok a) :=
  fun _ h => nomatch h

theorem ErrorsAt.error {e : CompileError} (h : P e.site) :
    ErrorsAt P (.error e : Except CompileError α) :=
  fun _ heq => Except.error.inj heq ▸ h

theorem ErrorsAt.bind {x : Except CompileError α} {f : α → Except CompileError β}
    (hx : ErrorsAt P x) (hf : ∀ a, x = .ok a → ErrorsAt P (f a)) : ErrorsAt P (x >>= f) := by
  rcases x with e | a
  · exact .error (hx e rfl)
  · exact hf a rfl

theorem ErrorsAt.mono {x : Except CompileError α} (h : ∀ site, P site → Q site)
    (hx : ErrorsAt P x) : ErrorsAt Q x :=
  fun e he => h _ (hx e he)

theorem ErrorsAt.locate {declaration : String} {field : Option String}
    (h : P ⟨some declaration, field⟩) (x : Except Cause α) :
    ErrorsAt P (SchemaCompiler.locate declaration field x) := by
  rcases x with cause | a
  · exact .error h
  · exact .ok a

theorem ErrorsAt.mapM {f : α → Except CompileError β} {as : List α}
    (h : ∀ a ∈ as, ErrorsAt P (f a)) : ErrorsAt P (as.mapM f) := by
  intro e he
  obtain ⟨a, ha, hfa⟩ := mapM_eq_error he
  exact h a ha e hfa

/-- The fields of a declaration are checked at their own sites. -/
theorem extractFields_errorsAt (param : Option String) {owner : String} {fs : List HostField}
    (h : ∀ f ∈ fs, P ⟨some owner, some f.name⟩) (seen : List String) :
    ErrorsAt P (extractFields param owner seen fs) := by
  induction fs generalizing seen with
  | nil => exact .ok []
  | cons f rest ih =>
    have hsite := h f List.mem_cons_self
    rw [extractFields]
    refine (ErrorsAt.locate hsite _).bind fun _ _ => ?_
    split
    · exact .locate hsite _
    · refine (ErrorsAt.locate hsite _).bind fun field _ => ?_
      exact (ih (fun x hx => h x (List.mem_cons_of_mem _ hx)) _).bind fun fields _ => .ok _

theorem extractMembers_errorsAt {owner : String} {vs : List HostEnumValue}
    (h : ∀ v ∈ vs, P ⟨some owner, some v.name⟩) (seen : List String) :
    ErrorsAt P (extractMembers owner seen vs) := by
  induction vs generalizing seen with
  | nil => exact .ok []
  | cons v rest ih =>
    have hsite := h v List.mem_cons_self
    rw [extractMembers]
    refine (ErrorsAt.locate hsite _).bind fun _ _ => ?_
    split
    · exact .locate hsite _
    · exact (ih (fun x hx => h x (List.mem_cons_of_mem _ hx)) _).bind fun members _ => .ok _

end

namespace HostDeclaration

/-- The names of a declaration's fields, or of its values if it is an enum. -/
def memberNames (decl : HostDeclaration) : List String :=
  match decl.kind with
  | .object | .genericObject => decl.fields.map (·.name)
  | .enum => decl.values.map (·.name)
  | .scalar => []

/-- Whether a site is a declaration, or one of its fields or values. -/
structure Locates (decl : HostDeclaration) (site : Site) : Prop where
  declaration : site.declaration = some decl.name
  field : ∀ field ∈ site.field, field ∈ decl.memberNames

variable {decl : HostDeclaration}

theorem locates_self (decl : HostDeclaration) : decl.Locates ⟨some decl.name, none⟩ :=
  ⟨rfl, fun _ h => nomatch h⟩

theorem locates_member {name : String} (h : name ∈ decl.memberNames) :
    decl.Locates ⟨some decl.name, some name⟩ :=
  ⟨rfl, fun _ heq => Option.some.inj heq ▸ h⟩

theorem extractFields_located (hkind : decl.memberNames = decl.fields.map (·.name))
    (param : Option String) : ErrorsAt decl.Locates (decl.extractFields param) := by
  unfold extractFields
  split
  · exact .locate decl.locates_self _
  · refine extractFields_errorsAt param (fun f hf => locates_member ?_) []
    rw [hkind]
    exact List.mem_map_of_mem hf

theorem extractGeneric_located (hkind : decl.memberNames = decl.fields.map (·.name))
    (description : Option String) : ErrorsAt decl.Locates (decl.extractGeneric description) := by
  unfold extractGeneric
  split
  · refine (ErrorsAt.locate decl.locates_self _).bind fun _ _ => ?_
    refine (extractFields_located hkind _).bind fun fields _ => ?_
    split
    · exact .ok _
    · exact .locate decl.locates_self _
  · exact .locate decl.locates_self _

theorem extractEnum_located (hkind : decl.memberNames = decl.values.map (·.name))
    (description : Option String) : ErrorsAt decl.Locates (decl.extractEnum description) := by
  unfold extractEnum
  split
  · exact .locate decl.locates_self _
  · refine (extractMembers_errorsAt (fun v hv => locates_member ?_) []).bind fun members _ => .ok _
    rw [hkind]
    exact List.mem_map_of_mem hv

theorem extractScalar_located (decl : HostDeclaration) (description : Option String) :
    ErrorsAt decl.Locates (decl.extractScalar description) := by
  unfold extractScalar
  split
  · exact .locate decl.locates_self _
  · exact .locate decl.locates_self _
  · exact .ok _

/-- A declaration is checked at its own sites. -/
theorem extract_located (decl : HostDeclaration) (description : Option String) :
    ErrorsAt decl.Locates (decl.extract description) := by
  unfold extract
  split <;> rename_i hkind
  · have hmembers : decl.memberNames = decl.fields.map (·.name) := by rw [memberNames, hkind]
    exact (extractFields_located hmembers none).bind fun fields _ => .ok _
  · have hmembers : decl.memberNames = decl.fields.map (·.name) := by rw [memberNames, hkind]
    exact (extractGeneric_located hmembers description).bind fun generic _ => .ok _
  · have hmembers : decl.memberNames = decl.values.map (·.name) := by rw [memberNames, hkind]
    exact (extractEnum_located hmembers description).bind fun enum _ => .ok _
  · exact (extractScalar_located decl description).bind fun scalar _ => .ok _

/-- What a declaration becomes has fields of the same names, all of which it owns. -/
theorem Becomes.fields {description : Option String} {d : Declaration}
    (h : decl.Becomes description d) {f : FieldDescriptor} (hf : f ∈ d.fields) :
    f.owner = d.name ∧ f.name ∈ decl.memberNames := by
  have hfield {param : Option String} {fields : List FieldDescriptor}
      (hkind : decl.memberNames = decl.fields.map (·.name))
      (hfields : List.Forall₂ (HostField.Becomes param decl.name) decl.fields fields)
      (hf : f ∈ fields) : f.owner = decl.name ∧ f.name ∈ decl.memberNames := by
    obtain ⟨host, hhost, hbecomes⟩ := forall₂_mem_right hfields f hf
    rw [hkind, hbecomes.name]
    exact ⟨hbecomes.owner, List.mem_map_of_mem hhost⟩
  rw [h.name]
  cases d with
  | object d =>
    obtain ⟨hkind, -, -, hfields⟩ := h
    exact hfield (by rw [memberNames, hkind]) hfields hf
  | generic d =>
    obtain ⟨hkind, -, -, -, hfields⟩ := h
    exact hfield (by rw [memberNames, hkind]) hfields hf
  | _ => cases hf

end HostDeclaration

namespace HostUnit

/-- Whether a site is a declaration of the unit that takes part, or one of its fields or values. -/
def Locates (unit : HostUnit) (site : Site) : Prop :=
  ∃ decl ∈ unit.participating, decl.Locates site

variable {unit : HostUnit}

theorem extractAll_located {hosts : List HostDeclaration}
    (hhosts : ∀ decl ∈ hosts, decl ∈ unit.participating) (seen : List String) :
    ErrorsAt unit.Locates (unit.extractAll seen hosts) := by
  induction hosts generalizing seen with
  | nil => exact .ok []
  | cons decl rest ih =>
    have hdecl := hhosts decl List.mem_cons_self
    have hself : unit.Locates ⟨some decl.name, none⟩ := ⟨decl, hdecl, decl.locates_self⟩
    rw [extractAll]
    refine (ErrorsAt.locate hself _).bind fun _ _ => ?_
    split
    · exact .locate hself _
    · refine ((decl.extract_located _).mono fun site hsite => ⟨decl, hdecl, hsite⟩).bind
        fun first _ => ?_
      exact (ih (fun x hx => hhosts x (List.mem_cons_of_mem _ hx)) _).bind fun others _ => .ok _

theorem extract_located (unit : HostUnit) : ErrorsAt unit.Locates unit.extract :=
  (extractAll_located (fun _ h => h) []).bind fun _ _ => .ok _

/-- The sites of the source model are sites of its unit. -/
theorem Becomes.locates {model : SourceModel} (h : unit.Becomes model) {site : Site}
    (hsite : model.Places site) : unit.Locates site := by
  obtain ⟨d, hd, hdeclaration, hfield⟩ := hsite
  obtain ⟨decl, hdecl, hbecomes⟩ := forall₂_mem_right h.declarations d hd
  refine ⟨decl, hdecl, by rw [hdeclaration, hbecomes.name], fun field hsome => ?_⟩
  obtain ⟨f, hf, rfl⟩ := List.mem_map.1 (hfield field hsome)
  exact (hbecomes.fields hf).2

end HostUnit

/-- Whether every field of a model is owned by its declaration. -/
def SourceModel.Owned (model : SourceModel) : Prop :=
  ∀ d ∈ model.declarations, ∀ f ∈ d.fields, f.owner = d.name

theorem HostUnit.Becomes.owned {unit : HostUnit} {model : SourceModel} (h : unit.Becomes model) :
    model.Owned := by
  intro d hd f hf
  obtain ⟨decl, -, hbecomes⟩ := forall₂_mem_right h.declarations d hd
  exact (hbecomes.fields hf).1

theorem ScalarRegistry.registerAll_errorsAt {P : Site → Prop} {decls : List ScalarDecl}
    (h : ∀ decl ∈ decls, P ⟨some decl.name, none⟩) (registry : ScalarRegistry) :
    ErrorsAt P (registry.registerAll decls) := by
  induction decls generalizing registry with
  | nil => exact .ok _
  | cons decl rest ih =>
    have hsite := h decl List.mem_cons_self
    rw [registerAll]
    refine ErrorsAt.bind ?_ fun next _ => ih (fun x hx => h x (List.mem_cons_of_mem _ hx)) _
    unfold register
    dsimp only
    split
    · exact .error hsite
    · split
      · exact .error hsite
      · split
        · exact .error hsite
        · exact .ok _

theorem bindField_errorsAt {P : Site → Prop} {f : GraphField}
    (h : P ⟨some f.descriptor.owner, some f.descriptor.name⟩) (typeName : String) :
    ErrorsAt P (bindField typeName f) := by
  unfold bindField
  split
  · exact .error h
  · exact .error h
  · exact .ok _

/-- The resolvers of a graph are made at the fields of its types and templates. -/
theorem Bindings.ofGraph_errorsAt {P : Site → Prop} {graph : TypeGraph}
    (h : ∀ owner ∈ graph.owners, ∀ f ∈ owner.2,
      P ⟨some f.descriptor.owner, some f.descriptor.name⟩) :
    ErrorsAt P (Bindings.ofGraph graph) := by
  have hfields {name : String} {fields : List GraphField} (howner : (name, fields) ∈ graph.owners) :
      ErrorsAt P (bindFields name fields) :=
    .mapM fun f hf => bindField_errorsAt (h _ howner f hf) name
  refine (ErrorsAt.mapM fun node hnode => ?_).bind fun ofTypes _ => ?_
  · exact hfields (List.mem_append_left _ (List.mem_map_of_mem hnode))
  · refine (ErrorsAt.mapM fun template htemplate => ?_).bind fun ofTemplates _ => .ok _
    exact hfields (List.mem_append_right _ (List.mem_map_of_mem htemplate))

namespace SourceModel

variable {model : SourceModel}

/-- The fields of a complete graph are at sites of the model. -/
theorem places_of_owner {scope : Scope} {s : Resolution} (h : scope.Complete s)
    (howned : scope.model.Owned) {owner : String × List GraphField} (howner : owner ∈ s.graph.owners)
    {f : GraphField} (hf : f ∈ owner.2) :
    scope.model.Places ⟨some f.descriptor.owner, some f.descriptor.name⟩ := by
  rcases h.owner_denotes howner with hempty | ⟨d, hd, env, hfields⟩
  · rw [hempty] at hf
    cases hf
  · obtain ⟨descriptor, hdescriptor, hdenotes⟩ := forall₂_mem_right hfields f hf
    rw [hdenotes.descriptor, howned d hd descriptor hdescriptor]
    exact places_field hd hdescriptor

/-- Registration, resolution and binding end with errors at sites of the model, however far
instantiations are followed. -/
theorem analyze_located (howned : model.Owned) (further : Nat) :
    ErrorsAt model.Places (model.analyze further) := by
  refine ErrorsAt.bind ?_ fun registry _ => ?_
  · refine ScalarRegistry.registerAll_errorsAt (fun decl hdecl => ?_) _
    obtain ⟨d, hd, hsome⟩ := List.mem_filterMap.1 hdecl
    cases d with
    | scalar d =>
      cases hsome
      exact places_declaration hd
    | _ => cases hsome
  · refine ErrorsAt.bind (fun e he => ?_) fun _ hrun => ?_
    · exact Scope.resolve_error_places (Prod.ext he rfl)
    · refine ErrorsAt.bind ?_ fun bindings _ => .ok _
      exact Bindings.ofGraph_errorsAt fun owner howner f hf =>
        places_of_owner (Scope.complete_of_resolveWithin (Prod.ext hrun rfl)) howned howner hf

end SourceModel

/-- Whether hooks leave a model as it is, except that they may take declarations from it. -/
def HookRunner.Selects (runner : HookRunner) : Prop :=
  ∀ model selected, runner.runPre model = .ok selected →
    selected.unit = model.unit ∧ selected.declarations ⊆ model.declarations

/-- The stages that may end with an error of a unit, and what it then names: an error of the
extraction or the analysis names a declaration and possibly a field of it, one about the module
names the unit. What a hook reports is its own. -/
inductive HostUnit.EndsWith (unit : HostUnit) (runner : HookRunner) (setting : Setting)
    (e : CompileError) : Prop where
  | extraction (failed : unit.extract = .error e) (located : unit.Locates e.site)
  | analysis {model selected : SourceModel} (extracted : unit.extract = .ok model)
      (selection : runner.runPre model = .ok selected)
      (failed : selected.analyze setting.further = .error e) (located : unit.Locates e.site)
  | emission {model selected : SourceModel} {a : Analysis} (extracted : unit.extract = .ok model)
      (selection : runner.runPre model = .ok selected)
      (analyzed : selected.analyze setting.further = .ok a)
      (cause : e.cause = .notModuleText (moduleFileName unit.name))
      (site : e.site = ⟨some unit.name, none⟩)
  | preHook {model : SourceModel} (failed : runner.runPre model = .error (.compile e))
  | postHook {file content : String} (failed : runner.runPost file content = .error (.compile e))

theorem orFailure_eq_error {ε α : Type} {wrap : ε → Failure} {x : Except ε α} {failure : Failure} :
    orFailure wrap x = .error failure ↔ ∃ e, x = .error e ∧ wrap e = failure := by
  rcases x with e | a <;> simp [orFailure]

namespace Failure

variable {e e' : CompileError}

theorem ofError_eq_compile (h : ofError e' = .compile e) : e' = e := by
  unfold ofError at h
  split at h
  · cases h
  · exact Failure.compile.inj h

theorem ofHook_eq_compile {fault : HookFault} (h : ofHook fault = .compile e) :
    fault = .compile e := by
  cases fault <;> cases h
  rfl

end Failure

/-- The errors of the emission: the text is no module, or a hook reports one. -/
theorem Emission.emitWith_eq_error {emission : Emission} {unit : String} {config : Config}
    {runner : HookRunner} {setting : Setting} {e : CompileError}
    (h : emission.emitWith unit config runner setting = .error (.compile e)) :
    e = ⟨.notModuleText (moduleFileName unit), ⟨some unit, none⟩⟩ ∨
      ∃ file content, runner.runPost file content = .error (.compile e) := by
  rw [emitWith, except_bind_eq_error, orFailure_eq_error] at h
  obtain ⟨_, -, ⟨⟩⟩ | ⟨template, -, h⟩ := h
  rw [except_bind_eq_error, orFailure_eq_error] at h
  obtain ⟨_, -, ⟨⟩⟩ | ⟨style, -, h⟩ := h
  rw [except_bind_eq_error, orFailure_eq_error] at h
  obtain ⟨_, -, ⟨⟩⟩ | ⟨schemaModule, -, h⟩ := h
  rw [except_bind_eq_error, orFailure_eq_error] at h
  obtain ⟨_, -, ⟨⟩⟩ | ⟨content, -, h⟩ := h
  split at h
  · rw [except_bind_eq_error, orFailure_eq_error] at h
    obtain ⟨fault, hfault, hcompile⟩ | ⟨_, -, ⟨⟩⟩ := h
    exact .inr ⟨_, _, Failure.ofHook_eq_compile hcompile ▸ hfault⟩
  · cases h
    exact .inl rfl

theorem HostUnit.endsWith_of_error {unit : HostUnit} {config : Config} {runner : HookRunner}
    {setting : Setting} (hselects : runner.Selects) {e : CompileError}
    (h : (UnitSource.loaded unit).compileWith config runner setting = .error (.compile e)) :
    unit.EndsWith runner setting e := by
  rw [UnitSource.compileWith, except_bind_eq_error, orFailure_eq_error] at h
  obtain ⟨_, hextract, ⟨⟩⟩ | ⟨model, hmodel, h⟩ := h
  · exact .extraction hextract (unit.extract_located e hextract)
  rw [orFailure_eq_ok] at hmodel
  have hextract : unit.extract = .ok model := hmodel
  have hbecomes := (extract_eq_ok.1 hextract).2
  rw [SourceModel.compileWith, except_bind_eq_error, orFailure_eq_error] at h
  obtain ⟨fault, hfault, hcompile⟩ | ⟨selected, hselected, h⟩ := h
  · exact .preHook (Failure.ofHook_eq_compile hcompile ▸ hfault)
  rw [orFailure_eq_ok] at hselected
  obtain ⟨hunit, hsubset⟩ := hselects model selected hselected
  rw [except_bind_eq_error, orFailure_eq_error] at h
  obtain ⟨e', hanalyze, hcompile⟩ | ⟨a, hanalyze, h⟩ := h
  · obtain rfl := Failure.ofError_eq_compile hcompile
    have howned : selected.Owned := fun d hd => hbecomes.owned d (hsubset hd)
    have hplaces := SourceModel.analyze_located howned setting.further e' hanalyze
    exact .analysis hextract hselected hanalyze (hbecomes.locates (hplaces.mono hsubset))
  · rw [orFailure_eq_ok] at hanalyze
    rcases Emission.emitWith_eq_error h with rfl | ⟨file, content, hpost⟩
    · have hname : a.model.unit = unit.name := by
        rw [(SourceModel.analyze_further_eq_ok.1 hanalyze).1, hunit, hbecomes.name]
      rw [hname]
      exact .emission hextract hselected hanalyze rfl rfl
    · exact .postHook hpost

/-- Every error of a unit is located, whatever templates there are and however far instantiations are
followed. It stays the same when they are followed further. -/
theorem HostUnit.endsWith_of_compile {unit : HostUnit} {config : Config} {runner : HookRunner}
    {setting : Setting} (hselects : runner.Selects) {e : CompileError}
    (h : (UnitSource.loaded unit).compileWith config runner setting = .error (.compile e)) :
    unit.EndsWith runner setting e ∧
      ∀ more, (UnitSource.loaded unit).compileWith config runner
        { setting with further := setting.further + more } = .error (.compile e) := by
  refine ⟨endsWith_of_error hselects h, fun more => ?_⟩
  rcases (UnitSource.loaded unit).compileWith_further config runner setting more with
    ⟨generic, hendless⟩ | heq
  · rw [h] at hendless
    cases hendless
  · rw [← heq, h]

def errorSite? : Except Failure EmittedSchema → Option Site
  | .error (.compile e) => some e.site
  | _ => none

/-- A unit whose first declaration instantiates a generic with a field of an ambiguous type. -/
def shelfUnit : HostUnit where
  name := "shelf"
  declarations := [
    { name := "Shelf", kind := .object, participates := true, fields := [
      { name := "label", type := some (.named "string") },
      { name := "box", type := some (.generic "Box" [.named "string"]) }] },
    { name := "Box", kind := .genericObject, participates := true, typeParameters := ["T"]
      fields := [
        { name := "value", type := some (.named "T") },
        { name := "weight", type := some (.named "number") }] }]

/-- The error is met in a field of `Shelf`, and it names the field of `Box` that it is about. -/
theorem shelfUnit_endsWith : ∃ e,
    (UnitSource.loaded shelfUnit).compileWith {} {} = .error (.compile e) ∧
      shelfUnit.EndsWith {} {} e ∧ e.site = ⟨some "Box", some "weight"⟩ := by
  have hsite : errorSite? ((UnitSource.loaded shelfUnit).compileWith {} {}) =
      some ⟨some "Box", some "weight"⟩ := by
    decide +kernel
  rcases hcompile : (UnitSource.loaded shelfUnit).compileWith {} {} with failure | schema
  · rw [hcompile] at hsite
    cases failure with
    | compile e =>
      have hselects : ({} : HookRunner).Selects := by
        rintro model selected ⟨⟩
        exact ⟨rfl, fun _ h => h⟩
      exact ⟨e, rfl, (HostUnit.endsWith_of_compile hselects hcompile).1, Option.some.inj hsite⟩
    | _ => cases hsite
  · rw [hcompile] at hsite
    cases hsite

end SchemaCompiler
