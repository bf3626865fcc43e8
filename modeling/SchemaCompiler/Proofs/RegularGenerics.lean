import Mathlib.Data.List.Perm.Subperm
import Mathlib.Data.List.ProdSigma
import SchemaCompiler.Proofs.Runs
import SchemaCompiler.Proofs.Stops

/-! Generics that apply each other to their type parameter or to types without one. The name of
every type that such generics are ever applied to can be read off an argument that is written in the
model, so there are finitely many instantiations to begin with. What was begun is known from then
on: each step deeper uses up one of them, and none is left before the depth is. -/

namespace SchemaCompiler

instance (a : TypeExpr) (name : String) : Decidable (a = .param name) :=
  match a with
  | .param n => decidable_of_iff (n = name) (by rw [TypeExpr.param.injEq])
  | .ref _ | .list _ | .nullable _ | .apply _ _ => isFalse (by rintro ⟨⟩)

namespace SourceModel

def applications (model : SourceModel) : List (Option String × List TypeExpr) :=
  (model.declarations.flatMap Declaration.tagged).flatMap fun x =>
    x.2.applies.map fun y => (x.1, y.2)

def genericArguments (model : SourceModel) : List TypeExpr :=
  model.applications.flatMap (·.2)

/-- Whether each argument in the body of a generic is the type parameter or does not hold it. -/
def RegularGenerics (model : SourceModel) : Prop :=
  ∀ decl ∈ model.generics, ∀ x ∈ (Declaration.generic decl).tagged, ∀ y ∈ x.2.applies, ∀ a ∈ y.2,
    a = .param decl.parameter ∨ a.usesParam = false

instance (model : SourceModel) : Decidable model.RegularGenerics :=
  inferInstanceAs (Decidable (∀ decl ∈ _, ∀ x ∈ _, ∀ y ∈ _, ∀ a ∈ _, _ ∨ _))

theorem mem_generics {model : SourceModel} {decl : GenericDecl} :
    decl ∈ model.generics ↔ .generic decl ∈ model.declarations := by
  rw [generics, List.mem_filterMap]
  constructor
  · rintro ⟨d, hd, heq⟩
    cases d <;> cases heq
    exact hd
  · exact fun h => ⟨_, h, rfl⟩

end SourceModel

namespace TypeExpr

theorem allApplies_eq (es : List TypeExpr) : allApplies es = es.flatMap applies := by
  induction es with
  | nil => rfl
  | cons e rest ih => rw [allApplies, ih, List.flatMap_cons]

mutual

theorem length_applies : ∀ e : TypeExpr, e.applies.length = e.applications
  | .ref _ => rfl
  | .param _ => rfl
  | .list element => length_applies element
  | .nullable inner => length_applies inner
  | .apply generic arguments => by
    rw [applies, List.length_cons, length_allApplies arguments, applications]

theorem length_allApplies : ∀ es : List TypeExpr, (allApplies es).length = allApplications es
  | [] => rfl
  | e :: rest => by
    rw [allApplies, List.length_append, length_applies e, length_allApplies rest, allApplications]

end

end TypeExpr

theorem FieldDescriptor.tagged_types (f : FieldDescriptor) : f.tagged.map (·.2) = f.types := by
  rw [tagged, types, List.map_append, List.map_map, List.map_map]
  exact congrArg₂ _ (List.map_id _) rfl

/-- Each application is among those that the depth of a model is made from. -/
theorem SourceModel.length_applications (model : SourceModel) :
    model.applications.length = TypeExpr.allApplications
      (model.declarations.flatMap fun d => d.fields.flatMap FieldDescriptor.types) := by
  have htypes : (model.declarations.flatMap fun d => d.fields.flatMap FieldDescriptor.types) =
      (model.declarations.flatMap Declaration.tagged).map (·.2) := by
    simp only [List.map_flatMap, Declaration.tagged, FieldDescriptor.tagged_types]
  rw [htypes, ← TypeExpr.length_allApplies, TypeExpr.allApplies_eq, List.flatMap_map, applications,
    List.length_flatMap, List.length_flatMap]
  simp only [List.length_map]

namespace TypeGraph

variable {graph : TypeGraph} {node : Node} {e : CompileError}

theorem add_error_ends (h : graph.add node = .error e) : e.cause.Ends := by
  unfold add at h
  split at h
  · cases h
    rintro _ ⟨⟩
  · split at h <;> cases h <;> rintro _ ⟨⟩

theorem enter_error_ends {site : Site} {t : Named} (h : graph.enter site t = .error e) :
    e.cause.Ends := by
  have hshell {name : String} {kind : ShellKind} (h : graph.shell name kind = .error e) :
      e.cause.Ends := by
    unfold shell at h
    split at h
    · exact add_error_ends h
    · cases h
      rintro _ ⟨⟩
    · split at h
      · cases h
        rintro _ ⟨⟩
      · split at h <;> cases h
        rintro _ ⟨⟩
  cases t with
  | object name => exact hshell h
  | enum name => exact hshell h
  | scalar s =>
    rw [enter, adopt] at h
    split at h
    · split at h
      · cases h
      · exact add_error_ends h
    · exact add_error_ends h
  | pending name =>
    rw [enter, pending] at h
    split at h
    · cases h
      rintro _ ⟨⟩
    · cases h
    · exact add_error_ends h
  | instantiation key => cases h

theorem addTemplate_error_ends {template : Template} (h : graph.addTemplate template = .error e) :
    e.cause.Ends := by
  unfold addTemplate at h
  split at h <;> cases h
  rintro _ ⟨⟩

theorem assertComplete_error_ends (h : graph.assertComplete = .error e) : e.cause.Ends := by
  unfold assertComplete at h
  split at h <;> cases h
  rintro _ ⟨⟩

end TypeGraph

namespace Scope

/-- The name of the only argument of a generic, read without a type for the type parameter. -/
def onlyName? (scope : Scope) (tag : Option String) : List TypeExpr → Option String
  | [a] => scope.argumentName? tag [] a
  | _ => none

/-- The names of the types that generics are applied to where no type parameter is. -/
def closedNames (scope : Scope) : List String :=
  scope.model.applications.filterMap fun x => scope.onlyName? x.1 x.2

def closedKeys (scope : Scope) : List InstanceKey :=
  (scope.model.generics ×ˢ scope.closedNames).map fun x => ⟨x.1.name, x.2⟩

variable {α β : Type} {scope : Scope} {depth : Nat} {tag : Option String}
  {env : List (String × String)}
  {s s' : Resolution} {r : Except CompileError Unit × Resolution} {depth : Nat}

theorem length_closedKeys (scope : Scope) :
    scope.closedKeys.length = scope.model.generics.length * scope.closedNames.length := by
  rw [closedKeys, List.length_map, List.length_product]

theorem length_closedNames_le (scope : Scope) :
    scope.closedNames.length ≤ scope.model.genericArguments.length := by
  rw [closedNames, SourceModel.genericArguments]
  induction scope.model.applications with
  | nil => exact Nat.le_refl 0
  | cons x rest ih =>
    rw [List.flatMap_cons, List.length_append, List.filterMap_cons]
    rcases x with ⟨tag, _ | ⟨a, _ | ⟨b, more⟩⟩⟩
    · exact Nat.le_trans ih (Nat.le_add_left _ _)
    · split
      · exact Nat.le_trans ih (Nat.le_add_left _ _)
      · rw [List.length_cons, List.length_singleton, Nat.add_comm]
        exact Nat.add_le_add_left ih 1
    · exact Nat.le_trans ih (Nat.le_add_left _ _)

/-- The depth of a model is enough to begin each of these instantiations inside another. -/
theorem length_closedKeys_le (scope : Scope) :
    scope.closedKeys.length ≤ scope.model.instantiationDepth := by
  rw [length_closedKeys, SourceModel.instantiationDepth]
  refine Nat.mul_le_mul (by omega) (Nat.le_trans (List.length_filterMap_le _ _) ?_)
  rw [SourceModel.length_applications]
  omega

mutual

/-- What holds no type parameter has a name that does not hang on it. -/
theorem argumentName?_of_closed : ∀ e : TypeExpr, e.usesParam = false →
    scope.argumentName? tag env e = scope.argumentName? tag [] e
  | .ref name, _ => by rw [argumentName?, argumentName?]
  | .param name, h => nomatch h
  | .list element, _ => by rw [argumentName?, argumentName?]
  | .nullable inner, h => by
    rw [argumentName?, argumentName?]
    exact argumentName?_of_closed inner h
  | .apply generic arguments, h => by
    rw [argumentName?, argumentName?, argumentNames_of_closed arguments h]

theorem argumentNames_of_closed : ∀ es : List TypeExpr, TypeExpr.anyUsesParam es = false →
    scope.argumentNames tag env es = scope.argumentNames tag [] es
  | [], _ => by rw [argumentNames, argumentNames]
  | e :: rest, h => by
    rw [TypeExpr.anyUsesParam, Bool.or_eq_false_iff] at h
    rw [argumentNames, argumentNames, argumentName?_of_closed e h.1,
      argumentNames_of_closed rest h.2]

end

theorem argumentNames_eq (es : List TypeExpr) :
    scope.argumentNames tag env es = es.map (scope.argumentName? tag env) := by
  induction es with
  | nil => rw [argumentNames, List.map_nil]
  | cons e rest ih => rw [argumentNames, ih, List.map_cons]

theorem mem_applicationStop {generic : String} {arguments : List TypeExpr} {g n : String}
    (h : .application g n ∈ applicationStop generic (scope.argumentNames tag env arguments)) :
    g = generic ∧ ∃ a, arguments = [a] ∧ scope.argumentName? tag env a = some n := by
  unfold applicationStop at h
  split at h
  · rename_i argument hnames
    cases List.mem_singleton.1 h
    rw [argumentNames_eq] at hnames
    exact ⟨rfl, List.map_eq_singleton_iff.1 hnames⟩
  · cases h

mutual

/-- A stop at an application is at one that is written there. -/
theorem application_mem_stops {g n : String} : ∀ e : TypeExpr,
    .application g n ∈ scope.stops tag env e →
      ∃ a, (g, [a]) ∈ e.applies ∧ scope.argumentName? tag env a = some n
  | .ref name, h => by
    rw [stops] at h
    cases List.mem_singleton.1 h
  | .param name, h => by
    rw [stops] at h
    cases h
  | .list element, h => by
    rw [stops] at h
    exact application_mem_stops element h
  | .nullable inner, h => by
    rw [stops] at h
    exact application_mem_stops inner h
  | .apply generic arguments, h => by
    rw [stops] at h
    rcases List.mem_append.1 h with h | h
    · obtain ⟨a, ha, hname⟩ := application_mem_allStops arguments h
      exact ⟨a, List.mem_cons_of_mem _ ha, hname⟩
    · obtain ⟨rfl, a, rfl, hname⟩ := mem_applicationStop h
      exact ⟨a, List.mem_cons_self, hname⟩

theorem application_mem_allStops {g n : String} : ∀ es : List TypeExpr,
    .application g n ∈ scope.allStops tag env es →
      ∃ a, (g, [a]) ∈ TypeExpr.allApplies es ∧ scope.argumentName? tag env a = some n
  | [], h => by
    rw [allStops] at h
    cases h
  | e :: rest, h => by
    rw [allStops] at h
    rcases List.mem_append.1 h with h | h
    · obtain ⟨a, ha, hname⟩ := application_mem_stops e h
      exact ⟨a, List.mem_append_left _ ha, hname⟩
    · obtain ⟨a, ha, hname⟩ := application_mem_allStops rest h
      exact ⟨a, List.mem_append_right _ ha, hname⟩

end

/-- A stop at an application in the fields of a declaration. -/
theorem application_mem_fieldStops {owner : String} {ds : List FieldDescriptor} {site : Site}
    {g n : String} (h : (site, .application g n) ∈ ds.flatMap (scope.fieldStops owner env)) :
    ∃ x ∈ ds.flatMap FieldDescriptor.tagged, ∃ a, (g, [a]) ∈ x.2.applies ∧
      scope.argumentName? x.1 env a = some n := by
  obtain ⟨d, hd, h⟩ := List.mem_flatMap.1 h
  obtain ⟨x, hx, h⟩ := List.mem_flatMap.1 h
  obtain ⟨stop, hstop, heq⟩ := List.mem_map.1 h
  cases heq
  exact ⟨x, List.mem_flatMap.2 ⟨d, hd, hx⟩, application_mem_stops x.2 hstop⟩

theorem mem_closedNames {d : Declaration} (hd : d ∈ scope.model.declarations)
    {x : Option String × TypeExpr} (hx : x ∈ d.tagged) {g n : String} {a : TypeExpr}
    (ha : (g, [a]) ∈ x.2.applies) (hname : scope.argumentName? x.1 [] a = some n) :
    n ∈ scope.closedNames := by
  refine List.mem_filterMap.2 ⟨(x.1, [a]), ?_, hname⟩
  exact List.mem_flatMap.2 ⟨x, List.mem_flatMap.2 ⟨d, hd, hx⟩, List.mem_map.2 ⟨_, ha, rfl⟩⟩

theorem closed_of_declaration {d : Declaration} (hd : d ∈ scope.model.declarations) {site : Site}
    {g n : String} (h : (site, .application g n) ∈ scope.declarationStops d) :
    n ∈ scope.closedNames := by
  obtain ⟨x, hx, a, ha, hname⟩ := application_mem_fieldStops h
  exact mem_closedNames hd hx ha hname

/-- A regular body applies generics to what it is applied to itself, or to a type of the model. -/
theorem closed_of_body (hmodel : scope.model.RegularGenerics) {decl : GenericDecl}
    (hdecl : decl ∈ scope.model.generics) {argument : String}
    (hargument : argument ∈ scope.closedNames) {site : Site} {g n : String}
    (h : (site, .application g n) ∈ scope.bodyStops decl argument) : n ∈ scope.closedNames := by
  obtain ⟨x, hx, a, ha, hname⟩ := application_mem_fieldStops h
  rcases hmodel decl hdecl x hx _ ha a List.mem_cons_self with rfl | hclosed
  · rw [argumentName?, List.lookup_cons, BEq.rfl] at hname
    exact Option.some.inj hname ▸ hargument
  · rw [argumentName?_of_closed a hclosed] at hname
    exact mem_closedNames (SourceModel.mem_generics.1 hdecl) hx ha hname

/-- Whether requests are for instantiations of these keys only. -/
def Covered (scope : Scope) (rs : List (Site × Request)) : Prop :=
  ∀ site decl argument, (site, Request.apply decl argument) ∈ rs →
    decl ∈ scope.model.generics ∧ argument.name ∈ scope.closedNames

theorem Covered.tail {first : Site × Request} {rest : List (Site × Request)}
    (h : scope.Covered (first :: rest)) : scope.Covered rest :=
  fun site decl argument hmem => h site decl argument (List.mem_cons_of_mem _ hmem)

/-- The requests of the plan for a declaration's fields. -/
theorem covered_planFields {types : Environment} (henv : EnvNamed types env) {owner : String}
    {ds : List FieldDescriptor}
    (hstops : ∀ site g n, (site, Stop.application g n) ∈ ds.flatMap (scope.fieldStops owner env) →
      n ∈ scope.closedNames) :
    scope.Covered (scope.planFields owner types ds).requests := by
  obtain ⟨passed, hstart, hpassed⟩ := (planFields_traces henv owner ds).passed
  intro site decl argument hmem
  obtain ⟨stop, hstop, hmatches⟩ := forall₂_mem_left hpassed _ hmem
  cases hmatches with
  | application hdecl =>
    exact ⟨SourceModel.mem_generics.2 (SourceModel.get?_mem hdecl),
      hstops _ _ _ (hstart.subset hstop)⟩

theorem covered_planBody (hmodel : scope.model.RegularGenerics) {decl : GenericDecl}
    (hdecl : decl ∈ scope.model.generics) {argument : Named}
    (hargument : argument.name ∈ scope.closedNames) :
    scope.Covered (scope.planBody decl (.named argument)).requests :=
  covered_planFields (envNamed_singleton _ _) fun _ _ _ => closed_of_body hmodel hdecl hargument

/-- Whether a state has begun only such instantiations, each of them once. -/
structure Fits (scope : Scope) (s : Resolution) : Prop where
  nodup : (s.memo.map (·.key)).Nodup
  closed : s.memo.map (·.key) ⊆ scope.closedKeys

theorem fits_empty (scope : Scope) : scope.Fits {} :=
  ⟨List.nodup_nil, List.nil_subset _⟩

theorem Fits.of_keys (h : scope.Fits s) (hkeys : s'.memo.map (·.key) = s.memo.map (·.key)) :
    scope.Fits s' :=
  ⟨hkeys ▸ h.nodup, hkeys ▸ h.closed⟩

theorem Fits.length_le (h : scope.Fits s) : s.memo.length ≤ scope.closedKeys.length := by
  rw [← List.length_map (·.key)]
  exact (h.nodup.subperm h.closed).length_le

theorem Fits.begin (h : scope.Fits s) {decl : GenericDecl} (hdecl : decl ∈ scope.model.generics)
    {argument : Named} (hargument : argument.name ∈ scope.closedNames)
    (hnew : (⟨decl.name, argument.name⟩ : InstanceKey) ∉ s.memo.map (·.key)) :
    scope.Fits (s.begin (begun decl argument)) := by
  have hkeys : (s.begin (begun decl argument)).memo.map (·.key) =
      s.memo.map (·.key) ++ [⟨decl.name, argument.name⟩] := List.map_append
  refine ⟨?_, ?_⟩
  · rw [hkeys, ← List.concat_eq_append, List.nodup_concat]
    exact ⟨hnew, h.nodup⟩
  · rw [hkeys]
    refine List.append_subset.2 ⟨h.closed, fun key hkey => ?_⟩
    rw [List.mem_singleton.1 hkey]
    exact List.mem_map.2 ⟨(decl, argument.name), List.mem_product.2 ⟨hdecl, hargument⟩, rfl⟩

/-- A result in which the instantiations have come to an end. -/
structure Halts (scope : Scope) (r : Except CompileError α × Resolution) : Prop where
  fits : scope.Fits r.2
  ends : ∀ e, r.1 = .error e → e.cause.Ends

theorem Halts.of_ok {a : α} (h : scope.Fits s) :
    scope.Halts ((.ok a, s) : Except CompileError α × Resolution) :=
  ⟨h, fun _ he => nomatch he⟩

theorem Halts.of_error {e : CompileError} (h : scope.Fits s) (he : e.cause.Ends) :
    scope.Halts ((.error e, s) : Except CompileError α × Resolution) :=
  ⟨h, fun _ heq => Except.error.inj heq ▸ he⟩

theorem Halts.bind {x : ResolveM α} {f : α → ResolveM β} (hx : scope.Halts (x s))
    (hf : ∀ a s', x s = (.ok a, s') → scope.Fits s' → scope.Halts (f a s')) :
    scope.Halts ((x >>= f) s) := by
  rcases h : x s with ⟨e | a, s'⟩
  · rw [h] at hx
    rw [ResolveM.bind_error h]
    exact .of_error hx.fits (hx.ends e rfl)
  · rw [h] at hx
    rw [ResolveM.bind_ok h]
    exact hf a s' h hx.fits

theorem Halts.attaching {x : ResolveM α} (hx : scope.Halts (x s)) (site : Site) :
    scope.Halts (ResolveM.attaching site x s) := by
  rw [ResolveM.attaching_apply]
  rcases h : x s with ⟨e | a, s'⟩
  · rw [h] at hx
    refine .of_error hx.fits ?_
    rw [CompileError.attach_cause]
    exact hx.ends e rfl
  · rw [h] at hx
    exact hx

/-- Entering a type leaves the instantiations as they are. -/
theorem enter_halts (h : scope.Fits s) (site : Site) (t : Named) :
    scope.Halts (ResolveM.onGraph (·.enter site t) s) := by
  rw [ResolveM.onGraph_apply]
  rcases henter : s.graph.enter site t with e | ⟨r, g⟩
  · exact .of_error h (TypeGraph.enter_error_ends henter)
  · exact .of_ok (h.of_keys rfl)

theorem finish_halts (h : scope.Fits s) (decl : GenericDecl) (argument : Named)
    (fields : List GraphField) : scope.Halts (finish decl argument fields s) := by
  have hfill := h.of_keys (fill_keys ⟨decl.name, argument.name⟩ fields)
  rw [finish_apply]
  rcases hadd : s.graph.add (.instantiation (filled decl argument fields)) with e | ⟨r, g⟩
  · exact .of_error hfill (TypeGraph.add_error_ends hadd)
  · exact .of_ok (hfill.of_keys rfl)

theorem length_finish (decl : GenericDecl) (argument : Named) (fields : List GraphField)
    (s : Resolution) : (finish decl argument fields s).2.memo.length = s.memo.length := by
  rw [finish_apply]
  rcases s.graph.add (.instantiation (filled decl argument fields)) with e | ⟨r, g⟩ <;>
    exact List.length_map _

/-- An instantiation whose body has halted halts, and its end begins no other one. -/
theorem ended_halts {body : Except CompileError Unit × Resolution} (h : scope.Halts body)
    (decl : GenericDecl) (argument : Named) {result : Except CompileError InstanceKey}
    (hended : scope.ended decl argument body = (result, s')) :
    scope.Halts (result, s') ∧ s'.memo.length = body.2.memo.length := by
  rw [← hended, show s' = (scope.ended decl argument body).2 by rw [hended]]
  rcases body with ⟨e | u, mid⟩
  · exact ⟨.of_error h.fits (h.ends e rfl), rfl⟩
  · rw [ended]
    rcases houtcome : (scope.planBody decl (.named argument)).outcome with e | fields
    · have hends := (planBody_traces scope decl argument).refused e houtcome
      exact ⟨.of_error h.fits hends, rfl⟩
    · exact ⟨finish_halts h.fits decl argument fields, length_finish decl argument fields mid⟩

theorem length_begin (decl : GenericDecl) (argument : Named) :
    (s.begin (begun decl argument)).memo.length = s.memo.length + 1 :=
  List.length_append

/-- The body of an instantiation that is new, and the state in which it is resolved. -/
theorem Fits.body (hmodel : scope.model.RegularGenerics) (hfits : scope.Fits s) {site : Site}
    {decl : GenericDecl} {argument : Named} {rest : List (Site × Request)}
    (hcovered : scope.Covered ((site, .apply decl argument) :: rest))
    (hnew : (⟨decl.name, argument.name⟩ : InstanceKey) ∉ s.memo.map (·.key)) :
    scope.Covered (scope.planBody decl (.named argument)).requests ∧
      scope.Fits (s.begin (begun decl argument)) := by
  obtain ⟨hdecl, hargument⟩ := hcovered _ _ _ List.mem_cons_self
  exact ⟨covered_planBody hmodel hdecl hargument, hfits.begin hdecl hargument hnew⟩

/-- A run of regular generics halts if the instantiations that are left are not more than its depth:
what it begins goes from them, and stays gone. -/
theorem Runs.halts (hmodel : scope.model.RegularGenerics) {rs : List (Site × Request)}
    (hrun : scope.Runs depth rs s r) (hcovered : scope.Covered rs) (hfits : scope.Fits s)
    (hdepth : scope.closedKeys.length ≤ s.memo.length + depth) :
    scope.Halts r ∧ s.memo.length ≤ r.2.memo.length := by
  induction hrun with
  | done => exact ⟨.of_ok hfits, Nat.le_refl _⟩
  | found _ _ _ ih => exact ih hcovered.tail hfits hdepth
  | added _ _ ih => exact ih hcovered.tail (hfits.of_keys rfl) hdepth
  | @refused _ site _ _ _ e h =>
    refine ⟨.of_error hfits ?_, Nat.le_refl _⟩
    rw [CompileError.attach_cause]
    exact TypeGraph.enter_error_ends h
  | begun _ _ ih => exact ih hcovered.tail hfits hdepth
  | @exhausted site decl argument _ _ _ hnew =>
    -- all instantiations that there can be have been begun, so this one was
    obtain ⟨hdecl, hargument⟩ := hcovered _ _ _ List.mem_cons_self
    have hlength := (hfits.begin hdecl hargument hnew).length_le
    rw [length_begin] at hlength
    omega
  | @failed _ _ _ _ _ s s' _ _ hnew _ hended ih =>
    obtain ⟨hbody, hbegin⟩ := hfits.body hmodel hcovered hnew
    obtain ⟨hhalts, hle⟩ := ih hbody hbegin (by rw [length_begin]; omega)
    obtain ⟨hends, hlength⟩ := ended_halts hhalts _ _ hended
    rw [length_begin] at hle
    refine ⟨.of_error hends.fits ?_, show s.memo.length ≤ s'.memo.length by omega⟩
    rw [CompileError.attach_cause]
    exact hends.ends _ rfl
  | finished hnew _ hended _ ih ihrest =>
    obtain ⟨hbody, hbegin⟩ := hfits.body hmodel hcovered hnew
    obtain ⟨hhalts, hle⟩ := ih hbody hbegin (by rw [length_begin]; omega)
    obtain ⟨hends, hlength⟩ := ended_halts hhalts _ _ hended
    rw [length_begin] at hle
    obtain ⟨hrest, hmore⟩ := ihrest hcovered.tail hends.fits (by omega)
    exact ⟨hrest, by omega⟩

theorem resolveFields_halts (hmodel : scope.model.RegularGenerics)
    (hdepth : scope.model.instantiationDepth ≤ depth) (hs : scope.Sound s)
    (hfits : scope.Fits s) {types : Environment} (hknown : EnvKnown s.Holds types)
    (hnamed : EnvNamed types env) {owner : String} {ds : List FieldDescriptor}
    (hstops : ∀ site g n, (site, Stop.application g n) ∈ ds.flatMap (scope.fieldStops owner env) →
      n ∈ scope.closedNames) :
    scope.Halts (scope.resolveFields (instantiateWithin depth) owner types ds s) := by
  have hrun := runs_meetAll depth hs (fun _ h => h)
    (planFields_careful scope hknown owner ds).ordered
  have hhalts := (hrun.halts hmodel (covered_planFields hnamed hstops) hfits
    (Nat.le_trans (length_closedKeys_le scope) (Nat.le_trans hdepth (Nat.le_add_left _ _)))).1
  rw [resolveFields_eq depth scope owner types ds hs.tidy, perform]
  refine hhalts.bind fun _ mid _ hmid => ?_
  rcases houtcome : (scope.planFields owner types ds).outcome with e | fields
  · exact .of_error hmid ((planFields_traces hnamed owner ds).refused e houtcome)
  · exact .of_ok hmid

theorem declareObject_halts (hmodel : scope.model.RegularGenerics)
    (hdepth : scope.model.instantiationDepth ≤ depth) (hs : scope.Sound s)
    (hfits : scope.Fits s) {decl : ObjectDecl} (hdecl : .object decl ∈ scope.model.declarations) :
    scope.Halts (scope.declareObject depth decl s) := by
  refine (enter_halts hfits {} (.object decl.name)).bind fun _ mid hshell hmid => ?_
  obtain ⟨g, hg, rfl⟩ := ResolveM.onGraph_eq_ok.1 hshell
  obtain ⟨hs₀, -, -⟩ := enter_ok (t := .object decl.name) hs ⟨decl, hdecl, rfl⟩ hg
  rw [ResolveM.bind_ok (ResolveM.get_apply _)]
  split
  · exact .of_error hmid (by rintro _ ⟨⟩)
  · rename_i hunfilled
    rw [ResolveM.bind_ok (ResolveM.changeGraph_apply _ _)]
    have hs₁ := sound_describeObject hs₀ (by simpa using hunfilled)
    refine Halts.bind (resolveFields_halts hmodel hdepth hs₁ (hmid.of_keys rfl) (fun _ _ h => by cases h)
      envNamed_nil fun _ _ _ => closed_of_declaration hdecl) fun fields s₁ _ hfits₁ => ?_
    exact .of_ok (hfits₁.of_keys rfl)

theorem declareGeneric_halts (hmodel : scope.model.RegularGenerics)
    (hdepth : scope.model.instantiationDepth ≤ depth) (hs : scope.Sound s)
    (hfits : scope.Fits s) {decl : GenericDecl} (hdecl : .generic decl ∈ scope.model.declarations) :
    scope.Halts (scope.declareGeneric depth decl s) := by
  refine (resolveFields_halts hmodel hdepth hs hfits (envKnown_placeholder _ _) (envNamed_placeholder _)
    fun _ _ _ => closed_of_declaration hdecl).bind fun fields s₁ _ hfits₁ => ?_
  rw [ResolveM.onGraph_apply]
  rcases hadd : s₁.graph.addTemplate ⟨decl.name, [decl.parameter], fields, decl.description⟩ with
    e | g
  · exact .of_error hfits₁ (TypeGraph.addTemplate_error_ends hadd)
  · exact .of_ok (hfits₁.of_keys rfl)

theorem declare_halts (hmodel : scope.model.RegularGenerics)
    (hdepth : scope.model.instantiationDepth ≤ depth) (hs : scope.Sound s)
    (hfits : scope.Fits s) {d : Declaration} (hd : d ∈ scope.model.declarations) :
    scope.Halts (scope.declare depth d s) := by
  cases d with
  | object decl => exact declareObject_halts hmodel hdepth hs hfits hd
  | generic decl => exact declareGeneric_halts hmodel hdepth hs hfits hd
  | enum decl =>
    refine (enter_halts hfits {} (.enum decl.name)).bind fun _ _ _ hmid => ?_
    exact .of_ok (hmid.of_keys rfl)
  | scalar decl =>
    rw [declare, declareScalar]
    rcases scope.registry.byName? decl.name with _ | sc
    · exact .of_error hfits (by rintro _ ⟨⟩)
    · exact (enter_halts hfits {} (.scalar sc)).bind fun _ _ _ hmid => .of_ok hmid

theorem declareAll_halts (hmodel : scope.model.RegularGenerics)
    (hdepth : scope.model.instantiationDepth ≤ depth) (hs : scope.Sound s)
    (hfits : scope.Fits s) {ds : List Declaration} (hds : ∀ d ∈ ds, d ∈ scope.model.declarations) :
    scope.Halts (scope.declareAllWithin depth ds s) := by
  induction ds generalizing s with
  | nil => exact .of_ok hfits
  | cons d rest ih =>
    have hd := hds d List.mem_cons_self
    rw [declareAllWithin, located, declare_focus]
    refine ((declare_halts hmodel hdepth hs hfits hd).attaching _).bind fun _ mid hfirst hmid => ?_
    exact ih (declare_declares hs hd (ResolveM.attaching_eq_ok.1 hfirst)).sound hmid
      fun x hx => hds x (List.mem_cons_of_mem _ hx)

theorem resolve_halts (hmodel : scope.model.RegularGenerics) : scope.Halts (scope.resolve {}) := by
  rw [resolve, resolveWithin]
  refine (declareAll_halts hmodel (le_depth scope) (sound_empty scope) (fits_empty scope) fun _ hd => hd).bind
    fun _ s _ hfits => ?_
  rw [ResolveM.bind_ok (ResolveM.get_apply s)]
  rcases hcheck : s.graph.assertComplete with e | u
  · exact .of_error hfits (TypeGraph.assertComplete_error_ends hcheck)
  · exact .of_ok hfits

/-- Regular generics are not instantiated without end, whether the resolution goes through or not,
and what it begins is bounded by what is written in the model. -/
theorem resolve_of_regularGenerics (scope : Scope) (hmodel : scope.model.RegularGenerics) :
    (∀ e s, scope.resolve {} = (.error e, s) →
      ∀ generic, e.cause ≠ .endlessInstantiation generic) ∧
    (scope.resolve {}).2.memo.length ≤
      scope.model.generics.length * scope.model.genericArguments.length := by
  have hhalts := resolve_halts hmodel
  refine ⟨fun e s h => hhalts.ends e (congrArg Prod.fst h), ?_⟩
  calc (scope.resolve {}).2.memo.length
      ≤ scope.closedKeys.length := hhalts.fits.length_le
    _ = scope.model.generics.length * scope.closedNames.length := length_closedKeys scope
    _ ≤ scope.model.generics.length * scope.model.genericArguments.length :=
        Nat.mul_le_mul_left _ (length_closedNames_le scope)

/-- Two generics that refer to themselves, to each other and to an object. -/
def pagedScope : Scope where
  registry := {}
  model :=
    { unit := "unit"
      declarations :=
        [.generic ⟨"Page", "T",
          [{ owner := "Page", name := "items", type := some (.list (.param "T")) },
           { owner := "Page", name := "edges", type := some (.apply "Edge" [.param "T"]) },
           { owner := "Page", name := "next", type := some (.apply "Page" [.param "T"]) }], none⟩,
         .generic ⟨"Edge", "T",
          [{ owner := "Edge", name := "page", type := some (.apply "Page" [.param "T"]) },
           { owner := "Edge", name := "users", type := some (.apply "Page" [.ref "User"]) }], none⟩,
         .object ⟨"User",
          [{ owner := "User", name := "friends", type := some (.apply "Page" [.ref "User"]) },
           { owner := "User", name := "pages",
             type := some (.apply "Edge" [.apply "Page" [.ref "User"]]) }], none⟩] }

theorem pagedScope_halts :
    pagedScope.model.RegularGenerics ∧
    ((∀ e s, pagedScope.resolve {} = (.error e, s) →
      ∀ generic, e.cause ≠ .endlessInstantiation generic) ∧
    (pagedScope.resolve {}).2.memo.length ≤ 2 * 7) ∧
    (pagedScope.resolve {}).2.memo.map (·.key) =
      [⟨"Page", "User"⟩, ⟨"Edge", "User"⟩, ⟨"Edge", "UserPage"⟩, ⟨"Page", "UserPage"⟩] := by
  have hmodel : pagedScope.model.RegularGenerics := by decide
  have hcount : pagedScope.model.generics.length *
      pagedScope.model.genericArguments.length = 2 * 7 := by decide
  exact ⟨hmodel, hcount ▸ resolve_of_regularGenerics pagedScope hmodel, by decide +kernel⟩

end Scope

end SchemaCompiler
