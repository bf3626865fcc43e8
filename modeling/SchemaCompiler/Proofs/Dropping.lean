import SchemaCompiler.Hook
import SchemaCompiler.Proofs.Shedding

/-! Leaving declarations out of a model that has been analyzed. What is left can still be registered.
Where a declaration that is left needs one that is not, the analysis fails. As long as what is left
out takes types away only and puts none in their place, it fails with an unresolved reference, or it
says of a lacking generic that it is none. -/

namespace SchemaCompiler

/-- Whether a declaration applies a generic to a type parameter, and the model does not declare it. -/
def SourceModel.Lacks (model : SourceModel) (generic : String) : Prop :=
  model.get? generic = none ∧ ∃ d ∈ model.declarations, ∃ x ∈ d.tagged, ∃ y ∈ x.2.applies,
    y.1 = generic ∧ TypeExpr.anyUsesParam y.2 = true

namespace Scope

variable {scope scope' : Scope}

/-- A scope of some of the declarations of another one, in which no reference has been taken over. -/
structure Loses (scope scope' : Scope) : Prop where
  declarations : scope'.model.declarations ⊆ scope.model.declarations
  fewer : scope.Fewer scope'
  scalars : ∀ name s, scope'.registry.byName? name = some s → scope.registry.byName? name = some s
  registered : ∀ decl, .scalar decl ∈ scope'.model.declarations →
    ∃ s, scope'.registry.byName? decl.name = some s
  survives : ∀ d ∈ scope'.model.declarations, ∀ x ∈ d.tagged,
    scope.Survives scope' scope.Occurs scope'.model.Lacks x.1 x.2.refs x.2.applies

namespace Loses

/-- What has become of the plan of a body. -/
theorem body (hl : scope.Loses scope') (hc : scope.Consistent) {decl : GenericDecl}
    (hdecl : .generic decl ∈ scope'.model.declarations) {t t' : TypeNode} (hfades : t.Fades t')
    (h : scope.Planned (scope.planBody decl t)) :
    Plan.Sheds scope.Occurs scope'.model.Lacks (scope.planBody decl t) (scope'.planBody decl t')
      fun _ => True := by
  obtain ⟨fields, houtcome, -⟩ := hc.answered _ h
  exact planFields_sheds hl.fewer (envFades_singleton decl.parameter hfades) _
    (hl.survives _ hdecl) houtcome

/-- Every plan of the smaller run is what a plan of the larger one has become. -/
theorem planned (hl : scope.Loses scope') (hc : scope.Consistent) {p' : Plan (List GraphField)}
    (h : scope'.Planned p') :
    ∃ p, scope.Planned p ∧ Plan.Sheds scope.Occurs scope'.model.Lacks p p' fun _ => True := by
  induction h with
  | @object decl hdecl =>
    have hplanned : scope.Planned (scope.planObject decl) := .object (hl.declarations hdecl)
    obtain ⟨fields, houtcome, -⟩ := hc.answered _ hplanned
    have henv : EnvFades [] [] := fun _ _ hlookup => nomatch hlookup
    exact ⟨_, hplanned, planFields_sheds hl.fewer henv _ (hl.survives _ hdecl) houtcome⟩
  | @generic decl hdecl =>
    have hplanned : scope.Planned (scope.planTemplate decl) := .generic (hl.declarations hdecl)
    exact ⟨_, hplanned, hl.body hc hdecl (.placeholder _) hplanned⟩
  | @body p' decl t' hplan' hasks' ih =>
    obtain ⟨p, hplan, hsheds⟩ := ih
    obtain ⟨t, hasks, hfades⟩ := hsheds.applied decl t' hasks'
    have hdecl := SourceModel.get?_mem (hplan'.grounded hasks')
    have hplanned : scope.Planned (scope.planBody decl (.named t)) := hplan.body hasks
    exact ⟨_, hplanned, hl.body hc hdecl (.named hfades) hplanned⟩

theorem arises (hl : scope.Loses scope') (hc : scope.Consistent) {decl : GenericDecl} {t' : Named}
    (h : scope'.Arises decl t') : ∃ t, scope.Arises decl t ∧ t.Fades t' := by
  obtain ⟨p', hplan', hasks'⟩ := h
  obtain ⟨p, hplan, hsheds⟩ := hl.planned hc hplan'
  obtain ⟨t, hasks, hfades⟩ := hsheds.applied decl t' hasks'
  exact ⟨t, ⟨p, hplan, hasks⟩, hfades⟩

theorem occurs (hl : scope.Loses scope') (hc : scope.Consistent) {t : Named}
    (h : scope'.Occurs t) : scope.Occurs t ∨ t.kind = .pending := by
  cases h with
  | object hdecl => exact .inl (.object (hl.declarations hdecl))
  | enum hdecl => exact .inl (.enum (hl.declarations hdecl))
  | scalar hdecl hs => exact .inl (.scalar (hl.declarations hdecl) (hl.scalars _ _ hs))
  | entered hplan' hasks' =>
    obtain ⟨p, hplan, hsheds⟩ := hl.planned hc hplan'
    exact hsheds.entered t hasks'
  | applied hplan' hasks' =>
    obtain ⟨u, harises, hfades⟩ := hl.arises hc ⟨_, hplan', hasks'⟩
    rw [hfades.name]
    exact .inl harises.occurs

/-- A nest of the smaller run was one of the larger run, with the same keys. -/
theorem nested (hl : scope.Loses scope') (hc : scope.Consistent) {path' : List Application}
    (h : scope'.Nested path') :
    ∃ path, scope.Nested path ∧
      List.Forall₂ (fun x x' : Application => x.1 = x'.1 ∧ x.2.Fades x'.2) path path' := by
  induction h with
  | @first x' h =>
    obtain ⟨t, harises, hfades⟩ := hl.arises hc h
    exact ⟨[(x'.1, t)], .first harises, .cons ⟨rfl, hfades⟩ .nil⟩
  | @inner x' y' rest' hpath' hasks' ih =>
    obtain ⟨path, hpath, hall⟩ := ih
    obtain ⟨x, rest, ⟨hsame, hfades⟩, hrest, rfl⟩ := List.forall₂_cons_right_iff.1 hall
    have hdecl := SourceModel.get?_mem (hpath'.arises x' List.mem_cons_self).declared
    have hplanned := (hpath.arises x List.mem_cons_self).planned
    rw [hsame] at hplanned
    obtain ⟨t, hasks, htFades⟩ := (hl.body hc hdecl (.named hfades) hplanned).applied _ _ hasks'
    exact ⟨(y'.1, t) :: x :: rest, .inner hpath (hsame ▸ hasks),
      .cons ⟨rfl, htFades⟩ (.cons ⟨hsame, hfades⟩ hrest)⟩

/-- A run of the smaller scope fails by nothing but names that are missing, and generics that it
lacks. -/
theorem failsBy (hl : scope.Loses scope') (hc : scope.Consistent) :
    scope'.FailsBy fun c => c.kind = .unresolvedReference ∨
      ∃ generic, c = .notGeneric generic ∧ scope'.model.Lacks generic where
  answered p' e hplan' he := by
    obtain ⟨p, -, hsheds⟩ := hl.planned hc hplan'
    exact hsheds.refused e he
  registered := hl.registered
  unknown name _ := .inl rfl
  distinct t t' ht ht' hkind hkind' hname :=
    hc.distinct t t' ((hl.occurs hc ht).resolve_right hkind)
      ((hl.occurs hc ht').resolve_right hkind') hname
  apart t decl ht hdecl hname := by
    rcases hl.occurs hc ht with hoccurs | hkind
    · exact hc.apart t decl hoccurs (hl.declarations hdecl) hname
    · cases t with
      | pending name => exact SourceModel.get?_eq_none.1 ht.unknown.1 _ hdecl hname.symm
      | _ => cases hkind
  shallow path' hpath' hkeys := by
    obtain ⟨path, hpath, hall⟩ := hl.nested hc hpath'
    have hkept : ∀ x ∈ path, .generic x.1 ∈ scope'.model.declarations := by
      intro x hx
      obtain ⟨x', hx', hsame, -⟩ := forall₂_mem_left hall x hx
      rw [hsame]
      exact SourceModel.get?_mem (hpath'.arises x' hx').declared
    have hkeysEq : path'.map Application.key = path.map Application.key :=
      forall₂_map_eq (hall.imp fun x x' hx => by
        rw [Application.key, Application.key, hx.1, hx.2.name])
    rw [← hall.length_eq]
    exact hpath.length_le hc hkept (hkeysEq ▸ hkeys)

end Loses

/-- A name that nothing is known about stands for a pending type. -/
theorem IsUnknown.target {scope : Scope} {name : String} (h : scope.IsUnknown name)
    (tag : Option String) : scope.target name tag = .ok (.pending name) := by
  obtain ⟨hget, hhas, hname⟩ := h
  simp [Scope.target, scalarOf, hget, hhas, hname]

/-- A name without a declaration is that of a scalar, or nothing is known about it. -/
theorem target_of_get?_eq_none {scope : Scope} {name : String} {tag : Option String} {t : Named}
    (hnone : scope.model.get? name = none) (h : scope.target name tag = .ok t) :
    (∃ sc, t = .scalar sc) ∨ t = .pending name := by
  rw [target, hnone] at h
  dsimp only [scalarOf] at h
  split at h
  · rcases hlookup : scope.registry.lookup name tag with c | sc
    · rw [hlookup] at h
      cases h
    · rw [hlookup] at h
      cases h
      exact .inl ⟨sc, rfl⟩
  · rcases hname : scope.registry.byName? name with _ | sc
    · rw [hname] at h
      cases h
      exact .inr rfl
    · rw [hname] at h
      cases h
      exact .inl ⟨sc, rfl⟩

/-- A name with a declaration other than a scalar stands for a type of that name. -/
theorem target_name {scope : Scope} {d : Declaration} {tag : Option String} {t : Named}
    (hget : scope.model.get? d.name = some d) (hscalar : ∀ decl, d ≠ .scalar decl)
    (h : scope.target d.name tag = .ok t) : t.name = d.name := by
  rw [target, hget] at h
  cases d with
  | object decl =>
    cases h
    rfl
  | enum decl =>
    cases h
    rfl
  | generic decl => cases h
  | scalar decl => exact absurd rfl (hscalar decl)

end Scope

def Selection.Drops (s : Selection) (model : SourceModel) (name : String) : Prop :=
  model.contains name = true ∧ s.selects name = false

instance (s : Selection) (model : SourceModel) (name : String) : Decidable (s.Drops model name) :=
  inferInstanceAs (Decidable (_ ∧ _))

namespace SourceModel

/-- The scalars of a model: the builtin ones and those that it declares. -/
def registry (model : SourceModel) : ScalarRegistry :=
  ⟨builtinScalars ++ model.scalars.map ScalarDecl.scalar⟩

def scope (model : SourceModel) : Scope :=
  { model, registry := model.registry }

/-- Whether a declaration names another one where only a declaration can stand behind the name: as
a generic that is applied, or as a type that is no scalar of the model. -/
def Needs (model : SourceModel) (d : Declaration) (name : String) : Prop :=
  ∃ x ∈ d.tagged, name ∈ x.2.applies.map Prod.fst ∨
    name ∈ x.2.refs ∧ ∀ sc, model.scope.target name x.1 ≠ .ok (.scalar sc)

end SourceModel

/-- Whether some of the declarations of an analysis have only lost types. Each of their references
stands for a type of the analysis or for none, and as an argument of a generic for its own or for
none of that name. -/
structure Analysis.OnlyLoses (a : Analysis) (kept : SourceModel) : Prop where
  references : ∀ d ∈ kept.declarations, ∀ x ∈ d.tagged, ∀ name ∈ x.2.refs,
    ∃ t, kept.scope.target name x.1 = .ok t ∧
      (t ∈ a.graph.nodes.map Node.ref ∨ t.kind = .pending)
  arguments : ∀ d ∈ kept.declarations, ∀ x ∈ d.tagged, ∀ y ∈ x.2.applies,
    a.scope.Steady kept.scope x.1 (TypeExpr.allRefs y.2)

namespace SourceModel

variable {model : SourceModel} {a : Analysis} {keep : String → Bool}

theorem get?_filter (model : SourceModel) (keep : String → Bool) (name : String) :
    (model.filter keep).get? name = if keep name then model.get? name else none := by
  rw [get?, get?, filter, List.find?_filter]
  by_cases hkeep : keep name = true
  · rw [if_pos hkeep]
    congr 1
    funext d
    by_cases hname : d.name = name <;> simp [hname, hkeep]
  · rw [if_neg hkeep, List.find?_eq_none]
    intro d _ hd
    simp only [decide_eq_true_eq] at hd
    exact hkeep (hd.2 ▸ hd.1)

theorem scope_of_analyze (h : model.analyze = .ok a) : a.scope = model.scope := by
  obtain ⟨rfl, hregistry, -, -⟩ := analyze_eq_ok.1 h
  have heq : a.registry = a.model.registry := by
    rw [registry, ← (ScalarRegistry.ofModel_eq_ok hregistry).2]
  rw [Analysis.scope, scope, heq]

theorem scalars_filter_sublist (model : SourceModel) (keep : String → Bool) :
    (model.filter keep).scalars.Sublist model.scalars :=
  List.Sublist.filterMap _ List.filter_sublist

/-- The scalars that are left can be registered. -/
theorem ofModel_filter (h : model.analyze = .ok a) (keep : String → Bool) :
    ScalarRegistry.ofModel (model.filter keep) = .ok (model.filter keep).registry :=
  ScalarRegistry.registerAll_fewer (model.scalars_filter_sublist keep) (fun _ hs => hs)
    (analyze_eq_ok.1 h).2.1

theorem analyze_of_resolve_error (hregistry : ScalarRegistry.ofModel model = .ok model.registry)
    {e : CompileError} {s : Resolution} (h : model.scope.resolve {} = (.error e, s)) :
    model.analyze = .error e := by
  rw [analyze, hregistry]
  show Analysis.ofRun model.scope (model.scope.resolve {}) = .error e
  rw [h]
  rfl

/-- A model is not resolved if one of its declarations needs a name that it does not declare. -/
theorem resolve_ne_ok {d : Declaration} (hd : d ∈ model.declarations) {name : String}
    (hnone : model.get? name = none) (hneeds : model.Needs d name) (s : Resolution) :
    model.scope.resolve {} ≠ (.ok (), s) := by
  intro hrun
  have hcomplete := Scope.complete_of_resolve hrun
  obtain ⟨x, hx, hname | ⟨hname, hscalar⟩⟩ := hneeds
  · obtain ⟨y, hy, rfl⟩ := List.mem_map.1 hname
    obtain ⟨decl, hdecl⟩ := (hcomplete.finds hd x hx).applies y hy
    rw [show model.scope.model.get? y.1 = none from hnone] at hdecl
    cases hdecl
  · obtain ⟨t, ht, hheld⟩ := (hcomplete.finds hd x hx).refs name hname
    rcases Scope.target_of_get?_eq_none hnone ht with ⟨sc, rfl⟩ | rfl
    · exact hscalar sc ht
    · obtain ⟨node, hnode, href⟩ := hcomplete.holds_iff.1 hheld
      cases node with
      | pending n site => exact absurd (hcomplete.filled _ hnode) Bool.false_ne_true
      | _ => cases href

theorem loses_filter (h : model.analyze = .ok a) (hl : a.OnlyLoses (model.filter keep)) :
    a.scope.Loses (model.filter keep).scope := by
  obtain ⟨hmodel, hregistry, -, -⟩ := analyze_eq_ok.1 h
  obtain ⟨hunambiguous, hscalars⟩ := ScalarRegistry.ofModel_eq_ok hregistry
  have hsubset : (model.filter keep).registry.scalars ⊆ a.registry.scalars := by
    rw [hscalars]
    exact List.append_subset.2 ⟨List.subset_append_left _ _, List.subset_append_of_subset_right _
      ((model.scalars_filter_sublist keep).map ScalarDecl.scalar).subset⟩
  refine ⟨fun d hd => ?_, fun name => ?_, fun name s hs => ?_, fun decl hdecl => ?_,
    fun d hd x hx => ?_⟩
  · rw [Analysis.scope, hmodel]
    exact List.mem_of_mem_filter hd
  · show (model.filter keep).get? name = none ∨ (model.filter keep).get? name = a.model.get? name
    rw [get?_filter, hmodel]
    by_cases hkeep : keep name = true
    · exact .inr (if_pos hkeep)
    · exact .inl (if_neg hkeep)
  · rw [← ScalarRegistry.byName?_name hs]
    exact hunambiguous.byName?_of_mem (hsubset (ScalarRegistry.byName?_mem hs))
  · have hmem : decl ∈ (model.filter keep).scalars := List.mem_filterMap.2 ⟨_, hdecl, rfl⟩
    have hscalar : decl.scalar ∈ (model.filter keep).registry.scalars :=
      List.mem_append_right _ (List.mem_map_of_mem hmem)
    exact Option.ne_none_iff_exists'.1 (ScalarRegistry.byName?_ne_none hscalar)
  · refine ⟨fun name hname => ?_, hl.arguments d hd x hx, fun y hy hopen hnone =>
      ⟨hnone, d, hd, x, hx, y, hy, rfl, hopen⟩⟩
    obtain ⟨t, ht, htype⟩ := hl.references d hd x hx name hname
    exact ⟨t, ht, htype.imp_left fun hnode => within_of_analyze h t (.inl hnode)⟩

/-- Where a declaration that is kept needs one that is left out, the selected model is not analyzed.
As long as the selection only loses types the error is an unresolved reference, or a generic that is
applied to a type parameter is lacking and is said to be none. -/
theorem analyze_filter_error {sel : Selection} {d : Declaration} {name : String}
    (h : model.analyze = .ok a) (hdrops : sel.Drops model name)
    (hd : d ∈ (model.filter sel.selects).declarations)
    (hneeds : (model.filter sel.selects).Needs d name) :
    ∃ e, (model.filter sel.selects).analyze = .error e ∧
      (a.OnlyLoses (model.filter sel.selects) → e.cause.kind = .unresolvedReference ∨
        ∃ generic, e.cause = .notGeneric generic ∧ (model.filter sel.selects).Lacks generic) := by
  have hregistry := ofModel_filter h sel.selects
  have hnone : (model.filter sel.selects).get? name = none := by
    rw [get?_filter, hdrops.2]
    rfl
  rcases hrun : (model.filter sel.selects).scope.resolve {} with ⟨e | u, s⟩
  · refine ⟨e, analyze_of_resolve_error hregistry hrun, fun hl => ?_⟩
    have hfresh : (model.filter sel.selects).OwnersFresh := by
      have hall : a.model.OwnersFresh :=
        Scope.ownersFresh_of_resolve (analyze_eq_ok.1 h).2.2.1
      rw [(analyze_eq_ok.1 h).1] at hall
      exact List.Pairwise.sublist List.filter_sublist hall
    have hends := ((loses_filter h hl).failsBy (consistent_of_analyze h)).resolve hfresh
    rw [hrun] at hends
    cases hends with
    | badly hcause => exact hcause
  · exact absurd hrun (resolve_ne_ok hd hnone hneeds s)

/-- A model keeps its scalars if none of their declarations is left out. -/
theorem registry_filter (hkeep : ∀ decl, .scalar decl ∈ model.declarations → keep decl.name = true) :
    (model.filter keep).registry = model.registry := by
  have hscalars : (model.filter keep).scalars = model.scalars := by
    rw [scalars, scalars, filter, List.filterMap_filter]
    refine List.filterMap_congr fun d hd => ?_
    cases d with
    | scalar decl => exact if_pos (hkeep decl hd)
    | _ => split <;> rfl
  rw [registry, registry, hscalars]

/-- Whether no name that is left out is that of a scalar. -/
def KeepsScalars (model : SourceModel) (keep : String → Bool) : Prop :=
  ∀ d ∈ model.declarations, keep d.name = false →
    ∀ s ∈ model.registry.scalars, s.name ≠ d.name ∧ s.internalType ≠ d.name

instance (model : SourceModel) (keep : String → Bool) : Decidable (model.KeepsScalars keep) :=
  inferInstanceAs (Decidable (∀ d ∈ model.declarations, keep d.name = false → _))

/-- A name stands for what it stood for, or its declaration was left out. -/
theorem target_filter (hscalars : model.KeepsScalars keep) {name : String} {tag : Option String}
    {t : Named} (h : model.scope.target name tag = .ok t) :
    (model.filter keep).scope.target name tag = .ok t ∨
      (model.filter keep).scope.target name tag = .ok (.pending name) ∧ t.name = name := by
  have hkeep : ∀ decl, .scalar decl ∈ model.declarations → keep decl.name = true := by
    intro decl hdecl
    by_contra hdrop
    have hmem : decl.scalar ∈ model.registry.scalars :=
      List.mem_append_right _ (List.mem_map_of_mem (List.mem_filterMap.2 ⟨_, hdecl, rfl⟩))
    exact (hscalars _ hdecl (eq_false_of_ne_true hdrop) _ hmem).1 rfl
  have hregistry := registry_filter hkeep
  have hget := model.get?_filter keep name
  have hsame (hgetSame : (model.filter keep).get? name = model.get? name) :
      (model.filter keep).scope.target name tag = .ok t := by
    rw [← h]
    simp only [Scope.target, Scope.scalarOf, scope, hgetSame, hregistry]
    rfl
  by_cases hname : keep name = true
  · exact .inl (hsame (hget.trans (if_pos hname)))
  · rw [if_neg hname] at hget
    rcases hmodel : model.get? name with _ | d
    · exact .inl (hsame (hget.trans hmodel.symm))
    · obtain rfl := get?_name hmodel
      have hfree := hscalars d (get?_mem hmodel) (eq_false_of_ne_true hname)
      have hhas : model.registry.has d.name = false := by
        rw [ScalarRegistry.has, List.any_eq_false]
        exact fun s hs heq => (hfree s hs).2 (of_decide_eq_true heq)
      have hbyName : model.registry.byName? d.name = none := by
        rw [ScalarRegistry.byName?, List.find?_eq_none]
        exact fun s hs heq => (hfree s hs).1 (of_decide_eq_true heq)
      have hunknown : (model.filter keep).scope.IsUnknown d.name := by
        refine ⟨hget, ?_, ?_⟩ <;> rwa [scope, hregistry]
      refine .inr ⟨hunknown.target tag, Scope.target_name hmodel (fun decl heq => ?_) h⟩
      subst heq
      exact hname (hkeep decl (get?_mem hmodel))

/-- A selection only loses types if no name that it leaves out is that of a scalar. -/
theorem onlyLoses_of_apart (h : model.analyze = .ok a) (hscalars : model.KeepsScalars keep) :
    a.OnlyLoses (model.filter keep) := by
  have hscope := scope_of_analyze h
  refine ⟨fun d hd x hx name hname => ?_, fun d hd x hx y hy name hname t ht => ?_⟩
  · have hmem : d ∈ a.scope.model.declarations := by
      rw [hscope]
      exact List.mem_of_mem_filter hd
    obtain ⟨t, ht, hheld⟩ := ((complete_of_analyze h).finds hmem x hx).refs name hname
    rw [hscope] at ht
    rcases target_filter hscalars ht with ht' | ⟨ht', -⟩
    · exact ⟨t, ht', .inl (List.mem_map.2 ((complete_of_analyze h).holds_iff.1 hheld))⟩
    · exact ⟨_, ht', .inr rfl⟩
  · rw [hscope] at ht
    rcases target_filter hscalars ht with ht' | ⟨ht', rfl⟩
    · exact ⟨t, ht', .inl rfl⟩
    · exact ⟨_, ht', .inr rfl⟩

end SourceModel

/-- A user with a role, which is kept in a box as well. -/
def userDecl : Declaration := .object {
  name := "User"
  fields := [
    { owner := "User", name := "name", type := some (.ref "string") },
    { owner := "User", name := "box", type := some (.apply "Box" [.ref "Role"]) },
    { owner := "User", name := "role", type := some (.ref "Role") }] }

def roleModel : SourceModel where
  unit := "roles"
  declarations := [
    .enum { name := "Role", members := [{ name := "ADMIN", value := .text "admin" }] },
    .generic { name := "Box", parameter := "T", fields := [
      { owner := "Box", name := "value", type := some (.param "T") }] },
    userDecl]

def exceptRole : Selection where
  excluded := ["Role"]

def rolelessModel : SourceModel :=
  roleModel.filter exceptRole.selects

theorem rolelessModel_refused : ∃ a d e, roleModel.analyze = .ok a ∧
    exceptRole.Drops roleModel "Role" ∧ d ∈ rolelessModel.declarations ∧
    rolelessModel.Needs d "Role" ∧ a.OnlyLoses rolelessModel ∧
    rolelessModel.analyze = .error e ∧ e.cause.kind = .unresolvedReference := by
  obtain ⟨a, ha⟩ : ∃ a, roleModel.analyze = .ok a := by
    have hrun : roleModel.analyze.toOption.isSome = true := by decide +kernel
    exact (Option.isSome_iff_exists.1 hrun).imp fun _ => except_toOption_eq_some.1
  have hdrops : exceptRole.Drops roleModel "Role" := by decide +kernel
  have hkept : userDecl ∈ rolelessModel.declarations :=
    List.mem_filter.2 ⟨by simp [roleModel], by decide +kernel⟩
  have hneeds : rolelessModel.Needs userDecl "Role" := by
    have hmem : (none, .ref "Role") ∈ userDecl.tagged := by
      simp [userDecl, Declaration.tagged, Declaration.fields, FieldDescriptor.tagged]
    have htarget : rolelessModel.scope.target "Role" none = .ok (.pending "Role") := rfl
    refine ⟨_, hmem, .inr ⟨List.mem_singleton_self _, fun sc h => ?_⟩⟩
    rw [htarget] at h
    cases h
  have hloses : a.OnlyLoses rolelessModel :=
    SourceModel.onlyLoses_of_apart ha (by decide +kernel)
  have happlied : ∀ d ∈ rolelessModel.declarations, ∀ x ∈ d.tagged, ∀ y ∈ x.2.applies,
      TypeExpr.anyUsesParam y.2 = false := by
    decide +kernel
  obtain ⟨e, he, hcause⟩ := SourceModel.analyze_filter_error ha hdrops hkept hneeds
  refine ⟨a, userDecl, e, ha, hdrops, hkept, hneeds, hloses, he, (hcause hloses).resolve_right ?_⟩
  rintro ⟨generic, -, -, d, hd, x, hx, y, hy, -, hopen⟩
  rw [happlied d hd x hx y hy] at hopen
  cases hopen

namespace SourceModel

/-- The kind of error that a model is refused with, none if it is analyzed. -/
def refusal (model : SourceModel) : Option ErrorKind :=
  match model.analyze with
  | .ok _ => none
  | .error e => some e.cause.kind

/-- Whether a model is analyzed, and a selection leaves a declaration in it that mentions one that is
left out. -/
def SeveredBy (model : SourceModel) (s : Selection) : Prop :=
  model.refusal = none ∧ ∃ d ∈ (model.filter s.selects).declarations,
    ∃ d' ∈ model.declarations, s.Drops model d'.name ∧ d.Mentions d'.name

instance (model : SourceModel) (s : Selection) : Decidable (model.SeveredBy s) :=
  inferInstanceAs (Decidable (_ ∧ ∃ d ∈ (model.filter s.selects).declarations,
    ∃ d' ∈ model.declarations, s.Drops model d'.name ∧ d.Mentions d'.name))

end SourceModel

/-- A model with an enum that is called like the internal type of a scalar. -/
def stringModel : SourceModel where
  unit := "strings"
  declarations := [
    .enum { name := "string", members := [{ name := "A", value := .text "a" }] },
    .object { name := "User", fields := [
      { owner := "User", name := "name", type := some (.ref "string") }] }]

/-- A model with a scalar that shares its internal type with others. -/
def moneyModel : SourceModel where
  unit := "money"
  declarations := [
    .scalar { name := "Money", internalType := "number", tag := some "Money" },
    .object { name := "Order", fields := [
      { owner := "Order", name := "net", type := some (.ref "number"), tag := some "Money" },
      { owner := "Order", name := "gross", type := some (.ref "Money") }] }]

/-- A model with a scalar whose internal type, in a generic, stands for a longer name. -/
def dateModel : SourceModel where
  unit := "dates"
  declarations := [
    .scalar { name := "Date", internalType := "date" },
    .generic { name := "Box", parameter := "T", fields := [
      { owner := "Box", name := "value", type := some (.param "T") }] },
    .object { name := "dateBox", fields := [
      { owner := "dateBox", name := "label", type := some (.ref "string") }] },
    .object { name := "User", fields := [
      { owner := "User", name := "joined", type := some (.apply "Box" [.ref "date"]) },
      { owner := "User", name := "left", type := some (.ref "Date") }] }]

/-- A model with an instantiation that goes by the name of a scalar. -/
def ringModel : SourceModel where
  unit := "rings"
  declarations := [
    .enum { name := "string", members := [{ name := "A", value := .text "a" }] },
    .enum { name := "Role", members := [{ name := "ADMIN", value := .text "admin" }] },
    .generic { name := "ring", parameter := "T", fields := [
      { owner := "ring", name := "value", type := some (.param "T") }] },
    .object { name := "St", fields := [
      { owner := "St", name := "ok", type := some (.ref "boolean") }] },
    .object { name := "User", fields := [
      { owner := "User", name := "ring", type := some (.apply "ring" [.ref "St"]) },
      { owner := "User", name := "name", type := some (.ref "string") },
      { owner := "User", name := "role", type := some (.ref "Role") }] }]

/-- A model with a generic that is applied inside another one. -/
def edgeModel : SourceModel where
  unit := "edges"
  declarations := [
    .generic { name := "Edge", parameter := "T", fields := [
      { owner := "Edge", name := "node", type := some (.param "T") }] },
    .generic { name := "Connection", parameter := "T", fields := [
      { owner := "Connection", name := "edges",
        type := some (.list (.apply "Edge" [.param "T"])) }] },
    .object { name := "User", fields := [
      { owner := "User", name := "friends", type := some (.apply "Connection" [.ref "User"]) }] }]

/-- A generic that is applied to a type parameter is missed as one of the wrong arity. Besides, a
scalar may stand in for what is left out, a tag may find no scalar any more, and an instantiation
may come to clash with another type. -/
theorem severed_not_always_unresolved :
    (edgeModel.SeveredBy { excluded := ["Edge"] } ∧
      (edgeModel.filter (Selection.selects { excluded := ["Edge"] })).refusal =
        some .genericArity) ∧
    (stringModel.SeveredBy { excluded := ["string"] } ∧
      (stringModel.filter (Selection.selects { excluded := ["string"] })).refusal = none) ∧
    (moneyModel.SeveredBy { excluded := ["Money"] } ∧
      (moneyModel.filter (Selection.selects { excluded := ["Money"] })).refusal =
        some .unknownScalar) ∧
    (dateModel.SeveredBy { excluded := ["Date"] } ∧
      (dateModel.filter (Selection.selects { excluded := ["Date"] })).refusal =
        some .resolutionConflict) ∧
    (ringModel.SeveredBy { excluded := ["string", "Role"] } ∧
      (ringModel.filter (Selection.selects { excluded := ["string", "Role"] })).refusal =
        some .resolutionConflict) := by
  decide +kernel

end SchemaCompiler
