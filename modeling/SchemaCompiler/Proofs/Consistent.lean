import SchemaCompiler.Proofs.References

/-! When a model can be analyzed. All plans of a run can be told without running: those of the
declarations, and those of the bodies that they ask for. A model is consistent if these plans have
answers and the types that occur in them go by different names; nothing of this depends on the order
of the declarations. What an analysis leaves behind shows that its model is consistent. -/

namespace SchemaCompiler

namespace Scope

/-- Whether each field can be bound to a resolver. -/
def Bindable (fields : List GraphField) : Prop :=
  ∀ f ∈ fields, f.type.isSome = true ∧ ∃ as, f.arguments.mapM bindArgument = .ok as

theorem exists_bindFields {owner : String} {fields : List GraphField} :
    (∃ bs, bindFields owner fields = .ok bs) ↔ Bindable fields := by
  constructor
  · rintro ⟨bs, h⟩ f hf
    obtain ⟨b, -, hb⟩ := forall₂_mem_left (mapM_eq_ok.1 h) f hf
    obtain ⟨htype, as, has, -⟩ := Bindings.bindField_eq_ok.1 hb
    exact ⟨htype, as, has⟩
  · intro h
    refine (exists_forall₂ fun f hf => ?_).imp fun _ => mapM_eq_ok.2
    obtain ⟨htype, as, has⟩ := h f hf
    exact ⟨_, Bindings.bindField_eq_ok.2 ⟨htype, as, has, rfl⟩⟩

/-- The plans of a run: those of the declarations, and the bodies that a plan asks for. -/
inductive Planned (scope : Scope) : Plan (List GraphField) → Prop
  | object {decl : ObjectDecl} (h : .object decl ∈ scope.model.declarations) :
      Planned scope (scope.planObject decl)
  | generic {decl : GenericDecl} (h : .generic decl ∈ scope.model.declarations) :
      Planned scope (scope.planTemplate decl)
  | body {plan : Plan (List GraphField)} {decl : GenericDecl} {argument : Named}
      (h : Planned scope plan) (hasks : plan.Asks (.apply decl argument)) :
      Planned scope (scope.planBody decl (.named argument))

inductive Occurs (scope : Scope) : Named → Prop
  | object {decl : ObjectDecl} (h : .object decl ∈ scope.model.declarations) :
      Occurs scope (.object decl.name)
  | enum {decl : EnumDecl} (h : .enum decl ∈ scope.model.declarations) :
      Occurs scope (.enum decl.name)
  | scalar {decl : ScalarDecl} {s : Scalar} (h : .scalar decl ∈ scope.model.declarations)
      (hs : scope.registry.byName? decl.name = some s) : Occurs scope (.scalar s)
  | entered {plan : Plan (List GraphField)} {type : Named} (h : Planned scope plan)
      (hasks : plan.Asks (.enter type)) : Occurs scope type
  | applied {plan : Plan (List GraphField)} {decl : GenericDecl} {argument : Named}
      (h : Planned scope plan) (hasks : plan.Asks (.apply decl argument)) :
      Occurs scope (.instantiation ⟨decl.name, argument.name⟩)

def Arises (scope : Scope) (decl : GenericDecl) (argument : Named) : Prop :=
  ∃ plan, scope.Planned plan ∧ plan.Asks (.apply decl argument)

/-- What makes an analysis of the declarations go through, in whichever order. -/
structure Consistent (scope : Scope) : Prop where
  answered : ∀ plan, scope.Planned plan → ∃ fields, plan.outcome = .ok fields ∧ Bindable fields
  registered : ∀ decl, .scalar decl ∈ scope.model.declarations →
    ∃ s, scope.registry.byName? decl.name = some s
  known : ∀ name, ¬ scope.Occurs (.pending name)
  distinct : ∀ t t', scope.Occurs t → scope.Occurs t' → t.name = t'.name → t = t'
  apart : ∀ t decl, scope.Occurs t → .generic decl ∈ scope.model.declarations → t.name ≠ decl.name
  bounded : ∃ n, ∀ decl argument, scope.Arises decl argument → argument.name.length ≤ n

def Grounded (scope : Scope) : Request → Prop
  | .enter type => scope.IsTarget type
  | .apply decl _ => scope.model.get? decl.name = some (.generic decl)

variable {α : Type} {scope : Scope} {s : Resolution}

theorem Ordered.grounded {known : Named → Prop} {rs : List (Site × Request)}
    (h : scope.Ordered known rs) : ∀ r ∈ rs, scope.Grounded r.2 := by
  induction rs generalizing known with
  | nil => exact fun _ hr => nomatch hr
  | cons first rest ih =>
    rcases first with ⟨site, request⟩
    refine List.forall_mem_cons.2 ⟨?_, ih h.2⟩
    cases request with
    | enter type => exact h.1
    | apply decl argument => exact h.1.1

/-- The requests of the plan for a declaration's fields, whatever is known before. -/
theorem planFields_grounded (scope : Scope) (owner : String) (env : Environment)
    (ds : List FieldDescriptor) :
    ∀ r ∈ (scope.planFields owner env ds).requests, scope.Grounded r.2 := by
  have hcareful : scope.Careful (fun _ => True) (scope.planFields owner env ds)
      TypeGraph.references := planFields_careful scope (fun _ _ _ _ _ => trivial) owner ds
  exact hcareful.ordered.grounded

theorem Planned.eq_planFields {plan : Plan (List GraphField)} (h : scope.Planned plan) :
    ∃ owner env ds, plan = scope.planFields owner env ds := by
  cases h with
  | object h => exact ⟨_, _, _, rfl⟩
  | generic h => exact ⟨_, _, _, rfl⟩
  | body h hasks => exact ⟨_, _, _, rfl⟩

theorem Planned.grounded {plan : Plan (List GraphField)} (h : scope.Planned plan) {r : Request}
    (hr : plan.Asks r) : scope.Grounded r := by
  obtain ⟨owner, env, ds, rfl⟩ := h.eq_planFields
  obtain ⟨site, hsite⟩ := hr
  exact planFields_grounded scope owner env ds _ hsite

/-- Nothing is known about a name that is left pending. -/
theorem Occurs.unknown {name : String} (h : scope.Occurs (.pending name)) :
    scope.IsUnknown name := by
  cases h with
  | entered hplan hasks => exact hplan.grounded hasks

namespace Complete

/-- All plans of a run have been carried out at its end. -/
theorem planned (h : scope.Complete s) {plan : Plan (List GraphField)} (hplan : scope.Planned plan) :
    ∃ owner fields, (owner, fields) ∈ s.graph.owners ∧ Resolved s plan fields := by
  induction hplan with
  | object hdecl =>
    obtain ⟨t, ht, -, -, hfields⟩ := h.entered _ hdecl
    exact ⟨_, t.fields, List.mem_append_left _ (List.mem_map_of_mem ht), hfields⟩
  | generic hdecl =>
    obtain ⟨t, ht, hsound⟩ := h.template hdecl
    exact ⟨_, t.fields, List.mem_append_right _ (List.mem_map_of_mem ht), hsound.body⟩
  | @body plan decl argument hplan hasks ih =>
    obtain ⟨owner, fields, -, hresolved⟩ := ih
    obtain ⟨site, hsite⟩ := hasks
    obtain ⟨hargument, hheld⟩ := hresolved.met _ hsite
    obtain ⟨node, hnode, href⟩ := h.holds_iff.1 hheld
    cases node with
    | instantiation i =>
      obtain ⟨hmemo, hfilled⟩ := h.sound.nodes _ hnode
      obtain ⟨decl', hentry⟩ := h.sound.memo i hmemo
      obtain ⟨hname, hargumentName⟩ := InstanceKey.mk.inj
        (hentry.key.symm.trans (Named.instantiation.inj href))
      have hdecl : decl' = decl := by
        have hget := hplan.grounded ⟨site, hsite⟩
        rw [Grounded, ← hname, hentry.declared] at hget
        exact Declaration.generic.inj (Option.some.inj hget)
      have hsame := h.holds_inj hentry.argument hargument hargumentName
      rw [← hdecl, ← hsame]
      exact ⟨_, i.fields, List.mem_append_left _ (List.mem_map_of_mem hnode), hentry.body hfilled⟩
    | _ => cases href

theorem holds_of_occurs (h : scope.Complete s) {t : Named} (ht : scope.Occurs t) : s.Holds t := by
  cases ht with
  | object hdecl =>
    obtain ⟨o, ho, hname, -⟩ := h.entered _ hdecl
    exact Resolution.holds_object.2 ⟨o, ho, hname⟩
  | enum hdecl =>
    obtain ⟨e, he, hname, -⟩ := h.entered _ hdecl
    exact Resolution.holds_enum.2 ⟨e, he, hname⟩
  | scalar hdecl hs =>
    obtain ⟨sc, hsc, hheld⟩ := h.entered _ hdecl
    rw [hs] at hsc
    cases hsc
    exact hheld
  | entered hplan hasks =>
    obtain ⟨owner, fields, -, hresolved⟩ := h.planned hplan
    obtain ⟨site, hsite⟩ := hasks
    exact hresolved.met _ hsite
  | applied hplan hasks =>
    obtain ⟨owner, fields, -, hresolved⟩ := h.planned hplan
    obtain ⟨site, hsite⟩ := hasks
    exact (hresolved.met _ hsite).2

theorem exists_bound (f : α → Nat) (as : List α) : ∃ n, ∀ a ∈ as, f a ≤ n := by
  induction as with
  | nil => exact ⟨0, fun _ ha => nomatch ha⟩
  | cons a rest ih =>
    obtain ⟨n, hn⟩ := ih
    exact ⟨max (f a) n, List.forall_mem_cons.2 ⟨Nat.le_max_left _ _, fun x hx =>
      Nat.le_trans (hn x hx) (Nat.le_max_right _ _)⟩⟩

/-- An argument of a generic is as long as one that was begun. -/
theorem bounded (h : scope.Complete s) :
    ∃ n, ∀ decl argument, scope.Arises decl argument → argument.name.length ≤ n := by
  obtain ⟨n, hn⟩ := exists_bound (fun i : Instantiation => i.key.argument.length) s.memo
  refine ⟨n, fun decl argument harises => ?_⟩
  obtain ⟨plan, hplan, hasks⟩ := harises
  obtain ⟨node, hnode, href⟩ := h.holds_iff.1 (h.holds_of_occurs (.applied hplan hasks))
  cases node with
  | instantiation i =>
    have hkey : i.key = ⟨decl.name, argument.name⟩ := Named.instantiation.inj href
    simpa only [hkey] using hn i (h.sound.nodes _ hnode).1
  | _ => cases href

/-- A model that has been analyzed is consistent. -/
theorem consistent (h : scope.Complete s)
    (hbind : ∀ owner ∈ s.graph.owners, ∃ bs, bindFields owner.1 owner.2 = .ok bs) :
    scope.Consistent where
  answered plan hplan := by
    obtain ⟨owner, fields, howner, hresolved⟩ := h.planned hplan
    exact ⟨fields, hresolved.outcome, exists_bindFields.1 (hbind _ howner)⟩
  registered decl hdecl := by
    obtain ⟨sc, hsc, -⟩ := h.entered _ hdecl
    exact ⟨sc, hsc⟩
  known name hoccurs := by
    obtain ⟨node, hnode, href⟩ := h.holds_iff.1 (h.holds_of_occurs hoccurs)
    cases node with
    | pending n site => exact absurd (h.filled _ hnode) Bool.false_ne_true
    | _ => cases href
  distinct t t' ht ht' hname := h.holds_inj (h.holds_of_occurs ht) (h.holds_of_occurs ht') hname
  apart t decl ht hdecl hname := by
    obtain ⟨node, hnode, rfl⟩ := h.holds_iff.1 (h.holds_of_occurs ht)
    obtain ⟨template, htemplate, hsound⟩ := h.template hdecl
    refine (List.nodup_append.1 h.sound.names).2.2 node.name (List.mem_map_of_mem hnode)
      template.name (List.mem_map_of_mem htemplate) ?_
    rw [hsound.name]
    exact hname
  bounded := h.bounded

end Complete

end Scope

end SchemaCompiler
