import SchemaCompiler.Proofs.Consistent

/-! How deep instantiations lie inside one another. Where a body applies a generic without its type
parameter, it does so for every argument alike, so the number of such steps is that of the
applications that are written. Any other step lengthens the argument by generics' names, the same for
every argument; if it led back to the same generic, it could be repeated without end, and the
arguments of a run would have no bound. So between two steps of the first kind each generic comes up
once. Only the generics in the nest are counted, so that the bound also holds for a model that
declares these and leaves others out. -/

namespace SchemaCompiler

namespace TypeNode

/-- What the filling of an open type adds to the name of the type that is filled in. -/
def suffix : TypeNode → String
  | .applied generic argument => argument.suffix ++ generic
  | _ => ""

theorem filling_name (type : Named) (t : TypeNode) :
    (t.filling type).name = type.name ++ t.suffix := by
  induction t with
  | applied generic argument ih =>
    rw [filling, suffix, Named.name, InstanceKey.name, instanceName, instanceName,
      ← String.append_assoc, ← ih]
  | _ => exact (String.append_empty).symm

end TypeNode

namespace Scope

variable {scope : Scope}

abbrev Application := GenericDecl × Named

def Application.key (x : Application) : InstanceKey :=
  ⟨x.1.name, x.2.name⟩

/-- Whether each application is asked for by the body of the one after it; the last one comes from
any plan. -/
inductive Nested (scope : Scope) : List Application → Prop
  | first {x : Application} (h : scope.Arises x.1 x.2) : Nested scope [x]
  | inner {x y : Application} {rest : List Application} (h : Nested scope (x :: rest))
      (hasks : (scope.planBody x.1 (.named x.2)).Asks (.apply y.1 y.2)) :
      Nested scope (y :: x :: rest)

theorem Arises.body {x y : Application} (h : scope.Arises x.1 x.2)
    (hasks : (scope.planBody x.1 (.named x.2)).Asks (.apply y.1 y.2)) : scope.Arises y.1 y.2 := by
  obtain ⟨plan, hplan, hasks'⟩ := h
  exact ⟨_, hplan.body hasks', hasks⟩

theorem Nested.arises {path : List Application} (h : scope.Nested path) :
    ∀ x ∈ path, scope.Arises x.1 x.2 := by
  induction h with
  | first h => simpa using h
  | inner h hasks ih =>
    refine List.forall_mem_cons.2 ⟨?_, ih⟩
    exact (ih _ List.mem_cons_self).body hasks

/-- Whether a generic leads from one application to another by the same addition to the argument's
name for every argument. -/
structure Leads (scope : Scope) (x y : Application) (suffix : String) : Prop where
  name : y.2.name = x.2.name ++ suffix
  all : ∀ t, scope.Arises x.1 t → ∃ u, scope.Arises y.1 u ∧ u.name = t.name ++ suffix

theorem Leads.refl (scope : Scope) (x : Application) : scope.Leads x x "" :=
  ⟨String.append_empty.symm, fun t ht => ⟨t, ht, String.append_empty.symm⟩⟩

theorem Leads.trans {x y z : Application} {a b : String} (h₁ : scope.Leads x y a)
    (h₂ : scope.Leads y z b) : scope.Leads x z (a ++ b) := by
  refine ⟨by rw [h₂.name, h₁.name, String.append_assoc], fun t ht => ?_⟩
  obtain ⟨u, hu, huName⟩ := h₁.all t ht
  obtain ⟨v, hv, hvName⟩ := h₂.all u hu
  exact ⟨v, hv, by rw [hvName, huName, String.append_assoc]⟩

/-- A generic that led back to itself with a longer argument would do so without end. -/
theorem Leads.eq_empty {x y : Application} {suffix : String} (h : scope.Leads x y suffix)
    (hc : scope.Consistent) (hx : scope.Arises x.1 x.2) (hsame : x.1 = y.1) : suffix = "" := by
  by_contra hne
  have hlength : 0 < suffix.length := by
    rcases Nat.eq_zero_or_pos suffix.length with hzero | hpos
    · exact absurd (String.length_eq_zero_iff.1 hzero) hne
    · exact hpos
  have hlong : ∀ n, ∃ t, scope.Arises x.1 t ∧ n ≤ t.name.length := by
    intro n
    induction n with
    | zero => exact ⟨x.2, hx, Nat.zero_le _⟩
    | succ n ih =>
      obtain ⟨t, ht, hn⟩ := ih
      obtain ⟨u, hu, hname⟩ := h.all t ht
      refine ⟨u, hsame ▸ hu, ?_⟩
      rw [hname, String.length_append]
      omega
  obtain ⟨n, hn⟩ := hc.bounded
  obtain ⟨t, ht, hlonger⟩ := hlong (n + 1)
  have := hn x.1 t ht
  omega

def applied {α : Type} (p : Plan α) : List Application :=
  p.requests.filterMap fun r => match r.2 with
    | .apply decl argument => some (decl, argument)
    | .enter _ => none

theorem mem_applied {α : Type} {p : Plan α} {x : Application} :
    x ∈ applied p ↔ p.Asks (.apply x.1 x.2) := by
  rw [applied, List.mem_filterMap]
  constructor
  · rintro ⟨⟨site, request⟩, hr, hx⟩
    cases request with
    | enter t => cases hx
    | apply decl argument => cases hx; exact ⟨site, hr⟩
  · rintro ⟨site, hr⟩
    exact ⟨_, hr, rfl⟩

theorem applied_bind_le {α β : Type} {p : Plan α} {f : α → Plan β} {m n : Nat}
    (hp : (applied p).length ≤ m) (hf : ∀ a, (applied (f a)).length ≤ n) :
    (applied (p >>= f)).length ≤ m + n := by
  rcases h : p.outcome with e | a
  · rw [Plan.bind_error h]
    exact Nat.le_trans hp (Nat.le_add_right _ _)
  · rw [Plan.bind_ok h, applied, List.filterMap_append, List.length_append]
    exact Nat.add_le_add hp (hf a)

theorem applied_bind_pure_le {α β : Type} {p : Plan α} {f : α → β} {m : Nat}
    (hp : (applied p).length ≤ m) : (applied (p >>= fun a => pure (f a))).length ≤ m :=
  applied_bind_le (n := 0) hp fun _ => Nat.le_refl 0

theorem planApply_applied_le (generic : String) (types : List TypeNode) :
    (applied (scope.planApply generic types)).length ≤ 1 := by
  unfold planApply
  split
  · split <;> exact Nat.zero_le 1
  · split
    · exact Nat.zero_le 1
    · split
      · exact Nat.le_refl 1
      · exact Nat.zero_le 1
      · exact Nat.zero_le 1
    · exact Nat.zero_le 1

theorem planNamed_applied_le (name : String) (tag : Option String) :
    (applied (scope.planNamed name tag)).length ≤ 0 := by
  unfold planNamed
  split <;> exact Nat.le_refl 0

open TypeExpr

mutual

theorem planExpr_applied_le (tag : Option String) (env : Environment) :
    ∀ (e : TypeExpr) (required : Bool),
      (applied (scope.planExpr tag env required e)).length ≤ e.applications
  | .nullable inner, required => by
    rw [planExpr, applications]
    exact planExpr_applied_le tag env inner false
  | .list element, required => by
    rw [planExpr, applications]
    exact applied_bind_pure_le (planExpr_applied_le tag env element true)
  | .param name, required => by
    rw [planExpr, applications]
    split <;> exact Nat.le_refl 0
  | .apply generic arguments, required => by
    rw [planExpr, applications]
    exact applied_bind_le (planArguments_applied_le tag env arguments) fun types =>
      applied_bind_pure_le (planApply_applied_le generic types)
  | .ref name, required => by
    rw [planExpr, applications]
    exact applied_bind_pure_le (planNamed_applied_le name tag)

theorem planArguments_applied_le (tag : Option String) (env : Environment) :
    ∀ es : List TypeExpr,
      (applied (scope.planArguments tag env es)).length ≤ allApplications es
  | [] => by
    rw [planArguments, allApplications]
    exact Nat.le_refl 0
  | e :: rest => by
    rw [planArguments, allApplications]
    exact applied_bind_le (planExpr_applied_le tag env e false) fun _ =>
      applied_bind_pure_le (planArguments_applied_le tag env rest)

end

theorem planFieldArguments_applied_le (env : Environment) (as : List ArgumentDescriptor) :
    (applied (scope.planFieldArguments env as)).length ≤ allApplications (as.map (·.type)) := by
  induction as with
  | nil => exact Nat.le_refl 0
  | cons a rest ih =>
    rw [planFieldArguments, List.map_cons, allApplications]
    exact applied_bind_le (planExpr_applied_le a.tag env a.type true) fun _ =>
      applied_bind_pure_le ih

theorem allApplications_append (es es' : List TypeExpr) :
    allApplications (es ++ es') = allApplications es + allApplications es' := by
  induction es with
  | nil => simp [allApplications]
  | cons e rest ih => simp only [List.cons_append, allApplications, ih, Nat.add_assoc]

theorem planField_applied_le (env : Environment) (d : FieldDescriptor) :
    (applied (scope.planField env d)).length ≤ allApplications d.types := by
  rw [planField, FieldDescriptor.types, allApplications_append]
  refine applied_bind_le ?_ fun _ =>
    applied_bind_pure_le (planFieldArguments_applied_le env d.arguments)
  rcases d.type with _ | e
  · exact Nat.le_refl 0
  · rw [planType]
    exact applied_bind_pure_le (planExpr_applied_le d.tag env e true)

/-- A plan applies generics as often as the fields that it is made from. -/
theorem planFields_applied_le (owner : String) (env : Environment) (ds : List FieldDescriptor) :
    (applied (scope.planFields owner env ds)).length ≤
      allApplications (ds.flatMap FieldDescriptor.types) := by
  induction ds with
  | nil => exact Nat.le_refl 0
  | cons d rest ih =>
    rw [planFields, List.flatMap_cons, allApplications_append]
    exact applied_bind_le (planField_applied_le env d) fun _ => applied_bind_pure_le ih

/-- The applications in the templates of some of the generics that hold no type parameter. -/
def closedApplications (scope : Scope) (kept : SourceModel) : List Application :=
  kept.generics.flatMap fun decl => applied (scope.planTemplate decl)

theorem closedApplications_length_le (scope : Scope) (kept : SourceModel) :
    (scope.closedApplications kept).length ≤
      allApplications (kept.declarations.flatMap fun d =>
        d.fields.flatMap FieldDescriptor.types) := by
  rw [closedApplications, SourceModel.generics]
  induction kept.declarations with
  | nil => exact Nat.le_refl 0
  | cons d rest ih =>
    rw [List.flatMap_cons, allApplications_append]
    cases d with
    | generic decl =>
      rw [List.filterMap_cons, List.flatMap_cons, List.length_append]
      exact Nat.add_le_add (planFields_applied_le _ _ _) ih
    | _ =>
      rw [List.filterMap_cons]
      exact Nat.le_trans ih (Nat.le_add_left _ _)

theorem mem_generics {model : SourceModel} {decl : GenericDecl} :
    decl ∈ model.generics ↔ .generic decl ∈ model.declarations := by
  rw [SourceModel.generics, List.mem_filterMap]
  constructor
  · rintro ⟨d, hd, heq⟩
    cases d with
    | generic decl' => cases heq; exact hd
    | _ => cases heq
  · exact fun h => ⟨_, h, rfl⟩

theorem Arises.declared {decl : GenericDecl} {argument : Named}
    (h : scope.Arises decl argument) : scope.model.get? decl.name = some (.generic decl) := by
  obtain ⟨plan, hplan, hasks⟩ := h
  exact hplan.grounded hasks

/-- What a body asks for, the template asks for as well, or it comes about in the same way for every
argument. -/
theorem body_step (hc : scope.Consistent) {kept : SourceModel} {x y : Application}
    (hx : scope.Arises x.1 x.2) (hkept : .generic x.1 ∈ kept.declarations)
    (hasks : (scope.planBody x.1 (.named x.2)).Asks (.apply y.1 y.2)) :
    y ∈ scope.closedApplications kept ∨ ∃ suffix, scope.Leads x y suffix := by
  have hdecl := SourceModel.get?_mem hx.declared
  obtain ⟨fields, houtcome, -⟩ := hc.answered _ (.generic hdecl)
  rcases ((planFields_fills x.2 houtcome).asks _).1 hasks with htemplate |
    ⟨t, ht, z, hz, decl, hget, heq⟩
  · exact .inl (List.mem_flatMap.2 ⟨x.1, mem_generics.2 hkept, mem_applied.2 htemplate⟩)
  · obtain ⟨rfl, hargument⟩ := Request.apply.inj heq
    refine .inr ⟨z.2.suffix, by rw [hargument, TypeNode.filling_name], fun u hu => ?_⟩
    have hasks' : (scope.planBody x.1 (.named u)).Asks (.apply y.1 (z.2.filling u)) :=
      ((planFields_fills u houtcome).asks _).2 (.inr ⟨t, ht, z, hz, y.1, hget, rfl⟩)
    exact ⟨_, Arises.body (x := (x.1, u)) (y := (y.1, z.2.filling u)) hu hasks',
      TypeNode.filling_name u z.2⟩

/-- A nest of different applications consists of the innermost segment, in which no generic comes
up twice, and of as many further ones as there are closed applications in it. -/
structure Split (scope : Scope) (kept : SourceModel) (path segment shut : List Application) :
    Prop where
  length : path.length ≤ kept.generics.length * shut.length + segment.length
  leads : ∀ x ∈ segment, ∀ y ∈ path.head?, ∃ suffix, scope.Leads x y suffix
  subset : segment ⊆ path
  generics : (segment.map (·.1.name)).Nodup
  shutSubset : shut ⊆ path
  shutKeys : (shut.map Application.key).Nodup
  closed : shut ⊆ scope.closedApplications kept

variable {kept : SourceModel} {path : List Application}

theorem Split.segment_length_le {segment shut : List Application}
    (h : scope.Split kept path segment shut)
    (hkept : ∀ x ∈ path, .generic x.1 ∈ kept.declarations) :
    segment.length ≤ kept.generics.length := by
  have hsubset : segment.map (·.1.name) ⊆ kept.generics.map (·.name) := by
    intro name hname
    obtain ⟨x, hx, rfl⟩ := List.mem_map.1 hname
    exact List.mem_map_of_mem (mem_generics.2 (hkept x (h.subset hx)))
  simpa using h.generics.length_le_of_subset hsubset

theorem Split.inner (hc : scope.Consistent) {x y : Application}
    {rest segment shut : List Application} (h : scope.Split kept (x :: rest) segment shut)
    (hpath : scope.Nested (x :: rest))
    (hkept : ∀ z ∈ x :: rest, .generic z.1 ∈ kept.declarations)
    (hasks : (scope.planBody x.1 (.named x.2)).Asks (.apply y.1 y.2))
    (hnew : y.key ∉ (x :: rest).map Application.key) :
    ∃ segment' shut', scope.Split kept (y :: x :: rest) segment' shut' := by
  have hx := hpath.arises x List.mem_cons_self
  rcases body_step hc hx (hkept x List.mem_cons_self) hasks with hclosed | ⟨suffix, hleads⟩
  · have hsegment := h.segment_length_le hkept
    refine ⟨[y], y :: shut, ?_, ?_, by simp, by simp, ?_, ?_, ?_⟩
    · have hlength := h.length
      simp only [List.length_cons, List.length_nil, Nat.mul_add, Nat.mul_one] at hlength ⊢
      omega
    · intro z hz w hw
      rw [List.mem_singleton.1 hz, ← Option.mem_some_iff.1 hw]
      exact ⟨_, Leads.refl scope y⟩
    · exact List.cons_subset_cons y h.shutSubset
    · rw [List.map_cons, List.nodup_cons]
      exact ⟨fun hmem => hnew (List.map_subset _ h.shutSubset hmem), h.shutKeys⟩
    · exact List.cons_subset.2 ⟨hclosed, h.closed⟩
  · have hall : ∀ z ∈ segment, ∃ a, scope.Leads z y a := by
      intro z hz
      obtain ⟨a, ha⟩ := h.leads z hz x rfl
      exact ⟨_, ha.trans hleads⟩
    -- the same generic again would have the same argument
    have hfresh : y.1.name ∉ segment.map (·.1.name) := by
      intro hmem
      obtain ⟨z, hz, hname⟩ := List.mem_map.1 hmem
      obtain ⟨a, ha⟩ := hall z hz
      have hzarises := hpath.arises z (h.subset hz)
      have hsame : z.1 = y.1 := by
        have hget := (hx.body hasks).declared
        rw [← hname, hzarises.declared] at hget
        exact Declaration.generic.inj (Option.some.inj hget)
      have hempty := ha.eq_empty hc hzarises hsame
      refine hnew (List.mem_map.2 ⟨z, h.subset hz, ?_⟩)
      rw [Application.key, Application.key, hsame, ha.name, hempty, String.append_empty]
    refine ⟨y :: segment, shut, ?_, ?_, List.cons_subset_cons y h.subset, ?_,
      fun z hz => List.mem_cons_of_mem _ (h.shutSubset hz), h.shutKeys, h.closed⟩
    · have hlength := h.length
      simp only [List.length_cons] at hlength ⊢
      omega
    · intro z hz w hw
      rw [← Option.mem_some_iff.1 hw]
      rcases List.mem_cons.1 hz with rfl | hz
      · exact ⟨_, Leads.refl scope z⟩
      · exact hall z hz
    · rw [List.map_cons, List.nodup_cons]
      exact ⟨hfresh, h.generics⟩

theorem Nested.split (hc : scope.Consistent) (h : scope.Nested path)
    (hkept : ∀ x ∈ path, .generic x.1 ∈ kept.declarations)
    (hnodup : (path.map Application.key).Nodup) :
    ∃ segment shut, scope.Split kept path segment shut := by
  induction h with
  | @first x h =>
    refine ⟨[x], [], by simp, ?_, by simp, by simp, by simp, by simp, by simp⟩
    intro z hz w hw
    rw [List.mem_singleton.1 hz, ← Option.mem_some_iff.1 hw]
    exact ⟨_, Leads.refl scope x⟩
  | inner h hasks ih =>
    rw [List.map_cons, List.nodup_cons] at hnodup
    have hrest := (List.forall_mem_cons.1 hkept).2
    obtain ⟨segment, shut, hsplit⟩ := ih hrest hnodup.2
    exact hsplit.inner hc h hrest hasks hnodup.1

/-- Instantiations of generics that a model declares never lie deeper inside one another than the
resolver allows for in that model. -/
theorem Nested.length_le (hc : scope.Consistent) (h : scope.Nested path)
    (hkept : ∀ x ∈ path, .generic x.1 ∈ kept.declarations)
    (hnodup : (path.map Application.key).Nodup) : path.length ≤ kept.instantiationDepth := by
  obtain ⟨segment, shut, hsplit⟩ := h.split hc hkept hnodup
  have hsegment := hsplit.segment_length_le hkept
  have hshut : shut.length ≤ allApplications (kept.declarations.flatMap fun d =>
      d.fields.flatMap FieldDescriptor.types) := by
    have hkeys := hsplit.shutKeys.length_le_of_subset (List.map_subset _ hsplit.closed)
    rw [List.length_map, List.length_map] at hkeys
    exact Nat.le_trans hkeys (scope.closedApplications_length_le kept)
  have hmul := Nat.mul_le_mul_left kept.generics.length hshut
  refine Nat.le_trans hsplit.length ?_
  simp only [SourceModel.instantiationDepth]
  refine Nat.le_trans ?_ (Nat.mul_le_mul (Nat.le_mul_of_pos_left _ Nat.two_pos)
    (Nat.add_le_add_right (Nat.le_add_right _ _) 1))
  rw [Nat.add_mul, Nat.mul_add]
  omega

end Scope

end SchemaCompiler
