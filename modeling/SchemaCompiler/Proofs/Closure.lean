import SchemaCompiler.Proofs.Instantiation
import SchemaCompiler.Proofs.Mentions

/-! Properties of steps that go over from the parts of a resolution to the whole. If such a property
holds of the names that an expression mentions and of the applications of generics, it holds of
resolving the expression, and so on up to the fields of a declaration. -/

namespace SchemaCompiler

/-- A property of steps that composed steps have when their parts do. -/
structure ResolveM.Closed (C : (α : Type) → ResolveM α → Prop) : Prop where
  pure : ∀ {α : Type} (a : α), C α (Pure.pure a)
  refuse : ∀ {α : Type} (c : Cause), C α (ResolveM.refuse c)
  bind : ∀ {α β : Type} {x : ResolveM α} {f : α → ResolveM β}, C α x → (∀ a, C β (f a)) →
    C β (x >>= f)

namespace ResolveM.Closed

open Scope TypeExpr

variable {C : (α : Type) → ResolveM α → Prop} {scope : Scope} {inst : Instantiate}

def AllApplied (C : (α : Type) → ResolveM α → Prop) (scope : Scope) (inst : Instantiate) : Prop :=
  ∀ (generic : String) (types : List TypeNode), C _ (inst scope generic (types.map .type))

theorem apply (h : ResolveM.Closed C) (hinst : AllApplied C scope inst) (generic : String)
    (types : List TypeNode) : C _ (scope.apply inst generic types) := by
  unfold Scope.apply
  split
  · split
    · exact h.pure _
    · exact h.refuse _
    · exact h.refuse _
  · exact h.bind (hinst generic types) fun key => h.pure _

mutual

theorem resolveExpr (h : ResolveM.Closed C) (hinst : AllApplied C scope inst)
    (tag : Option String) (env : Environment) :
    ∀ (e : TypeExpr) (required : Bool), (∀ name ∈ e.refs, C _ (scope.named name tag)) →
      C _ (scope.resolveExpr inst tag env required e)
  | .nullable inner, required, hnamed => by
    rw [Scope.resolveExpr]
    exact resolveExpr h hinst tag env inner false hnamed
  | .list element, required, hnamed => by
    rw [Scope.resolveExpr]
    exact h.bind (resolveExpr h hinst tag env element true hnamed) fun type => h.pure _
  | .param name, required, hnamed => by
    rw [Scope.resolveExpr]
    rcases env.lookup name with _ | type
    · exact h.refuse _
    · exact h.pure _
  | .apply generic arguments, required, hnamed => by
    rw [Scope.resolveExpr]
    refine h.bind (resolveArguments h hinst tag env arguments hnamed) fun types => ?_
    exact h.bind (h.apply hinst generic types) fun type => h.pure _
  | .ref name, required, hnamed => by
    rw [Scope.resolveExpr]
    exact h.bind (hnamed name List.mem_cons_self) fun type => h.pure _

theorem resolveArguments (h : ResolveM.Closed C) (hinst : AllApplied C scope inst)
    (tag : Option String) (env : Environment) :
    ∀ es : List TypeExpr, (∀ name ∈ allRefs es, C _ (scope.named name tag)) →
      C _ (scope.resolveArguments inst tag env es)
  | [], hnamed => h.pure _
  | e :: rest, hnamed => by
    rw [Scope.resolveArguments]
    have hfirst : ∀ name ∈ e.refs, C _ (scope.named name tag) :=
      fun name hname => hnamed name (List.mem_append_left _ hname)
    have hrest : ∀ name ∈ allRefs rest, C _ (scope.named name tag) :=
      fun name hname => hnamed name (List.mem_append_right _ hname)
    refine h.bind (resolveExpr h hinst tag env e false hfirst) fun type => ?_
    exact h.bind (resolveArguments h hinst tag env rest hrest) fun types => h.pure _

end

theorem resolveFieldArguments (h : ResolveM.Closed C) (hinst : AllApplied C scope inst)
    (env : Environment) {as : List ArgumentDescriptor}
    (hnamed : ∀ a ∈ as, ∀ name ∈ a.type.refs, C _ (scope.named name a.tag)) :
    C _ (scope.resolveFieldArguments inst env as) := by
  induction as with
  | nil => exact h.pure _
  | cons a rest ih =>
    rw [Scope.resolveFieldArguments]
    refine h.bind (h.resolveExpr hinst a.tag env a.type true (hnamed a List.mem_cons_self))
      fun type => ?_
    exact h.bind (ih fun b hb => hnamed b (List.mem_cons_of_mem _ hb)) fun others => h.pure _

theorem resolveField (h : ResolveM.Closed C) (hinst : AllApplied C scope inst)
    (env : Environment) {d : FieldDescriptor}
    (hnamed : ∀ x ∈ d.tagged, ∀ name ∈ x.2.refs, C _ (scope.named name x.1)) :
    C _ (scope.resolveField inst env d) := by
  rw [Scope.resolveField]
  have harguments := h.resolveFieldArguments hinst env fun a ha =>
    hnamed (a.tag, a.type) (List.mem_append_right _ (List.mem_map_of_mem ha))
  rcases htype : d.type with _ | e
  · dsimp only
    rw [pure_bind]
    exact h.bind harguments fun as => h.pure _
  · have he : ∀ name ∈ e.refs, C _ (scope.named name d.tag) :=
      hnamed (d.tag, e) (List.mem_append_left _ (by simp [htype]))
    dsimp only
    rw [bind_map_left]
    refine h.bind (h.resolveExpr hinst d.tag env e true he) fun type => ?_
    exact h.bind harguments fun as => h.pure _

theorem resolveFields (h : ResolveM.Closed C) (owner : String) (env : Environment)
    {ds : List FieldDescriptor}
    (hfields : ∀ d ∈ ds, C _ (scope.located ⟨owner, d.name⟩ fun scope =>
      scope.resolveField inst env d)) : C _ (scope.resolveFields inst owner env ds) := by
  induction ds with
  | nil => exact h.pure _
  | cons d rest ih =>
    rw [Scope.resolveFields]
    refine h.bind (hfields d List.mem_cons_self) fun field => ?_
    exact h.bind (ih fun x hx => hfields x (List.mem_cons_of_mem _ hx)) fun fields => h.pure _

theorem arguments (h : ResolveM.Closed C) {args : List GenericArgument}
    (hnamed : ∀ name, .name name ∈ args → C _ (scope.named name none)) :
    C _ (scope.arguments args) := by
  induction args with
  | nil => exact h.pure _
  | cons a rest ih =>
    rw [Scope.arguments]
    have hfirst : C _ (scope.argument a) := by
      rcases a with name | type
      · exact hnamed name List.mem_cons_self
      · cases type with
        | named => exact h.pure _
        | _ => exact h.refuse _
    refine h.bind hfirst fun type => ?_
    exact h.bind (ih fun name hname => hnamed name (List.mem_cons_of_mem _ hname)) fun types =>
      h.pure _

end ResolveM.Closed

end SchemaCompiler
