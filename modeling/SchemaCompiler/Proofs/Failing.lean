import SchemaCompiler.Proofs.Additions
import SchemaCompiler.Proofs.Dictionary

/-! Applying a generic, and what is left when that fails. Nothing is undone, and nothing that was
there is lost; the instantiations that the call has finished on the way are complete and stay. A
call that fails before it knows which instantiation it is about has entered the names among its
arguments at most, and it fails again when it is repeated. -/

namespace SchemaCompiler

namespace TypeGraph

variable {graph g : TypeGraph} {site : Site} {t r : Named}

theorem get?_append {added : List Node} (h : g.nodes = graph.nodes ++ added) (name : String) :
    g.get? name = (graph.get? name).or (added.find? (·.name = name)) := by
  rw [get?, h, List.find?_append, get?]

theorem get?_mono {name : String} {node : Node} (h : graph.nodes <+: g.nodes)
    (hget : graph.get? name = some node) : g.get? name = some node := by
  obtain ⟨later, hlater⟩ := h
  rw [get?_append hlater.symm, hget, Option.some_or]

/-- What was entered once is answered from then on. -/
theorem enter_again {later : TypeGraph} (ht : ∀ key, t ≠ .instantiation key)
    (h : graph.enter site t = .ok (r, g)) (hlater : g.nodes <+: later.nodes) :
    later.enter site t = .ok (r, later) := by
  obtain ⟨node, hget, haccepts, rfl⟩ : ∃ node, g.get? t.name = some node ∧ t.Accepts node ∧
      r = node.ref := by
    rcases enter_cases ht h with ⟨node, hget, haccepts, hr, rfl⟩ | ⟨-, hget, rfl, rfl⟩
    · exact ⟨node, hget, haccepts, hr⟩
    · refine ⟨r.shell site, ?_, ?_, (Named.shell_ref site r).symm⟩
      · rw [get?_append rfl, hget, Option.none_or]
        simp
      · cases r with
        | instantiation key => exact absurd rfl (ht key)
        | scalar => exact rfl
        | _ => exact trivial
  exact enter_of_accepts (get?_mono hlater hget) haccepts site

end TypeGraph

namespace Resolution

open Node (instantiations mem_instantiations)

/-- What is left of a call that has finished some instantiations: all that there was, and these. -/
structure Leaves (s s' : Resolution) (done : List Instantiation) : Prop where
  nodes : s.graph.nodes <+: s'.graph.nodes
  templates : s'.graph.templates = s.graph.templates
  memo : s.memo <+: s'.memo
  cached : ∀ key t, s.cached? key = some t → s'.cached? key = some t
  finished : s'.finished = s.finished ++ done.map (·.key)
  added : ∀ t, .instantiation t ∈ s'.graph.nodes → .instantiation t ∈ s.graph.nodes ∨ t ∈ done
  done : ∀ t ∈ done, t.filled = true ∧ s.cached? t.key = none ∧ s'.cached? t.key = some t ∧
    s'.graph.get? t.key.name = some (.instantiation t)

theorem cached?_append {s s' : Resolution} {begun : List Instantiation}
    (h : s'.memo = s.memo ++ begun) (key : InstanceKey) :
    s'.cached? key = (s.cached? key).or (begun.find? (·.key = key)) := by
  rw [cached?, h, List.find?_append, cached?]

namespace Adds

variable {enters : Named → Prop} {s s' : Resolution} {added : List Node}
  {begun : List Instantiation}

theorem cached? (h : Adds enters s s' added begun) {t : Instantiation} (ht : t ∈ begun) :
    s'.cached? t.key = some t := by
  have hold : s.cached? t.key = none := Scope.cached?_eq_none.2 (h.fresh t ht)
  rw [cached?_append h.memo, hold, Option.none_or]
  exact find?_key_eq_some h.keys ht

theorem get? (h : Adds enters s s' added begun) {node : Node} (hnode : node ∈ added) :
    s'.graph.get? node.name = some node := by
  have hold : s.graph.get? node.name = none := TypeGraph.get?_eq_none.2 (h.free node hnode).1
  rw [TypeGraph.get?_append h.nodes, hold, Option.none_or]
  exact find?_key_eq_some h.names hnode

theorem leaves (h : Adds enters s s' added begun) : s.Leaves s' (instantiations added) where
  nodes := h.nodes ▸ List.prefix_append _ _
  templates := h.templates
  memo := h.memo ▸ List.prefix_append _ _
  cached key t ht := by
    rw [cached?_append h.memo, ht, Option.some_or]
  finished := h.finished
  added t ht := by
    rw [h.nodes, List.mem_append] at ht
    exact ht.imp_right mem_instantiations.2
  done t ht := by
    have hnode := mem_instantiations.1 ht
    obtain ⟨hbegun, hfilled⟩ := h.filled t hnode
    exact ⟨hfilled, Scope.cached?_eq_none.2 (h.fresh t hbegun), h.cached? hbegun, h.get? hnode⟩

/-- Without new instantiations in the memo the graph has no new ones either. -/
theorem begun_eq_nil (h : Adds enters s s' added begun) (hmemo : s'.memo = s.memo) : begun = [] :=
  List.append_right_eq_self.1 (h.memo.symm.trans hmemo)

theorem instantiations_eq_nil (h : Adds enters s s' added []) : instantiations added = [] :=
  List.eq_nil_iff_forall_not_mem.2 fun t ht => nomatch (h.filled t (mem_instantiations.1 ht)).1

end Adds

end Resolution

open Resolution (Adds)

/-- A step that has changed the graph at most has begun nothing. -/
theorem ResolveM.Adding.graph_only {α : Type} {enters : Named → Prop} {x : ResolveM α}
    (hx : ResolveM.Adding enters x) {s : Resolution} {r : Except CompileError α} {g : TypeGraph}
    (h : x s = (r, { s with graph := g })) :
    ∃ added, Adds enters s { s with graph := g } added [] := by
  obtain ⟨added, begun, hadds, -⟩ := hx s
  rw [h] at hadds
  obtain rfl := hadds.begun_eq_nil rfl
  exact ⟨added, hadds⟩

namespace Scope

open Node (instantiations mem_instantiations)
open ResolveM (Adding)

variable {scope : Scope} {enters : Named → Prop} {generic : String} {args : List GenericArgument}
  {s s' : Resolution}

/-- What a call is about: the instantiation of a generic for its one argument. There is none when
the name is not that of a generic, when an argument fails, or when they are not exactly one. -/
def keyOf (scope : Scope) (generic : String) (args : List GenericArgument) (s : Resolution) :
    Option InstanceKey :=
  match scope.model.get? generic, (scope.arguments args s).1 with
  | some (.generic decl), .ok [argument] => some ⟨decl.name, argument.name⟩
  | _, _ => none

/-- An argument fails and changes nothing, or it stands for a type from then on. -/
theorem argument_cases (scope : Scope) (a : GenericArgument) (s : Resolution) :
    (∃ e, scope.argument a s = (.error e, s)) ∨
      ∃ t g, scope.argument a s = (.ok t, { s with graph := g }) ∧ s.graph.nodes <+: g.nodes ∧
        ((∃ type, a = .type type) → g = s.graph) ∧
        ∀ later : Resolution, g.nodes <+: later.graph.nodes →
          scope.argument a later = (.ok t, later) := by
  rcases a with name | type
  · have hnamed (s : Resolution) : scope.argument (.name name) s = _ :=
      congrFun (named_eq scope name none) s
    rcases htarget : scope.target name none with c | t
    · exact .inl ⟨_, by rw [hnamed, htarget]; rfl⟩
    · have henter (s : Resolution) : scope.argument (.name name) s =
          ResolveM.onGraph (·.enter scope.site t) s := by rw [hnamed, htarget]
      have hkey := (target_isTarget htarget).ne_instantiation
      rcases hresult : s.graph.enter scope.site t with e | ⟨r, g⟩
      · exact .inl ⟨e, by rw [henter, ResolveM.onGraph_apply, hresult]⟩
      · refine .inr ⟨r, g, by rw [henter, ResolveM.onGraph_apply, hresult], ?_,
          fun ⟨_, h⟩ => (nomatch h), fun later hlater => ?_⟩
        · rcases TypeGraph.enter_cases hkey hresult with ⟨-, -, -, -, rfl⟩ | ⟨-, -, -, rfl⟩
          · exact List.prefix_refl _
          · exact List.prefix_append _ _
        · rw [henter, ResolveM.onGraph_apply, TypeGraph.enter_again hkey hresult hlater]
  · cases type with
    | named t => exact .inr ⟨t, s.graph, rfl, List.prefix_refl _, fun _ => rfl, fun _ _ => rfl⟩
    | _ => exact .inl ⟨_, rfl⟩

/-- What arguments leave, they answer once more. -/
theorem arguments_cases (scope : Scope) (args : List GenericArgument) (s : Resolution) :
    ∃ g, (scope.arguments args s).2 = { s with graph := g } ∧ s.graph.nodes <+: g.nodes ∧
      ((∀ a ∈ args, ∃ type, a = .type type) → g = s.graph) ∧
      scope.arguments args (scope.arguments args s).2 = scope.arguments args s := by
  induction args generalizing s with
  | nil => exact ⟨s.graph, rfl, List.prefix_refl _, fun _ => rfl, rfl⟩
  | cons a rest ih =>
    rcases argument_cases scope a s with ⟨e, ha⟩ | ⟨t, g, ha, hgrows, htype, hagain⟩
    · have hall : scope.arguments (a :: rest) s = (.error e, s) := by
        rw [arguments, ResolveM.bind_error ha]
      exact ⟨s.graph, by rw [hall], List.prefix_refl _, fun _ => rfl, by rw [hall]; exact hall⟩
    · obtain ⟨g', hstate, hgrows', htypes, hrest⟩ := ih { s with graph := g }
      have hcons {s₁ mid : Resolution} (h : scope.argument a s₁ = (.ok t, mid)) :
          scope.arguments (a :: rest) s₁ =
            ((scope.arguments rest mid).1.map (t :: ·), (scope.arguments rest mid).2) := by
        rw [arguments, ResolveM.bind_ok h, ResolveM.bind_apply]
        rcases scope.arguments rest mid with ⟨_ | _, _⟩ <;> rfl
      have hlater := hagain (scope.arguments rest { s with graph := g }).2 (by rwa [hstate])
      rw [hcons ha]
      refine ⟨g', hstate, hgrows.trans hgrows', fun h => ?_, ?_⟩
      · rw [htypes fun b hb => h b (List.mem_cons_of_mem _ hb)]
        exact htype (h a List.mem_cons_self)
      · rw [hcons hlater, hrest]

theorem instantiate_eq (scope : Scope) (generic : String) (args : List GenericArgument) :
    scope.instantiate generic args = match scope.model.get? generic with
      | none => throw ⟨.unresolved generic, scope.site⟩
      | some (.generic decl) => scope.arguments args >>= fun
        | [argument] => scope.instantiateDecl (scope.depth args) decl argument
        | types => ResolveM.refuse (.wrongArity generic types.length)
      | some _ => ResolveM.refuse (.notGeneric generic) := by
  rw [instantiate, instantiateWithin.eq_def]
  dsimp only
  rcases scope.model.get? generic with _ | ⟨_ | _ | _ | _⟩ <;> rfl

/-- How a call ends. Without a key it has changed the graph at most, and fails in the same way when
it is repeated; with a key it applies its generic to one type. -/
inductive Ending (scope : Scope) (generic : String) (args : List GenericArgument) (s : Resolution) :
    Except CompileError InstanceKey × Resolution → Prop
  | keyless {e : CompileError} {g : TypeGraph} (hkey : scope.keyOf generic args s = none)
      (htypes : (∀ a ∈ args, ∃ type, a = .type type) → g = s.graph)
      (hagain : scope.instantiate generic args { s with graph := g } =
        (.error e, { s with graph := g })) :
      Ending scope generic args s (.error e, { s with graph := g })
  | applied {decl : GenericDecl} {argument : Named} {g : TypeGraph}
      (hkey : scope.keyOf generic args s = some ⟨decl.name, argument.name⟩)
      (hdecl : scope.model.get? decl.name = some (.generic decl))
      (harguments : scope.arguments args s = (.ok [argument], { s with graph := g })) :
      Ending scope generic args s
        (scope.instantiateDecl (scope.depth args) decl argument { s with graph := g })

theorem instantiate_ending (scope : Scope) (generic : String) (args : List GenericArgument)
    (s : Resolution) : scope.Ending generic args s (scope.instantiate generic args s) := by
  have hrun := congrFun (scope.instantiate_eq generic args)
  -- without a generic of the name not even the arguments are looked at
  have keyless {c : Cause} {site : Site} (hkey : scope.keyOf generic args s = none)
      (h : ∀ s, scope.instantiate generic args s = (.error ⟨c, site⟩, s)) :
      scope.Ending generic args s (scope.instantiate generic args s) := by
    rw [h s]
    exact .keyless (g := s.graph) hkey (fun _ => rfl) (h s)
  rcases hget : scope.model.get? generic with _ | ⟨d | decl | d | d⟩
  case some.generic =>
    obtain rfl : decl.name = generic := SourceModel.get?_name hget
    obtain ⟨g, hstate, -, htypes, hagain⟩ := arguments_cases scope args s
    simp only [hget] at hrun
    have hargs : scope.arguments args s =
        ((scope.arguments args s).1, { s with graph := g }) := Prod.ext rfl hstate
    rw [hstate] at hagain
    -- the arguments fail, or they are not exactly one: both happen once more
    rcases houtcome : (scope.arguments args s).1 with e | types
    · rw [houtcome] at hargs
      have hrepeat : scope.arguments args { s with graph := g } =
          (.error e, { s with graph := g }) := hagain.trans hargs
      rw [hrun, ResolveM.bind_error hargs]
      exact .keyless (by simp [keyOf, hget, houtcome]) htypes
        (by rw [hrun, ResolveM.bind_error hrepeat])
    · rw [houtcome] at hargs
      have hrepeat : scope.arguments args { s with graph := g } =
          (.ok types, { s with graph := g }) := hagain.trans hargs
      rcases types with _ | ⟨argument, _ | ⟨second, rest⟩⟩
      case cons.nil =>
        rw [hrun, ResolveM.bind_ok hargs]
        exact .applied (by simp [keyOf, hget, houtcome]) hget hargs
      all_goals
        rw [hrun, ResolveM.bind_ok hargs]
        exact .keyless (by simp [keyOf, hget, houtcome]) htypes
          (by rw [hrun, ResolveM.bind_ok hrepeat]; rfl)
  all_goals exact keyless (by simp [keyOf, hget]) fun s => by rw [hrun, hget]; rfl

/-- The types that the names among arguments stand for may be entered. -/
def ArgumentsEnter (scope : Scope) (enters : Named → Prop) (args : List GenericArgument) : Prop :=
  ∀ name, .name name ∈ args → scope.Enters enters none [name]

theorem instantiate_adding (generic : String) (hgenerics : scope.GenericsEnter enters)
    (hargs : scope.ArgumentsEnter enters args) :
    Adding enters (scope.instantiate generic args) := by
  rw [instantiate_eq]
  rcases hget : scope.model.get? generic with _ | ⟨d | decl | d | d⟩
  case some.generic =>
    obtain rfl : decl.name = generic := SourceModel.get?_name hget
    refine (arguments_adding hargs).bind fun types => ?_
    rcases types with _ | ⟨argument, _ | ⟨second, rest⟩⟩
    · exact .refuse _
    · exact Applied.adding (instantiateDecl_applied _ scope hgenerics hget argument)
    · exact .refuse _
  case none => exact .throw _
  all_goals exact .refuse _

/-- A call that fails undoes nothing and loses nothing. The instantiations that it has finished are
complete, and that of its own key is not among them; without a key it has begun none, and it fails
in the same way when it is repeated. -/
theorem instantiate_failed_leaves {e : CompileError}
    (h : scope.instantiate generic args s = (.error e, s')) :
    ∃ done, s.Leaves s' done ∧
      (∀ key, scope.keyOf generic args s = some key →
        s.cached? key = none ∧ ∀ t ∈ done, t.key ≠ key) ∧
      (scope.keyOf generic args s = none → done = [] ∧ s'.memo = s.memo ∧
        scope.instantiate generic args s' = (.error e, s') ∧
        ((∀ a ∈ args, ∃ type, a = .type type) → s' = s)) := by
  have hgenerics : scope.GenericsEnter fun _ => True := fun _ _ _ _ _ _ _ _ => trivial
  have hargs : scope.ArgumentsEnter (fun _ => True) args := fun _ _ _ _ _ _ => trivial
  have hending := scope.instantiate_ending generic args s
  rw [h] at hending
  generalize hresult : ((.error e, s') : Except CompileError InstanceKey × Resolution) = result
    at hending
  cases hending with
  | @keyless e g hkey htypes hagain =>
    cases hresult
    obtain ⟨added, hadds⟩ := (instantiate_adding generic hgenerics hargs).graph_only h
    refine ⟨_, hadds.leaves, fun key hsome => ?_,
      fun _ => ⟨hadds.instantiations_eq_nil, rfl, hagain, fun hall => ?_⟩⟩
    · rw [hkey] at hsome
      cases hsome
    · rw [htypes hall]
  | @applied decl argument g hkey hdecl harguments =>
    obtain ⟨added, hadds⟩ := (arguments_adding hargs).graph_only harguments
    have happlied := instantiateDecl_applied (scope.depth args) scope hgenerics hdecl
      argument { s with graph := g }
    rw [← hresult] at happlied
    cases happlied with
    | failed hnew hmore hother =>
      refine ⟨_, (hadds.trans hmore).leaves, fun key hsome => ?_, fun hnone => ?_⟩
      · obtain rfl := Option.some.inj (hkey.symm.trans hsome)
        refine ⟨cached?_eq_none.2 hnew, fun t ht => ?_⟩
        rcases List.mem_append.1 (mem_instantiations.1 ht) with ht | ht
        · exact nomatch (hadds.filled t ht).1
        · exact hother t ht
      · rw [hkey] at hnone
        cases hnone

/-- A generic whose second field cannot be resolved, after the first one has applied another
generic. -/
def crateScope : Scope where
  model := {
    unit := "crates"
    declarations := [
      .generic { name := "Box", parameter := "T", fields := [
        { owner := "Box", name := "value", type := some (.param "T") }] },
      .generic { name := "Crate", parameter := "T", fields := [
        { owner := "Crate", name := "box", type := some (.apply "Box" [.param "T"]) },
        { owner := "Crate", name := "weight", type := some (.ref "number") }] }] }
  registry := {}

/-- The call fails for `Crate`, and `StringBox` is complete. -/
theorem crateScope_leaves :
    ∃ e s', crateScope.instantiate "Crate" [.name "string"] {} = (.error e, s') ∧
      ∃ done, Resolution.Leaves {} s' done ∧ ∀ t ∈ done, t.key ≠ ⟨"Crate", "String"⟩ := by
  have hkey : crateScope.keyOf "Crate" [.name "string"] {} = some ⟨"Crate", "String"⟩ := by
    decide +kernel
  have hfails : (crateScope.instantiate "Crate" [.name "string"] {}).1.toOption = none := by
    decide +kernel
  rcases hrun : crateScope.instantiate "Crate" [.name "string"] {} with ⟨e | key, s'⟩
  · obtain ⟨done, hleaves, hother, -⟩ := instantiate_failed_leaves hrun
    exact ⟨e, s', rfl, done, hleaves, (hother _ hkey).2⟩
  · rw [hrun] at hfails
    cases hfails

/-- A call that fails leaves instantiations, nodes and the memo of its own key behind. -/
theorem crateScope_leftovers :
    let first := crateScope.instantiate "Crate" [.name "string"] {}
    first.1.toOption = none ∧
      first.2.graph.nodes.map Node.name = ["String", "StringBox"] ∧
      first.2.finished = [⟨"Box", "String"⟩] ∧
      first.2.memo.map (·.key) = [⟨"Crate", "String"⟩, ⟨"Box", "String"⟩] ∧
      (first.2.cached? ⟨"Crate", "String"⟩).map (·.filled) = some false ∧
      (crateScope.instantiate "Crate" [.name "string"] first.2).1.toOption =
        some ⟨"Crate", "String"⟩ := by
  decide +kernel

end Scope

end SchemaCompiler
