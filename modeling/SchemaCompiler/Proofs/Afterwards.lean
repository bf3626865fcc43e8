import SchemaCompiler.Proofs.Dropping
import SchemaCompiler.Proofs.Failing

/-! Generics that are applied after a resolution. The types that declarations stand for are all
there, so a call adds scalars and filled instantiations, and a pending type for every name that
nothing is known about; what nobody asks for any more is whether that type was ever declared. A call
that failed leaves its key open, and a later call of the same key answers it as it is. -/

namespace SchemaCompiler

structure GenericCall where
  generic : String
  args : List GenericArgument

namespace Scope

open Node (mem_instantiations)
open Resolution (Adds)

variable {scope : Scope} {enters : Named → Prop} {s s' : Resolution} {added : List Node}
  {begun : List Instantiation}

def afterCall (scope : Scope) (s : Resolution) (call : GenericCall) : Resolution :=
  (scope.instantiate call.generic call.args s).2

def afterCalls (scope : Scope) (s : Resolution) (calls : List GenericCall) : Resolution :=
  calls.foldl scope.afterCall s

def Knows (scope : Scope) (args : List GenericArgument) : Prop :=
  ∀ name, .name name ∈ args → ¬ scope.IsUnknown name

def Returns (scope : Scope) : Resolution → List GenericCall → Prop
  | _, [] => True
  | s, call :: rest => (∃ key, (scope.instantiate call.generic call.args s).1 = .ok key) ∧
      scope.Returns (scope.afterCall s call) rest

/-- A type that names stand for, except one of which nothing is known. -/
def IsKnown (scope : Scope) (t : Named) : Prop :=
  scope.IsTarget t ∧ t.kind ≠ .pending

/-- What holds of a resolved state, and keeps holding however calls end. -/
structure Standing (scope : Scope) (s : Resolution) : Prop where
  names : (s.graph.nodes.map Node.name).Nodup
  done : ∀ key, key ∈ s.finished ↔ ∃ t, Node.instantiation t ∈ s.graph.nodes ∧ t.key = key
  tidy : scope.Tidy s
  filled : ∀ t, .instantiation t ∈ s.graph.nodes → t.filled = true
  held : ∀ t, scope.IsTarget t → t.kind = .object ∨ t.kind = .enum →
    t.name ∈ s.graph.nodes.map Node.name

theorem Complete.standing (h : scope.Complete s) : scope.Standing s where
  names := h.sound.nodup
  done := h.sound.done
  tidy := h.sound.tidy
  filled t ht := h.filled _ ht
  held t ht hkind := by
    cases t with
    | object name =>
      obtain ⟨decl, hdecl, rfl⟩ := ht
      obtain ⟨o, ho, hname, -⟩ := h.entered _ hdecl
      exact hname ▸ List.mem_map_of_mem (f := Node.name) ho
    | enum name =>
      obtain ⟨decl, hdecl, rfl⟩ := ht
      obtain ⟨o, ho, hname, -⟩ := h.entered _ hdecl
      exact hname ▸ List.mem_map_of_mem (f := Node.name) ho
    | instantiation key => exact ht.elim
    | _ => rcases hkind with hkind | hkind <;> cases hkind

theorem Standing.adds (hs : scope.Standing s) (h : Adds enters s s' added begun)
    (henters : ∀ t, enters t → scope.IsTarget t) : scope.Standing s' where
  names := by
    rw [h.nodes, List.map_append]
    refine hs.names.append h.names fun name hname hname' => ?_
    obtain ⟨node, hnode, rfl⟩ := List.mem_map.1 hname'
    exact (h.free node hnode).1 hname
  done key := by
    rw [h.finished, h.nodes, List.mem_append, hs.done]
    simp only [List.mem_map, List.mem_append, or_and_right, exists_or, mem_instantiations]
  tidy node hnode hunknown := by
    rw [h.nodes, List.mem_append] at hnode
    rcases hnode with hnode | hnode
    · exact hs.tidy node hnode hunknown
    · rcases h.origin node hnode with hinst | ⟨t, site, ht, rfl⟩
      · exact .inr hinst
      · rw [Named.shell_name] at hunknown ⊢
        rw [Named.shell_ref]
        exact .inl ((henters t ht).eq_pending hunknown)
  filled t ht := by
    rw [h.nodes, List.mem_append] at ht
    exact ht.elim (hs.filled t) fun ht => (h.filled t ht).2
  held t ht hkind := by
    rw [h.nodes, List.map_append]
    exact List.mem_append_left _ (hs.held t ht hkind)

/-- As long as only known types are entered every type stays filled. -/
theorem Standing.filled_nodes (hs : scope.Standing s) (h : Adds scope.IsKnown s s' added begun)
    (hfilled : ∀ node ∈ s.graph.nodes, node.filled = true) :
    ∀ node ∈ s'.graph.nodes, node.filled = true := by
  intro node hnode
  rw [h.nodes, List.mem_append] at hnode
  rcases hnode with hnode | hnode
  · exact hfilled node hnode
  · rcases h.origin node hnode with ⟨t, rfl⟩ | ⟨t, site, ⟨ht, hkind⟩, rfl⟩
    · exact (h.filled t hnode).2
    · have hfree := (h.free _ hnode).1
      rw [Named.shell_name] at hfree
      -- a declared object or enum is there already, so only a scalar can be new
      cases t with
      | object name => exact absurd (hs.held _ ht (.inl rfl)) hfree
      | enum name => exact absurd (hs.held _ ht (.inr rfl)) hfree
      | scalar sc => rfl
      | pending name => exact absurd rfl hkind
      | instantiation key => exact ht.elim

/-- When everything that was begun has been finished, no key is open that was not before. -/
theorem open_of_adds (h : Adds enters s s' added begun)
    (hall : ∀ t ∈ begun, .instantiation t ∈ added) {key : InstanceKey} (hopen : s'.Open key) :
    s.Open key := by
  obtain ⟨hmemo, hfinished⟩ := hopen
  rw [h.memo, List.map_append, List.mem_append] at hmemo
  rw [h.finished, List.mem_append, not_or] at hfinished
  refine ⟨hmemo.resolve_right fun hbegun => hfinished.2 ?_, hfinished.1⟩
  obtain ⟨t, ht, rfl⟩ := List.mem_map.1 hbegun
  exact List.mem_map_of_mem (mem_instantiations.2 (hall t ht))

theorem genericsEnter_isTarget (scope : Scope) : scope.GenericsEnter scope.IsTarget :=
  fun _ _ _ _ _ _ _ ht => target_isTarget ht

theorem argumentsEnter_isTarget (scope : Scope) (args : List GenericArgument) :
    scope.ArgumentsEnter scope.IsTarget args :=
  fun _ _ _ _ _ ht => target_isTarget ht

/-- After a resolution the fields of generics mention nothing that is not known. -/
theorem Complete.genericsEnter (h : scope.Complete s) : scope.GenericsEnter scope.IsKnown := by
  intro decl hdecl x hx name hname t ht
  refine ⟨target_isTarget ht, fun hkind => ?_⟩
  obtain ⟨t', ht', hheld⟩ := (h.finds hdecl x hx).refs name hname
  obtain rfl := Except.ok.inj (ht.symm.trans ht')
  obtain ⟨node, hnode, href⟩ := h.holds_iff.1 hheld
  have hfilled := h.filled node hnode
  cases node with
  | pending => cases hfilled
  | _ => rw [← href] at hkind; cases hkind

/-- Only a name that nothing is known about stands for a type of which nothing is known. -/
theorem isUnknown_of_target {name : String} {tag : Option String} {t : Named}
    (h : scope.target name tag = .ok t) (hkind : t.kind = .pending) : scope.IsUnknown name := by
  rcases hget : scope.model.get? name with _ | d
  · rcases target_of_get?_eq_none hget h with ⟨sc, rfl⟩ | rfl
    · cases hkind
    · exact target_isTarget h
  · rw [target, hget] at h
    cases d with
    | object | enum => cases h; cases hkind
    | generic => cases h
    | scalar =>
      dsimp only [scalarOf] at h
      split at h
      · rcases hlookup : scope.registry.lookup name tag with c | sc
        · rw [hlookup] at h; cases h
        · rw [hlookup] at h; cases h; cases hkind
      · rcases hname : scope.registry.byName? name with _ | sc
        · rw [hname] at h; cases h
        · rw [hname] at h; cases h; cases hkind

theorem Knows.argumentsEnter {args : List GenericArgument} (h : scope.Knows args) :
    scope.ArgumentsEnter scope.IsKnown args := by
  intro name hname n hn t ht
  obtain rfl := List.mem_singleton.1 hn
  exact ⟨target_isTarget ht, fun hkind => h n hname (isUnknown_of_target ht hkind)⟩

section

variable {generic : String} {args : List GenericArgument} {key : InstanceKey}

/-- A call that is answered has one argument. Its key was begun before, or the call has added its
instantiation to the graph. -/
theorem instantiate_ok (h : scope.instantiate generic args s = (.ok key, s')) :
    ∃ argument g, scope.arguments args s = (.ok [argument], { s with graph := g }) ∧
      g.nodes <+: s'.graph.nodes ∧
      (key ∈ s.memo.map (·.key) ∧ s'.finished = s.finished ∨
        key ∉ s.memo.map (·.key) ∧ ∃ t, Node.instantiation t ∈ s'.graph.nodes ∧ t.key = key) := by
  have hending := scope.instantiate_ending generic args s
  rw [h] at hending
  generalize hresult : ((.ok key, s') : Except CompileError InstanceKey × Resolution) = result
    at hending
  cases hending with
  | keyless => cases hresult
  | @applied decl argument g hkey hdecl harguments =>
    have happlied := instantiateDecl_applied (scope.depth args) scope
      scope.genericsEnter_isTarget hdecl argument { s with graph := g }
    rw [← hresult] at happlied
    refine ⟨argument, g, harguments, ?_⟩
    cases happlied with
    | cached hbegun => exact ⟨List.prefix_refl _, .inl ⟨hbegun, rfl⟩⟩
    | done hnew hadds hall hdone =>
      obtain ⟨t, ht, hkey⟩ := hdone
      exact ⟨hadds.nodes ▸ List.prefix_append _ _,
        .inr ⟨hnew, t, hadds.nodes ▸ List.mem_append_right _ ht, hkey⟩⟩

/-- What a call answers is in the graph and filled, unless an earlier call has left it open. -/
theorem Standing.answered_iff (hs' : scope.Standing s')
    (h : scope.instantiate generic args s = (.ok key, s')) :
    (∃ t, s'.graph.get? key.name = some (.instantiation t) ∧ t.key = key ∧ t.filled = true) ↔
      ¬ s.Open key := by
  obtain ⟨argument, g, -, -, hkey⟩ := instantiate_ok h
  constructor
  · rintro ⟨t, hget, rfl, -⟩ hopen
    have hfinished : t.key ∈ s'.finished := (hs'.done t.key).2 ⟨t, TypeGraph.get?_mem hget, rfl⟩
    rcases hkey with ⟨-, hsame⟩ | ⟨hnew, -⟩
    · exact hopen.2 (hsame ▸ hfinished)
    · exact hnew hopen.1
  · intro hclosed
    obtain ⟨t, ht, rfl⟩ : ∃ t, Node.instantiation t ∈ s'.graph.nodes ∧ t.key = key := by
      rcases hkey with ⟨hbegun, hsame⟩ | ⟨-, hnew⟩
      · refine (hs'.done key).1 (hsame ▸ ?_)
        by_contra hunfinished
        exact hclosed ⟨hbegun, hunfinished⟩
      · exact hnew
    exact ⟨t, TypeGraph.get?_of_mem hs'.names ht, rfl, hs'.filled t ht⟩

theorem arguments_singleton {argument : Named}
    (h : scope.arguments args s = (.ok [argument], s')) :
    ∃ a, args = [a] ∧ scope.argument a s = (.ok argument, s') := by
  rcases args with _ | ⟨a, rest⟩
  · cases h
  rw [arguments, ResolveM.bind_eq_ok] at h
  obtain ⟨t, mid, ha, h⟩ := h
  obtain ⟨ts, last, hrest, h⟩ := ResolveM.bind_eq_ok.1 h
  cases h
  rcases rest with _ | ⟨b, more⟩
  · cases hrest
    exact ⟨a, rfl, ha⟩
  · rw [arguments, ResolveM.bind_eq_ok] at hrest
    obtain ⟨_, _, -, hrest⟩ := hrest
    obtain ⟨_, _, -, hrest⟩ := ResolveM.bind_eq_ok.1 hrest
    cases hrest

/-- A name that nothing is known about is answered with a pending type. -/
theorem unfilled_of_unknown (hs : scope.Tidy s) {name : String} (hunknown : scope.IsUnknown name)
    {t : Named} {g : TypeGraph}
    (h : scope.argument (.name name) s = (.ok t, { s with graph := g })) :
    ∃ node ∈ g.nodes, node.filled = false := by
  rw [argument, named_eq, hunknown.target, ResolveM.onGraph_eq_ok] at h
  obtain ⟨g', henter, heq⟩ := h
  cases heq
  have htarget : scope.IsTarget (.pending name) := hunknown
  rcases TypeGraph.enter_cases htarget.ne_instantiation henter with
    ⟨node, hget, haccepts, -, rfl⟩ | ⟨-, -, -, rfl⟩
  · refine ⟨node, TypeGraph.get?_mem hget, ?_⟩
    have hname := TypeGraph.get?_name hget
    rcases hs node (TypeGraph.get?_mem hget) (hname ▸ hunknown) with href | ⟨t, rfl⟩
    · cases node with
      | pending => rfl
      | _ => cases href
    · exact haccepts.elim
  · exact ⟨_, List.mem_append_right _ (List.mem_singleton_self _), rfl⟩

/-- A call keeps the graph complete when something is known about every name that it is given. -/
theorem Standing.assertComplete_iff (hs : scope.Standing s)
    (hgenerics : scope.GenericsEnter scope.IsKnown) (hcomplete : s.graph.assertComplete = .ok ())
    (h : scope.instantiate generic args s = (.ok key, s')) :
    s'.graph.assertComplete = .ok () ↔ scope.Knows args := by
  rw [TypeGraph.assertComplete_eq_ok] at hcomplete ⊢
  constructor
  · intro hfilled name hname hunknown
    obtain ⟨argument, g, hargs, hgrows, -⟩ := instantiate_ok h
    obtain ⟨a, rfl, ha⟩ := arguments_singleton hargs
    obtain rfl := List.mem_singleton.1 hname
    obtain ⟨node, hnode, hunfilled⟩ := unfilled_of_unknown hs.tidy hunknown ha
    rw [hfilled node (hgrows.subset hnode)] at hunfilled
    cases hunfilled
  · intro hknown
    obtain ⟨added, begun, hadds, -⟩ := instantiate_adding generic hgenerics hknown.argumentsEnter s
    rw [h] at hadds
    exact hs.filled_nodes hadds hcomplete

end

/-- A call adds to the state, and has finished all it began when it is answered. -/
theorem afterCall_adds (scope : Scope) (s : Resolution) (call : GenericCall) :
    ∃ added begun, Adds scope.IsTarget s (scope.afterCall s call) added begun ∧
      ∀ key, (scope.instantiate call.generic call.args s).1 = .ok key →
        ∀ t ∈ begun, .instantiation t ∈ added :=
  instantiate_adding call.generic scope.genericsEnter_isTarget
    (scope.argumentsEnter_isTarget call.args) s

theorem Standing.afterCall (hs : scope.Standing s) (call : GenericCall) :
    scope.Standing (scope.afterCall s call) := by
  obtain ⟨added, begun, hadds, -⟩ := scope.afterCall_adds s call
  exact hs.adds hadds fun _ ht => ht

theorem Standing.afterCalls (hs : scope.Standing s) (calls : List GenericCall) :
    scope.Standing (scope.afterCalls s calls) := by
  induction calls generalizing s with
  | nil => exact hs
  | cons call rest ih => exact ih (hs.afterCall call)

theorem Standing.filled_afterCalls (hs : scope.Standing s)
    (hgenerics : scope.GenericsEnter scope.IsKnown) {calls : List GenericCall}
    (hknown : ∀ call ∈ calls, scope.Knows call.args)
    (hfilled : ∀ node ∈ s.graph.nodes, node.filled = true) :
    ∀ node ∈ (scope.afterCalls s calls).graph.nodes, node.filled = true := by
  induction calls generalizing s with
  | nil => exact hfilled
  | cons call rest ih =>
    obtain ⟨added, begun, hadds, -⟩ := instantiate_adding call.generic hgenerics
      (hknown call List.mem_cons_self).argumentsEnter s
    exact ih (hs.afterCall call) (fun c hc => hknown c (List.mem_cons_of_mem _ hc))
      (hs.filled_nodes hadds hfilled)

/-- Calls that are answered leave nothing open. -/
theorem closed_afterCalls {calls : List GenericCall} (hreturns : scope.Returns s calls)
    (hclosed : ∀ key, ¬ s.Open key) (key : InstanceKey) :
    ¬ (scope.afterCalls s calls).Open key := by
  induction calls generalizing s with
  | nil => exact hclosed key
  | cons call rest ih =>
    obtain ⟨⟨answer, hanswer⟩, hrest⟩ := hreturns
    obtain ⟨added, begun, hadds, hall⟩ := scope.afterCall_adds s call
    exact ih hrest fun key hopen => hclosed key (open_of_adds hadds (hall answer hanswer) hopen)

/-- Calls after a resolution. The graph stays complete as long as something is known about every
name that they are given, and nothing is open as long as they are answered. The next call that is
answered gives a filled type that the graph holds under its name exactly if its key is not open, and
it keeps a complete graph complete exactly if something is known about the names it is given. -/
theorem calls_after_resolve (h : scope.resolve {} = (.ok (), s)) (calls : List GenericCall) :
    let reached := scope.afterCalls s calls
    ((∀ call ∈ calls, scope.Knows call.args) → reached.graph.assertComplete = .ok ()) ∧
      (scope.Returns s calls → ∀ key, ¬ reached.Open key) ∧
      ∀ generic args key s', scope.instantiate generic args reached = (.ok key, s') →
        ((∃ t, s'.graph.get? key.name = some (.instantiation t) ∧ t.key = key ∧ t.filled = true) ↔
          ¬ reached.Open key) ∧
        (reached.graph.assertComplete = .ok () →
          (s'.graph.assertComplete = .ok () ↔ scope.Knows args)) := by
  intro reached
  have hcomplete := complete_of_resolve h
  have hs : scope.Standing reached := hcomplete.standing.afterCalls calls
  refine ⟨fun hknown => ?_, fun hreturns => closed_afterCalls hreturns hcomplete.closed,
    fun generic args key s' hcall => ⟨Standing.answered_iff ?_ hcall, fun hreached =>
      hs.assertComplete_iff hcomplete.genericsEnter hreached hcall⟩⟩
  · exact TypeGraph.assertComplete_eq_ok.2 (hcomplete.standing.filled_afterCalls
      hcomplete.genericsEnter hknown hcomplete.filled)
  · have hafter := hs.afterCall ⟨generic, args⟩
    rwa [Scope.afterCall, hcall] at hafter

/-- A generic beside an object that has the name of one of its instantiations. -/
def boxScope : Scope where
  model := {
    unit := "boxes"
    declarations := [
      .generic { name := "Box", parameter := "T", fields := [
        { owner := "Box", name := "value", type := some (.param "T") }] },
      .object { name := "StringBox", fields := [
        { owner := "StringBox", name := "closed", type := some (.ref "boolean") }] }] }
  registry := {}

theorem boxScope_resolved : boxScope.resolve {} = (.ok (), (boxScope.resolve {}).2) := by
  have hok : (boxScope.resolve {}).1.toOption = some () := by
    decide +kernel
  exact Prod.ext (except_toOption_eq_some.1 hok) rfl

theorem boxScope_boolean : ∃ s s' t, boxScope.resolve {} = (.ok (), s) ∧
    boxScope.instantiate "Box" [.name "boolean"] s = (.ok ⟨"Box", "Boolean"⟩, s') ∧
      s'.graph.assertComplete = .ok () ∧
      s'.graph.get? "BooleanBox" = some (.instantiation t) ∧ t.filled = true := by
  obtain ⟨hcomplete, hclosed, hnext⟩ := calls_after_resolve boxScope_resolved []
  have hcall : (boxScope.instantiate "Box" [.name "boolean"] (boxScope.resolve {}).2).1 =
      .ok ⟨"Box", "Boolean"⟩ := by
    refine except_toOption_eq_some.1 ?_
    decide +kernel
  have hknown : boxScope.Knows [.name "boolean"] := by
    intro name hname hunknown
    cases List.mem_singleton.1 hname
    exact absurd hunknown.2.1 (by decide)
  obtain ⟨hanswered, hkeeps⟩ := hnext _ _ _ _ (Prod.ext hcall rfl)
  obtain ⟨t, hget, -, hfilled⟩ := hanswered.2 (hclosed trivial _)
  exact ⟨_, _, t, boxScope_resolved, Prod.ext hcall rfl,
    (hkeeps (hcomplete fun _ h => nomatch h)).2 hknown, hget, hfilled⟩

/-- After the resolution a name that nothing is known about makes a type, and the graph is not
complete any more. A call that has failed is answered when it is repeated, with a type that the
graph does not have. -/
theorem boxScope_incomplete :
    let resolved := (boxScope.resolve {}).2
    let unknown := boxScope.instantiate "Box" [.name "Nope"] resolved
    let failed := boxScope.instantiate "Box" [.name "string"] resolved
    let repeated := boxScope.instantiate "Box" [.name "string"] failed.2
    (boxScope.resolve {}).1.toOption = some () ∧
      unknown.1.toOption = some ⟨"Box", "Nope"⟩ ∧
      unknown.2.graph.assertComplete.toOption = none ∧
      failed.1.toOption = none ∧
      repeated.1.toOption = some ⟨"Box", "String"⟩ ∧
      (repeated.2.graph.instantiation? ⟨"Box", "String"⟩).isNone = true := by
  decide +kernel

end Scope

end SchemaCompiler
