import SchemaCompiler.Proofs.Closure

/-! What calls add to a state, whatever the state is and however they end. Nothing that was there
goes away or changes: the graph, the instantiations begun and the finished ones grow at their ends.
An instantiation is added to the graph once it is filled, and a call that ends well has added all
that it began. -/

namespace SchemaCompiler

namespace Node

def instantiations (nodes : List Node) : List Instantiation :=
  nodes.filterMap fun
    | .instantiation t => some t
    | _ => none

theorem mem_instantiations {nodes : List Node} {t : Instantiation} :
    t ∈ instantiations nodes ↔ .instantiation t ∈ nodes := by
  rw [instantiations, List.mem_filterMap]
  constructor
  · rintro ⟨node, hnode, h⟩
    cases node <;> cases h
    exact hnode
  · exact fun h => ⟨_, h, rfl⟩

end Node

namespace Resolution

open Node (instantiations mem_instantiations)

/-- The second state is the first with some nodes and some instantiations that were begun. The
instantiations among the nodes are filled; the other nodes are entered for types of which `enters`
is true. -/
structure Adds (enters : Named → Prop) (s s' : Resolution) (added : List Node)
    (begun : List Instantiation) : Prop where
  nodes : s'.graph.nodes = s.graph.nodes ++ added
  templates : s'.graph.templates = s.graph.templates
  memo : s'.memo = s.memo ++ begun
  finished : s'.finished = s.finished ++ (instantiations added).map (·.key)
  keys : (begun.map (·.key)).Nodup
  fresh : ∀ t ∈ begun, t.key ∉ s.memo.map (·.key)
  filled : ∀ t, .instantiation t ∈ added → t ∈ begun ∧ t.filled = true
  names : (added.map Node.name).Nodup
  free : ∀ node ∈ added, node.name ∉ s.graph.nodes.map Node.name ∧
    node.name ∉ s.graph.templates.map (·.name)
  origin : ∀ node ∈ added, (∃ t, node = .instantiation t) ∨
    ∃ t site, enters t ∧ node = t.shell site

namespace Adds

variable {enters : Named → Prop} {s s' s'' : Resolution} {added added' : List Node}
  {begun begun' : List Instantiation}

theorem refl (s : Resolution) : Adds enters s s [] [] where
  nodes := (List.append_nil _).symm
  templates := rfl
  memo := (List.append_nil _).symm
  finished := (List.append_nil _).symm
  keys := List.nodup_nil
  fresh _ h := nomatch h
  filled _ h := nomatch h
  names := List.nodup_nil
  free _ h := nomatch h
  origin _ h := nomatch h

theorem trans (h : Adds enters s s' added begun) (h' : Adds enters s' s'' added' begun') :
    Adds enters s s'' (added ++ added') (begun ++ begun') where
  nodes := by rw [h'.nodes, h.nodes, List.append_assoc]
  templates := h'.templates.trans h.templates
  memo := by rw [h'.memo, h.memo, List.append_assoc]
  finished := by
    rw [h'.finished, h.finished, List.append_assoc, instantiations, instantiations, instantiations,
      List.filterMap_append, List.map_append]
  keys := by
    rw [List.map_append]
    refine h.keys.append h'.keys fun key hkey hkey' => ?_
    obtain ⟨t, ht, rfl⟩ := List.mem_map.1 hkey'
    exact h'.fresh t ht (by rw [h.memo, List.map_append]; exact List.mem_append_right _ hkey)
  fresh t ht := by
    rcases List.mem_append.1 ht with ht | ht
    · exact h.fresh t ht
    · have hfresh := h'.fresh t ht
      rw [h.memo, List.map_append, List.mem_append, not_or] at hfresh
      exact hfresh.1
  filled t ht := by
    rcases List.mem_append.1 ht with ht | ht
    · exact (h.filled t ht).imp_left (List.mem_append_left _)
    · exact (h'.filled t ht).imp_left (List.mem_append_right _)
  names := by
    rw [List.map_append]
    refine h.names.append h'.names fun name hname hname' => ?_
    obtain ⟨node, hnode, rfl⟩ := List.mem_map.1 hname'
    refine (h'.free node hnode).1 ?_
    rw [h.nodes, List.map_append]
    exact List.mem_append_right _ hname
  free node hnode := by
    rcases List.mem_append.1 hnode with hnode | hnode
    · exact h.free node hnode
    · have hfree := h'.free node hnode
      rw [h.nodes, h.templates, List.map_append, List.mem_append, not_or] at hfree
      exact ⟨hfree.1.1, hfree.2⟩
  origin node hnode := (List.mem_append.1 hnode).elim (h.origin node) (h'.origin node)

/-- One type is entered under a free name. -/
theorem enter {t : Named} (site : Site) (ht : enters t) (hkey : ∀ key, t ≠ .instantiation key)
    (htemplate : s.graph.template? t.name = none) (hget : s.graph.get? t.name = none) :
    Adds enters s { s with graph := { s.graph with nodes := s.graph.nodes ++ [t.shell site] } }
      [t.shell site] [] where
  nodes := rfl
  templates := rfl
  memo := (List.append_nil _).symm
  finished := by cases t <;> first | exact absurd rfl (hkey _) | exact (List.append_nil _).symm
  keys := List.nodup_nil
  fresh _ h := nomatch h
  filled i hi := by
    cases t <;> first | exact absurd rfl (hkey _) | cases List.mem_singleton.1 hi
  names := List.nodup_singleton _
  free node hnode := by
    rw [List.mem_singleton.1 hnode, Named.shell_name]
    exact ⟨TypeGraph.get?_eq_none.1 hget, TypeGraph.template?_eq_none.1 htemplate⟩
  origin node hnode := .inr ⟨t, site, ht, List.mem_singleton.1 hnode⟩

/-- An instantiation is begun, and then more is added. -/
theorem begin {i : Instantiation} (hnew : i.key ∉ s.memo.map (·.key))
    (h : Adds enters (s.begin i) s' added begun) : Adds enters s s' added (i :: begun) where
  nodes := h.nodes
  templates := h.templates
  memo := by rw [h.memo, Resolution.begin, List.append_assoc, List.singleton_append]
  finished := h.finished
  keys := by
    refine List.nodup_cons.2 ⟨fun hmem => ?_, h.keys⟩
    obtain ⟨t, ht, hkey⟩ := List.mem_map.1 hmem
    exact h.fresh t ht (by simp [Resolution.begin, hkey])
  fresh t ht := by
    rcases List.mem_cons.1 ht with rfl | ht
    · exact hnew
    · have hfresh := h.fresh t ht
      rw [Resolution.begin, List.map_append, List.mem_append, not_or] at hfresh
      exact hfresh.1
  filled t ht := (h.filled t ht).imp_left (List.mem_cons_of_mem _)
  names := h.names
  free := h.free
  origin := h.origin

/-- The instantiation that was begun first is filled. -/
theorem fill {i : Instantiation} (h : Adds enters s s' added (i :: begun))
    (hopen : .instantiation i ∉ added) (fields : List GraphField) :
    Adds enters s (s'.fill i.key fields) added
      ({ i with fields := fields, filled := true } :: begun) where
  nodes := h.nodes
  templates := h.templates
  memo := by
    have hkeep : ∀ l : List Instantiation, (∀ t ∈ l, t.key ≠ i.key) →
        l.map (fun t => if t.key = i.key then { t with fields := fields, filled := true } else t) =
          l :=
      fun l hl => (List.map_congr_left fun t ht => if_neg (hl t ht)).trans (List.map_id l)
    have hold : ∀ t ∈ s.memo, t.key ≠ i.key := fun t ht heq =>
      h.fresh i List.mem_cons_self (List.mem_map.2 ⟨t, ht, heq⟩)
    have hlater : ∀ t ∈ begun, t.key ≠ i.key := fun t ht heq =>
      (List.nodup_cons.1 h.keys).1 (List.mem_map.2 ⟨t, ht, heq⟩)
    rw [Resolution.fill, h.memo, List.map_append, List.map_cons, if_pos rfl, hkeep s.memo hold,
      hkeep begun hlater]
  finished := h.finished
  keys := h.keys
  fresh t ht := by
    rcases List.mem_cons.1 ht with rfl | ht
    · exact h.fresh i List.mem_cons_self
    · exact h.fresh t (List.mem_cons_of_mem _ ht)
  filled t ht := by
    obtain ⟨hmem, hfilled⟩ := h.filled t ht
    rcases List.mem_cons.1 hmem with rfl | hmem
    · exact absurd ht hopen
    · exact ⟨List.mem_cons_of_mem _ hmem, hfilled⟩
  names := h.names
  free := h.free
  origin := h.origin

/-- A filled instantiation enters the graph and counts as finished. -/
theorem finish {i : Instantiation} (h : Adds enters s s' added begun) (hbegun : i ∈ begun)
    (hfilled : i.filled = true) (htemplate : s'.graph.template? i.key.name = none)
    (hget : s'.graph.get? i.key.name = none) :
    Adds enters s { s' with
        graph := { s'.graph with nodes := s'.graph.nodes ++ [.instantiation i] }
        finished := s'.finished ++ [i.key] }
      (added ++ [.instantiation i]) begun where
  nodes := by rw [h.nodes, List.append_assoc]
  templates := h.templates
  memo := h.memo
  finished := by
    rw [h.finished, instantiations, instantiations, List.filterMap_append, List.map_append,
      List.append_assoc]
    rfl
  keys := h.keys
  fresh := h.fresh
  filled t ht := by
    rcases List.mem_append.1 ht with ht | ht
    · exact h.filled t ht
    · cases List.mem_singleton.1 ht
      exact ⟨hbegun, hfilled⟩
  names := by
    rw [TypeGraph.get?_eq_none, h.nodes, List.map_append, List.mem_append, not_or] at hget
    rw [List.map_append, List.map_singleton, ← List.concat_eq_append, List.nodup_concat]
    exact ⟨hget.2, h.names⟩
  free node hnode := by
    rcases List.mem_append.1 hnode with hnode | hnode
    · exact h.free node hnode
    · rw [TypeGraph.get?_eq_none, h.nodes, List.map_append, List.mem_append, not_or] at hget
      rw [TypeGraph.template?_eq_none, h.templates] at htemplate
      rw [List.mem_singleton.1 hnode]
      exact ⟨hget.1, htemplate⟩
  origin node hnode := by
    rcases List.mem_append.1 hnode with hnode | hnode
    · exact h.origin node hnode
    · exact .inl ⟨i, List.mem_singleton.1 hnode⟩

end Adds

end Resolution

open Resolution (Adds)

/-- A step that only adds to states, and that has finished all it began when it ends well. -/
def ResolveM.Adding {α : Type} (enters : Named → Prop) (x : ResolveM α) : Prop :=
  ∀ s, ∃ added begun, Adds enters s (x s).2 added begun ∧
    ∀ a, (x s).1 = .ok a → ∀ t ∈ begun, .instantiation t ∈ added

namespace ResolveM.Adding

variable {α β : Type} {enters : Named → Prop} {x : ResolveM α}

theorem nothing (s : Resolution) (r : Except CompileError α) :
    ∃ added begun, Adds enters s s added begun ∧
      ∀ a, r = .ok a → ∀ t ∈ begun, .instantiation t ∈ added :=
  ⟨[], [], .refl s, fun _ _ _ h => nomatch h⟩

theorem pure (a : α) : Adding enters (Pure.pure a : ResolveM α) :=
  fun s => nothing s (.ok a)

theorem throw (e : CompileError) : Adding enters (MonadExcept.throw e : ResolveM α) :=
  fun s => nothing s (.error e)

theorem refuse (c : Cause) : Adding enters (ResolveM.refuse c : ResolveM α) :=
  throw _

theorem bind {f : α → ResolveM β} (hx : Adding enters x) (hf : ∀ a, Adding enters (f a)) :
    Adding enters (x >>= f) := by
  intro s
  obtain ⟨added, begun, hadds, hall⟩ := hx s
  rcases hrun : x s with ⟨e | a, mid⟩
  · rw [hrun] at hadds
    rw [ResolveM.bind_error hrun]
    exact ⟨added, begun, hadds, fun _ h => nomatch h⟩
  · rw [hrun] at hadds hall
    rw [ResolveM.bind_ok hrun]
    obtain ⟨added', begun', hadds', hall'⟩ := hf a mid
    refine ⟨_, _, hadds.trans hadds', fun b hb t ht => ?_⟩
    rcases List.mem_append.1 ht with ht | ht
    · exact List.mem_append_left _ (hall a rfl t ht)
    · exact List.mem_append_right _ (hall' b hb t ht)

theorem attaching (hx : Adding enters x) (site : Site) :
    Adding enters (ResolveM.attaching site x) := by
  intro s
  obtain ⟨added, begun, hadds, hall⟩ := hx s
  rw [ResolveM.attaching_apply]
  refine ⟨added, begun, hadds, fun a ha => ?_⟩
  rcases hrun : (x s).1 with e | b
  · rw [hrun] at ha
    cases ha
  · exact hall b hrun

end ResolveM.Adding

namespace Scope

open ResolveM (Adding)

variable {scope : Scope} {inst : Instantiate} {enters : Named → Prop}

/-- Whether the types that some names stand for may be entered. -/
def Enters (scope : Scope) (enters : Named → Prop) (tag : Option String) (names : List String) :
    Prop :=
  ∀ name ∈ names, ∀ t, scope.target name tag = .ok t → enters t

/-- Whether an application of a generic to types only adds. -/
def OnlyAdds (scope : Scope) (enters : Named → Prop) (inst : Instantiate) : Prop :=
  ∀ (generic : String) (types : List TypeNode),
    Adding enters (inst scope generic (types.map .type))

theorem named_adding {name : String} {tag : Option String}
    (h : ∀ t, scope.target name tag = .ok t → enters t) : Adding enters (scope.named name tag) := by
  intro s
  rw [named_eq]
  rcases htarget : scope.target name tag with c | t
  · exact Adding.refuse c s
  · have hkey := (target_isTarget htarget).ne_instantiation
    simp only [ResolveM.onGraph_apply]
    rcases henter : s.graph.enter scope.site t with e | ⟨r, g⟩
    · exact Adding.nothing s _
    · rcases TypeGraph.enter_cases hkey henter with
        ⟨-, -, -, -, rfl⟩ | ⟨htemplate, hget, -, rfl⟩
      · exact Adding.nothing s _
      · exact ⟨_, [], .enter scope.site (h t htarget) hkey htemplate hget, fun _ _ _ h => nomatch h⟩

theorem adding_closed (enters : Named → Prop) :
    ResolveM.Closed fun _ x => Adding enters x where
  pure := .pure
  refuse := .refuse
  bind := .bind

/-- Whether the types that fields mention may be entered. -/
def FieldsEnter (scope : Scope) (enters : Named → Prop) (ds : List FieldDescriptor) : Prop :=
  ∀ x ∈ ds.flatMap FieldDescriptor.tagged, scope.Enters enters x.1 x.2.refs

theorem resolveFields_adding
    (hinst : ∀ site, (scope.focus site).OnlyAdds enters inst)
    (owner : String) (env : Environment) {ds : List FieldDescriptor}
    (h : scope.FieldsEnter enters ds) : Adding enters (scope.resolveFields inst owner env ds) := by
  refine (adding_closed enters).resolveFields owner env fun d hd => ?_
  have hnamed : ∀ x ∈ d.tagged, ∀ name ∈ x.2.refs,
      Adding enters ((scope.focus ⟨owner, d.name⟩).named name x.1) := fun x hx name hname =>
    named_adding (h x (List.mem_flatMap.2 ⟨d, hd, hx⟩) name hname)
  exact ((adding_closed enters).resolveField (hinst ⟨owner, d.name⟩) env hnamed).attaching _

theorem arguments_adding {args : List GenericArgument}
    (h : ∀ name, .name name ∈ args → scope.Enters enters none [name]) :
    Adding enters (scope.arguments args) :=
  (adding_closed enters).arguments fun name hname =>
    named_adding (h name hname name List.mem_cons_self)

/-- All that applying a generic to one type can do. A key that was begun is answered as it is. A new
one is begun; when the call ends well the graph has its instantiation, and all others that were
begun on the way. -/
inductive Applied (enters : Named → Prop) (key : InstanceKey) (s : Resolution) :
    Except CompileError InstanceKey × Resolution → Prop
  | cached (h : key ∈ s.memo.map (·.key)) : Applied enters key s (.ok key, s)
  | done {s' : Resolution} {added : List Node} {begun : List Instantiation}
      (hnew : key ∉ s.memo.map (·.key)) (hadds : Adds enters s s' added begun)
      (hall : ∀ t ∈ begun, .instantiation t ∈ added)
      (hkey : ∃ t, .instantiation t ∈ added ∧ t.key = key) : Applied enters key s (.ok key, s')
  | failed {e : CompileError} {s' : Resolution} {added : List Node} {begun : List Instantiation}
      (hnew : key ∉ s.memo.map (·.key)) (hadds : Adds enters s s' added begun)
      (hkey : ∀ t, .instantiation t ∈ added → t.key ≠ key) : Applied enters key s (.error e, s')

theorem Applied.adding {key : InstanceKey} {x : ResolveM InstanceKey}
    (h : ∀ s, Applied enters key s (x s)) : Adding enters x := by
  intro s
  have hs := h s
  rcases hrun : x s with ⟨e | a, s'⟩
  · rw [hrun] at hs
    cases hs with
    | failed hnew hadds => exact ⟨_, _, hadds, fun _ h => nomatch h⟩
  · rw [hrun] at hs
    cases hs with
    | cached => exact Adding.nothing s _
    | done hnew hadds hall => exact ⟨_, _, hadds, fun _ _ => hall⟩

/-- An application to one type, when the fields of the generic only add. -/
theorem instantiateDecl_applied_of {depth : Nat} {decl : GenericDecl} {argument : Named}
    (hfields : ∀ d, depth = d + 1 → Adding enters
      (scope.resolveFields (instantiateWithin d) decl.name [(decl.parameter, .named argument)]
        decl.fields)) (s : Resolution) :
    Applied enters ⟨decl.name, argument.name⟩ s (scope.instantiateDecl depth decl argument s) := by
  rcases hcached : s.cached? ⟨decl.name, argument.name⟩ with _ | t
  · have hnew := cached?_eq_none.1 hcached
    cases depth with
    | zero =>
      rw [instantiateDecl_zero hcached]
      exact .failed hnew (.refl s) fun _ h => nomatch h
    | succ depth =>
      rw [instantiateDecl_succ depth hcached]
      obtain ⟨added, begun', hbody, hall⟩ := hfields depth rfl (s.begin (begun decl argument))
      -- what the fields have added does not have the key, which was begun before them
      have hkey : ∀ t, .instantiation t ∈ added → t.key ≠ ⟨decl.name, argument.name⟩ :=
        fun t ht heq => hbody.fresh t (hbody.filled t ht).1 (by simp [Resolution.begin, begun, heq])
      have hadds := hbody.begin (i := begun decl argument) hnew
      rcases hrun : scope.resolveFields (instantiateWithin depth) decl.name
        [(decl.parameter, .named argument)] decl.fields (s.begin (begun decl argument))
        with ⟨e | fields, mid⟩
      · rw [ResolveM.bind_error hrun]
        rw [hrun] at hadds
        exact .failed hnew hadds hkey
      · rw [ResolveM.bind_ok hrun, finish_apply]
        rw [hrun] at hadds hall
        have hfill := hadds.fill (fun h => hkey _ h rfl) fields
        rcases hadd : mid.graph.add (.instantiation (filled decl argument fields)) with e | ⟨r, g⟩
        · exact .failed hnew hfill hkey
        · obtain ⟨-, htemplate, hget, rfl⟩ := TypeGraph.add_eq_ok hadd
          refine .done hnew (hfill.finish List.mem_cons_self rfl htemplate hget) (fun t ht => ?_)
            ⟨_, List.mem_append_right _ (List.mem_singleton_self _), rfl⟩
          rcases List.mem_cons.1 ht with rfl | ht
          · exact List.mem_append_right _ (List.mem_singleton_self _)
          · exact List.mem_append_left _ (hall fields rfl t ht)
  · rw [instantiateDecl_cached depth hcached]
    exact .cached (by
      have hfound : t.key = ⟨decl.name, argument.name⟩ := by simpa using List.find?_some hcached
      exact hfound ▸ List.mem_map_of_mem (List.mem_of_find?_eq_some hcached))

/-- Whether the types that the fields of generics mention may be entered. -/
def GenericsEnter (scope : Scope) (enters : Named → Prop) : Prop :=
  ∀ decl, .generic decl ∈ scope.model.declarations → scope.FieldsEnter enters decl.fields

theorem onlyAdds_of_applied {depth : Nat}
    (h : ∀ (decl : GenericDecl) (argument : Named) (s : Resolution),
      scope.model.get? decl.name = some (.generic decl) →
        Applied enters ⟨decl.name, argument.name⟩ s (scope.instantiateDecl depth decl argument s)) :
    scope.OnlyAdds enters (instantiateWithin depth) := by
  intro generic types
  rw [instantiateWithin_types]
  rcases hget : scope.model.get? generic with _ | ⟨d | decl | d | d⟩
  case some.generic =>
    obtain rfl : decl.name = generic := SourceModel.get?_name hget
    dsimp only
    rcases namedTypes types with _ | ⟨_ | ⟨argument, _ | ⟨second, rest⟩⟩⟩
    · exact .refuse _
    · exact .refuse _
    · exact Applied.adding fun s => h decl argument s hget
    · exact .refuse _
  case none => exact .throw _
  all_goals exact .refuse _

/-- An application to one type, however deep the ones inside it go. -/
theorem instantiateDecl_applied (depth : Nat) (scope : Scope) (h : scope.GenericsEnter enters)
    {decl : GenericDecl} (hdecl : scope.model.get? decl.name = some (.generic decl))
    (argument : Named) (s : Resolution) :
    Applied enters ⟨decl.name, argument.name⟩ s (scope.instantiateDecl depth decl argument s) := by
  induction depth using Nat.strongRecOn generalizing scope decl argument s with
  | _ depth ih =>
    refine instantiateDecl_applied_of (fun d hd => ?_) s
    have hinst (site : Site) : (scope.focus site).OnlyAdds enters (instantiateWithin d) :=
      onlyAdds_of_applied fun decl argument s hdecl =>
        ih d (hd ▸ Nat.lt_succ_self d) (scope.focus site) h hdecl argument s
    exact resolveFields_adding hinst _ _ (h decl (SourceModel.get?_mem hdecl))

end Scope

end SchemaCompiler
