import SchemaCompiler.Proofs.Plan

/-! A resolution carries out its plan. The one thing that a plan cannot know is what the graph holds
under a name of which nothing is known; in a tidy state that is the pending type of the name. Tidy
states stay tidy, and from them each step of the resolver is `perform` of its plan. -/

namespace SchemaCompiler

namespace SourceModel

theorem get?_mem {model : SourceModel} {name : String} {d : Declaration}
    (h : model.get? name = some d) : d ∈ model.declarations :=
  List.mem_of_find?_eq_some h

theorem get?_name {model : SourceModel} {name : String} {d : Declaration}
    (h : model.get? name = some d) : d.name = name := by
  simpa using List.find?_some h

theorem get?_eq_none {model : SourceModel} {name : String} :
    model.get? name = none ↔ ∀ d ∈ model.declarations, d.name ≠ name := by
  simp [get?, List.find?_eq_none]

end SourceModel

namespace ScalarRegistry

theorem byName?_mem {registry : ScalarRegistry} {name : String} {s : Scalar}
    (h : registry.byName? name = some s) : s ∈ registry.scalars :=
  List.mem_of_find?_eq_some h

theorem byName?_name {registry : ScalarRegistry} {name : String} {s : Scalar}
    (h : registry.byName? name = some s) : s.name = name := by
  simpa using List.find?_some h

theorem byName?_ne_none {registry : ScalarRegistry} {s : Scalar} (h : s ∈ registry.scalars) :
    registry.byName? s.name ≠ none := by
  intro hnone
  rw [byName?, List.find?_eq_none] at hnone
  simpa using hnone s h

theorem lookup_eq_ok {registry : ScalarRegistry} {internalType : String} {tag : Option String}
    {s : Scalar} :
    registry.lookup internalType tag = .ok s ↔ registry.binding? internalType tag = some s := by
  unfold lookup
  rcases registry.binding? internalType tag with _ | t
  · rcases registry.tags internalType with _ | ⟨_, _⟩ <;> rcases tag with _ | _ <;> simp
  · simp

theorem lookup_mem {registry : ScalarRegistry} {internalType : String} {tag : Option String}
    {s : Scalar} (h : registry.lookup internalType tag = .ok s) : s ∈ registry.scalars :=
  List.mem_of_find?_eq_some (lookup_eq_ok.1 h)

end ScalarRegistry

namespace TypeGraph

theorem get?_mem {graph : TypeGraph} {name : String} {node : Node}
    (h : graph.get? name = some node) : node ∈ graph.nodes :=
  List.mem_of_find?_eq_some h

theorem get?_name {graph : TypeGraph} {name : String} {node : Node}
    (h : graph.get? name = some node) : node.name = name := by
  simpa using List.find?_some h

theorem get?_eq_none {graph : TypeGraph} {name : String} :
    graph.get? name = none ↔ name ∉ graph.nodes.map Node.name := by
  simp [get?, List.find?_eq_none]

theorem template?_eq_none {graph : TypeGraph} {name : String} :
    graph.template? name = none ↔ name ∉ graph.templates.map (·.name) := by
  simp [template?, List.find?_eq_none]

/-- A node is added only under a name that neither a node nor a template has. -/
theorem add_eq_ok {graph graph' : TypeGraph} {node : Node} {r : Named}
    (h : graph.add node = .ok (r, graph')) :
    r = node.ref ∧ graph.template? node.name = none ∧ graph.get? node.name = none ∧
      graph' = { graph with nodes := graph.nodes ++ [node] } := by
  unfold add at h
  split at h
  · cases h
  · rename_i htemplate
    rcases hget : graph.get? node.name with _ | n
    · rw [hget] at h
      cases h
      exact ⟨rfl, by simpa using htemplate, rfl, rfl⟩
    · rw [hget] at h
      cases n <;> cases h

theorem add_ok {graph : TypeGraph} (node : Node) (htemplate : graph.template? node.name = none)
    (hget : graph.get? node.name = none) :
    graph.add node = .ok (node.ref, { graph with nodes := graph.nodes ++ [node] }) := by
  simp [add, htemplate, hget]

end TypeGraph

/-- The node of a type when it is first entered. -/
def Named.shell (site : Site) : Named → Node
  | .object name => .object { name := name }
  | .enum name => .enum { name := name }
  | .scalar s => .scalar s
  | .pending name => .pending name site
  | .instantiation key => .instantiation ⟨key, default, [], none, false⟩

@[simp] theorem Named.shell_ref (site : Site) (t : Named) : (t.shell site).ref = t := by
  cases t <;> rfl

@[simp] theorem Named.shell_name (site : Site) (t : Named) : (t.shell site).name = t.name := by
  rw [Node.name, shell_ref]

/-- Whether a node is what a reference to a type leads to. Under a name of which nothing is known
that is any node but an instantiation. -/
def Named.Accepts : Named → Node → Prop
  | .object _, .object _ => True
  | .enum _, .enum _ => True
  | .scalar s, .scalar existing => existing = s
  | .pending _, .instantiation _ => False
  | .pending _, _ => True
  | _, _ => False

/-- Where something is known about a name, the node that a reference to it leads to is its type. -/
theorem Named.Accepts.ref_eq {t : Named} {node : Node} (h : t.Accepts node)
    (hname : node.name = t.name) (hkind : t.kind ≠ .pending) : node.ref = t := by
  cases t with
  | object name =>
    cases node with
    | object => exact congrArg Named.object hname
    | _ => exact h.elim
  | enum name =>
    cases node with
    | enum => exact congrArg Named.enum hname
    | _ => exact h.elim
  | scalar s =>
    cases node with
    | scalar existing => exact congrArg Named.scalar h
    | _ => exact h.elim
  | pending name => exact absurd rfl hkind
  | instantiation key => cases node <;> exact h.elim

namespace TypeGraph

variable {graph g : TypeGraph} {site : Site} {t r : Named}

theorem enter_of_accepts {node : Node} (hget : graph.get? t.name = some node) (h : t.Accepts node)
    (site : Site) : graph.enter site t = .ok (node.ref, graph) := by
  cases t with
  | object name =>
    rw [enter, shell, show graph.get? name = some node from hget]
    cases node <;> first | exact h.elim | rfl
  | enum name =>
    rw [enter, shell, show graph.get? name = some node from hget]
    cases node <;> first | exact h.elim | rfl
  | scalar s =>
    rw [enter, adopt, show graph.get? s.name = some node from hget]
    cases node with
    | scalar existing =>
      obtain rfl : existing = s := h
      exact if_pos rfl
    | _ => exact h.elim
  | pending name =>
    rw [enter, pending, show graph.get? name = some node from hget]
    cases node <;> first | exact h.elim | rfl
  | instantiation key => cases node <;> exact h.elim

/-- Entering a type answers what stands under its name, or it adds the type under a free name. -/
theorem enter_cases (ht : ∀ key, t ≠ .instantiation key) (h : graph.enter site t = .ok (r, g)) :
    (∃ node, graph.get? t.name = some node ∧ t.Accepts node ∧ r = node.ref ∧ g = graph) ∨
      graph.template? t.name = none ∧ graph.get? t.name = none ∧ r = t ∧
        g = { graph with nodes := graph.nodes ++ [t.shell site] } := by
  have added : graph.add (t.shell site) = .ok (r, g) →
      graph.template? t.name = none ∧ graph.get? t.name = none ∧ r = t ∧
        g = { graph with nodes := graph.nodes ++ [t.shell site] } := by
    intro hadd
    obtain ⟨hr, htemplate, hget, hg⟩ := add_eq_ok hadd
    rw [Named.shell_name] at htemplate hget
    exact ⟨htemplate, hget, by simpa using hr, hg⟩
  rcases hget : graph.get? t.name with _ | node
  · refine .inr (hget ▸ added ?_)
    cases t with
    | object name => rwa [enter, shell, show graph.get? name = none from hget] at h
    | enum name => rwa [enter, shell, show graph.get? name = none from hget] at h
    | scalar s => rwa [enter, adopt, show graph.get? s.name = none from hget] at h
    | pending name => rwa [enter, pending, show graph.get? name = none from hget] at h
    | instantiation key => exact absurd rfl (ht key)
  · have hheld : graph.get? t.name ≠ none := by
      rw [hget]
      exact Option.some_ne_none node
    have accepted (haccepts : t.Accepts node) :
        ∃ n, some node = some n ∧ t.Accepts n ∧ r = n.ref ∧ g = graph := by
      rw [enter_of_accepts hget haccepts] at h
      cases h
      exact ⟨node, rfl, haccepts, rfl, rfl⟩
    cases t with
    | object name =>
      rw [enter, shell, show graph.get? name = some node from hget] at h
      cases node with
      | object => exact .inl (accepted trivial)
      | _ => cases h
    | enum name =>
      rw [enter, shell, show graph.get? name = some node from hget] at h
      cases node with
      | enum => exact .inl (accepted trivial)
      | _ => cases h
    | scalar s =>
      rw [enter, adopt, show graph.get? s.name = some node from hget] at h
      cases node with
      | scalar existing =>
        by_cases heq : existing = s
        · exact .inl (accepted heq)
        · simp only at h
          rw [if_neg heq] at h
          exact absurd (added h).2.1 hheld
      | _ => exact absurd (added h).2.1 hheld
    | pending name =>
      rw [enter, pending, show graph.get? name = some node from hget] at h
      cases node with
      | instantiation => cases h
      | _ => exact .inl (accepted trivial)
    | instantiation key => exact absurd rfl (ht key)

end TypeGraph

namespace Scope

/-- A name of which neither the model nor the scalars know anything. -/
def IsUnknown (scope : Scope) (name : String) : Prop :=
  scope.model.get? name = none ∧ scope.registry.has name = false ∧
    scope.registry.byName? name = none

def IsTarget (scope : Scope) : Named → Prop
  | .object name => ∃ decl, .object decl ∈ scope.model.declarations ∧ decl.name = name
  | .enum name => ∃ decl, .enum decl ∈ scope.model.declarations ∧ decl.name = name
  | .scalar s => s ∈ scope.registry.scalars
  | .pending name => scope.IsUnknown name
  | .instantiation _ => False

theorem IsTarget.ne_instantiation {scope : Scope} {t : Named} (h : scope.IsTarget t)
    (key : InstanceKey) : t ≠ .instantiation key := by
  rintro rfl
  exact h

theorem scalarOf_isTarget {scope : Scope} {otherwise : Except Cause Named} {name : String}
    {tag : Option String} {t : Named} (h : scope.scalarOf otherwise name tag = .ok t)
    (hother : scope.registry.has name = false → scope.registry.byName? name = none →
      otherwise = .ok t → scope.IsTarget t) : scope.IsTarget t := by
  unfold scalarOf at h
  split at h
  · rcases hl : scope.registry.lookup name tag with c | s
    · rw [hl] at h; cases h
    · rw [hl] at h; cases h
      exact ScalarRegistry.lookup_mem hl
  · rename_i hhas
    rcases hb : scope.registry.byName? name with _ | s
    · rw [hb] at h
      exact hother (by simpa using hhas) hb h
    · rw [hb] at h; cases h
      exact ScalarRegistry.byName?_mem hb

theorem target_isTarget {scope : Scope} {name : String} {tag : Option String} {t : Named}
    (h : scope.target name tag = .ok t) : scope.IsTarget t := by
  unfold target at h
  split at h
  · rename_i decl hget
    cases h
    exact ⟨decl, SourceModel.get?_mem hget, SourceModel.get?_name hget⟩
  · rename_i decl hget
    cases h
    exact ⟨decl, SourceModel.get?_mem hget, SourceModel.get?_name hget⟩
  · cases h
  · exact scalarOf_isTarget h fun _ _ hc => by cases hc
  · rename_i hget
    exact scalarOf_isTarget h fun hhas hb ht => by cases ht; exact ⟨hget, hhas, hb⟩

/-- Under a name of which nothing is known the graph holds a pending type or an instantiation. -/
def Tidy (scope : Scope) (s : Resolution) : Prop :=
  ∀ node ∈ s.graph.nodes, scope.IsUnknown node.name →
    node.ref = .pending node.name ∨ ∃ t, node = .instantiation t

/-- Entering a type answers that type: it is there already, or it is added under a name that was
free. -/
theorem enter_eq_ok {scope : Scope} {s : Resolution} {site : Site} {t r : Named} {g : TypeGraph}
    (hs : scope.Tidy s) (ht : scope.IsTarget t) (h : s.graph.enter site t = .ok (r, g)) :
    r = t ∧ ((g = s.graph ∧ ∃ node ∈ s.graph.nodes, node.ref = t) ∨
      (s.graph.template? t.name = none ∧ s.graph.get? t.name = none ∧
        g = { s.graph with nodes := s.graph.nodes ++ [t.shell site] })) := by
  rcases TypeGraph.enter_cases ht.ne_instantiation h with
    ⟨node, hget, haccepts, rfl, rfl⟩ | ⟨htemplate, hget, rfl, rfl⟩
  · have hnode := TypeGraph.get?_mem hget
    have hname := TypeGraph.get?_name hget
    have href : node.ref = t := by
      cases t with
      | pending name =>
        rcases hs node hnode (hname ▸ ht) with hpending | ⟨i, rfl⟩
        · rw [hpending, hname]
          rfl
        · exact haccepts.elim
      | _ => exact haccepts.ref_eq hname (by rintro ⟨⟩)
    exact ⟨href, .inl ⟨rfl, node, hnode, href⟩⟩
  · exact ⟨rfl, .inr ⟨htemplate, hget, rfl⟩⟩

theorem tidy_append {scope : Scope} {s s' : Resolution} {site : Site} {t : Named}
    (hs : scope.Tidy s) (ht : scope.IsTarget t)
    (h : s'.graph.nodes = s.graph.nodes ++ [t.shell site]) : scope.Tidy s' := by
  intro node hnode hunknown
  rw [h, List.mem_append, List.mem_singleton] at hnode
  rcases hnode with hnode | rfl
  · exact hs node hnode hunknown
  · rw [Named.shell_name] at hunknown ⊢
    rw [Named.shell_ref]
    cases t with
    | object name =>
      obtain ⟨decl, hdecl, hname⟩ := ht
      exact absurd hname (SourceModel.get?_eq_none.1 hunknown.1 _ hdecl)
    | enum name =>
      obtain ⟨decl, hdecl, hname⟩ := ht
      exact absurd hname (SourceModel.get?_eq_none.1 hunknown.1 _ hdecl)
    | scalar sc => exact absurd hunknown.2.2 (ScalarRegistry.byName?_ne_none ht)
    | pending name => exact .inl rfl
    | instantiation key => exact .inr ⟨_, rfl⟩

/-- An instantiation step that keeps states tidy and answers the key of what it was asked for. -/
def Regular (scope : Scope) (inst : Instantiate) : Prop :=
  ∀ site decl argument s, scope.model.get? decl.name = some (.generic decl) → scope.Tidy s →
    scope.Tidy (inst (scope.focus site) decl.name [.type (.named argument)] s).2 ∧
      ∀ key, (inst (scope.focus site) decl.name [.type (.named argument)] s).1 = .ok key →
        key = ⟨decl.name, argument.name⟩

/-- From tidy states a step carries out a plan and leaves the state tidy. -/
def Agrees {α : Type} (scope : Scope) (inst : Instantiate) (x : ResolveM α) (p : Plan α) : Prop :=
  ∀ s, scope.Tidy s → x s = scope.perform inst p s ∧ scope.Tidy (x s).2

namespace Agrees

variable {α β : Type} {scope : Scope} {inst : Instantiate}

theorem of_pure (a : α) : scope.Agrees inst (pure a) (pure a) :=
  fun _ hs => ⟨rfl, hs⟩

theorem refuse (site : Site) (c : Cause) :
    scope.Agrees inst (ResolveM.attaching site (ResolveM.refuse c : ResolveM α))
      (Plan.refuse site c) :=
  fun _ hs => ⟨rfl, hs⟩

theorem throw (site : Site) (c : Cause) :
    scope.Agrees inst (ResolveM.attaching site (throw ⟨c, site⟩ : ResolveM α))
      (Plan.refuse site c) := by
  intro s hs
  have hattach : (⟨c, site⟩ : CompileError).attach site = ⟨c, site⟩ := by
    simp [CompileError.attach]
  refine ⟨?_, hs⟩
  show ((.error ((⟨c, site⟩ : CompileError).attach site), s) : Except CompileError α × Resolution) = _
  rw [hattach, perform_refuse]
  rfl

theorem bind {x : ResolveM α} {p : Plan α} {f : α → ResolveM β} {g : α → Plan β}
    (hx : scope.Agrees inst x p) (hf : ∀ a, scope.Agrees inst (f a) (g a)) :
    scope.Agrees inst (x >>= f) (p >>= g) := by
  intro s hs
  obtain ⟨heq, htidy⟩ := hx s hs
  rw [perform_bind, ResolveM.bind_apply, ResolveM.bind_apply, ← heq]
  rcases h : x s with ⟨e | a, mid⟩
  · rw [h] at htidy; exact ⟨rfl, htidy⟩
  · rw [h] at htidy; exact hf a mid htidy

end Agrees

/-- A reference enters what its name stands for. -/
theorem named_eq (scope : Scope) (name : String) (tag : Option String) :
    scope.named name tag = match scope.target name tag with
      | .ok t => ResolveM.onGraph (·.enter scope.site t)
      | .error c => ResolveM.refuse c := by
  unfold named target scalarOf
  rcases scope.model.get? name with _ | ⟨_ | _ | _ | _⟩
  case none | some.scalar =>
    by_cases hhas : scope.registry.has name
    · rcases scope.registry.lookup name tag <;> simp [hhas, ResolveM.ofExcept] <;> rfl
    · rcases scope.registry.byName? name <;> simp [hhas] <;> rfl
  all_goals rfl

variable {scope : Scope} {inst : Instantiate}

theorem enter_agrees {t : Named} (ht : scope.IsTarget t) :
    scope.Agrees inst
      (ResolveM.attaching scope.site (ResolveM.onGraph (·.enter scope.site t)))
      (Plan.ask scope.site (.enter t) >>= fun _ => pure t) := by
  intro s hs
  rw [perform_bind, perform_ask, ResolveM.bind_apply, ResolveM.attaching_apply,
    ResolveM.attaching_apply, meet, ResolveM.bind_apply, ResolveM.onGraph_apply]
  rcases h : s.graph.enter scope.site t with e | ⟨r, g⟩
  · exact ⟨rfl, hs⟩
  · obtain ⟨rfl, hg⟩ := enter_eq_ok hs ht h
    refine ⟨rfl, ?_⟩
    rcases hg with ⟨rfl, -⟩ | ⟨-, -, rfl⟩
    · exact hs
    · exact tidy_append hs ht rfl

theorem named_agrees (name : String) (tag : Option String) :
    scope.Agrees inst (ResolveM.attaching scope.site (scope.named name tag))
      (scope.planNamed name tag) := by
  rw [named_eq, planNamed]
  rcases h : scope.target name tag with c | t
  · exact Agrees.refuse _ c
  · exact enter_agrees (target_isTarget h)

/-- An instantiation of a declared generic is asked for as a plan says. -/
theorem instantiate_agrees (hinst : scope.Regular inst) {decl : GenericDecl}
    (hdecl : scope.model.get? decl.name = some (.generic decl)) (argument : Named) :
    scope.Agrees inst
      (ResolveM.attaching scope.site (do
        let key ← inst scope decl.name [.type (.named argument)]
        pure (TypeNode.named (.instantiation key))))
      (Plan.ask scope.site (.apply decl argument) >>= fun _ =>
        pure (.named (.instantiation ⟨decl.name, argument.name⟩))) := by
  intro s hs
  obtain ⟨htidy, hkey⟩ := hinst scope.site decl argument s hdecl hs
  rw [show scope.focus scope.site = scope from rfl] at htidy hkey
  rw [perform_bind, perform_ask, ResolveM.bind_apply, ResolveM.attaching_apply,
    ResolveM.attaching_apply, meet, ResolveM.bind_apply, ResolveM.bind_apply,
    show scope.focus scope.site = scope from rfl]
  rcases h : inst scope decl.name [.type (.named argument)] s with ⟨e | key, mid⟩
  · rw [h] at htidy; exact ⟨rfl, htidy⟩
  · rw [h] at htidy hkey
    rw [hkey key rfl]
    exact ⟨rfl, htidy⟩

/-- What applying a generic to closed types does before it comes to an instantiation. -/
def Strict (scope : Scope) (inst : Instantiate) : Prop :=
  ∀ generic types, inst scope generic (types.map .type) =
    match scope.model.get? generic with
    | none => throw ⟨.unresolved generic, scope.site⟩
    | some (.generic decl) =>
      match namedTypes types with
      | some [argument] => inst scope decl.name [.type (.named argument)]
      | some types => ResolveM.refuse (.wrongArity generic types.length)
      | none => ResolveM.refuse .argumentNotNamed
    | some _ => ResolveM.refuse (.notGeneric generic)

theorem apply_agrees (hinst : scope.Regular inst) (hstrict : scope.Strict inst) (generic : String)
    (types : List TypeNode) :
    scope.Agrees inst (ResolveM.attaching scope.site (scope.apply inst generic types))
      (scope.planApply generic types) := by
  unfold apply planApply
  split
  · rcases scope.model.get? generic with _ | ⟨_ | _ | _ | _⟩
    case some.generic =>
      rcases types with _ | ⟨type, _ | ⟨second, rest⟩⟩
      · exact Agrees.refuse _ _
      · exact Agrees.of_pure _
      · exact Agrees.refuse _ _
    all_goals exact Agrees.refuse _ _
  · rw [hstrict]
    rcases hget : scope.model.get? generic with _ | ⟨d | decl | d | d⟩
    case none => exact Agrees.throw _ _
    case some.generic =>
      obtain rfl : decl.name = generic := SourceModel.get?_name hget
      simp only
      rcases namedTypes types with _ | ⟨_ | ⟨argument, _ | ⟨second, rest⟩⟩⟩
      · exact Agrees.refuse _ _
      · exact Agrees.refuse _ _
      · exact instantiate_agrees hinst hget argument
      · exact Agrees.refuse _ _
    all_goals exact Agrees.refuse _ _

mutual

theorem expr_agrees (hinst : scope.Regular inst) (hstrict : scope.Strict inst)
    (tag : Option String) (env : Environment) : ∀ (e : TypeExpr) (required : Bool),
      scope.Agrees inst
        (ResolveM.attaching scope.site (scope.resolveExpr inst tag env required e))
        (scope.planExpr tag env required e)
  | .nullable inner, required => by
    rw [resolveExpr, planExpr]
    exact expr_agrees hinst hstrict tag env inner false
  | .list element, required => by
    rw [resolveExpr, planExpr, ResolveM.attaching_bind]
    exact (expr_agrees hinst hstrict tag env element true).bind fun _ => Agrees.of_pure _
  | .param name, required => by
    rw [resolveExpr, planExpr]
    rcases env.lookup name with _ | type
    · exact Agrees.refuse _ _
    · exact Agrees.of_pure _
  | .apply generic arguments, required => by
    rw [resolveExpr, planExpr, ResolveM.attaching_bind]
    refine (arguments_agree hinst hstrict tag env arguments).bind fun types => ?_
    rw [ResolveM.attaching_bind]
    exact (apply_agrees hinst hstrict generic types).bind fun _ => Agrees.of_pure _
  | .ref name, required => by
    rw [resolveExpr, planExpr, ResolveM.attaching_bind]
    exact (named_agrees name tag).bind fun _ => Agrees.of_pure _

theorem arguments_agree (hinst : scope.Regular inst) (hstrict : scope.Strict inst)
    (tag : Option String) (env : Environment) : ∀ es : List TypeExpr,
      scope.Agrees inst
        (ResolveM.attaching scope.site (scope.resolveArguments inst tag env es))
        (scope.planArguments tag env es)
  | [] => by
    rw [resolveArguments, planArguments]
    exact Agrees.of_pure _
  | e :: rest => by
    rw [resolveArguments, planArguments, ResolveM.attaching_bind]
    refine (expr_agrees hinst hstrict tag env e false).bind fun type => ?_
    rw [ResolveM.attaching_bind]
    exact (arguments_agree hinst hstrict tag env rest).bind fun _ => Agrees.of_pure _

end

theorem fieldArguments_agree (hinst : scope.Regular inst) (hstrict : scope.Strict inst)
    (env : Environment) (as : List ArgumentDescriptor) :
    scope.Agrees inst
      (ResolveM.attaching scope.site (scope.resolveFieldArguments inst env as))
      (scope.planFieldArguments env as) := by
  induction as with
  | nil => exact Agrees.of_pure _
  | cons a rest ih =>
    rw [resolveFieldArguments, planFieldArguments, ResolveM.attaching_bind]
    refine (expr_agrees hinst hstrict a.tag env a.type true).bind fun type => ?_
    rw [ResolveM.attaching_bind]
    exact ih.bind fun _ => Agrees.of_pure _

theorem field_agrees (scope : Scope) (hinst : scope.Regular inst) (hstrict : scope.Strict inst)
    (env : Environment) (d : FieldDescriptor) :
    scope.Agrees inst (ResolveM.attaching scope.site (scope.resolveField inst env d))
      (scope.planField env d) := by
  have hrest (type : Option TypeNode) : scope.Agrees inst
      (ResolveM.attaching scope.site (do
        let arguments ← scope.resolveFieldArguments inst env d.arguments
        pure (⟨d.name, type, d, arguments⟩ : GraphField)))
      (do
        let arguments ← scope.planFieldArguments env d.arguments
        pure ⟨d.name, type, d, arguments⟩) := by
    rw [ResolveM.attaching_bind]
    exact (fieldArguments_agree hinst hstrict env d.arguments).bind fun _ => Agrees.of_pure _
  rw [resolveField, planField]
  rcases d.type with _ | e
  · exact hrest none
  · simp only [planType, map_eq_pure_bind, bind_assoc, pure_bind]
    rw [ResolveM.attaching_bind]
    exact (expr_agrees hinst hstrict d.tag env e true).bind fun type => hrest (some type)

/-- What a scope looks at apart from the site does not change with it. -/
theorem perform_focus {α : Type} (site : Site) (p : Plan α) :
    (scope.focus site).perform inst p = scope.perform inst p := by
  have hall : ∀ rs, (scope.focus site).meetAll inst rs = scope.meetAll inst rs := by
    intro rs
    induction rs with
    | nil => rfl
    | cons r rest ih =>
      rcases r with ⟨at_, request⟩
      simp only [meetAll, ih]
      rcases request <;> rfl
  simp only [perform, hall]

/-- The fields of a declaration are resolved as planned. -/
theorem fields_agree (scope : Scope) (hinst : scope.Regular inst)
    (hstrict : ∀ site, (scope.focus site).Strict inst) (owner : String) (env : Environment) (ds : List FieldDescriptor) :
    scope.Agrees inst (scope.resolveFields inst owner env ds) (scope.planFields owner env ds) := by
  induction ds with
  | nil => exact Agrees.of_pure _
  | cons d rest ih =>
    rw [resolveFields, planFields]
    refine Agrees.bind ?_ fun field => ih.bind fun _ => Agrees.of_pure _
    intro s hs
    rw [← perform_focus ⟨owner, d.name⟩]
    exact field_agrees (scope.focus ⟨owner, d.name⟩) hinst (hstrict _) env d s hs

end Scope

end SchemaCompiler
