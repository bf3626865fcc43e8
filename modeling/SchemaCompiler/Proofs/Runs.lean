import SchemaCompiler.Proofs.Advance

/-! Runs of a resolution, told step by step. Each request leads to the next ones or ends the run;
that of an instantiation which is new leads through its body first. A resolver that allows for
some depth makes such a run from every sound state, so what each of these steps keeps is kept by
the resolver. -/

namespace SchemaCompiler

def Resolution.withNode (s : Resolution) (node : Node) : Resolution :=
  { s with graph := { s.graph with nodes := s.graph.nodes ++ [node] } }

namespace Scope

variable {scope : Scope} {s : Resolution} {known : Named → Prop}

/-- What an instantiation comes to once the requests of its body have been made. -/
def ended (scope : Scope) (decl : GenericDecl) (argument : Named) :
    Except CompileError Unit × Resolution → Except CompileError InstanceKey × Resolution
  | (.error e, mid) => (.error e, mid)
  | (.ok (), mid) =>
    match (scope.planBody decl (.named argument)).outcome with
    | .error e => (.error e, mid)
    | .ok fields => finish decl argument fields mid

/-- What asking for types in order does to a state, with a depth that is left for instantiations
inside one another. -/
inductive Runs (scope : Scope) : Nat → List (Site × Request) → Resolution →
    Except CompileError Unit × Resolution → Prop
  | done {depth : Nat} {s : Resolution} : Runs scope depth [] s (.ok (), s)
  | found {depth : Nat} {site : Site} {t : Named} {rest : List (Site × Request)} {s : Resolution}
      {r : Except CompileError Unit × Resolution} {node : Node} (hnode : node ∈ s.graph.nodes)
      (href : node.ref = t) (hrest : Runs scope depth rest s r) :
      Runs scope depth ((site, .enter t) :: rest) s r
  | added {depth : Nat} {site : Site} {t : Named} {rest : List (Site × Request)} {s : Resolution}
      {r : Except CompileError Unit × Resolution} (hfree : s.graph.get? t.name = none)
      (hrest : Runs scope depth rest (s.withNode (t.shell site)) r) :
      Runs scope depth ((site, .enter t) :: rest) s r
  | refused {depth : Nat} {site : Site} {t : Named} {rest : List (Site × Request)} {s : Resolution}
      {e : CompileError} (h : s.graph.enter site t = .error e) :
      Runs scope depth ((site, .enter t) :: rest) s (.error (e.attach site), s)
  | begun {depth : Nat} {site : Site} {decl : GenericDecl} {argument : Named}
      {rest : List (Site × Request)} {s : Resolution} {r : Except CompileError Unit × Resolution}
      (h : (⟨decl.name, argument.name⟩ : InstanceKey) ∈ s.memo.map (·.key))
      (hrest : Runs scope depth rest s r) :
      Runs scope depth ((site, .apply decl argument) :: rest) s r
  | exhausted {site : Site} {decl : GenericDecl} {argument : Named} {rest : List (Site × Request)}
      {s : Resolution} {e : CompileError}
      (h : (⟨decl.name, argument.name⟩ : InstanceKey) ∉ s.memo.map (·.key)) :
      Runs scope 0 ((site, .apply decl argument) :: rest) s (.error e, s)
  | failed {depth : Nat} {site : Site} {decl : GenericDecl} {argument : Named}
      {rest : List (Site × Request)} {s s' : Resolution} {e : CompileError}
      {body : Except CompileError Unit × Resolution}
      (h : (⟨decl.name, argument.name⟩ : InstanceKey) ∉ s.memo.map (·.key))
      (hbody : Runs scope depth (scope.planBody decl (.named argument)).requests
        (s.begin (Scope.begun decl argument)) body)
      (hended : scope.ended decl argument body = (.error e, s')) :
      Runs scope (depth + 1) ((site, .apply decl argument) :: rest) s (.error (e.attach site), s')
  | finished {depth : Nat} {site : Site} {decl : GenericDecl} {argument : Named}
      {rest : List (Site × Request)} {s s' : Resolution} {key : InstanceKey}
      {body r : Except CompileError Unit × Resolution}
      (h : (⟨decl.name, argument.name⟩ : InstanceKey) ∉ s.memo.map (·.key))
      (hbody : Runs scope depth (scope.planBody decl (.named argument)).requests
        (s.begin (Scope.begun decl argument)) body)
      (hended : scope.ended decl argument body = (.ok key, s'))
      (hrest : Runs scope (depth + 1) rest s' r) :
      Runs scope (depth + 1) ((site, .apply decl argument) :: rest) s r

section

variable {inst : Instantiate} {site : Site} {request : Request} {mid : Resolution}

/-- A request that fails ends the run. -/
theorem meetAll_cons_error {e : CompileError}
    (h : scope.meet inst site request s = (.error e, mid)) (rest : List (Site × Request)) :
    scope.meetAll inst ((site, request) :: rest) s = (.error (e.attach site), mid) := by
  have hfirst : ResolveM.attaching site (scope.meet inst site request) s =
      (.error (e.attach site), mid) := by
    rw [ResolveM.attaching_apply, h]
    rfl
  rw [meetAll, ResolveM.bind_error hfirst]

theorem meetAll_cons_ok (h : scope.meet inst site request s = (.ok (), mid))
    (rest : List (Site × Request)) :
    scope.meetAll inst ((site, request) :: rest) s = scope.meetAll inst rest mid := by
  rw [meetAll, ResolveM.bind_ok (ResolveM.attaching_eq_ok.2 h)]

end

theorem meet_apply (depth : Nat) (site : Site) {decl : GenericDecl}
    (hdecl : scope.model.get? decl.name = some (.generic decl)) (argument : Named)
    (s : Resolution) : scope.meet (instantiateWithin depth) site (.apply decl argument) s =
      match (scope.focus site).instantiateDecl depth decl argument s with
      | (.ok _, mid) => (.ok (), mid)
      | (.error e, mid) => (.error e, mid) := by
  rw [meet, ResolveM.bind_apply, instantiateWithin_named (scope.focus site) depth hdecl]
  rcases (scope.focus site).instantiateDecl depth decl argument s with ⟨e | key, mid⟩ <;> rfl

/-- What an instantiation that is new comes to, as a run of its body and its end. -/
theorem instantiateDecl_eq_ended (depth : Nat) {decl : GenericDecl} {argument : Named} (site : Site)
    (hdecl : scope.model.get? decl.name = some (.generic decl)) (hs : scope.Sound s)
    (hargument : s.Holds argument) (h : s.cached? ⟨decl.name, argument.name⟩ = none) :
    (scope.focus site).instantiateDecl (depth + 1) decl argument s =
      scope.ended decl argument (scope.meetAll (instantiateWithin depth)
        (scope.planBody decl (.named argument)).requests
        (s.begin (Scope.begun decl argument))) := by
  have hbegin := hs.begin hdecl hargument (cached?_eq_none.1 h)
  rw [instantiateDecl_succ depth h, ResolveM.bind_apply,
    resolveFields_eq depth (scope.focus site) _ _ _ hbegin.tidy, perform_focus, planFields_focus,
    perform_apply]
  change _ = scope.ended decl argument (scope.meetAll _ (scope.planFields _ _ _).requests _)
  rcases scope.meetAll (instantiateWithin depth) (scope.planFields decl.name
    [(decl.parameter, .named argument)] decl.fields).requests (s.begin (Scope.begun decl argument))
    with ⟨e | u, mid⟩
  · rfl
  · rw [ended, planBody]
    rcases (scope.planFields decl.name [(decl.parameter, .named argument)] decl.fields).outcome with
      e | fields <;> rfl

/-- A resolver makes a run if the bodies that it enters make one. -/
theorem runs_of_bodies (depth : Nat)
    (hbodies : ∀ d, depth = d + 1 → ∀ decl argument s,
      scope.model.get? decl.name = some (.generic decl) → scope.Sound s → s.Holds argument →
        scope.Runs d (scope.planBody decl (.named argument)).requests s
          (scope.meetAll (instantiateWithin d) (scope.planBody decl (.named argument)).requests s))
    {rs : List (Site × Request)} (hs : scope.Sound s) (hknown : ∀ t, known t → s.Holds t)
    (hrs : scope.Ordered known rs) :
    scope.Runs depth rs s (scope.meetAll (instantiateWithin depth) rs s) := by
  -- on the requests; the depth stays the same, since `hbodies` has the runs of the bodies
  induction rs generalizing s known with
  | nil => exact .done
  | cons first rest ih =>
    rcases first with ⟨site, request⟩
    have hadv := meet_advances (sturdy_instantiateWithin depth scope) hs hknown hrs.1 site
    have hrest {mid : Resolution}
        (h : scope.meet (instantiateWithin depth) site request s = (.ok (), mid)) :
        scope.Runs depth rest mid (scope.meetAll (instantiateWithin depth) rest mid) := by
      rw [h] at hadv
      have hknown' : ∀ t, known t ∨ request.type = t → mid.Holds t := by
        rintro t (ht | rfl)
        · exact hadv.grows.below.holds _ (hknown t ht)
        · exact Request.holds_type (hadv.met _ rfl)
      exact ih hadv.sound hknown' hrs.2
    cases request with
    | enter t =>
      rcases henter : s.graph.enter site t with e | ⟨r, g⟩
      · have hmeet : scope.meet (instantiateWithin depth) site (.enter t) s = (.error e, s) := by
          rw [meet, ResolveM.bind_error (by rw [ResolveM.onGraph_apply, henter])]
        rw [meetAll_cons_error hmeet]
        exact .refused henter
      · have hmeet : scope.meet (instantiateWithin depth) site (.enter t) s =
            (.ok (), { s with graph := g }) := by
          rw [meet, ResolveM.bind_ok (ResolveM.onGraph_eq_ok.2 ⟨g, henter, rfl⟩)]
          rfl
        rw [meetAll_cons_ok hmeet]
        obtain ⟨-, ⟨rfl, node, hnode, href⟩ | ⟨-, hfree, rfl⟩⟩ := enter_eq_ok hs.tidy hrs.1 henter
        · exact .found hnode href (hrest hmeet)
        · exact .added hfree (hrest hmeet)
    | apply decl argument =>
      have hdecl := hrs.1.1
      have hargument := hknown _ hrs.1.2
      have hmeet := meet_apply depth site hdecl argument s
      rcases hcached : s.cached? ⟨decl.name, argument.name⟩ with _ | i
      · have hnew := cached?_eq_none.1 hcached
        cases depth with
        | zero =>
          rw [instantiateDecl_zero hcached] at hmeet
          rw [meetAll_cons_error hmeet]
          exact .exhausted hnew
        | succ d =>
          have hbody := hbodies d rfl decl argument _ hdecl (hs.begin hdecl hargument hnew)
            ((grows_begin decl argument).below.holds _ hargument)
          rw [instantiateDecl_eq_ended d site hdecl hs hargument hcached] at hmeet
          rcases hended : scope.ended decl argument (scope.meetAll (instantiateWithin d)
            (scope.planBody decl (.named argument)).requests
            (s.begin (Scope.begun decl argument))) with ⟨e | key, mid⟩
          · rw [hended] at hmeet
            rw [meetAll_cons_error hmeet]
            exact .failed hnew hbody hended
          · rw [hended] at hmeet
            rw [meetAll_cons_ok hmeet]
            exact .finished hnew hbody hended (hrest hmeet)
      · have hkey : (⟨decl.name, argument.name⟩ : InstanceKey) ∈ s.memo.map (·.key) := by
          by_contra hnew
          rw [cached?_eq_none.2 hnew] at hcached
          cases hcached
        rw [instantiateDecl_cached depth hcached] at hmeet
        rw [meetAll_cons_ok hmeet]
        exact .begun hkey (hrest hmeet)

/-- From a sound state a resolver makes a run, with the depth that it allows for. -/
theorem runs_meetAll (depth : Nat) {rs : List (Site × Request)} (hs : scope.Sound s)
    (hknown : ∀ t, known t → s.Holds t) (hrs : scope.Ordered known rs) :
    scope.Runs depth rs s (scope.meetAll (instantiateWithin depth) rs s) := by
  induction depth generalizing rs s known with
  | zero => exact runs_of_bodies 0 (fun _ h => nomatch h) hs hknown hrs
  | succ depth ih =>
    refine runs_of_bodies (depth + 1) (fun d hd decl argument s hdecl hs hargument => ?_) hs hknown
      hrs
    obtain rfl : depth = d := Nat.succ.inj hd
    exact ih hs (fun _ h => h) (planFields_careful scope
      (envKnown_singleton decl.parameter hargument) decl.name decl.fields).ordered

end Scope

end SchemaCompiler
