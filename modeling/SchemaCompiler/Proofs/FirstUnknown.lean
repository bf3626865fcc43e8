import SchemaCompiler.Proofs.Runs
import SchemaCompiler.Proofs.Stops

/-! The first name that nothing is known about. A walk that goes through a model comes by references
in an order that the declarations determine, with the body of each instantiation where it first
comes up. The graph keeps the unknown ones among them as pending nodes, so the first pending node
tells where the first unknown name stands. -/

namespace SchemaCompiler

/-- A name that stands as a type, and the field that it stands in. -/
structure Reference where
  name : String
  site : Site
  deriving DecidableEq

/-- What a walk has come by: references, and the instantiations whose bodies it has gone into. -/
structure Tour where
  references : List Reference := []
  begun : List InstanceKey := []

namespace Tour

def note (tour : Tour) (r : Reference) : Tour :=
  { tour with references := tour.references ++ [r] }

def enter (tour : Tour) (key : InstanceKey) : Tour :=
  { tour with begun := tour.begun ++ [key] }

end Tour

/-- The reference that has left a node of which nothing is known. -/
def Node.pending? : Node → Option Reference
  | .pending name site => some ⟨name, site⟩
  | _ => none

/-- The first node that is not filled, if only pending ones are not. -/
theorem find?_unfilled {nodes : List Node}
    (h : ∀ node ∈ nodes, node.filled = false → ∃ name site, node = .pending name site) :
    (nodes.find? fun node => !node.filled) =
      (nodes.findSome? Node.pending?).map fun r => .pending r.name r.site := by
  induction nodes with
  | nil => rfl
  | cons node rest ih =>
    have hrest := ih fun node hnode => h node (List.mem_cons_of_mem _ hnode)
    rw [List.find?_cons, List.findSome?_cons]
    rcases hfilled : node.filled with _ | _
    · obtain ⟨name, site, rfl⟩ := h node List.mem_cons_self hfilled
      rfl
    · cases node with
      | pending name site => cases hfilled
      | _ => exact hrest

namespace Scope

/-- Whether a name is that of a declared object or enum, of an internal type that is bound, or of a
scalar. -/
def isNamed (scope : Scope) (name : String) : Bool :=
  match scope.model.get? name with
  | some (.object _) | some (.enum _) => true
  | _ => scope.registry.has name || (scope.registry.byName? name).isSome

/-- Walking by stops in order. The body of an instantiation that has not come up before is walked
through before what comes after it. -/
inductive Walks (scope : Scope) : List (Site × Stop) → Tour → Tour → Prop
  | done {tour : Tour} : Walks scope [] tour tour
  | reference {site : Site} {name : String} {rest : List (Site × Stop)} {tour tour' : Tour}
      (hrest : Walks scope rest (tour.note ⟨name, site⟩) tour') :
      Walks scope ((site, .reference name) :: rest) tour tour'
  | begun {site : Site} {generic argument : String} {rest : List (Site × Stop)} {tour tour' : Tour}
      (h : ⟨generic, argument⟩ ∈ tour.begun) (hrest : Walks scope rest tour tour') :
      Walks scope ((site, .application generic argument) :: rest) tour tour'
  | body {site : Site} {generic argument : String} {decl : GenericDecl} {rest : List (Site × Stop)}
      {tour mid tour' : Tour} (h : ⟨generic, argument⟩ ∉ tour.begun)
      (hdecl : scope.model.get? generic = some (.generic decl))
      (hbody : Walks scope (scope.bodyStops decl argument) (tour.enter ⟨generic, argument⟩) mid)
      (hrest : Walks scope rest mid tour') :
      Walks scope ((site, .application generic argument) :: rest) tour tour'

variable {scope : Scope} {s s' : Resolution} {tour tour' : Tour} {t : Named} {site : Site}
  {depth : Nat}
  {name : String} {tag : Option String}

/-- The stops determine the walk. -/
theorem Walks.unique {stops : List (Site × Stop)} (h : scope.Walks stops tour tour')
    {other : Tour} (h' : scope.Walks stops tour other) : other = tour' := by
  induction h generalizing other with
  | done =>
    cases h'
    rfl
  | reference _ ih =>
    cases h' with
    | reference hrest => exact ih hrest
  | begun hbegun _ ih =>
    cases h' with
    | begun _ hrest => exact ih hrest
    | body hnew => exact absurd hbegun hnew
  | body hnew hdecl _ _ ihbody ihrest =>
    cases h' with
    | begun hbegun => exact absurd hbegun hnew
    | body _ hdecl' hbody hrest =>
      cases Declaration.generic.inj (Option.some.inj (hdecl.symm.trans hdecl'))
      obtain rfl := ihbody hbody
      exact ihrest hrest

theorem Walks.append {before after : List (Site × Stop)} {mid : Tour}
    (h : scope.Walks before tour mid) (h' : scope.Walks after mid tour') :
    scope.Walks (before ++ after) tour tour' := by
  induction h with
  | done => exact h'
  | reference _ ih => exact .reference (ih h')
  | begun hbegun _ ih => exact .begun hbegun (ih h')
  | body hnew hdecl hbody _ _ ih => exact .body hnew hdecl hbody (ih h')

/-- What a name stands for is pending exactly if nothing is known about it. -/
theorem target_ok_cases (h : scope.target name tag = .ok t) :
    (scope.isNamed name = true ∧ ∀ site, (t.shell site).pending? = none) ∨
      scope.isNamed name = false ∧ t = .pending name := by
  have hscalar (otherwise : Except Cause Named)
      (hother : otherwise = .ok t → scope.registry.has name = false →
        scope.registry.byName? name = none → t = .pending name)
      (h : scope.scalarOf otherwise name tag = .ok t) :
      ((scope.registry.has name || (scope.registry.byName? name).isSome) = true ∧
        ∀ site, (t.shell site).pending? = none) ∨
      (scope.registry.has name || (scope.registry.byName? name).isSome) = false ∧
        t = .pending name := by
    unfold scalarOf at h
    split at h
    · rename_i hhas
      rcases hlookup : scope.registry.lookup name tag with c | sc
      · rw [hlookup] at h
        cases h
      · rw [hlookup] at h
        cases h
        exact .inl ⟨by rw [hhas, Bool.true_or], fun _ => rfl⟩
    · rename_i hhas
      rw [Bool.not_eq_true] at hhas
      rw [hhas, Bool.false_or]
      split at h
      · rename_i sc hsc
        cases h
        exact .inl ⟨by rw [hsc, Option.isSome_some], fun _ => rfl⟩
      · rename_i hsc
        exact .inr ⟨by rw [hsc, Option.isSome_none], hother h hhas hsc⟩
  unfold target at h
  unfold isNamed
  split at h <;> rename_i hget <;> rw [hget]
  · cases h
    exact .inl ⟨rfl, fun _ => rfl⟩
  · cases h
    exact .inl ⟨rfl, fun _ => rfl⟩
  · cases h
  · refine hscalar _ (fun hrefused _ _ => ?_) h
    cases hrefused
  · exact hscalar _ (fun h _ _ => (Except.ok.inj h).symm) h

/-- Whether a state is what a walk has left: it has begun the same instantiations, and its first
pending node is where the first unknown reference was. -/
structure Follows (scope : Scope) (s : Resolution) (tour : Tour) : Prop where
  begun : s.memo.map (·.key) = tour.begun
  first : s.graph.nodes.findSome? Node.pending? =
    tour.references.find? fun r => !scope.isNamed r.name

namespace Follows

theorem of_eq (h : scope.Follows s tour) (hkeys : s'.memo.map (·.key) = s.memo.map (·.key))
    (hnodes : s'.graph.nodes.findSome? Node.pending? = s.graph.nodes.findSome? Node.pending?) :
    scope.Follows s' tour :=
  ⟨hkeys.trans h.begun, hnodes.trans h.first⟩

/-- A node of which something is known. -/
theorem withNode (h : scope.Follows s tour) {node : Node} (hnode : node.pending? = none) :
    scope.Follows (s.withNode node) tour := by
  refine h.of_eq rfl ?_
  rw [Resolution.withNode, List.findSome?_append, List.findSome?_singleton, hnode, Option.or_none]

theorem begin (h : scope.Follows s tour) (decl : GenericDecl) (argument : Named) :
    scope.Follows (s.begin (Scope.begun decl argument))
      (tour.enter ⟨decl.name, argument.name⟩) := by
  refine ⟨?_, h.first⟩
  rw [Resolution.begin, List.map_append, h.begun]
  rfl

theorem finish {decl : GenericDecl} {argument : Named} {fields : List GraphField}
    {key : InstanceKey} (h : scope.Follows s tour)
    (hfinish : Scope.finish decl argument fields s = (.ok key, s')) : scope.Follows s' tour := by
  rw [finish_apply] at hfinish
  rcases hadd : s.graph.add (.instantiation (filled decl argument fields)) with e | ⟨r, g⟩
  · rw [hadd] at hfinish
    cases hfinish
  · rw [hadd] at hfinish
    cases hfinish
    obtain ⟨-, -, -, rfl⟩ := TypeGraph.add_eq_ok hadd
    have hnode : (Node.instantiation (filled decl argument fields)).pending? = none := rfl
    exact (h.withNode hnode).of_eq (fill_keys _ _) rfl

/-- A reference to what the graph holds. If nothing is known about it, it is not the first one. -/
theorem found (h : scope.Follows s tour) (htarget : scope.target name tag = .ok t) {node : Node}
    (hnode : node ∈ s.graph.nodes) (href : node.ref = t) :
    scope.Follows s (tour.note ⟨name, site⟩) := by
  refine ⟨h.begun, ?_⟩
  rw [h.first, Tour.note, List.find?_append, List.find?_singleton]
  rcases target_ok_cases htarget with ⟨hnamed, -⟩ | ⟨-, rfl⟩
  · rw [hnamed, Bool.not_true, if_neg Bool.false_ne_true, Option.or_none]
  · -- the node was left by an earlier reference, so there is an earlier unknown one
    have hpending : (s.graph.nodes.findSome? Node.pending?).isSome = true := by
      rw [List.findSome?_isSome_iff]
      refine ⟨node, hnode, ?_⟩
      cases node with
      | pending name' site' => rfl
      | _ => cases href
    rw [h.first] at hpending
    rw [Option.or_of_isSome hpending]

/-- A reference to what is new. -/
theorem added (h : scope.Follows s tour) (htarget : scope.target name tag = .ok t) :
    scope.Follows (s.withNode (t.shell site)) (tour.note ⟨name, site⟩) := by
  refine ⟨h.begun, ?_⟩
  rw [Resolution.withNode, List.findSome?_append, h.first, Tour.note, List.find?_append,
    List.findSome?_singleton, List.find?_singleton]
  rcases target_ok_cases htarget with ⟨hnamed, hshell⟩ | ⟨hunknown, rfl⟩
  · rw [hnamed, hshell, Bool.not_true, if_neg Bool.false_ne_true]
  · rw [hunknown, Bool.not_false, if_pos rfl]
    rfl

end Follows

theorem ended_ok {decl : GenericDecl} {argument : Named}
    {body : Except CompileError Unit × Resolution} {key : InstanceKey}
    (h : scope.ended decl argument body = (.ok key, s')) :
    ∃ mid fields, body = (.ok (), mid) ∧
      (scope.planBody decl (.named argument)).outcome = .ok fields ∧
      finish decl argument fields mid = (.ok key, s') := by
  rcases body with ⟨e | u, mid⟩
  · cases h
  · rw [ended] at h
    rcases houtcome : (scope.planBody decl (.named argument)).outcome with e | fields
    · rw [houtcome] at h
      cases h
    · rw [houtcome] at h
      exact ⟨mid, fields, rfl, rfl, h⟩

/-- A run that ends well goes by the stops of its requests. -/
theorem Runs.follows {depth : Nat} {rs : List (Site × Request)}
    {r : Except CompileError Unit × Resolution} (hrun : scope.Runs depth rs s r)
    (hok : r = (.ok (), s')) {stops : List (Site × Stop)}
    (hstops : List.Forall₂ scope.Matches rs stops) (h : scope.Follows s tour) :
    ∃ tour', scope.Walks stops tour tour' ∧ scope.Follows s' tour' := by
  -- on the run: the state follows the walk after each request, and after each body that is entered
  induction hrun generalizing stops tour s' with
  | done =>
    cases hok
    cases hstops
    exact ⟨tour, .done, h⟩
  | found hnode href _ ih =>
    cases hstops with
    | cons hmatches hstops =>
      cases hmatches with
      | reference htarget =>
        obtain ⟨tour', hwalks, hfollows⟩ := ih hok hstops (h.found htarget hnode href)
        exact ⟨tour', .reference hwalks, hfollows⟩
  | added _ _ ih =>
    cases hstops with
    | cons hmatches hstops =>
      cases hmatches with
      | reference htarget =>
        obtain ⟨tour', hwalks, hfollows⟩ := ih hok hstops (h.added htarget)
        exact ⟨tour', .reference hwalks, hfollows⟩
  | refused => cases hok
  | begun hbegun _ ih =>
    cases hstops with
    | cons hmatches hstops =>
      cases hmatches with
      | application =>
        obtain ⟨tour', hwalks, hfollows⟩ := ih hok hstops h
        exact ⟨tour', .begun (h.begun ▸ hbegun) hwalks, hfollows⟩
  | exhausted => cases hok
  | failed => cases hok
  | @finished _ _ decl argument _ _ _ _ _ _ hnew _ hended _ ihbody ihrest =>
    cases hstops with
    | cons hmatches hstops =>
      cases hmatches with
      | application hdecl =>
        obtain ⟨mid, fields, hbody, houtcome, hfinish⟩ := ended_ok hended
        have htraces := planBody_traces scope decl argument
        obtain ⟨inner, hinner, hfollows⟩ := ihbody hbody (htraces.whole fields houtcome)
          (h.begin decl argument)
        obtain ⟨tour', hwalks, hfollows⟩ := ihrest hok hstops (hfollows.finish hfinish)
        exact ⟨tour', .body (h.begun ▸ hnew) hdecl hinner hwalks, hfollows⟩

theorem resolveFields_follows (hs : scope.Sound s) {types : Environment}
    {env : List (String × String)} (hknown : EnvKnown s.Holds types) (hnamed : EnvNamed types env)
    {owner : String} {ds : List FieldDescriptor} {fields : List GraphField}
    (hrun : scope.resolveFields (instantiateWithin depth) owner types ds s = (.ok fields, s'))
    (h : scope.Follows s tour) :
    ∃ tour', scope.Walks (ds.flatMap (scope.fieldStops owner env)) tour tour' ∧
      scope.Follows s' tour' := by
  rw [resolveFields_eq depth scope owner types ds hs.tidy] at hrun
  obtain ⟨hmeet, houtcome⟩ := perform_eq_ok.1 hrun
  have hruns := runs_meetAll depth hs (fun _ h => h)
    (planFields_careful scope hknown owner ds).ordered
  exact hruns.follows hmeet ((planFields_traces hnamed owner ds).whole fields houtcome) h

/-- The node of a declaration. -/
theorem enter_follows (hs : scope.Sound s) (ht : scope.IsTarget t)
    (hknown : (t.shell {}).pending? = none) {r : Named} {g : TypeGraph}
    (henter : s.graph.enter {} t = .ok (r, g)) (h : scope.Follows s tour) :
    scope.Follows { s with graph := g } tour := by
  obtain ⟨-, ⟨rfl, -⟩ | ⟨-, -, rfl⟩⟩ := enter_eq_ok hs.tidy ht henter
  · exact h
  · exact h.withNode hknown

/-- A change of nodes that leaves which of them are pending. -/
theorem Follows.mapNodes {f : Node → Node} (hf : ∀ node, (f node).pending? = node.pending?)
    (h : scope.Follows s tour) : scope.Follows (s.mapNodes f) tour := by
  refine h.of_eq rfl ?_
  rw [Resolution.mapNodes, List.findSome?_map]
  exact congrArg₂ _ (funext hf) rfl

theorem declare_follows (hs : scope.Sound s) {d : Declaration}
    (hd : d ∈ scope.model.declarations) (hrun : scope.declare depth d s = (.ok (), s'))
    (h : scope.Follows s tour) :
    ∃ tour', scope.Walks (scope.declarationStops d) tour tour' ∧ scope.Follows s' tour' := by
  cases d with
  | object decl =>
    have hchange (change : ObjectType → ObjectType) (node : Node) :
        (node.withObject decl.name change).pending? = node.pending? := by
      cases node <;> rfl
    have htarget : scope.IsTarget (.object decl.name) := ⟨decl, hd, rfl⟩
    obtain ⟨r, g, fields, s₁, hshell, hunfilled, hfields, rfl⟩ := declareObject_eq_ok.1 hrun
    obtain ⟨hs₀, -, -⟩ := enter_ok hs htarget hshell
    obtain ⟨tour', hwalks, hfollows⟩ := resolveFields_follows (sound_describeObject hs₀ hunfilled)
      (fun _ _ h => by cases h) envNamed_nil hfields
      ((enter_follows hs htarget rfl hshell h).mapNodes (hchange _))
    exact ⟨tour', hwalks, hfollows.mapNodes (hchange _)⟩
  | generic decl =>
    obtain ⟨fields, s₁, hfields, -, -, rfl⟩ := declareGeneric_eq_ok.1 hrun
    obtain ⟨tour', hwalks, hfollows⟩ := resolveFields_follows hs (envKnown_placeholder _ _)
      (envNamed_placeholder _) hfields h
    exact ⟨tour', hwalks, hfollows.of_eq rfl rfl⟩
  | enum decl =>
    obtain ⟨r, g, hshell, rfl⟩ := declareEnum_eq_ok.1 hrun
    have hentered := enter_follows (t := .enum decl.name) hs ⟨decl, hd, rfl⟩ rfl hshell h
    refine ⟨tour, .done, hentered.mapNodes fun node => ?_⟩
    cases node <;> rfl
  | scalar decl =>
    obtain ⟨sc, r, g, hsc, hadopt, rfl⟩ := declareScalar_eq_ok.1 hrun
    exact ⟨tour, .done,
      enter_follows (t := .scalar sc) hs (ScalarRegistry.byName?_mem hsc) rfl hadopt h⟩

theorem declareAll_follows (hs : scope.Sound s) {ds : List Declaration}
    (hds : ∀ d ∈ ds, d ∈ scope.model.declarations)
    (hrun : scope.declareAllWithin depth ds s = (.ok (), s'))
    (h : scope.Follows s tour) :
    ∃ tour', scope.Walks (ds.flatMap scope.declarationStops) tour tour' ∧
      scope.Follows s' tour' := by
  induction ds generalizing s tour with
  | nil =>
    cases hrun
    exact ⟨tour, .done, h⟩
  | cons d rest ih =>
    obtain ⟨mid, hfirst, hrest⟩ := declareAll_cons_eq_ok.1 hrun
    have hd := hds d List.mem_cons_self
    obtain ⟨tour₁, hwalks₁, h₁⟩ := declare_follows hs hd hfirst h
    obtain ⟨tour₂, hwalks₂, h₂⟩ := ih (declare_declares hs hd hfirst).sound
      (fun x hx => hds x (List.mem_cons_of_mem _ hx)) hrest h₁
    exact ⟨tour₂, hwalks₁.append hwalks₂, h₂⟩

theorem isNamed_of_unknown (h : scope.IsUnknown name) : scope.isNamed name = false := by
  obtain ⟨hget, hhas, hscalar⟩ := h
  rw [isNamed, hget, hhas, hscalar]
  rfl

/-- After the walk the first reference to an unknown name, if there is one, is what is reported. -/
theorem Follows.resolve (h : scope.Follows s tour)
    (hrun : scope.declareAll scope.model.declarations {} = (.ok (), s))
    (hunfilled : ∀ node ∈ s.graph.nodes, node.filled = false →
      ∃ name site, node = .pending name site) :
    scope.resolve {} = match tour.references.find? fun r => !scope.isNamed r.name with
      | some r => (.error ⟨.unresolved r.name, r.site⟩, s)
      | none => (.ok (), s) := by
  rw [declareAll] at hrun
  rw [Scope.resolve, resolveWithin, ResolveM.bind_ok hrun, ResolveM.bind_ok (ResolveM.get_apply s),
    TypeGraph.assertComplete, find?_unfilled hunfilled, h.first]
  rcases hfind : tour.references.find? fun r => !scope.isNamed r.name with _ | r <;>
    rw [hfind] <;> rfl

/-- Where the declarations are walked through without an error, the references on the way are
determined by the model. The resolution fails exactly if one of them is to an unknown name; it
reports the first such name where it stands, and nothing else is left unfilled. -/
theorem resolve_reports_first_unknown
    (hrun : scope.declareAll scope.model.declarations {} = (.ok (), s)) :
    ∃ tour,
      (∀ other, scope.Walks (scope.model.declarations.flatMap scope.declarationStops) {} other ↔
        other = tour) ∧
      ((∃ e, (scope.resolve {}).1 = .error e) ↔
        ∃ r ∈ tour.references, scope.isNamed r.name = false) ∧
      (∀ before r after, tour.references = before ++ r :: after →
        (∀ x ∈ before, scope.isNamed x.name = true) → scope.isNamed r.name = false →
          scope.resolve {} = (.error ⟨.unresolved r.name, r.site⟩, s)) ∧
      ∀ node ∈ s.graph.nodes, node.filled = false →
        ∃ name site, node = .pending name site ∧ scope.isNamed name = false := by
  obtain ⟨hs, -, -, hentered⟩ := declareAll_ok (sound_empty scope) (fun _ hd => hd) hrun
  have hstart : scope.Follows {} {} := ⟨rfl, rfl⟩
  obtain ⟨tour, hwalks, hfollows⟩ :=
    declareAll_follows (sound_empty scope) (fun _ hd => hd) hrun hstart
  have hunfilled : ∀ node ∈ s.graph.nodes, node.filled = false →
      ∃ name site, node = .pending name site :=
    fun _ hnode hempty => pending_of_unfilled hs hentered hnode hempty
  have hresolve := hfollows.resolve hrun hunfilled
  refine ⟨tour, fun other => ⟨fun h => hwalks.unique h, fun h => h ▸ hwalks⟩, ?_, ?_, ?_⟩
  · have hsome : (tour.references.find? fun r => !scope.isNamed r.name).isSome = true ↔
        ∃ r ∈ tour.references, scope.isNamed r.name = false := by
      simp only [List.find?_isSome, Bool.not_eq_true']
    rw [hresolve, ← hsome]
    rcases hfind : tour.references.find? fun r => !scope.isNamed r.name with _ | r <;> rw [hfind]
    · exact ⟨fun ⟨_, h⟩ => (nomatch h), fun h => (nomatch h)⟩
    · exact ⟨fun _ => rfl, fun _ => ⟨_, rfl⟩⟩
  · intro before r after hsplit hbefore hr
    have hfind : (tour.references.find? fun r => !scope.isNamed r.name) = some r := by
      rw [hsplit, List.find?_eq_some_iff_append]
      refine ⟨by rw [hr]; rfl, before, after, rfl, fun x hx => ?_⟩
      rw [hbefore x hx]
      rfl
    rw [hresolve, hfind]
  · intro node hnode hempty
    obtain ⟨name, site, rfl⟩ := hunfilled node hnode hempty
    exact ⟨name, site, rfl, isNamed_of_unknown (hs.nodes _ hnode)⟩

/-- A generic whose body has an unknown name. -/
def ownedPage : GenericDecl :=
  ⟨"Page", "T",
    [{ owner := "Page", name := "items", type := some (.list (.param "T")) },
     { owner := "Page", name := "owner", type := some (.ref "Account") }], none⟩

def strayScope : Scope where
  registry := {}
  model :=
    { unit := "unit"
      declarations :=
        [.object ⟨"User",
          [{ owner := "User", name := "friends", type := some (.apply "Page" [.ref "User"]) },
           { owner := "User", name := "role", type := some (.ref "Role") }], none⟩,
         .generic ownedPage] }

theorem strayScope_reports_account : ∃ s,
    strayScope.declareAll strayScope.model.declarations {} = (.ok (), s) ∧
    strayScope.resolve {} = (.error ⟨.unresolved "Account", ⟨"Page", "owner"⟩⟩, s) := by
  have hok : (strayScope.declareAll strayScope.model.declarations {}).1.toOption.isSome = true := by
    decide +kernel
  rcases hrun : strayScope.declareAll strayScope.model.declarations {} with ⟨e | u, s⟩
  · rw [hrun] at hok
    cases hok
  obtain ⟨tour, hwalks, -, hfirst, -⟩ := resolve_reports_first_unknown hrun
  have hstops : strayScope.model.declarations.flatMap strayScope.declarationStops =
      [(⟨"User", "friends"⟩, .reference "User"), (⟨"User", "friends"⟩, .application "Page" "User"),
        (⟨"User", "role"⟩, .reference "Role"), (⟨"Page", "owner"⟩, .reference "Account")] := by
    decide
  rw [hstops] at hwalks
  have hbody (tour : Tour) : strayScope.Walks (strayScope.bodyStops ownedPage "User") tour
      (tour.note ⟨"Account", ⟨"Page", "owner"⟩⟩) := by
    rw [show strayScope.bodyStops ownedPage "User" =
      [(⟨"Page", "owner"⟩, .reference "Account")] by decide]
    exact .reference .done
  have htour := (hwalks _).1
    (.reference (.body (by decide) rfl (hbody _) (.reference (.reference .done))))
  exact ⟨s, rfl, hfirst [⟨"User", ⟨"User", "friends"⟩⟩] ⟨"Account", ⟨"Page", "owner"⟩⟩ _
    (congrArg Tour.references htour).symm (by decide) (by decide)⟩

end Scope

end SchemaCompiler
