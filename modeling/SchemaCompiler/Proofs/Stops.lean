import SchemaCompiler.Proofs.Mentions

/-! What a walk over declared types comes by. Before anything is resolved, the names in a type
expression, the generics that are applied in it and the names of what these are applied to can be
read off the expression itself. The requests of a plan are these stops, in the same order, as far as
the plan has come. -/

namespace SchemaCompiler

/-- What a walk comes by: a name that stands as a type, or a generic that is applied to a type of
some name. -/
inductive Stop where
  | reference (name : String)
  | application (generic argument : String)
  deriving DecidableEq

/-- Whether a cause is anything but instantiations without end. -/
def Cause.Ends (cause : Cause) : Prop :=
  ∀ generic, cause ≠ .endlessInstantiation generic

def TypeNode.name? : TypeNode → Option String
  | .named t => some t.name
  | _ => none

namespace Scope

/-- The stop at an application: it has one argument, and that has a name. -/
def applicationStop (generic : String) : List (Option String) → List Stop
  | [some argument] => [.application generic argument]
  | _ => []

section

variable (scope : Scope) (tag : Option String) (env : List (String × String))

mutual

/-- The name of the type that an argument of a generic stands for. A type parameter has the name
that it is given, and lists have none. -/
def argumentName? : TypeExpr → Option String
  | .ref name => (scope.target name tag).toOption.map Named.name
  | .param name => env.lookup name
  | .list _ => none
  | .nullable inner => argumentName? inner
  | .apply generic arguments =>
    match argumentNames arguments with
    | [some argument] => some (InstanceKey.name ⟨generic, argument⟩)
    | _ => none

def argumentNames : List TypeExpr → List (Option String)
  | [] => []
  | e :: rest => argumentName? e :: argumentNames rest

end

mutual

/-- The stops in an expression. The arguments of a generic come before its application. -/
def stops : TypeExpr → List Stop
  | .ref name => [.reference name]
  | .param _ => []
  | .list element => stops element
  | .nullable inner => stops inner
  | .apply generic arguments =>
    allStops arguments ++ applicationStop generic (scope.argumentNames tag env arguments)

def allStops : List TypeExpr → List Stop
  | [] => []
  | e :: rest => stops e ++ allStops rest

end

end

/-- The stops in a field, each with the site of the field. -/
def fieldStops (scope : Scope) (owner : String) (env : List (String × String))
    (d : FieldDescriptor) : List (Site × Stop) :=
  d.tagged.flatMap fun (tag, e) => (scope.stops tag env e).map fun stop => (⟨owner, d.name⟩, stop)

def bodyStops (scope : Scope) (decl : GenericDecl) (argument : String) : List (Site × Stop) :=
  decl.fields.flatMap (scope.fieldStops decl.name [(decl.parameter, argument)])

/-- The stops in a declaration. The parameter of a generic is given no type there. -/
def declarationStops (scope : Scope) (d : Declaration) : List (Site × Stop) :=
  d.fields.flatMap (scope.fieldStops d.name [])

/-- Whether a request is made at a stop. -/
inductive Matches (scope : Scope) : Site × Request → Site × Stop → Prop
  | reference {site : Site} {name : String} {tag : Option String} {t : Named}
      (h : scope.target name tag = .ok t) :
      Matches scope (site, .enter t) (site, .reference name)
  | application {site : Site} {decl : GenericDecl} {argument : Named}
      (h : scope.model.get? decl.name = some (.generic decl)) :
      Matches scope (site, .apply decl argument) (site, .application decl.name argument.name)

/-- Whether a plan makes its requests at some stops, at all of them if it has an answer. It never
has none because instantiations do not end. -/
structure Traces {α : Type} (scope : Scope) (p : Plan α) (stops : List (Site × Stop)) : Prop where
  passed : ∃ passed, passed <+: stops ∧ List.Forall₂ scope.Matches p.requests passed
  whole : ∀ a, p.outcome = .ok a → List.Forall₂ scope.Matches p.requests stops
  refused : ∀ e, p.outcome = .error e → e.cause.Ends

namespace Traces

variable {α β : Type} {scope : Scope} {p : Plan α} {f : α → Plan β}
  {before after : List (Site × Stop)}

theorem of_pure (a : α) : scope.Traces (pure a) [] :=
  ⟨⟨[], List.nil_prefix, .nil⟩, fun _ _ => .nil, fun _ h => nomatch h⟩

theorem of_refuse (site : Site) {c : Cause} (h : c.Ends) (stops : List (Site × Stop)) :
    scope.Traces (Plan.refuse site c : Plan α) stops :=
  ⟨⟨[], List.nil_prefix, .nil⟩, fun _ h => (nomatch h),
    fun _ he => Except.error.inj he ▸ h⟩

theorem of_ask {site : Site} {r : Request} {stop : Stop}
    (h : scope.Matches (site, r) (site, stop)) :
    scope.Traces (Plan.ask site r) [(site, stop)] :=
  ⟨⟨_, List.prefix_refl _, .cons h .nil⟩, fun _ _ => .cons h .nil, fun _ he => nomatch he⟩

theorem bind (hp : scope.Traces p before) (hf : ∀ a, p.outcome = .ok a → scope.Traces (f a) after) :
    scope.Traces (p >>= f) (before ++ after) := by
  rcases h : p.outcome with e | a
  · rw [Plan.bind_error h]
    obtain ⟨passed, hpassed, hrequests⟩ := hp.passed
    exact ⟨⟨passed, hpassed.trans (List.prefix_append _ _), hrequests⟩, fun _ ha => (nomatch ha),
      fun _ he => Except.error.inj he ▸ hp.refused e h⟩
  · rw [Plan.bind_ok h]
    have hfirst := hp.whole a h
    have hsecond := hf a h
    obtain ⟨passed, hpassed, hrequests⟩ := hsecond.passed
    exact ⟨⟨before ++ passed, (List.prefix_append_right_inj _).2 hpassed,
        List.rel_append hfirst hrequests⟩,
      fun b hb => List.rel_append hfirst (hsecond.whole b hb), hsecond.refused⟩

theorem answer {g : α → β} (hp : scope.Traces p before) :
    scope.Traces (p >>= fun a => pure (g a)) before := by
  have h : scope.Traces (p >>= fun a => pure (g a)) (before ++ []) :=
    hp.bind fun a _ => of_pure (g a)
  rwa [List.append_nil] at h

end Traces

variable {scope : Scope} {env : Environment} {names : List (String × String)}

theorem lookup_ends {registry : ScalarRegistry} {internalType : String} {tag : Option String}
    {c : Cause} (h : registry.lookup internalType tag = .error c) : c.Ends := by
  unfold ScalarRegistry.lookup at h
  split at h
  · cases h
  · split at h <;> cases h <;> rintro _ ⟨⟩

/-- A name that stands for no type is refused. -/
theorem target_ends {name : String} {tag : Option String} {c : Cause}
    (h : scope.target name tag = .error c) : c.Ends := by
  have hscalar {otherwise : Except Cause Named} (hother : ∀ c, otherwise = .error c → c.Ends)
      (h : scope.scalarOf otherwise name tag = .error c) : c.Ends := by
    unfold scalarOf at h
    split at h
    · rcases hlookup : scope.registry.lookup name tag with c' | s
      · rw [hlookup] at h
        cases h
        exact lookup_ends hlookup
      · rw [hlookup] at h
        cases h
    · split at h
      · cases h
      · exact hother c h
  unfold target at h
  split at h
  · cases h
  · cases h
  · cases h
    rintro _ ⟨⟩
  · refine hscalar (fun c hc => ?_) h
    cases hc
    rintro _ ⟨⟩
  · exact hscalar (fun _ hc => by cases hc) h

theorem planNamed_traces (site : Site) (name : String) (tag : Option String) :
    scope.Traces ((scope.focus site).planNamed name tag) [(site, .reference name)] := by
  unfold planNamed
  rw [show (scope.focus site).target name tag = scope.target name tag from rfl]
  rcases htarget : scope.target name tag with c | t
  · exact .of_refuse _ (target_ends htarget) _
  · exact (Traces.of_ask (.reference htarget)).answer

/-- Whether names are those of the types in an environment. -/
def EnvNamed (env : Environment) (names : List (String × String)) : Prop :=
  ∀ parameter t, env.lookup parameter = some t → names.lookup parameter = t.name?

theorem envNamed_nil : EnvNamed [] [] :=
  fun _ _ h => nomatch h

theorem envNamed_placeholder (parameter : String) :
    EnvNamed [(parameter, .placeholder parameter)] [] := by
  intro name t h
  rw [(lookup_singleton_eq_some h).2]
  rfl

theorem envNamed_singleton (parameter : String) (argument : Named) :
    EnvNamed [(parameter, .named argument)] [(parameter, argument.name)] := by
  intro name t h
  obtain ⟨rfl, rfl⟩ := lookup_singleton_eq_some h
  exact List.lookup_cons_self

/-- The name of what an application answers, and its stop. -/
theorem planApply_traces (site : Site) (generic : String) (types : List TypeNode) :
    scope.Traces ((scope.focus site).planApply generic types)
      ((applicationStop generic (types.map TypeNode.name?)).map fun stop => (site, stop)) := by
  unfold planApply
  split
  · rename_i hopen
    split
    · rename_i type _
      have hnone : type.name? = none := by
        cases type with
        | named => cases hopen
        | _ => rfl
      rw [List.map_singleton, hnone]
      exact .of_pure _
    · exact .of_refuse _ (by rintro _ ⟨⟩) _
    · exact .of_refuse _ (by rintro _ ⟨⟩) _
  · split
    · exact .of_refuse _ (by rintro _ ⟨⟩) _
    · rename_i decl hget
      split
      · rename_i argument hnamed
        obtain rfl : decl.name = generic := SourceModel.get?_name hget
        have hmatches : scope.Matches (site, .apply decl argument)
            (site, .application decl.name argument.name) := .application hget
        rw [namedTypes_eq_some hnamed]
        exact (Traces.of_ask hmatches).answer
      · exact .of_refuse _ (by rintro _ ⟨⟩) _
      · exact .of_refuse _ (by rintro _ ⟨⟩) _
    · exact .of_refuse _ (by rintro _ ⟨⟩) _

/-- An answer that stands under a null marker has the name that is read off. -/
theorem planApply_name {generic : String} {types : List TypeNode} {t : TypeNode}
    (h : (scope.planApply generic types).outcome = .ok t) :
    t.name? = match types.map TypeNode.name? with
      | [some argument] => some (InstanceKey.name ⟨generic, argument⟩)
      | _ => none := by
  obtain ⟨decl, hget, ⟨x, rfl, hopen, rfl⟩ | ⟨argument, rfl, rfl⟩⟩ := planApply_cases h
  · cases x <;> first | rfl | cases hopen
  · rw [← SourceModel.get?_name hget]
    rfl

mutual

theorem planExpr_traces (henv : EnvNamed env names) (site : Site) (tag : Option String) :
    ∀ (e : TypeExpr) (required : Bool),
      scope.Traces ((scope.focus site).planExpr tag env required e)
        ((scope.stops tag names e).map fun stop => (site, stop)) ∧
      ∀ t, ((scope.focus site).planExpr tag env false e).outcome = .ok t →
        t.name? = scope.argumentName? tag names e
  | .nullable inner, required => by
    rw [planExpr, planExpr, stops, argumentName?]
    exact planExpr_traces henv site tag inner false
  | .list element, required => by
    rw [planExpr, planExpr, stops, argumentName?]
    refine ⟨(planExpr_traces henv site tag element true).1.answer, fun t h => ?_⟩
    obtain ⟨x, -, hpure⟩ := Plan.bind_outcome_ok.1 h
    cases hpure
    rfl
  | .param name, required => by
    rw [planExpr, planExpr, stops, argumentName?]
    rcases hlookup : env.lookup name with _ | type
    · exact ⟨.of_refuse _ (by rintro _ ⟨⟩) _, fun _ h => nomatch h⟩
    · refine ⟨.of_pure _, fun t h => ?_⟩
      cases h
      exact (henv name type hlookup).symm
  | .apply generic arguments, required => by
    obtain ⟨htraces, hnames⟩ := planArguments_traces henv site tag arguments
    rw [planExpr, planExpr, stops, argumentName?, List.map_append]
    refine ⟨htraces.bind fun types htypes => ?_, fun t h => ?_⟩
    · rw [← hnames types htypes]
      exact (planApply_traces site generic types).answer
    · obtain ⟨types, htypes, h⟩ := Plan.bind_outcome_ok.1 h
      obtain ⟨x, hx, hpure⟩ := Plan.bind_outcome_ok.1 h
      cases hpure
      rw [← hnames types htypes]
      exact planApply_name hx
  | .ref name, required => by
    rw [planExpr, planExpr, stops, argumentName?]
    refine ⟨(planNamed_traces site name tag).answer, fun t h => ?_⟩
    obtain ⟨n, hn, hpure⟩ := Plan.bind_outcome_ok.1 h
    cases hpure
    have htarget : scope.target name tag = .ok n := (planNamed_looks hn).1
    rw [htarget]
    rfl

theorem planArguments_traces (henv : EnvNamed env names) (site : Site) (tag : Option String) :
    ∀ es : List TypeExpr,
      scope.Traces ((scope.focus site).planArguments tag env es)
        ((scope.allStops tag names es).map fun stop => (site, stop)) ∧
      ∀ ts, ((scope.focus site).planArguments tag env es).outcome = .ok ts →
        ts.map TypeNode.name? = scope.argumentNames tag names es
  | [] => by
    rw [planArguments, allStops, argumentNames]
    refine ⟨.of_pure _, fun ts h => ?_⟩
    cases h
    rfl
  | e :: rest => by
    obtain ⟨hfirst, hname⟩ := planExpr_traces henv site tag e false
    obtain ⟨hrest, hnames⟩ := planArguments_traces henv site tag rest
    rw [planArguments, allStops, argumentNames, List.map_append]
    refine ⟨hfirst.bind fun t _ => hrest.answer, fun ts h => ?_⟩
    obtain ⟨x, hx, h⟩ := Plan.bind_outcome_ok.1 h
    obtain ⟨xs, hxs, hpure⟩ := Plan.bind_outcome_ok.1 h
    cases hpure
    rw [List.map_cons, hname x hx, hnames xs hxs]

end

theorem planFieldArguments_traces (henv : EnvNamed env names) (site : Site)
    (as : List ArgumentDescriptor) :
    scope.Traces ((scope.focus site).planFieldArguments env as)
      ((as.map fun a => (a.tag, a.type)).flatMap fun (tag, e) =>
        (scope.stops tag names e).map fun stop => (site, stop)) := by
  induction as with
  | nil => exact .of_pure _
  | cons a rest ih =>
    rw [planFieldArguments, List.map_cons, List.flatMap_cons]
    exact (planExpr_traces henv site a.tag a.type true).1.bind fun _ _ => ih.answer

theorem planField_traces (henv : EnvNamed env names) (owner : String) (d : FieldDescriptor) :
    scope.Traces ((scope.focus ⟨owner, d.name⟩).planField env d)
      (scope.fieldStops owner names d) := by
  rw [planField, fieldStops, FieldDescriptor.tagged, List.flatMap_append]
  refine Traces.bind ?_ fun _ _ => (planFieldArguments_traces henv _ d.arguments).answer
  rcases d.type with _ | e
  · exact .of_pure _
  · rw [planType, Option.toList_some, List.map_singleton, List.flatMap_singleton]
    exact (planExpr_traces henv _ d.tag e true).1.answer

/-- The requests for the fields of a declaration are made at the stops in them. -/
theorem planFields_traces (henv : EnvNamed env names) (owner : String) (ds : List FieldDescriptor) :
    scope.Traces (scope.planFields owner env ds) (ds.flatMap (scope.fieldStops owner names)) := by
  induction ds with
  | nil => exact .of_pure _
  | cons d rest ih =>
    rw [planFields, List.flatMap_cons]
    exact (planField_traces henv owner d).bind fun _ _ => ih.answer

theorem planBody_traces (scope : Scope) (decl : GenericDecl) (argument : Named) :
    scope.Traces (scope.planBody decl (.named argument)) (scope.bodyStops decl argument.name) :=
  planFields_traces (envNamed_singleton decl.parameter argument) decl.name decl.fields

end Scope

end SchemaCompiler
