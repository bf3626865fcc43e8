import SchemaCompiler.Proofs.Succeeding

/-! The order in which instantiations are finished. What an instantiation is applied to has been begun
before it. It is finished before it, too, unless the application is asked for while it is still open,
by its own body or by one that its body leads to. -/

namespace SchemaCompiler

theorem split_concat {α : Type} {as bs cs : List α} {a b : α} (h : as ++ [a] = bs ++ b :: cs) :
    (bs = as ∧ b = a) ∨ ∃ ds, as = bs ++ b :: ds := by
  rcases List.eq_nil_or_concat cs with rfl | ⟨ds, c, rfl⟩
  · obtain ⟨hbefore, hlast⟩ := List.append_inj' h rfl
    exact .inl ⟨hbefore.symm, (List.cons.inj hlast).1.symm⟩
  · rw [List.concat_eq_append, ← List.cons_append, ← List.append_assoc] at h
    exact .inr ⟨ds, (List.append_inj' h rfl).1⟩

/-- Whether every finished instantiation of another one was finished after it. -/
def Resolution.Orderly (s : Resolution) : Prop :=
  ∀ earlier key later, s.finished = earlier ++ key :: later → ∀ i ∈ s.memo, i.key = key →
    ∀ argument, i.argument = .instantiation argument → argument ∈ earlier

namespace Scope

variable {scope : Scope} {inst : Instantiate} {known : Named → Prop} {s s' : Resolution}
  {depth : Nat}

/-- Whether a body, or one that it leads to, asks for an application of its own instantiation. -/
def SelfApplied (scope : Scope) : Prop :=
  ∃ path decl key, scope.Nested ((decl, .instantiation key) :: path) ∧
    key ∈ path.map Application.key

theorem orderly_begin {decl : GenericDecl} {argument : Named} (hs : scope.Sound s) (ho : s.Orderly)
    (hnew : (⟨decl.name, argument.name⟩ : InstanceKey) ∉ s.memo.map (·.key)) :
    (s.begin (begun decl argument)).Orderly := by
  intro earlier key later hsplit i hi hkey
  rcases List.mem_append.1 hi with hi | hi
  · exact ho earlier key later hsplit i hi hkey
  · -- what was just begun is not finished
    have hfinished : key ∈ s.finished := by
      rw [show s.finished = _ from hsplit]
      exact List.mem_append_right _ List.mem_cons_self
    rw [List.mem_singleton.1 hi] at hkey
    exact absurd (hs.finished_begun hfinished) (hkey ▸ hnew)

/-- An instantiation whose argument is finished keeps the order. -/
theorem orderly_finish {decl : GenericDecl} {argument : Named} {fields : List GraphField}
    {key : InstanceKey} (hs : scope.Sound s) (ho : s.Orderly) (hbegun : begun decl argument ∈ s.memo)
    (hopen : s.Open ⟨decl.name, argument.name⟩)
    (hargument : ∀ k, argument = .instantiation k → k ∈ s.finished)
    (h : finish decl argument fields s = (.ok key, s')) : s'.Orderly := by
  rw [finish_apply] at h
  rcases hadd : s.graph.add (.instantiation (filled decl argument fields)) with e | ⟨r, g⟩
  · rw [hadd] at h; cases h
  · rw [hadd] at h
    cases h
    intro earlier key later hsplit i hi hkey k hk
    rcases split_concat hsplit with ⟨rfl, rfl⟩ | ⟨later, hbefore⟩ <;>
      rcases (mem_fill fields hs.keys hbegun).1 hi with rfl | ⟨hi, hne⟩
    · exact hargument k hk
    · exact absurd hkey hne
    · refine absurd ?_ hopen.2
      rw [hbefore, ← show InstanceKey.mk decl.name argument.name = key from hkey]
      exact List.mem_append_right _ List.mem_cons_self
    · exact ho earlier key later hbefore i hi hkey k hk

/-- Requests keep the order if each of the applications does. -/
theorem meetAll_orderly (hinst : scope.Sturdy inst) {opened : InstanceKey → Prop}
    {rs : List (Site × Request)}
    (happly : ∀ site decl argument, (site, Request.apply decl argument) ∈ rs → ∀ s s' key,
      scope.Sound s → (∀ k, s.Open k ↔ opened k) → s.Holds argument → s.Orderly →
        inst (scope.focus site) decl.name [.type (.named argument)] s = (.ok key, s') →
          s'.Orderly)
    (hs : scope.Sound s) (hstill : ∀ k, s.Open k ↔ opened k) (hknown : ∀ t, known t → s.Holds t)
    (hrs : scope.Ordered known rs) (ho : s.Orderly)
    (h : scope.meetAll inst rs s = (.ok (), s')) : s'.Orderly := by
  induction rs generalizing s known with
  | nil =>
    cases h
    exact ho
  | cons r rest ih =>
    rcases r with ⟨site, request⟩
    rw [meetAll, ResolveM.bind_eq_ok] at h
    obtain ⟨_, mid, hfirst, hrest⟩ := h
    have hmeet := ResolveM.attaching_eq_ok.1 hfirst
    have hadv := meet_advances hinst hs hknown hrs.1 site
    rw [hmeet] at hadv
    have hknown' : ∀ t, known t ∨ request.type = t → mid.Holds t := by
      rintro t (ht | rfl)
      · exact hadv.grows.below.holds _ (hknown t ht)
      · exact Request.holds_type (hadv.met _ rfl)
    have hmid : mid.Orderly := by
      cases request with
      | enter t =>
        rw [meet, ResolveM.bind_eq_ok] at hmeet
        obtain ⟨_, _, henter, hpure⟩ := hmeet
        cases hpure
        obtain ⟨g, -, rfl⟩ := ResolveM.onGraph_eq_ok.1 henter
        exact ho
      | apply decl argument =>
        rw [meet, ResolveM.bind_eq_ok] at hmeet
        obtain ⟨key, _, hrun, hpure⟩ := hmeet
        cases hpure
        exact happly site decl argument List.mem_cons_self s mid key hs hstill
          (hknown _ hrs.1.2) ho hrun
    exact ih (fun site decl argument hmem => happly site decl argument (List.mem_cons_of_mem _ hmem))
      hadv.sound (fun k => (hadv.still _ rfl k).trans (hstill k)) hknown' hrs.2 hmid hrest

/-- An instantiation that ends well was begun before, or its body is resolved and it is finished. -/
theorem instantiateWithin_ok {depth : Nat} {decl : GenericDecl} {argument : Named} {site : Site}
    {key : InstanceKey} (hdecl : scope.model.get? decl.name = some (.generic decl))
    (hs : scope.Sound s) (hargument : s.Holds argument)
    (h : instantiateWithin depth (scope.focus site) decl.name [.type (.named argument)] s =
      (.ok key, s')) :
    s' = s ∨ ∃ inner fields mid, depth = inner + 1 ∧
      (⟨decl.name, argument.name⟩ : InstanceKey) ∉ s.memo.map (·.key) ∧
      scope.perform (instantiateWithin inner) (scope.planBody decl (.named argument))
        (s.begin (begun decl argument)) = (.ok fields, mid) ∧
      finish decl argument fields mid = (.ok key, s') := by
  rw [instantiateWithin_named (scope.focus site) depth hdecl] at h
  rcases hc : s.cached? ⟨decl.name, argument.name⟩ with _ | t
  · cases depth with
    | zero =>
      rw [instantiateDecl_zero hc] at h
      cases h
    | succ depth =>
      have hnew := cached?_eq_none.1 hc
      have hbegin := hs.begin hdecl hargument hnew
      rw [instantiateDecl_succ depth hc, ResolveM.bind_eq_ok] at h
      obtain ⟨fields, mid, hfields, hfinish⟩ := h
      rw [resolveFields_eq depth (scope.focus site) _ _ _ hbegin.tidy, perform_focus,
        planFields_focus] at hfields
      exact .inr ⟨depth, fields, mid, rfl, hnew, hfields, hfinish⟩
  · rw [instantiateDecl_cached depth hc] at h
    exact .inl (Prod.mk.inj h).2.symm

/-- An instantiation that can be referred to was begun. -/
theorem Sound.begun_of_holds (hs : scope.Sound s) {key : InstanceKey}
    (h : s.Holds (.instantiation key)) : key ∈ s.memo.map (·.key) := by
  rcases h with hnode | ⟨i, hi, heq⟩
  · obtain ⟨node, hnode, href⟩ := List.mem_map.1 hnode
    cases node with
    | instantiation i =>
      rw [← Named.instantiation.inj href]
      exact List.mem_map_of_mem (hs.nodes _ hnode).1
    | _ => cases href
  · rw [Named.instantiation.inj heq]
    exact List.mem_map_of_mem hi

/-- An instantiation keeps the order if what is open around it is not what it is applied to. -/
theorem instantiateWithin_orderly (hself : ¬scope.SelfApplied) (depth : Nat)
    {path : List Application} {decl : GenericDecl} {argument : Named} {key : InstanceKey}
    (site : Site) (hpath : scope.Nested ((decl, argument) :: path))
    (hopen : ∀ k, s.Open k → k ∈ path.map Application.key) (hs : scope.Sound s)
    (hargument : s.Holds argument) (ho : s.Orderly)
    (h : instantiateWithin depth (scope.focus site) decl.name [.type (.named argument)] s =
      (.ok key, s')) : s'.Orderly := by
  have harises := hpath.arises _ List.mem_cons_self
  induction depth generalizing s s' path decl argument key site with
  | zero =>
    rcases instantiateWithin_ok harises.declared hs hargument h with rfl | ⟨_, _, _, hdepth, -⟩
    · exact ho
    · cases hdepth
  | succ depth ih =>
    rcases instantiateWithin_ok harises.declared hs hargument h with
      rfl | ⟨inner, fields, mid, hdepth, hnew, hbody, hfinish⟩
    · exact ho
    · obtain rfl : depth = inner := Nat.succ.inj hdepth
      have hbegin := hs.begin harises.declared hargument hnew
      have hgrows := grows_begin decl argument (s := s)
      have hplanned : scope.Planned (scope.planBody decl (.named argument)) := by
        obtain ⟨plan, hplan, hasks⟩ := harises
        exact hplan.body hasks
      have hcareful := planFields_careful scope
        (envKnown_singleton decl.parameter (hgrows.below.holds _ hargument)) decl.name decl.fields
      have hadv := perform_advances (sturdy_instantiateWithin depth scope) hbegin (fun _ h => h)
        hcareful.ordered
      rw [show scope.perform (instantiateWithin depth) (scope.planFields decl.name
        [(decl.parameter, .named argument)] decl.fields) _ = _ from hbody] at hadv
      have hmid : mid.Orderly := by
        refine meetAll_orderly (sturdy_instantiateWithin depth scope) ?_ hbegin
          (open_begin hs hnew) (fun _ h => h) hcareful.ordered (orderly_begin hs ho hnew)
          (perform_eq_ok.1 hbody).1
        intro site' decl' argument' hmem t t' key' ht hstill hargument' ho' hrun
        have hasks : (scope.planBody decl (.named argument)).Asks (.apply decl' argument') :=
          ⟨site', hmem⟩
        refine ih site' (.inner hpath hasks) (fun k hk => ?_) ht hargument' ho' hrun
          ⟨_, hplanned, hasks⟩
        rw [List.map_cons, List.mem_cons]
        rcases (hstill k).1 hk with hk | rfl
        · exact .inr (hopen k hk)
        · exact .inl rfl
      have hbegun : begun decl argument ∈ mid.memo :=
        hadv.grows.memo.subset (List.mem_append_right _ (List.mem_singleton_self _))
      refine orderly_finish hadv.sound hmid hbegun
        ((hadv.still fields rfl _).2 ((open_begin hs hnew _).2 (.inr rfl))) ?_ hfinish
      -- the argument was begun before, and it is not among what is open around the application
      rintro k rfl
      refine hadv.grows.finished.subset ?_
      by_contra hunfinished
      exact hself ⟨path, decl, k, hpath, hopen k ⟨hs.begun_of_holds hargument, hunfinished⟩⟩

theorem resolveFields_orderly (hself : ¬scope.SelfApplied) (hs : scope.Sound s)
    (hclosed : ∀ k, ¬s.Open k) (ho : s.Orderly) {owner : String} {env : Environment}
    {ds : List FieldDescriptor} {fields : List GraphField}
    (hplanned : scope.Planned (scope.planFields owner env ds)) (henv : EnvKnown s.Holds env)
    (h : scope.resolveFields (instantiateWithin depth) owner env ds s = (.ok fields, s')) :
    s'.Orderly := by
  rw [resolveFields_eq depth scope owner env ds hs.tidy] at h
  refine meetAll_orderly (sturdy_instantiateWithin depth scope) ?_ hs
    (fun k => iff_false_intro (hclosed k)) (fun _ h => h)
    (planFields_careful scope henv owner ds).ordered ho (perform_eq_ok.1 h).1
  intro site decl argument hmem t t' key ht hstill hargument ho' hrun
  exact instantiateWithin_orderly hself _ site (.first ⟨_, hplanned, site, hmem⟩)
    (fun k hk => ((hstill k).1 hk).elim) ht hargument ho' hrun

theorem declare_orderly (hself : ¬scope.SelfApplied) (hs : scope.Sound s)
    (hclosed : ∀ k, ¬s.Open k) (ho : s.Orderly) {d : Declaration}
    (hd : d ∈ scope.model.declarations) (h : scope.declare depth d s = (.ok (), s')) :
    s'.Orderly := by
  cases d with
  | object decl =>
    obtain ⟨r, g, fields, s₁, hshell, hunfilled, hrun, rfl⟩ := declareObject_eq_ok.1 h
    obtain ⟨hs₀, -, -⟩ := enter_ok (t := .object decl.name) hs ⟨decl, hd, rfl⟩ hshell
    have hfields : s₁.Orderly := resolveFields_orderly hself (sound_describeObject hs₀ hunfilled)
      hclosed ho (.object hd) (fun _ _ h => by cases h) hrun
    exact hfields
  | enum decl =>
    obtain ⟨r, g, -, rfl⟩ := declareEnum_eq_ok.1 h
    exact ho
  | scalar decl =>
    obtain ⟨sc, r, g, -, -, rfl⟩ := declareScalar_eq_ok.1 h
    exact ho
  | generic decl =>
    obtain ⟨fields, s₁, hrun, -, -, rfl⟩ := declareGeneric_eq_ok.1 h
    have hfields : s₁.Orderly := resolveFields_orderly hself hs hclosed ho (.generic hd)
      (envKnown_placeholder _ _) hrun
    exact hfields

theorem declareAll_orderly (hself : ¬scope.SelfApplied) (hs : scope.Sound s)
    (hclosed : ∀ k, ¬s.Open k) (ho : s.Orderly) {ds : List Declaration}
    (hds : ∀ d ∈ ds, d ∈ scope.model.declarations)
    (h : scope.declareAllWithin depth ds s = (.ok (), s')) : s'.Orderly := by
  induction ds generalizing s with
  | nil =>
    cases h
    exact ho
  | cons d rest ih =>
    obtain ⟨mid, hfirst, hrest⟩ := declareAll_cons_eq_ok.1 h
    have hd := hds d List.mem_cons_self
    have hdeclares := declare_declares hs hd hfirst
    exact ih hdeclares.sound (fun k hk => hclosed k ((hdeclares.still k).1 hk))
      (declare_orderly hself hs hclosed ho hd hfirst)
      (fun x hx => hds x (List.mem_cons_of_mem _ hx)) hrest

/-- Where no body leads to an application of its own instantiation, instantiations are finished after
those that they are applied to. -/
theorem orderly_of_resolve (hself : ¬scope.SelfApplied) (h : scope.resolve {} = (.ok (), s)) :
    s.Orderly :=
  declareAll_orderly hself (sound_empty scope) (fun _ hk => nomatch hk.1)
    (fun earlier _ later hsplit => by simp at hsplit) (fun _ hd => hd) (resolveWithin_eq_ok.1 h).1

end Scope

end SchemaCompiler
