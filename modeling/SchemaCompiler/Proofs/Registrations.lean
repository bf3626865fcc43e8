import SchemaCompiler.Proofs.Agreement
import SchemaCompiler.Proofs.Dictionary
import SchemaCompiler.Proofs.Registry

/-! Registering scalars, call after call. The registry is kept in two dictionaries, one by internal
type and tag and one by name, which a call writes one after the other. They hold the same scalars in
the same order after any calls, so one list stands for both; no name, and no internal type with its
tag, is bound twice, and an untagged binding comes before all others of its internal type. -/

namespace SchemaCompiler

/-- A call that registers a scalar declaration for an internal type. -/
structure Registration where
  internalType : String
  decl : ScalarDecl

def Registration.scalar (call : Registration) : Scalar :=
  call.decl.scalarFor call.internalType

/-- The scalars by internal type and tag, and by name. -/
structure ScalarTables where
  bindings : Dictionary (String × Option String) Scalar := []
  names : Dictionary String Scalar := []

namespace ScalarTables

def tags (tables : ScalarTables) (internalType : String) : List (Option String) :=
  (tables.bindings.filter (·.1.1 = internalType)).map (·.1.2)

/-- Binds a scalar, first to its internal type and tag and then to its name. -/
def bind (scalar : Scalar) : Program ScalarTables Unit := do
  modify fun tables => { tables with
    bindings := tables.bindings.set (scalar.internalType, scalar.tag) scalar }
  modify fun tables => { tables with names := tables.names.set scalar.name scalar }

def initial : ScalarTables :=
  builtinScalars.foldl (fun tables scalar => (bind scalar tables).2) {}

def refuse (call : Registration) (cause : Cause) : Program ScalarTables Scalar :=
  throw ⟨cause, ⟨some call.decl.name, none⟩⟩

/-- A call, check by check. -/
def register (call : Registration) : Program ScalarTables Scalar := do
  let tables ← get
  let bound := tables.tags call.internalType
  if (tables.names.get? call.decl.name).isSome then refuse call (.scalarNameTaken call.decl.name)
  else if call.decl.tag.isNone ∧ bound ≠ [] then
    refuse call (.internalTypeTaken call.internalType
      (bound.map (ScalarRegistry.describe call.internalType)))
  else match tables.bindings.get? (call.internalType, call.decl.tag) with
    | some existing =>
      refuse call (.bindingTaken (ScalarRegistry.describe call.internalType call.decl.tag)
        existing.name)
    | none => do
      bind call.scalar
      pure call.scalar

def afterAll (tables : ScalarTables) (calls : List Registration) : ScalarTables :=
  calls.foldl (fun tables call => (register call tables).2) tables

end ScalarTables

namespace ScalarRegistry

def tables (registry : ScalarRegistry) : ScalarTables where
  bindings := .keyed (fun s => (s.internalType, s.tag)) registry.scalars
  names := .keyed (·.name) registry.scalars

def after (registry : ScalarRegistry) (call : Registration) : ScalarRegistry :=
  match registry.register call.internalType call.decl with
  | .ok (_, registry) => registry
  | .error _ => registry

def afterAll (registry : ScalarRegistry) (calls : List Registration) : ScalarRegistry :=
  calls.foldl after registry

/-- The scalars that calls answer, in order; a call that is refused answers none. -/
def answered (registry : ScalarRegistry) : List Registration → List Scalar
  | [] => []
  | call :: rest =>
    ((registry.register call.internalType call.decl).toOption.map (·.1)).toList ++
      (registry.after call).answered rest

/-- An untagged binding is the first one of its internal type. -/
def UntaggedFirst (registry : ScalarRegistry) : Prop :=
  ∀ s ∈ registry.scalars, s.tag = none →
    registry.scalars.find? (·.internalType = s.internalType) = some s

/-- When a call is refused: its name, its internal type or its binding is taken. -/
def Refuses (registry : ScalarRegistry) (call : Registration) : Prop :=
  (∃ s ∈ registry.scalars, s.name = call.decl.name) ∨
    (call.decl.tag = none ∧ ∃ s ∈ registry.scalars, s.internalType = call.internalType) ∨
      ∃ s ∈ registry.scalars, s.internalType = call.internalType ∧ s.tag = call.decl.tag

variable {registry registry' : ScalarRegistry}

theorem tables_tags (internalType : String) :
    registry.tables.tags internalType = registry.tags internalType := by
  simp [tables, ScalarTables.tags, tags, Dictionary.keyed, List.filter_map, Function.comp_def]

theorem tags_eq_nil {internalType : String} :
    registry.tags internalType = [] ↔ ∀ s ∈ registry.scalars, s.internalType ≠ internalType := by
  simp [tags, List.filter_eq_nil_iff]

/-- A call on the dictionaries answers what it answers on the list; refused, it has written
nothing. -/
theorem register_tables (call : Registration) :
    ScalarTables.register call registry.tables =
      match registry.register call.internalType call.decl with
      | .ok (s, registry') => (.ok s, registry'.tables)
      | .error e => (.error e, registry.tables) := by
  have hname : registry.tables.names.get? call.decl.name = registry.byName? call.decl.name :=
    Dictionary.get?_keyed _ _ _
  have hbinding : registry.tables.bindings.get? (call.internalType, call.decl.tag) =
      registry.binding? call.internalType call.decl.tag := by
    simp [tables, binding?]
  rw [ScalarTables.register, Program.bind_apply, Program.get_apply]
  simp only [tables_tags, hname, hbinding]
  unfold register
  dsimp only
  split
  · rfl
  split
  · rfl
  rename_i hfree _
  rcases hnone : registry.binding? call.internalType call.decl.tag with _ | existing
  · -- both keys are free, so both dictionaries grow at their ends
    have hbindings : registry.scalars.find?
        (fun s => (s.internalType, s.tag) = (call.internalType, call.decl.tag)) = none := by
      simpa [binding?] using hnone
    have hnames : registry.scalars.find? (·.name = call.decl.name) = none := by
      simpa [byName?] using hfree
    simp only [Program.bind_apply, ScalarTables.bind, Program.modify_apply, Program.pure_apply]
    refine Prod.ext rfl ?_
    exact congrArg₂ ScalarTables.mk
      (Dictionary.set_keyed_of_free (fun s : Scalar => (s.internalType, s.tag)) _ hbindings)
      (Dictionary.set_keyed_of_free (fun s : Scalar => s.name) _ hnames)
  · rfl

theorem tables_initial : ScalarTables.initial = ({} : ScalarRegistry).tables :=
  rfl

/-- The dictionaries hold the same scalars in the same order after any calls. -/
theorem tables_afterAll (registry : ScalarRegistry) (calls : List Registration) :
    registry.tables.afterAll calls = (registry.afterAll calls).tables := by
  induction calls generalizing registry with
  | nil => rfl
  | cons call rest ih =>
    have hstep : (ScalarTables.register call registry.tables).2 = (registry.after call).tables := by
      rw [register_tables, after]
      rcases registry.register call.internalType call.decl with e | ⟨s, registry'⟩ <;> rfl
    rw [ScalarTables.afterAll, List.foldl_cons, hstep]
    exact ih (registry.after call)

/-- The scalars that calls answer are added in order. -/
theorem scalars_afterAll (registry : ScalarRegistry) (calls : List Registration) :
    (registry.afterAll calls).scalars = registry.scalars ++ registry.answered calls := by
  induction calls generalizing registry with
  | nil => simp [afterAll, answered]
  | cons call rest ih =>
    rw [afterAll, List.foldl_cons, ← afterAll, ih, answered, ← List.append_assoc]
    congr 1
    rw [after]
    rcases hcall : registry.register call.internalType call.decl with e | ⟨s, registry'⟩
    · simp [Except.toOption]
    · obtain ⟨-, -, -, rfl, rfl⟩ := registerFor_eq_ok.1 hcall
      rfl

/-- A call is answered with its scalar unless it is refused. -/
theorem register_of_not_refuses {call : Registration} (h : ¬ registry.Refuses call) :
    registry.register call.internalType call.decl =
      .ok (call.scalar, ⟨registry.scalars ++ [call.scalar]⟩) := by
  simp only [Refuses, not_or, not_and, not_exists] at h
  obtain ⟨hname, hbound, hbinding⟩ := h
  refine registerFor_eq_ok.2 ⟨?_, ?_, fun htag => ?_, rfl, rfl⟩
  · simpa [byName?, List.find?_eq_none] using hname
  · simpa [binding?, List.find?_eq_none] using hbinding
  · exact tags_eq_nil.2 (hbound htag)

theorem register_of_refuses {call : Registration} (h : registry.Refuses call) :
    ∃ e, registry.register call.internalType call.decl = .error e := by
  rcases hcall : registry.register call.internalType call.decl with e | ⟨s, registry'⟩
  · exact ⟨e, rfl⟩
  · obtain ⟨hname, hbinding, hbound, -, -⟩ := registerFor_eq_ok.1 hcall
    rw [byName?, List.find?_eq_none] at hname
    rw [binding?, List.find?_eq_none] at hbinding
    rcases h with ⟨x, hx, heq⟩ | ⟨htag, x, hx, heq⟩ | ⟨x, hx, heq⟩
    · exact absurd (decide_eq_true heq) (hname x hx)
    · exact absurd heq (tags_eq_nil.1 (hbound htag) x hx)
    · exact absurd (decide_eq_true heq) (hbinding x hx)

theorem refuses_iff {call : Registration} :
    registry.Refuses call ↔ ∃ e, registry.register call.internalType call.decl = .error e := by
  refine ⟨register_of_refuses, fun ⟨e, he⟩ => ?_⟩
  by_contra hnot
  rw [register_of_not_refuses hnot] at he
  cases he

theorem Unambiguous.after (hr : registry.Unambiguous) (call : Registration) :
    (registry.after call).Unambiguous := by
  rw [ScalarRegistry.after]
  rcases hcall : registry.register call.internalType call.decl with e | ⟨s, registry'⟩
  · exact hr
  · exact hr.register hcall

theorem Unambiguous.afterAll (hr : registry.Unambiguous) (calls : List Registration) :
    (registry.afterAll calls).Unambiguous := by
  induction calls generalizing registry with
  | nil => exact hr
  | cons call rest ih => exact ih (hr.after call)

theorem UntaggedFirst.after (hr : registry.UntaggedFirst) (call : Registration) :
    (registry.after call).UntaggedFirst := by
  rw [ScalarRegistry.after]
  rcases hcall : registry.register call.internalType call.decl with e | ⟨s, registry'⟩
  · exact hr
  · obtain ⟨-, -, hbound, -, rfl⟩ := registerFor_eq_ok.1 hcall
    intro x hx htag
    rcases List.mem_append.1 hx with hx | hx
    · show (registry.scalars ++ _).find? _ = some x
      rw [List.find?_append, hr x hx htag, Option.some_or]
    · -- an untagged scalar is only added when its internal type is free
      obtain rfl := List.mem_singleton.1 hx
      have hfree : registry.scalars.find? (·.internalType = call.internalType) = none := by
        simpa [List.find?_eq_none] using tags_eq_nil.1 (hbound htag)
      show (registry.scalars ++ _).find? (·.internalType = call.internalType) = _
      rw [List.find?_append, hfree, Option.none_or]
      simp [ScalarDecl.scalarFor]

theorem UntaggedFirst.afterAll (hr : registry.UntaggedFirst) (calls : List Registration) :
    (registry.afterAll calls).UntaggedFirst := by
  induction calls generalizing registry with
  | nil => exact hr
  | cons call rest ih => exact ih (hr.after call)

theorem untaggedFirst_builtin : ({} : ScalarRegistry).UntaggedFirst := by
  unfold UntaggedFirst
  decide

theorem Unambiguous.byName?_eq_some (hr : registry.Unambiguous) {name : String} {s : Scalar} :
    registry.byName? name = some s ↔ s ∈ registry.scalars ∧ s.name = name := by
  constructor
  · exact fun h => ⟨byName?_mem h, byName?_name h⟩
  · rintro ⟨hs, rfl⟩
    exact hr.byName?_of_mem hs

theorem Unambiguous.lookup_eq_ok_iff (hr : registry.Unambiguous) {internalType : String}
    {tag : Option String} {s : Scalar} :
    registry.lookup internalType tag = .ok s ↔
      s ∈ registry.scalars ∧ s.internalType = internalType ∧ s.tag = tag := by
  rw [lookup_eq_ok]
  constructor
  · exact fun h => ⟨List.mem_of_find?_eq_some h, by simpa using List.find?_some h⟩
  · rintro ⟨hs, rfl, rfl⟩
    simpa [binding?] using find?_key_eq_some hr.bindings hs

theorem map_some_filterMap {α : Type} {l : List (Option α)} (h : none ∉ l) :
    (l.filterMap id).map some = l := by
  rw [List.map_filterMap]
  refine (List.filterMap_congr fun x hx => ?_).trans List.filterMap_some
  cases x with
  | none => exact absurd hx h
  | some a => rfl

/-- Without a tag an internal type is ambiguous when tags are bound to it and no scalar without
one. -/
theorem lookup_eq_ambiguous {internalType other : String} {candidates : List String} :
    registry.lookup internalType none = .error (.ambiguousScalar other candidates) ↔
      other = internalType ∧ candidates ≠ [] ∧
        registry.tags internalType = candidates.map some := by
  have huntagged : registry.binding? internalType none = none ↔
      none ∉ registry.tags internalType := by
    simp [binding?, tags, List.find?_eq_none]
  unfold lookup
  rcases hbinding : registry.binding? internalType none with _ | s
  · have hall := map_some_filterMap (huntagged.1 hbinding)
    rcases htags : registry.tags internalType with _ | ⟨first, rest⟩
    · simp
    · rw [htags] at hall
      simp only [Except.error.injEq, Cause.ambiguousScalar.injEq]
      constructor
      · rintro ⟨rfl, rfl⟩
        refine ⟨rfl, fun hnil => ?_, hall.symm⟩
        rw [hnil] at hall
        cases hall
      · rintro ⟨rfl, -, heq⟩
        exact ⟨rfl, by rw [heq, List.filterMap_map]; simp⟩
  · have hmem : none ∈ registry.tags internalType := by
      by_contra h
      rw [huntagged.2 h] at hbinding
      cases hbinding
    constructor
    · intro h
      cases h
    · rintro ⟨-, -, htags⟩
      simp [htags] at hmem

/-- The bindings of numbers that every registry starts with carry tags, so all later ones do. -/
theorem tags_number (hfirst : registry.UntaggedFirst) {made : List Scalar}
    (h : registry.scalars = builtinScalars ++ made) :
    ∃ later, registry.tags "number" = some "Int" :: some "Float" :: later ∧ none ∉ later := by
  refine ⟨(made.filter (·.internalType = "number")).map (·.tag), ?_, fun hmem => ?_⟩
  · rw [tags, h, List.filter_append, List.map_append]
    rfl
  · obtain ⟨s, hs, htag⟩ := List.mem_map.1 hmem
    obtain ⟨hs, htype⟩ := List.mem_filter.1 hs
    have hfound := hfirst s (h ▸ List.mem_append_right _ hs) htag
    rw [of_decide_eq_true htype, h, List.find?_append] at hfound
    cases hfound
    cases htag

/-- What holds of a registry after calls that answered the scalars `made`. -/
structure Kept (registry : ScalarRegistry) (made : List Scalar) : Prop where
  scalars : registry.scalars = builtinScalars ++ made
  names : (registry.scalars.map (·.name)).Nodup
  bindings : (registry.scalars.map fun s => (s.internalType, s.tag)).Nodup
  refused : ∀ call : Registration, registry.Refuses call ↔
    ∃ e, registry.register call.internalType call.decl = .error e
  answered : ∀ call : Registration, ¬ registry.Refuses call →
    registry.register call.internalType call.decl =
      .ok (call.scalar, ⟨registry.scalars ++ [call.scalar]⟩)
  byName : ∀ name s, registry.byName? name = some s ↔ s ∈ registry.scalars ∧ s.name = name
  lookup : ∀ internalType tag s, registry.lookup internalType tag = .ok s ↔
    s ∈ registry.scalars ∧ s.internalType = internalType ∧ s.tag = tag
  untagged : registry.UntaggedFirst
  ambiguous : ∀ internalType other candidates,
    registry.lookup internalType none = .error (.ambiguousScalar other candidates) ↔
      other = internalType ∧ candidates ≠ [] ∧ registry.tags internalType = candidates.map some
  number : ∃ later, registry.lookup "number" none =
    .error (.ambiguousScalar "number" ("Int" :: "Float" :: later))

theorem kept_afterAll (calls : List Registration) :
    (({} : ScalarRegistry).afterAll calls).Kept (({} : ScalarRegistry).answered calls) := by
  have hscalars := scalars_afterAll {} calls
  have hunambiguous := unambiguous_builtin.afterAll calls
  have hfirst := untaggedFirst_builtin.afterAll calls
  refine ⟨hscalars, hunambiguous.names, hunambiguous.bindings, fun call => refuses_iff,
    fun call => register_of_not_refuses, fun name s => hunambiguous.byName?_eq_some,
    fun internalType tag s => hunambiguous.lookup_eq_ok_iff, hfirst,
    fun internalType other candidates => lookup_eq_ambiguous, ?_⟩
  obtain ⟨later, htags, hlater⟩ := tags_number hfirst hscalars
  refine ⟨later.filterMap id, lookup_eq_ambiguous.2 ⟨rfl, by simp, ?_⟩⟩
  rw [htags, List.map_cons, List.map_cons, map_some_filterMap hlater]

/-- After any calls the two dictionaries hold the builtin scalars and those that the calls answered,
each under its name and under its internal type and tag. A call answers the same on the dictionaries
as on the list; one that is refused leaves them as they were. -/
theorem calls_kept (calls : List Registration) :
    let registry := ({} : ScalarRegistry).afterAll calls
    ScalarTables.initial.afterAll calls = registry.tables ∧
      registry.Kept (({} : ScalarRegistry).answered calls) ∧
      ∀ call : Registration,
        (ScalarTables.register call registry.tables).1 =
          (registry.register call.internalType call.decl).map (·.1) ∧
        (registry.Refuses call →
          (ScalarTables.register call registry.tables).2 = registry.tables) := by
  intro registry
  refine ⟨by rw [tables_initial]; exact tables_afterAll {} calls, kept_afterAll calls,
    fun call => ⟨?_, fun h => ?_⟩⟩
  · rw [register_tables]
    rcases registry.register call.internalType call.decl with e | ⟨s, registry'⟩ <;> rfl
  · obtain ⟨e, he⟩ := refuses_iff.1 h
    rw [register_tables, he]

end ScalarRegistry

end SchemaCompiler
