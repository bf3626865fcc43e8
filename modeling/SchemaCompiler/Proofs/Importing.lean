import SchemaCompiler.Module.Basic

/-! Importing a module: its definitions run in their order. A definition looks up the variables that
it reads at once: an eager field map reads the types of its fields, an instantiation its factory and
its arguments. A lazy field map, the body of a factory and the function that builds the schema read
nothing before they are called. -/

namespace SchemaCompiler

/-- A definition of a module: the variable it assigns and the variables it reads at once. -/
structure Definition where
  var : String
  reads : List String
  deriving DecidableEq, Repr

namespace Definition

/-- Runs definitions after those that assigned the bound variables. The first name that is not bound
ends the run. -/
def run : (bound : List String) → List Definition → Except String (List String)
  | bound, [] => .ok bound
  | bound, d :: rest =>
    match d.reads.find? (!bound.contains ·) with
    | some name => .error name
    | none => run (bound ++ [d.var]) rest

variable {bound vars : List String} {ds : List Definition}

theorem run_cons_eq_ok {d : Definition} :
    run bound (d :: ds) = .ok vars ↔ (∀ name ∈ d.reads, name ∈ bound) ∧
      run (bound ++ [d.var]) ds = .ok vars := by
  rw [run]
  rcases hfind : d.reads.find? (!bound.contains ·) with _ | name
  · have hall : ∀ name ∈ d.reads, name ∈ bound := by simpa using hfind
    exact ⟨fun h => ⟨hall, h⟩, fun h => h.2⟩
  · have hunbound : name ∉ bound := by simpa using List.find?_some hfind
    exact ⟨fun h => (nomatch h),
      fun h => absurd (h.1 name (List.mem_of_find?_eq_some hfind)) hunbound⟩

/-- A run ends well exactly if every name is assigned before it is read. -/
theorem run_ok_iff : (∃ vars, run bound ds = .ok vars) ↔
    ∀ before d after, ds = before ++ d :: after →
      ∀ name ∈ d.reads, name ∈ bound ++ before.map (·.var) := by
  induction ds generalizing bound with
  | nil => exact ⟨fun _ before d after h => by simp at h, fun _ => ⟨bound, rfl⟩⟩
  | cons first rest ih =>
    simp only [run_cons_eq_ok, exists_and_left, ih]
    constructor
    · rintro ⟨hfirst, hrest⟩ before d after h name hname
      rcases List.cons_eq_append_iff.1 h with ⟨rfl, h⟩ | ⟨before, rfl, h⟩
      · cases h
        exact List.mem_append_left _ (hfirst name hname)
      · have hmem := hrest before d after (List.cons.inj h).2 name hname
        rwa [List.append_assoc, List.singleton_append] at hmem
    · intro hall
      refine ⟨fun name hname => ?_, fun before d after h name hname => ?_⟩
      · simpa using hall [] first rest rfl name hname
      · have hmem := hall (first :: before) d after (by rw [h, List.cons_append]) name hname
        rwa [List.append_assoc, List.singleton_append]

theorem run_append {ds' : List Definition} (h : run bound ds = .ok vars) :
    run bound (ds ++ ds') = run vars ds' := by
  induction ds generalizing bound with
  | nil => cases h; rfl
  | cons d rest ih =>
    obtain ⟨hreads, hrest⟩ := run_cons_eq_ok.1 h
    have hfind : d.reads.find? (!bound.contains ·) = none := by simpa using hreads
    rw [List.cons_append, run, hfind]
    exact ih hrest

/-- Definitions that read nothing always run. -/
theorem run_of_reads_nil (h : ∀ d ∈ ds, d.reads = []) :
    run bound ds = .ok (bound ++ ds.map (·.var)) := by
  induction ds generalizing bound with
  | nil => rw [run, List.map_nil, List.append_nil]
  | cons d rest ih =>
    refine run_cons_eq_ok.2 ⟨fun name hname => ?_, ?_⟩
    · rw [h d List.mem_cons_self] at hname
      cases hname
    · rw [ih fun x hx => h x (List.mem_cons_of_mem _ hx), List.map_cons, List.append_assoc,
        List.singleton_append]

end Definition

def TypeTerm.variables : TypeTerm → List String
  | .library _ => []
  | .var name => [name]
  | .parameter _ => []
  | .list element => element.variables
  | .nonNull inner => inner.variables
  | .call factory argument => factory :: argument.variables

def FieldEntry.variables (f : FieldEntry) : List String :=
  f.type.variables ++ f.arguments.flatMap (·.type.variables)

def ObjectEntry.definition (o : ObjectEntry) : Definition :=
  ⟨o.var, if o.isLazy then [] else o.fields.flatMap FieldEntry.variables⟩

def InstanceEntry.definition (i : InstanceEntry) : Definition :=
  ⟨i.var, i.factory :: i.arguments.flatMap TypeTerm.variables⟩

namespace SchemaModule

/-- The definitions of a module that read no variables: scalars, enums and factories. -/
def closedDefinitions (m : SchemaModule) : List Definition :=
  m.scalars.map (⟨·.var, []⟩) ++ m.enums.map (⟨·.var, []⟩) ++ m.factories.map (⟨·.var, []⟩)

def definitions (m : SchemaModule) : List Definition :=
  m.closedDefinitions ++ m.objects.map ObjectEntry.definition ++
    m.instances.map InstanceEntry.definition

/-- Imports a module: the variables that are assigned in the end, or the first name that is read
before it is assigned. -/
def load (m : SchemaModule) : Except String (List String) :=
  Definition.run [] m.definitions

end SchemaModule

end SchemaCompiler
