import SchemaCompiler.Proofs.Revalidation
import SchemaCompiler.Proofs.WellFormed

/-! Declarations that do not take part. An extraction goes through the declarations of its unit in
order, and one that does not take part leaves it where it was: its name is not checked and not taken,
and nothing in it is looked at. So units that differ only in such declarations are compiled alike. -/

namespace SchemaCompiler

/-- Where an extraction stands: the names that are taken, the latest one first, and what the
declarations have become. -/
structure Extraction where
  seen : List String := []
  declarations : List Declaration := []

namespace HostUnit

variable {unit u v : HostUnit} {e : Extraction} {decl : HostDeclaration}

def advance (unit : HostUnit) (e : Extraction) (decl : HostDeclaration) :
    Except CompileError Extraction :=
  if unit.includes decl then do
    locate decl.name none (checkName decl.name)
    if e.seen.contains decl.name then locate decl.name none (.error .duplicateDeclaration)
    else
      let declaration ← decl.extract (unit.descriptionOf decl)
      .ok ⟨decl.name :: e.seen, e.declarations ++ [declaration]⟩
  else .ok e

def run (unit : HostUnit) (e : Extraction) (hosts : List HostDeclaration) :
    Except CompileError Extraction :=
  hosts.foldlM unit.advance e

theorem advance_of_not_includes (hdecl : unit.includes decl = false) : unit.advance e decl = .ok e := by
  rw [advance, hdecl]
  rfl

theorem run_cons (unit : HostUnit) (e : Extraction) (decl : HostDeclaration)
    (rest : List HostDeclaration) :
    unit.run e (decl :: rest) = unit.advance e decl >>= fun e => unit.run e rest :=
  List.foldlM_cons

/-- From wherever it stands, an extraction goes on as if the others were not there. -/
theorem run_filter (unit : HostUnit) (e : Extraction) (hosts : List HostDeclaration) :
    unit.run e (hosts.filter unit.includes) = unit.run e hosts := by
  induction hosts generalizing e with
  | nil => rfl
  | cons decl rest ih =>
    cases hdecl : unit.includes decl with
    | true =>
      rw [List.filter_cons_of_pos hdecl, run_cons, run_cons]
      exact congrArg _ (funext fun _ => ih _)
    | false =>
      rw [List.filter_cons_of_neg (by rw [hdecl]; decide), run_cons, advance_of_not_includes hdecl]
      exact ih e

/-- Over declarations that take part a run collects what they become and takes their names. -/
theorem run_of_includes {hosts : List HostDeclaration}
    (hhosts : ∀ decl ∈ hosts, unit.includes decl = true) :
    unit.run e hosts = unit.extractAll e.seen hosts >>= fun ds =>
      .ok ⟨(hosts.map (·.name)).reverse ++ e.seen, e.declarations ++ ds⟩ := by
  induction hosts generalizing e with
  | nil => simp [run, extractAll, bind, Except.bind, pure, Except.pure]
  | cons decl rest ih =>
    rw [run_cons, advance, if_pos (hhosts decl List.mem_cons_self), extractAll]
    simp only [bind_assoc]
    refine congrArg _ (funext fun _ => ?_)
    split
    · rfl
    · simp only [bind_assoc]
      refine congrArg _ (funext fun first => ?_)
      rw [show (Except.ok _ >>= fun e => unit.run e rest) = unit.run _ rest from rfl,
        ih fun x hx => hhosts x (List.mem_cons_of_mem _ hx)]
      refine congrArg _ (funext fun ds => ?_)
      simp [bind, Except.bind]

/-- The source model of a unit holds what a run through all its declarations collects. -/
theorem extract_eq_run (unit : HostUnit) : unit.extract =
    unit.run {} unit.declarations >>= fun e => .ok ⟨unit.name, e.declarations⟩ := by
  rw [← run_filter, run_of_includes fun _ hdecl => (List.mem_filter.1 hdecl).2, extract, bind_assoc]
  rfl

/-- Whether two units have the same name, the same participation table and, in the same order, the
same declarations that take part. -/
structure SameParts (u v : HostUnit) : Prop where
  name : u.name = v.name
  entries : ∀ name, u.entry? name = v.entry? name
  participating : u.participating = v.participating

namespace SameParts

theorem includes (h : u.SameParts v) (decl : HostDeclaration) : u.includes decl = v.includes decl := by
  rw [HostUnit.includes, HostUnit.includes, h.entries]

/-- A step depends on the declaration and the table only. -/
theorem advance (h : u.SameParts v) : u.advance = v.advance := by
  funext e decl
  rw [HostUnit.advance, HostUnit.advance, h.includes, descriptionOf, descriptionOf, h.entries]

/-- From wherever they stand, the extractions of both units end alike. -/
theorem run (h : u.SameParts v) (e : Extraction) :
    u.run e u.declarations = v.run e v.declarations := by
  rw [← run_filter u, ← run_filter v, show u.declarations.filter u.includes =
    v.declarations.filter v.includes from h.participating, HostUnit.run, HostUnit.run, h.advance]

theorem extract (h : u.SameParts v) : u.extract = v.extract := by
  rw [extract_eq_run, extract_eq_run, h.run, h.name]

end SameParts

/-- Declarations that do not take part have no influence. Between two units that differ only in these,
the extraction comes from every state to the same state or error, and their documents are compiled to
the same result, alone and among any other units. -/
theorem compileWith_eq_of_sameParts (h : u.SameParts v) :
    (∀ e, u.run e u.declarations = v.run e v.declarations) ∧
    ∀ source source' : UnitSource, source.load = .ok u → source'.load = .ok v →
      ∀ config runner, source.compileWith config runner = source'.compileWith config runner ∧
        ∀ before after workers,
          compileAllWith (before ++ source :: after) config runner workers =
            compileAllWith (before ++ source' :: after) config runner workers := by
  refine ⟨h.run, fun source source' hu hv config runner => ?_⟩
  have hextract : source.extract = source'.extract := by
    rw [UnitSource.extract_of_load hu, UnitSource.extract_of_load hv, h.extract]
  refine ⟨?_, fun before after workers => compileAllWith_congr ?_ ..⟩
  · rw [UnitSource.compileWith, UnitSource.compileWith, hextract]
  · rw [UnitSource.extractIsolated, UnitSource.extractIsolated, hextract, UnitSource.name_of_load hu,
      UnitSource.name_of_load hv, h.name]

/-- A unit with one object, described in the participation table. -/
def quietUnit : HostUnit where
  name := "shop"
  declarations := [{ kind := .object, name := "Query", participates := true
                     fields := [{ name := "id", type := some (.named "ID") }] }]
  participation := [("Query", { participates := false, description := some "The start." }),
    ("Pair", { participates := false })]

/-- The same unit among declarations that could not be extracted, two of them with its object's
name. -/
def noisyUnit : HostUnit :=
  { quietUnit with
    declarations := [{ kind := .object, name := "__x" }, { kind := .enum, name := "Query" }] ++
      quietUnit.declarations ++
      [{ kind := .genericObject, name := "Pair", typeParameters := ["A", "B"] },
        { kind := .object, name := "Query" }] }

theorem noisyUnit_compiled : noisyUnit.SameParts quietUnit ∧
    noisyUnit.extract = .ok ⟨"shop", [.object ⟨"Query",
      [{ owner := "Query", name := "id", type := some (.ref "ID") }], some "The start."⟩]⟩ ∧
    ∀ config runner, (UnitSource.document noisyUnit.toJson).compileWith config runner =
      (UnitSource.loaded quietUnit).compileWith config runner := by
  have hsame : noisyUnit.SameParts quietUnit := ⟨rfl, fun _ => rfl, rfl⟩
  have hload : (UnitSource.document noisyUnit.toJson).load = .ok noisyUnit :=
    load_eq_ok.2 (check_readsBack noisyUnit)
  refine ⟨hsame, rfl, fun config runner => ?_⟩
  exact ((compileWith_eq_of_sameParts hsame).2 _ _ hload rfl config runner).1

end HostUnit

end SchemaCompiler
