import SchemaCompiler.CommandLine.Compile
import SchemaCompiler.Proofs.FileNames
import SchemaCompiler.Proofs.Together
import SchemaCompiler.Proofs.WellFormed

/-! The files that the command `compile` leaves in a directory. The modules of the units that compile
are written in the order of the inputs, each at the place its file name leads to, so of several
modules with one place the last one stays. -/

namespace SchemaCompiler

open OperatingSystem

theorem Path.join_of_absolute {base path : Path} (h : path.isAbsolute = true) :
    base.join path = path :=
  if_pos h

namespace Machine

variable {α β : Type}

theorem run_bind (x : StateM Machine α) (f : α → StateM Machine β) (machine : Machine) :
    (x >>= f).run machine = (f (x.run machine).1).run (x.run machine).2 :=
  rfl

/-- Whether a step changes neither files nor the working directory. -/
def Quiet (x : StateM Machine α) : Prop :=
  ∀ machine, (x.run machine).2.files = machine.files ∧
    (x.run machine).2.workingDirectory = machine.workingDirectory

theorem Quiet.pure (a : α) : Quiet (Pure.pure a) :=
  fun _ => ⟨rfl, rfl⟩

theorem Quiet.bind {x : StateM Machine α} {f : α → StateM Machine β} (hx : Quiet x)
    (hf : ∀ a, Quiet (f a)) : Quiet (x >>= f) := by
  intro machine
  have hfirst := hx machine
  have hrest := hf (x.run machine).1 (x.run machine).2
  exact ⟨hrest.1.trans hfirst.1, hrest.2.trans hfirst.2⟩

theorem quiet_say (text : String) : Quiet (say text) :=
  fun _ => ⟨rfl, rfl⟩

theorem quiet_complain (text : String) : Quiet (complain text) :=
  fun _ => ⟨rfl, rfl⟩

theorem quiet_loadDocument (path : String) : Quiet (loadDocument path) := by
  refine Quiet.bind (fun _ => ⟨rfl, rfl⟩) fun entry => ?_
  split <;> exact .pure _

theorem quiet_loadInputs (inputs : List String) : Quiet (loadInputs inputs) := by
  induction inputs with
  | nil => exact .pure _
  | cons path rest ih =>
    refine (quiet_loadDocument path).bind fun loaded => ?_
    rcases loaded with error | document
    · exact (quiet_complain _).bind fun _ => ih.bind fun _ => .pure _
    · exact ih.bind fun _ => .pure _

theorem quiet_loadConfig (options : CompileOptions) : Quiet options.loadConfig := by
  unfold CompileOptions.loadConfig
  dsimp only
  split
  · exact (Quiet.pure _).bind fun _ => .pure _
  · refine (quiet_loadDocument _).bind fun loaded => ?_
    split <;> exact (Quiet.pure _).bind fun _ => .pure _

/-- Whether a step writes targets one after the other, and succeeds if all of them are written. -/
def Writes (x : StateM Machine (Except FileFault α)) (targets : List Target) : Prop :=
  ∀ machine, (x.run machine).2.files = (machine.files.depositAll targets).2 ∧
    ((x.run machine).1.isOk = true ↔ (machine.files.depositAll targets).1 = .ok ())

theorem Writes.ok (a : α) : Writes (Pure.pure (.ok a)) [] :=
  fun _ => ⟨rfl, iff_of_true rfl rfl⟩

theorem Quiet.writes {x : StateM Machine α} {f : α → StateM Machine (Except FileFault β)}
    {targets : List Target} (hx : Quiet x) (hf : ∀ a, Writes (f a) targets) :
    Writes (x >>= f) targets := by
  intro machine
  have hrest := hf (x.run machine).1 (x.run machine).2
  rw [(hx machine).1] at hrest
  exact hrest

theorem Writes.map {x : StateM Machine (Except FileFault α)} {targets : List Target}
    (hx : Writes x targets) (f : α → β) :
    Writes (do return (← x).map f) targets := by
  intro machine
  obtain ⟨hfiles, hok⟩ := hx machine
  refine ⟨hfiles, Iff.trans ?_ hok⟩
  rw [run_bind]
  rcases (x.run machine).1 with fault | a <;> rfl

/-- Makes the directory of a target, writes the target and goes on. -/
def writing (t : Target) (next : StateM Machine (Except FileFault α)) :
    StateM Machine (Except FileFault α) := do
  match ← makeDirectories t.path.parent with
  | .error fault => return .error fault
  | .ok () =>
    match ← write t.path t.content with
    | .error fault => return .error fault
    | .ok () => next

/-- A target is written before the others. -/
theorem Writes.cons {t : Target} (ht : t.path.isAbsolute = true)
    {x : StateM Machine (Except FileFault α)} {targets : List Target} (hx : Writes x targets) :
    Writes (writing t x) (t :: targets) := by
  intro machine
  have hmake (machine : Machine) :
      (makeDirectories t.path.parent : StateM Machine _).run machine =
        machine.change (machine.files.makeDirectories t.path.parent) := by
    have hparent : machine.workingDirectory.join t.path.parent = t.path.parent :=
      Path.join_of_absolute ht
    exact congrArg (fun path => machine.change (machine.files.makeDirectories path)) hparent
  have hwrite (machine : Machine) : (write t.path t.content : StateM Machine _).run machine =
      machine.change (machine.files.write t.path t.content) := by
    have hpath : machine.workingDirectory.join t.path = t.path := Path.join_of_absolute ht
    exact congrArg (fun path => machine.change (machine.files.write path t.content)) hpath
  rw [writing, run_bind, hmake, Files.depositAll, Files.deposit]
  rcases machine.files.makeDirectories t.path.parent with ⟨fault | _, made⟩
  · exact ⟨rfl, iff_of_false Bool.false_ne_true (by rintro ⟨⟩)⟩
  · simp only [change]
    rw [run_bind, hwrite]
    rcases made.write t.path t.content with ⟨fault | _, written⟩
    · exact ⟨rfl, iff_of_false Bool.false_ne_true (by rintro ⟨⟩)⟩
    · exact hx _

end Machine

namespace CompileOptions

/-- The results of the units that the inputs hold on a machine. -/
def resultsOn (options : CompileOptions) (machine : Machine) : Except Failure (List UnitResult) := do
  let (config, machine) := (options.loadConfig : StateM Machine _).run machine
  let config ← config
  let documents := ((loadInputs options.inputs : StateM Machine _).run machine).1.1
  compileAll (documents.map .document) config options.hooks options.workers

/-- The output that the options name on a machine. -/
def outputOn (options : CompileOptions) (machine : Machine) : Path :=
  Path.resolve machine.workingDirectory (.ofText options.output)

def targetOf (options : CompileOptions) (output : Path) (schema : EmittedSchema) : Target :=
  ⟨options.target output schema, schema.content⟩

end CompileOptions

def compiledSchemas (results : List UnitResult) : List EmittedSchema :=
  results.filterMap (·.outcome.toOption)

theorem CompileOptions.target_absolute {options : CompileOptions} {output : Path}
    (h : output.isAbsolute = true) (schema : EmittedSchema) :
    (options.target output schema).isAbsolute = true := by
  unfold target
  split
  · exact h
  · unfold Path.join
    split
    · assumption
    · exact h

/-- Writing the results of units is writing the modules of those that compile. -/
theorem writes_writeResults (options : CompileOptions) {output : Path}
    (houtput : output.isAbsolute = true) (results : List UnitResult) :
    Machine.Writes (writeResults options output results)
      ((compiledSchemas results).map (options.targetOf output)) := by
  induction results with
  | nil => exact .ok 0
  | cons result rest ih =>
    obtain ⟨unit, error | schema⟩ := result
    · exact (Machine.quiet_complain _).writes fun _ => ih.map _
    · have htarget := options.target_absolute houtput schema
      refine Machine.Writes.cons (t := options.targetOf output schema) htarget ?_
      split
      · refine (Machine.quiet_say _).writes fun _ => ?_
        exact (Machine.quiet_say _).writes fun _ => ih
      · exact (Machine.quiet_say _).writes fun _ => ih

/-- What the command does with the results of the units. -/
def finish (options : CompileOptions) (unread : Nat) (results : List UnitResult) :
    StateM Machine Exit := do
  let output := Path.resolve (← workingDirectory) (.ofText options.output)
  match ← writeResults options output results with
  | .error fault => return .crash (.file fault)
  | .ok failed =>
    if unread + failed > 0 then return .code 1
    say "Done!\n"
    return .code 0

/-- Results are finished with by writing their modules, and with a code if all of them are written. -/
theorem finish_run (options : CompileOptions) (unread : Nat) (results : List UnitResult)
    (machine : Machine) :
    let run := (finish options unread results).run machine
    let written := machine.files.depositAll
      ((compiledSchemas results).map (options.targetOf (options.outputOn machine)))
    run.2.files = written.2 ∧ ((∃ code, run.1 = .code code) ↔ written.1 = .ok ()) := by
  obtain ⟨hwritten, hok⟩ := writes_writeResults options
    (rfl : (options.outputOn machine).isAbsolute = true) results machine
  have hwhere : (workingDirectory : StateM Machine Path).run machine =
    (machine.workingDirectory, machine) := rfl
  rw [finish, Machine.run_bind, hwhere]
  dsimp only
  rw [Machine.run_bind, ← CompileOptions.outputOn]
  rcases hwrite : (writeResults options (options.outputOn machine) results :
    StateM Machine _).run machine with ⟨fault | failed, after⟩ <;> rw [hwrite] at hwritten hok
  · exact ⟨hwritten, iff_of_false nofun fun h => nomatch (hok.2 h)⟩
  · dsimp only
    split
    · exact ⟨hwritten, iff_of_true ⟨1, rfl⟩ (hok.1 rfl)⟩
    · exact ⟨hwritten, iff_of_true ⟨0, rfl⟩ (hok.1 rfl)⟩

/-- The command writes the modules of the units that compile, or nothing if it is cut off before. It
ends with a code if all of them are written. -/
theorem compileCommand_run (options : CompileOptions) (machine : Machine) :
    let run := (compileCommand options : StateM Machine Exit).run machine
    (∀ failure, options.resultsOn machine = .error failure → run.2.files = machine.files) ∧
    ∀ results, options.resultsOn machine = .ok results →
      let written := machine.files.depositAll
        ((compiledSchemas results).map (options.targetOf (options.outputOn machine)))
      run.2.files = written.2 ∧ ((∃ code, run.1 = .code code) ↔ written.1 = .ok ()) := by
  obtain ⟨hfirst, hplace⟩ := Machine.quiet_loadConfig options machine
  rw [compileCommand, Machine.run_bind, CompileOptions.resultsOn]
  rcases hconfig : (options.loadConfig : StateM Machine _).run machine with ⟨failure | config, first⟩
  · rw [hconfig] at hfirst
    exact ⟨fun _ _ => hfirst, fun _ h => nomatch h⟩
  · rw [hconfig] at hfirst hplace
    obtain ⟨hsecond, hthere⟩ := Machine.quiet_loadInputs options.inputs first
    dsimp only
    rw [Machine.run_bind]
    rcases hinputs : (loadInputs options.inputs : StateM Machine _).run first with
      ⟨⟨documents, unread⟩, second⟩
    rw [hinputs] at hsecond hthere
    dsimp only at hfirst hplace hsecond hthere ⊢
    rw [Machine.run_bind]
    obtain ⟨hthird, hhere⟩ :=
      Machine.quiet_say s!"Compiling {documents.length} unit(s)...\n" second
    generalize ((say s!"Compiling {documents.length} unit(s)...\n" : StateM Machine _).run second).2 =
      third at hthird hhere
    have hfiles : third.files = machine.files := hthird.trans (hsecond.trans hfirst)
    have houtput : options.outputOn third = options.outputOn machine := by
      rw [CompileOptions.outputOn, hhere, hthere, hplace, CompileOptions.outputOn]
    rcases hresults : compileAll (documents.map .document) config options.hooks options.workers with
      failure | results
    · exact ⟨fun _ _ => hfiles, fun _ h => nomatch (hresults.symm.trans h)⟩
    · refine ⟨fun _ h => (nomatch (hresults.symm.trans h)), fun results' h => ?_⟩
      obtain rfl : results = results' := Except.ok.inj (hresults.symm.trans h)
      rw [← hfiles, ← houtput]
      exact finish_run options unread results third

namespace CompileOptions

def targetsOn (options : CompileOptions) (machine : Machine) (results : List UnitResult) :
    List Target :=
  (compiledSchemas results).map (options.targetOf (options.outputOn machine))

/-- What a run leaves in an output directory when the units have certain results. -/
structure Leaves (options : CompileOptions) (machine : Machine) (results : List UnitResult)
    (exit : Exit) (after : Files) : Prop where
  /-- However the run ends, only targets are written, in order, and directories on their way. -/
  changed : ∃ written, written <+: options.targetsOn machine results ∧
    machine.files.Receives after written (Files.OnWay (options.targetsOn machine results))
  /-- A run that is not cut off writes all targets, so that the last one of a place stays. -/
  received : ∀ code, exit = .code code → machine.files.Receives after
    (options.targetsOn machine results) (Files.OnWay (options.targetsOn machine results))
  /-- It keeps a file for each unit exactly if the targets are files in the directory and differ. -/
  kept : ∀ code, exit = .code code →
    (Files.KeepsEach (options.outputOn machine).place (options.targetsOn machine results)
        machine.files after ↔
      (∀ t ∈ options.targetsOn machine results,
        ∃ name, t.place = (options.outputOn machine).place ++ [name]) ∧
      ((options.targetsOn machine results).map Target.place).Nodup)
  /-- A directory that admits the files of the modules gets all of them, and keeps a file for each
  unit exactly if their names differ. -/
  admitted : machine.files.Admits (options.outputOn machine).parts
      ((compiledSchemas results).map (·.file)) →
    (∃ code, exit = .code code) ∧
      (Files.KeepsEach (options.outputOn machine).place (options.targetsOn machine results)
          machine.files after ↔ ((compiledSchemas results).map (·.file)).Nodup)

variable {options : CompileOptions} {machine : Machine}

/-- In a directory, a module goes to the file of its name. -/
theorem targetOf_parts {output : Path} (hdirectory : options.isSingleFile output = false)
    {schema : EmittedSchema} (hname : IsFileName schema.file) :
    (options.targetOf output schema).path.parts = output.parts ++ [schema.file] := by
  rw [targetOf, target, hdirectory, if_neg Bool.false_ne_true, Path.ofText_name hname]
  rfl

/-- The places of modules whose names are admitted. -/
theorem places_of_admits (hdirectory : options.isSingleFile (options.outputOn machine) = false)
    {results : List UnitResult} (hadmits : machine.files.Admits (options.outputOn machine).parts
      ((compiledSchemas results).map (·.file))) :
    (options.targetsOn machine results).map Target.place =
      (compiledSchemas results).map fun schema =>
        (options.outputOn machine).place ++ [schema.file] := by
  have hplace : (options.outputOn machine).place = (options.outputOn machine).parts := by
    rw [Path.place, Files.foldl_names hadmits.directoryNames, List.nil_append]
  rw [targetsOn, List.map_map, hplace]
  refine List.map_congr_left fun schema hschema => ?_
  have hname := hadmits.fileNames _ (List.mem_map_of_mem hschema)
  exact Files.place_names hadmits.directoryNames hname (targetOf_parts hdirectory hname)

end CompileOptions

/-- The command is not cut off where the directory admits the files of the modules. -/
theorem compileCommand_code {options : CompileOptions} {machine : Machine}
    {results : List UnitResult}
    (hdirectory : options.isSingleFile (options.outputOn machine) = false)
    (hresults : options.resultsOn machine = .ok results)
    (hadmits : machine.files.Admits (options.outputOn machine).parts
      ((compiledSchemas results).map (·.file))) :
    ∃ code, ((compileCommand options : StateM Machine Exit).run machine).1 = .code code := by
  refine ((compileCommand_run options machine).2 results hresults).2.2 ?_
  refine hadmits.depositAll fun t ht => ?_
  obtain ⟨schema, hschema, rfl⟩ := List.mem_map.1 ht
  have hname := List.mem_map_of_mem (f := (·.file)) hschema
  exact ⟨_, hname, CompileOptions.targetOf_parts hdirectory (hadmits.fileNames _ hname)⟩

/-- What the command leaves behind on every machine, whatever the names of the units are. -/
theorem compileCommand_leaves (options : CompileOptions) (machine : Machine)
    (hdirectory : options.isSingleFile (options.outputOn machine) = false) :
    let run := (compileCommand options : StateM Machine Exit).run machine
    (∀ failure, options.resultsOn machine = .error failure → run.2.files = machine.files) ∧
      ∀ results, options.resultsOn machine = .ok results →
        options.Leaves machine results run.1 run.2.files := by
  obtain ⟨hnothing, hall⟩ := compileCommand_run options machine
  refine ⟨hnothing, fun results hresults => ?_⟩
  obtain ⟨hfiles, hcode⟩ := hall results hresults
  obtain ⟨written, hwritten, hreceives, hcomplete⟩ :=
    machine.files.depositAll_receives (options.targetsOn machine results)
  have hreceived (hok : ∃ code, ((compileCommand options : StateM Machine Exit).run machine).1 =
      .code code) : machine.files.Receives
        ((compileCommand options : StateM Machine Exit).run machine).2.files
        (options.targetsOn machine results) (Files.OnWay (options.targetsOn machine results)) := by
    rw [hcomplete (hcode.1 hok)] at hreceives
    rw [hfiles]
    exact hreceives
  refine ⟨⟨written, hwritten, hfiles ▸ hreceives⟩, fun code hexit => hreceived ⟨code, hexit⟩,
    fun code hexit => (hreceived ⟨code, hexit⟩).keepsEach_iff, fun hadmits => ?_⟩
  have hok := compileCommand_code hdirectory hresults hadmits
  refine ⟨hok, (hreceived hok).keepsEach_iff.trans ?_⟩
  have hplaces := CompileOptions.places_of_admits hdirectory hadmits
  have hinside : ∀ t ∈ options.targetsOn machine results,
      ∃ name, t.place = (options.outputOn machine).place ++ [name] := by
    intro t ht
    obtain ⟨schema, -, hplace⟩ := List.mem_map.1 (hplaces ▸ List.mem_map_of_mem ht)
    exact ⟨schema.file, hplace.symm⟩
  have hinjective : Function.Injective fun name => (options.outputOn machine).place ++ [name] :=
    fun name name' h => List.singleton_inj.1 (List.append_cancel_left h)
  rw [and_iff_right hinside, hplaces, ← List.nodup_map_iff hinjective, List.map_map]
  rfl

def scalarUnit (name scalar internalType : String) : HostUnit where
  name := name
  declarations := [
    { name := scalar, kind := .scalar, participates := true, internalType := some internalType }]

def scalarText (name scalar internalType : String) : String :=
  "\x7b\"name\":\"" ++ name ++ "\",\"declarations\":[\x7b\"kind\":\"scalar\",\"name\":\"" ++
    scalar ++ "\",\"participates\":true,\"internal_type\":\"" ++ internalType ++ "\"\x7d]\x7d"

def scalarModule (scalar : String) : SchemaModule where
  header := ""
  docstring := "Generated GraphQL schema. Do not edit."
  runtimeModule := "gql_schemagen.runtime"
  libraryImports := []
  runtimeImports := ["define_scalar"]
  scalars := [⟨scalar, scalar, none, none⟩]
  enums := []
  factories := []
  objects := []
  instances := []
  schema := none

def HostUnit.isScalarUnit (unit : HostUnit) (name scalar internalType : String) : Bool :=
  match unit with
  | ⟨n, [⟨.scalar, s, true, none, [], [], [], some t, none, none⟩], []⟩ =>
    n = name ∧ s = scalar ∧ t = internalType
  | _ => false

theorem HostUnit.eq_scalarUnit {unit : HostUnit} {name scalar internalType : String}
    (h : unit.isScalarUnit name scalar internalType = true) :
    unit = scalarUnit name scalar internalType := by
  unfold isScalarUnit at h
  split at h
  · obtain ⟨rfl, rfl, rfl⟩ := of_decide_eq_true h
    rfl
  · cases h

theorem dateUnit_emits : ∃ a schema,
    (UnitSource.loaded (scalarUnit "a-b" "Date" "date")).Emits {} {} a (scalarModule "Date")
      schema := by
  refine HostUnit.emits_of_parts [] ["define_scalar"] ?_ rfl ?_ ?_ ?_ ?_
  · cbv
  · simp [scalarModule]
  · simp [scalarModule]
  · decide
  · decide +kernel

theorem moneyUnit_emits : ∃ a schema,
    (UnitSource.loaded (scalarUnit "a_b" "Money" "money")).Emits {} {} a (scalarModule "Money")
      schema := by
  refine HostUnit.emits_of_parts [] ["define_scalar"] ?_ rfl ?_ ?_ ?_ ?_
  · cbv
  · simp [scalarModule]
  · simp [scalarModule]
  · decide
  · decide +kernel

/-- A document that is read as such a unit gives the module of the unit. -/
theorem gives_of_document {json : Json} {name scalar internalType : String}
    (hload : (HostUnit.load json).toOption.any (·.isScalarUnit name scalar internalType) = true)
    {a : Analysis} {schema : EmittedSchema}
    (hemits : (UnitSource.loaded (scalarUnit name scalar internalType)).Emits {} {} a
      (scalarModule scalar) schema) :
    (UnitSource.document json).Gives {} {} ⟨(UnitSource.document json).name, .ok schema⟩ ∧
      schema.file = moduleFileName name ∧ schema.content = (scalarModule scalar).text := by
  obtain ⟨unit, hunit, hscalar⟩ := (Option.any_eq_true _ _).1 hload
  rw [HostUnit.eq_scalarUnit hscalar, except_toOption_eq_some] at hunit
  have hextract : (UnitSource.document json).extract =
      (UnitSource.loaded (scalarUnit name scalar internalType)).extract := by
    rw [UnitSource.extract, UnitSource.load, hunit]
    rfl
  have hsame : (UnitSource.document json).compile {} {} =
      (UnitSource.loaded (scalarUnit name scalar internalType)).compile {} {} := by
    rw [UnitSource.compile, UnitSource.compileWith, hextract]
    rfl
  have hcompiles := UnitSource.compile_eq_ok.2 ⟨a, scalarModule scalar, hemits⟩
  obtain ⟨model, hmodel, ha⟩ := hemits.analyzed
  have hname : a.model.unit = name := by
    rw [(SourceModel.analyze_eq_ok.1 ha).1]
    exact (HostUnit.extract_eq_ok.1 hmodel).2.name
  refine ⟨.of_ok (hsame.trans hcompiles), by rw [hemits.file, hname], ?_⟩
  rw [hemits.content, Hooks.runPost, List.foldl_nil]

namespace Machine

/-- A document is read from the file that its path leads to. -/
theorem run_loadDocument {machine : Machine} {path : String} {content : List UInt8} {json : Json}
    (hentry : machine.files.entry? (machine.workingDirectory.join (.ofText path)) =
      some (.file content))
    (hread : readDocument (.ofText path) content = .ok json) :
    (loadDocument path : StateM Machine _).run machine = (.ok json, machine) := by
  have hrun : ( entry? (.ofText path) : StateM Machine _).run machine =
      (some (.file content), machine) := by
    rw [← hentry]
    rfl
  rw [loadDocument, run_bind, hrun, ← hread]
  rfl

theorem run_loadInputs_cons {machine : Machine} {path : String} {rest : List String} {json : Json}
    (h : (loadDocument path : StateM Machine _).run machine = (.ok json, machine)) :
    (loadInputs (path :: rest) : StateM Machine _).run machine =
      let others := (loadInputs rest : StateM Machine _).run machine
      ((json :: others.1.1, others.1.2), others.2) := by
  rw [loadInputs, run_bind, h]
  rfl

end Machine

/-- A machine with the documents of two units whose names differ in one character. -/
def twoUnits : Machine where
  files := ⟨[
    (["a.json"], .file (scalarText "a-b" "Date" "date").toUTF8.data.toList),
    (["b.json"], .file (scalarText "a_b" "Money" "money").toUTF8.data.toList)]⟩

def twoInputs : CompileOptions where
  inputs := ["a.json", "b.json"]
  output := "out"

/-- Both units compile, and their modules have one file name. -/
theorem twoInputs_results : ∃ results date money, twoInputs.resultsOn twoUnits = .ok results ∧
    compiledSchemas results = [date, money] ∧ date.file = "a_b.py" ∧ money.file = "a_b.py" ∧
      date.content = (scalarModule "Date").text ∧ money.content = (scalarModule "Money").text := by
  have hdate : ((readDocument ⟨false, ["a.json"]⟩
      (scalarText "a-b" "Date" "date").toUTF8.data.toList).toOption.any fun json =>
        (HostUnit.load json).toOption.any (·.isScalarUnit "a-b" "Date" "date")) = true := by
    decide +kernel
  have hmoney : ((readDocument ⟨false, ["b.json"]⟩
      (scalarText "a_b" "Money" "money").toUTF8.data.toList).toOption.any fun json =>
        (HostUnit.load json).toOption.any (·.isScalarUnit "a_b" "Money" "money")) = true := by
    decide +kernel
  obtain ⟨first, hfirst, hdate⟩ := (Option.any_eq_true _ _).1 hdate
  obtain ⟨second, hsecond, hmoney⟩ := (Option.any_eq_true _ _).1 hmoney
  rw [except_toOption_eq_some] at hfirst hsecond
  obtain ⟨a, date, hdateEmits⟩ := dateUnit_emits
  obtain ⟨a', money, hmoneyEmits⟩ := moneyUnit_emits
  obtain ⟨hdateGives, hdateFile, hdateContent⟩ := gives_of_document hdate hdateEmits
  obtain ⟨hmoneyGives, hmoneyFile, hmoneyContent⟩ := gives_of_document hmoney hmoneyEmits
  have hinputs : (loadInputs twoInputs.inputs : StateM Machine _).run twoUnits =
      (([first, second], 0), twoUnits) := by
    have ha : Path.ofText "a.json" = ⟨false, ["a.json"]⟩ := Path.ofText_name (by decide)
    have hb : Path.ofText "b.json" = ⟨false, ["b.json"]⟩ := Path.ofText_name (by decide)
    have hloadA : (loadDocument "a.json" : StateM Machine _).run twoUnits = (.ok first, twoUnits) :=
      Machine.run_loadDocument (by rw [ha]; rfl) (ha ▸ hfirst)
    have hloadB : (loadDocument "b.json" : StateM Machine _).run twoUnits = (.ok second, twoUnits) :=
      Machine.run_loadDocument (by rw [hb]; rfl) (hb ▸ hsecond)
    rw [twoInputs, Machine.run_loadInputs_cons hloadA, Machine.run_loadInputs_cons hloadB]
    rfl
  have hconfig : (twoInputs.loadConfig : StateM Machine _).run twoUnits = (.ok {}, twoUnits) := by
    rfl
  refine ⟨[⟨(UnitSource.document first).name, .ok date⟩,
    ⟨(UnitSource.document second).name, .ok money⟩], date, money, ?_, rfl, ?_, ?_, hdateContent,
    hmoneyContent⟩
  · rw [CompileOptions.resultsOn, hconfig]
    dsimp only
    rw [hinputs]
    exact compileExtracted_append (.cons hdateGives (.cons hmoneyGives .nil)) [] []
  · rw [hdateFile]
    decide +kernel
  · rw [hmoneyFile]
    decide +kernel

theorem twoInputs_output : twoInputs.outputOn twoUnits = ⟨true, ["out"]⟩ := by
  have hout : Path.ofText "out" = ⟨false, ["out"]⟩ := Path.ofText_name (by decide)
  rw [CompileOptions.outputOn, twoInputs, hout]
  rfl

theorem twoUnits_admits :
    twoUnits.files.Admits (twoInputs.outputOn twoUnits).parts ["a_b.py", "a_b.py"] := by
  rw [twoInputs_output]
  refine ⟨by decide, by decide, fun place hplace content => ?_, by decide⟩
  rcases List.prefix_cons_iff.1 hplace with rfl | ⟨rest, rfl, hrest⟩
  · exact nofun
  · rw [List.prefix_nil.1 hrest]
    exact nofun

/-- Not every run that ends with a code keeps a file for each unit. -/
theorem command_may_lose_modules :
    ¬∀ (options : CompileOptions) (machine : Machine) (results : List UnitResult) (code : Nat),
      options.isSingleFile (options.outputOn machine) = false →
      options.resultsOn machine = .ok results →
      ((compileCommand options : StateM Machine Exit).run machine).1 = .code code →
      Files.KeepsEach (options.outputOn machine).place (options.targetsOn machine results)
        machine.files ((compileCommand options : StateM Machine Exit).run machine).2.files := by
  intro hall
  obtain ⟨results, date, money, hresults, hschemas, hdate, hmoney, -⟩ := twoInputs_results
  have hadmits : twoUnits.files.Admits (twoInputs.outputOn twoUnits).parts
      ((compiledSchemas results).map (·.file)) := by
    rw [hschemas, List.map_cons, List.map_cons, List.map_nil, hdate, hmoney]
    exact twoUnits_admits
  obtain ⟨code, hcode⟩ := compileCommand_code rfl hresults hadmits
  have hapart := (hall twoInputs twoUnits results code rfl hresults hcode).apart
  rw [CompileOptions.places_of_admits rfl hadmits, hschemas, List.map_cons, List.map_cons,
    List.map_nil, hdate, hmoney] at hapart
  exact (List.nodup_cons.1 hapart).1 List.mem_cons_self

/-- Two units compile, the run ends with a code, and the module of the second one is all that is
left. -/
theorem twoUnits_leaves : ∃ results code after,
    twoInputs.isSingleFile (twoInputs.outputOn twoUnits) = false ∧
      twoInputs.resultsOn twoUnits = .ok results ∧ (compiledSchemas results).length = 2 ∧
      (compileCommand twoInputs : StateM Machine Exit).run twoUnits = (.code code, after) ∧
      twoInputs.Leaves twoUnits results (.code code) after.files ∧
      after.files.entryAt? ["out", "a_b.py"] =
        some (.file (scalarModule "Money").text.toUTF8.toList) ∧
      ¬Files.KeepsEach ["out"] (twoInputs.targetsOn twoUnits results) twoUnits.files after.files := by
  obtain ⟨results, date, money, hresults, hschemas, hdate, hmoney, -, hcontent⟩ := twoInputs_results
  have hnames : (compiledSchemas results).map (·.file) = ["a_b.py", "a_b.py"] := by
    rw [hschemas, List.map_cons, List.map_cons, List.map_nil, hdate, hmoney]
  have hplace : (twoInputs.outputOn twoUnits).place = ["out"] := by
    rw [twoInputs_output]
    decide
  have hleaves := (compileCommand_leaves twoInputs twoUnits rfl).2 results hresults
  rcases hrun : (compileCommand twoInputs : StateM Machine Exit).run twoUnits with ⟨exit, after⟩
  rw [hrun] at hleaves
  obtain ⟨⟨code, rfl⟩, hkeeps⟩ := hleaves.admitted (hnames ▸ twoUnits_admits)
  refine ⟨results, code, after, rfl, hresults, by rw [hschemas]; rfl, rfl, hleaves, ?_, ?_⟩
  · have hparts : (twoInputs.targetOf (twoInputs.outputOn twoUnits) money).path.parts =
        ["out"] ++ ["a_b.py"] := by
      rw [CompileOptions.targetOf_parts rfl (by rw [hmoney]; decide), hmoney, twoInputs_output]
    have hmoneyPlace : (twoInputs.targetOf (twoInputs.outputOn twoUnits) money).place =
        ["out", "a_b.py"] := Files.place_names (by decide) (by decide) hparts
    have hlast : lastAt? (twoInputs.targetsOn twoUnits results) ["out", "a_b.py"] =
        some (twoInputs.targetOf (twoInputs.outputOn twoUnits) money) := by
      rw [CompileOptions.targetsOn, hschemas, ← hmoneyPlace]
      exact lastAt?_concat [_] _
    rw [(hleaves.received code rfl).contents _ _ hlast, Target.entry, CompileOptions.targetOf,
      hcontent]
  · rw [← hplace, hkeeps, hnames]
    decide

end SchemaCompiler
