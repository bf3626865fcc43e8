import SchemaCompiler.Proofs.Variables

/-! Compiling units together and compiling each alone. All units are extracted before the first one
goes on, and the errors of the two halves are kept on different ways. Still a unit gives what it
gives alone, at its own place among the results, and the first failure that is no error of a unit is
that of the whole. -/

namespace SchemaCompiler

/-- A failure that is no error of the compiler's own. -/
def Failure.Abrupt : Failure → Prop
  | .compile _ => False
  | _ => True

namespace UnitSource

variable {source : UnitSource} {config : Config} {runner : HookRunner}

/-- What a unit gives alone, its module or its error, under the name it is reported by. -/
structure Gives (source : UnitSource) (config : Config) (runner : HookRunner) (result : UnitResult) :
    Prop where
  unit : result.unit = source.name
  outcome : source.compileWith config runner = orFailure .compile result.outcome

theorem compileWith_of_extract_error {error : CompileError} (h : source.extract = .error error) :
    source.compileWith config runner = .error (.compile error) := by
  rw [compileWith, h]
  rfl

theorem compileWith_of_extract {model : SourceModel} (h : source.extract = .ok model) :
    source.compileWith config runner = model.compileWith config runner := by
  rw [compileWith, h]
  rfl

theorem Gives.of_ok {schema : EmittedSchema} (h : source.compileWith config runner = .ok schema) :
    source.Gives config runner ⟨source.name, .ok schema⟩ :=
  ⟨rfl, h⟩

theorem Gives.of_error {error : CompileError}
    (h : source.compileWith config runner = .error (.compile error)) :
    source.Gives config runner ⟨source.name, .error error⟩ :=
  ⟨rfl, h⟩

theorem Gives.ok_eq {result : UnitResult} (h : source.Gives config runner result) :
    result.ok = (source.compileWith config runner).isOk := by
  rw [h.outcome, UnitResult.ok]
  rcases result.outcome <;> rfl

/-- A unit whose failure is not abrupt gives something. -/
theorem exists_gives
    (h : ∀ failure, source.compileWith config runner = .error failure → ¬failure.Abrupt) :
    ∃ result, source.Gives config runner result := by
  rcases hcompiled : source.compileWith config runner with failure | schema
  · rcases failure with error | _ | _ | _ | _
    · exact ⟨_, .of_error hcompiled⟩
    all_goals exact absurd trivial (h _ hcompiled)
  · exact ⟨_, .of_ok hcompiled⟩

end UnitSource

section

variable {config : Config} {runner : HookRunner}

open UnitSource

/-- A unit among others adds what it gives alone, whichever half its error comes from. -/
theorem compileExtracted_gives {source : UnitSource} {result : UnitResult}
    (h : source.Gives config runner result) (done : List UnitResult) (rest : List ExtractedUnit) :
    compileExtracted config runner done (source.extractIsolated :: rest) =
      compileExtracted config runner (done ++ [result]) rest := by
  obtain ⟨unit, outcome⟩ := result
  obtain ⟨rfl, houtcome⟩ : unit = source.name ∧ _ := ⟨h.unit, h.outcome⟩
  rcases hextract : source.extract with error | model
  · rw [compileWith_of_extract_error hextract] at houtcome
    rcases outcome with error' | schema
    · cases houtcome
      rw [extractIsolated, hextract, compileExtracted]
    · cases houtcome
  · rw [compileWith_of_extract hextract] at houtcome
    rcases outcome with error | schema <;>
      · simp only [orFailure] at houtcome
        rw [extractIsolated, hextract, compileExtracted, houtcome]

/-- A unit that fails abruptly ends the whole. -/
theorem compileExtracted_abrupt {source : UnitSource} {failure : Failure}
    (h : source.compileWith config runner = .error failure) (habrupt : failure.Abrupt)
    (done : List UnitResult) (rest : List ExtractedUnit) :
    compileExtracted config runner done (source.extractIsolated :: rest) = .error failure := by
  rcases hextract : source.extract with error | model
  · rw [compileWith_of_extract_error hextract] at h
    cases h
    exact habrupt.elim
  · rw [compileWith_of_extract hextract] at h
    rw [extractIsolated, hextract, compileExtracted, h]
    rcases failure with _ | _ | _ | _ | _
    · exact habrupt.elim
    all_goals rfl

/-- Units that each give something add what they give, in order. -/
theorem compileExtracted_append {sources : List UnitSource} {results : List UnitResult}
    (h : List.Forall₂ (fun source result => source.Gives config runner result) sources results)
    (done : List UnitResult) (rest : List ExtractedUnit) :
    compileExtracted config runner done (sources.map extractIsolated ++ rest) =
      compileExtracted config runner (done ++ results) rest := by
  induction h generalizing done with
  | nil => rw [List.map_nil, List.nil_append, List.append_nil]
  | cons hgives _ ih =>
    rw [List.map_cons, List.cons_append, compileExtracted_gives hgives, ih, List.append_assoc,
      List.singleton_append]

end

/-- Units that are compiled together give what they give alone, each at its place. If one of them
fails abruptly, the whole fails as the first of these does. -/
theorem compileAllWith_eq_alone {sources : List UnitSource} {config : Config} {runner : HookRunner}
    {workers : Option Int} (hworkers : ∀ n ∈ workers, 0 < n) :
    ((∀ source ∈ sources, ∀ failure,
        source.compileWith config runner = .error failure → ¬failure.Abrupt) →
      ∃ results, compileAllWith sources config runner workers = .ok results ∧
        List.Forall₂ (fun source result => source.Gives config runner result) sources results) ∧
    ∀ before source after failure, sources = before ++ source :: after →
      (∀ earlier ∈ before, ∀ failure,
        earlier.compileWith config runner = .error failure → ¬failure.Abrupt) →
      source.compileWith config runner = .error failure → failure.Abrupt →
      compileAllWith sources config runner workers = .error failure := by
  have hall : compileAllWith sources config runner workers =
      compileExtracted config runner [] (sources.map UnitSource.extractIsolated) := by
    refine if_neg fun hnone => ?_
    obtain ⟨n, hn, hle⟩ := (Option.any_eq_true _ _).1 hnone
    exact absurd (hworkers n hn) (by simpa using hle)
  rw [hall]
  constructor
  · intro hnone
    obtain ⟨results, hresults⟩ := exists_forall₂ fun source hsource =>
      UnitSource.exists_gives (hnone source hsource)
    refine ⟨results, ?_, hresults⟩
    have happend := compileExtracted_append hresults [] []
    rwa [List.append_nil, List.nil_append] at happend
  · rintro before source after failure rfl hearlier hfails habrupt
    obtain ⟨results, hresults⟩ := exists_forall₂ fun source hsource =>
      UnitSource.exists_gives (hearlier source hsource)
    rw [List.map_append, List.map_cons, compileExtracted_append hresults]
    exact compileExtracted_abrupt hfails habrupt _ _

/-- Two workers on a document that is no unit and on a unit that compiles. With a hook that raises an
error of its own the whole ends with that error. -/
theorem matchUnit_together :
    (∀ n ∈ some (2 : Int), 0 < n) ∧
    (∃ results, compileAllWith [.document .null, .loaded matchUnit] {} {} (some 2) = .ok results ∧
      results.map (fun result => (result.unit, result.ok)) = [("?", false), ("matches", true)]) ∧
    compileAllWith [.document .null, .loaded matchUnit] {}
      { pre := [fun _ => .error (.raised "ValueError" "no model")] } (some 2) =
        .error (.hook "ValueError" "no model") := by
  have hworkers : ∀ n ∈ some (2 : Int), 0 < n := by decide
  obtain ⟨error, hnull⟩ : ∃ error, (UnitSource.document .null).extract = .error error := ⟨_, rfl⟩
  have hfaulty (runner : HookRunner) :
      (UnitSource.document .null).compileWith {} runner = .error (.compile error) :=
    UnitSource.compileWith_of_extract_error hnull
  refine ⟨hworkers, ?_, ?_⟩
  · obtain ⟨a, m, schema, hemits, -⟩ := matchUnit_emits
    have hcompiles : (UnitSource.loaded matchUnit).compileWith {} {} = .ok schema :=
      UnitSource.compile_eq_ok.2 ⟨a, m, hemits⟩
    obtain ⟨results, hresults, hgives⟩ := (compileAllWith_eq_alone hworkers).1 fun source hsource
        failure hfails => by
      rcases List.mem_pair.1 hsource with rfl | rfl
      · cases (hfaulty {}).symm.trans hfails
        exact id
      · cases hcompiles.symm.trans hfails
    refine ⟨results, hresults, ?_⟩
    obtain _ | ⟨hfirst, _ | ⟨hsecond, _ | _⟩⟩ := hgives
    simp only [List.map_cons, List.map_nil, hfirst.unit, hsecond.unit, hfirst.ok_eq,
      hsecond.ok_eq, hfaulty, hcompiles]
    rfl
  · refine (compileAllWith_eq_alone hworkers).2 [_] _ [] _ rfl
      (fun earlier hearlier failure hfails => ?_) ?_ trivial
    · obtain rfl := List.mem_singleton.1 hearlier
      cases (hfaulty _).symm.trans hfails
      exact id
    · rfl

end SchemaCompiler
