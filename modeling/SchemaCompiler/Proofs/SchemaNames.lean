import Mathlib
import SchemaCompiler.Proofs.Proper

/-! The names in an extracted model. Each of them is a valid name of the schema, or such a name with
one line feed behind it, which an extraction does not look at. -/

namespace SchemaCompiler

def AsciiLetter (c : Char) : Prop :=
  ('A' ≤ c ∧ c ≤ 'Z') ∨ ('a' ≤ c ∧ c ≤ 'z')

def AsciiDigit (c : Char) : Prop :=
  '0' ≤ c ∧ c ≤ '9'

/-- A name that a schema may use: as a whole a letter or an underscore, then letters, digits and
underscores, and no two underscores at the start. -/
structure ValidName (name : String) : Prop where
  spelled : ∃ c rest, name.toList = c :: rest ∧ (AsciiLetter c ∨ c = '_') ∧
    ∀ x ∈ rest, AsciiLetter x ∨ AsciiDigit x ∨ x = '_'
  notReserved : ¬['_', '_'] <+: name.toList

theorem isNameStart_iff {c : Char} : isNameStart c = true ↔ AsciiLetter c ∨ c = '_' := by
  simp only [isNameStart, Char.isAlpha, Char.isUpper, Char.isLower, AsciiLetter, Bool.or_eq_true,
    Bool.and_eq_true, decide_eq_true_eq]
  rfl

theorem isNameChar_iff {c : Char} :
    isNameChar c = true ↔ AsciiLetter c ∨ AsciiDigit c ∨ c = '_' := by
  simp only [isNameChar, Char.isAlphanum, Char.isAlpha, Char.isUpper, Char.isLower, Char.isDigit,
    AsciiLetter, AsciiDigit, Bool.or_eq_true, Bool.and_eq_true, decide_eq_true_eq, or_assoc]
  rfl

/-- The last character of a valid name is no line feed. -/
theorem ValidName.getLast?_ne {name : String} (h : ValidName name) :
    name.toList.getLast? ≠ some '\n' := by
  obtain ⟨c, rest, hlist, hstart, hrest⟩ := h.spelled
  intro hlast
  have hmem : '\n' ∈ c :: rest := by
    rw [← hlist]
    exact List.mem_of_getLast? hlast
  rcases List.mem_cons.1 hmem with rfl | hmem
  · exact absurd (isNameStart_iff.2 hstart) (by decide)
  · exact absurd (isNameChar_iff.2 (hrest _ hmem)) (by decide)

theorem dropFinalLineFeed_of_ne {cs : List Char} (h : cs.getLast? ≠ some '\n') :
    dropFinalLineFeed cs = cs :=
  if_neg h

theorem dropFinalLineFeed_concat (cs : List Char) : dropFinalLineFeed (cs ++ ['\n']) = cs := by
  rw [dropFinalLineFeed, if_pos List.getLast?_concat, List.dropLast_concat]

/-- A name is accepted if it is valid without the line feed at its end. -/
theorem isSchemaName_iff_dropped {name : String} :
    isSchemaName name = true ↔ ValidName (String.ofList (dropFinalLineFeed name.toList)) := by
  rw [isSchemaName]
  split
  · rename_i hnil
    refine ⟨fun h => (nomatch h), fun h => ?_⟩
    obtain ⟨c, rest, hlist, -⟩ := h.spelled
    rw [hnil] at hlist
    cases hlist
  · rename_i c rest hlist
    have hreserved : ['_', '_'] <+: c :: rest ↔ c = '_' ∧ rest.head? = some '_' := by
      cases rest <;> simp [List.cons_prefix_cons, eq_comm]
    rw [hlist]
    simp only [Bool.and_eq_true, List.all_eq_true, Bool.not_eq_true', decide_eq_false_iff_not,
      Bool.and_eq_false_iff, isNameStart_iff, isNameChar_iff]
    rw [← not_and_or, ← hreserved]
    constructor
    · rintro ⟨⟨hstart, hrest⟩, hnot⟩
      exact ⟨⟨c, rest, String.toList_ofList, hstart, hrest⟩, by rwa [String.toList_ofList]⟩
    · intro h
      obtain ⟨c', rest', hlist', hstart, hrest⟩ := h.spelled
      have hnot := h.notReserved
      rw [String.toList_ofList] at hlist' hnot
      cases hlist'
      exact ⟨⟨hstart, hrest⟩, hnot⟩

/-- The accepted names are the valid ones, and those with one line feed behind them. -/
theorem isSchemaName_iff {name : String} : isSchemaName name = true ↔
    ∃ base, ValidName base ∧ (name = base ∨ name = base ++ "\n") := by
  rw [isSchemaName_iff_dropped]
  constructor
  · intro h
    refine ⟨_, h, ?_⟩
    rcases List.eq_nil_or_concat name.toList with hnil | ⟨init, last, hlist⟩
    · rw [hnil, dropFinalLineFeed_of_ne (by simp), ← hnil, String.ofList_toList]
      exact .inl rfl
    · rw [List.concat_eq_append] at hlist
      by_cases hlast : last = '\n'
      · subst hlast
        rw [hlist, dropFinalLineFeed_concat]
        exact .inr (String.ext_iff.2 (by simpa using hlist))
      · rw [dropFinalLineFeed_of_ne (by simpa [hlist] using hlast), String.ofList_toList]
        exact .inl rfl
  · rintro ⟨base, hvalid, rfl | rfl⟩
    · rwa [dropFinalLineFeed_of_ne hvalid.getLast?_ne, String.ofList_toList]
    · rwa [String.toList_append, show "\n".toList = ['\n'] from rfl, dropFinalLineFeed_concat,
        String.ofList_toList]

theorem valid_iff_of_isSchemaName {name : String} (h : isSchemaName name = true) :
    ValidName name ↔ name.toList.getLast? ≠ some '\n' := by
  refine ⟨ValidName.getLast?_ne, fun hlast => ?_⟩
  obtain ⟨base, hvalid, rfl | rfl⟩ := isSchemaName_iff.1 h
  · exact hvalid
  · exact absurd (by simp) hlast

def FieldDescriptor.names (f : FieldDescriptor) : List String :=
  f.name :: f.arguments.map (·.name)

/-- The name of a declaration, its type parameter, and the names of its fields, their arguments and
its members. -/
def Declaration.names : Declaration → List String
  | .object d => d.name :: d.fields.flatMap FieldDescriptor.names
  | .generic d => d.name :: d.parameter :: d.fields.flatMap FieldDescriptor.names
  | .enum d => d.name :: d.members.map (·.name)
  | .scalar d => [d.name]

def SourceModel.names (model : SourceModel) : List String :=
  model.declarations.flatMap Declaration.names

theorem ProperFields.names_accepted {fields : List FieldDescriptor} (h : ProperFields fields) :
    ∀ name ∈ fields.flatMap FieldDescriptor.names, isSchemaName name = true := by
  intro name hname
  obtain ⟨f, hf, hname⟩ := List.mem_flatMap.1 hname
  obtain ⟨hfield, harguments⟩ := h.proper f hf
  rcases List.mem_cons.1 hname with rfl | hname
  · exact hfield
  · obtain ⟨a, ha, rfl⟩ := List.mem_map.1 hname
    exact harguments a ha

theorem Declaration.Proper.names_accepted {d : Declaration} (h : d.Proper) :
    ∀ name ∈ d.names, isSchemaName name = true := by
  obtain ⟨hname, hbody⟩ := h
  cases d with
  | object d => exact List.forall_mem_cons.2 ⟨hname, hbody.names_accepted⟩
  | generic d =>
    obtain ⟨hparameter, hfields⟩ := hbody
    exact List.forall_mem_cons.2 ⟨hname, List.forall_mem_cons.2 ⟨hparameter, hfields.names_accepted⟩⟩
  | enum d =>
    refine List.forall_mem_cons.2 ⟨hname, fun name hmem => ?_⟩
    obtain ⟨m, hm, rfl⟩ := List.mem_map.1 hmem
    exact hbody.2 m hm
  | scalar d => exact List.forall_mem_cons.2 ⟨hname, fun _ hmem => (nomatch hmem)⟩

theorem SourceModel.Proper.names_accepted {model : SourceModel} (h : model.Proper) :
    ∀ name ∈ model.names, isSchemaName name = true := by
  intro name hname
  obtain ⟨d, hd, hname⟩ := List.mem_flatMap.1 hname
  exact (h d hd).names_accepted name hname

/-- Every name in an extracted model is a valid name, or one with a line feed behind it; a name is
valid exactly if it does not end in a line feed. -/
theorem UnitSource.extracted_name_valid_iff {source : UnitSource} {model : SourceModel}
    (h : source.extract = .ok model) {name : String} (hname : name ∈ model.names) :
    (ValidName name ↔ name.toList.getLast? ≠ some '\n') ∧
      ∃ base, ValidName base ∧ (name = base ∨ name = base ++ "\n") := by
  have haccepted := (extract_proper h).names_accepted name hname
  exact ⟨valid_iff_of_isSchemaName haccepted, isSchemaName_iff.1 haccepted⟩

/-- An object whose name is followed by a line feed. -/
def lineFeedUnit : HostUnit where
  name := "test"
  declarations := [
    { kind := .object, name := "A\n", participates := true
      fields := [{ name := "x", type := some (.named "string") }] }]

theorem lineFeedUnit_extract : (UnitSource.loaded lineFeedUnit).extract = .ok {
    unit := "test"
    declarations := [
      .object ⟨"A\n", [{ owner := "A\n", name := "x", type := some (.ref "string") }], none⟩] } := by
  rfl

theorem extracted_names_not_always_valid : ¬∀ (source : UnitSource) (model : SourceModel),
    source.extract = .ok model → ∀ name ∈ model.names, ValidName name := by
  intro hall
  have hvalid := hall (.loaded lineFeedUnit) _ lineFeedUnit_extract "A\n" List.mem_cons_self
  exact hvalid.getLast?_ne rfl

theorem lineFeedUnit_names : ∃ model, (UnitSource.loaded lineFeedUnit).extract = .ok model ∧
    model.names = ["A\n", "x"] ∧ ValidName "x" ∧ ¬ValidName "A\n" := by
  refine ⟨_, lineFeedUnit_extract, rfl, ?_, fun h => ?_⟩
  · have hx := UnitSource.extracted_name_valid_iff lineFeedUnit_extract (.tail _ (.head _))
    exact hx.1.2 (by decide)
  · have hA := UnitSource.extracted_name_valid_iff lineFeedUnit_extract (.head _)
    exact hA.1.1 h rfl

end SchemaCompiler
