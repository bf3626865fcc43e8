import SchemaCompiler.Proofs.Texts

/-! Field maps that a filter sets in. The filter ends a line at every character that ends one for
some reader. No such character stands in a literal, so a text comes out of the filter as it went
in. -/

namespace SchemaCompiler

/-- The lines of a text. A line feed right behind a carriage return ends no line of its own. -/
def textLines : (behindReturn : Bool) → List Char → List (List Char)
  | _, [] => [[]]
  | behindReturn, c :: rest =>
    if behindReturn && c = '\n' then textLines false rest
    else if isLineBreak c then [] :: textLines (c = '\r') rest
    else (textLines false rest).modifyHead (c :: ·)

/-- A line set in by some columns, unless it is empty. -/
def setIn (columns : Nat) (line : List Char) : List Char :=
  if line = [] then [] else List.replicate columns ' ' ++ line

def indentLines (columns : Nat) (text : List Char) : List Char :=
  match textLines false text with
  | [] => []
  | first :: rest => first ++ rest.flatMap fun line => '\n' :: setIn columns line

/-- What a filter does that sets lines in: of a text that does not end in a line break, every line
but the first and the empty ones. -/
def IndentsLines (indent : Nat → List Char → List Char) : Prop :=
  ∀ columns text, text.getLast?.any isLineBreak = false →
    indent columns text = indentLines columns text

def fieldMapText (fields : List FieldEntry) : List Char :=
  '\x7b' :: '\n' :: (lineChars (fields.flatMap FieldEntry.lines)).flatMap (· ++ ['\n']) ++ ['\x7d']

section

variable {c : Char} {cs : List Char}

theorem textLines_plain (hc : isLineBreak c = false) (behindReturn : Bool) (rest : List Char) :
    textLines behindReturn (c :: rest) = (textLines false rest).modifyHead (c :: ·) := by
  have hfeed : c ≠ '\n' := by
    rintro rfl
    exact absurd hc (by decide)
  simp [textLines, hc, hfeed]

theorem textLines_plains (hcs : ∀ c ∈ cs, isLineBreak c = false) (rest : List Char) :
    textLines false (cs ++ rest) = (textLines false rest).modifyHead (cs ++ ·) := by
  induction cs with
  | nil => exact (congrFun List.modifyHead_id _).symm
  | cons c cs ih =>
    obtain ⟨hc, hcs⟩ := List.forall_mem_cons.1 hcs
    rw [List.cons_append, textLines_plain hc, ih hcs, List.modifyHead_modifyHead]
    rfl

theorem textLines_lineFeed (rest : List Char) :
    textLines false ('\n' :: rest) = [] :: textLines false rest :=
  rfl

/-- Lines with a line feed at the end of each are read back one by one. -/
theorem textLines_ended {lines : List (List Char)}
    (hlines : ∀ line ∈ lines, ∀ c ∈ line, isLineBreak c = false) (rest : List Char) :
    textLines false (lines.flatMap (· ++ ['\n']) ++ rest) = lines ++ textLines false rest := by
  induction lines with
  | nil => rfl
  | cons line more ih =>
    obtain ⟨hline, hmore⟩ := List.forall_mem_cons.1 hlines
    rw [List.flatMap_cons, List.append_assoc, List.append_assoc, textLines_plains hline,
      List.singleton_append, textLines_lineFeed, ih hmore]
    simp

end

theorem Frame.isLineBreak_before (frame : Frame) : isLineBreak frame.before = false := by
  have hopens : (['=', '(', ' '].all fun c => !isLineBreak c) = true := by decide
  simpa using List.all_eq_true.1 hopens _ frame.opens

theorem Frame.isLineBreak_after (frame : Frame) : isLineBreak frame.after = false := by
  have hcloses : ([',', ')'].all fun c => !isLineBreak c) = true := by decide
  simpa using List.all_eq_true.1 hcloses _ frame.closes

/-- Neither a text nor its frame holds a line break. -/
theorem Piece.oneLine (f : String → String) (frame : Frame) (s : String) :
    ∀ c ∈ (Piece.text frame s).chars f, isLineBreak c = false := by
  intro c hc
  rw [chars, List.mem_append, List.mem_cons, List.mem_singleton] at hc
  rcases hc with (rfl | hc) | rfl
  · exact frame.isLineBreak_before
  · exact (isLiteral_quoted (f s)).oneLine c hc
  · exact frame.isLineBreak_after

/-- The lines of pieces are pieces, and the texts among them stay in their order. -/
theorem textLines_spelled (pieces : List Piece) (behindReturn : Bool) :
    ∃ (first : List Piece) (rest : List (List Piece)),
      pieceTexts first ++ rest.flatMap pieceTexts = pieceTexts pieces ∧
        ∀ f, textLines behindReturn (spelled f pieces) =
          spelled f first :: rest.map (spelled f) := by
  induction pieces generalizing behindReturn with
  | nil => exact ⟨[], [], rfl, fun _ => rfl⟩
  | cons p pieces ih =>
    cases p with
    | code c =>
      by_cases hskipped : (behindReturn && c = '\n') = true
      · obtain ⟨first, rest, htexts, hlines⟩ := ih false
        refine ⟨first, rest, htexts, fun f => ?_⟩
        rw [← hlines]
        exact if_pos hskipped
      by_cases hbreak : isLineBreak c = true
      · obtain ⟨first, rest, htexts, hlines⟩ := ih (c = '\r')
        refine ⟨[], first :: rest, htexts, fun f => ?_⟩
        rw [List.map_cons, ← hlines]
        exact (if_neg hskipped).trans (if_pos hbreak)
      · obtain ⟨first, rest, htexts, hlines⟩ := ih false
        refine ⟨.code c :: first, rest, htexts, fun f => ?_⟩
        rw [show spelled f (.code c :: pieces) = c :: spelled f pieces from rfl,
          textLines_plain (Bool.eq_false_of_not_eq_true hbreak), hlines]
        rfl
    | text frame s =>
      obtain ⟨first, rest, htexts, hlines⟩ := ih false
      refine ⟨.text frame s :: first, rest, congrArg (s :: ·) htexts, fun f => ?_⟩
      have honeLine := Piece.oneLine f frame s
      rw [show (Piece.text frame s).chars f = frame.before :: ((quoted (f s)).toList ++
        [frame.after]) from rfl, List.forall_mem_cons] at honeLine
      rw [show spelled f (.text frame s :: pieces) = frame.before ::
        (((quoted (f s)).toList ++ [frame.after]) ++ spelled f pieces) from rfl,
        textLines_plain honeLine.1, textLines_plains honeLine.2, hlines]
      rfl

def setInPieces (columns : Nat) (line : List Piece) : List Piece :=
  if line = [] then [] else List.replicate columns (.code ' ') ++ line

theorem spelled_eq_nil {f : String → String} {pieces : List Piece} :
    spelled f pieces = [] ↔ pieces = [] := by
  constructor
  · intro hnil
    rcases pieces with _ | ⟨_ | _, rest⟩
    · rfl
    · cases hnil
    · cases hnil
  · rintro rfl
    rfl

theorem pieceTexts_setIn (columns : Nat) (line : List Piece) :
    pieceTexts (setInPieces columns line) = pieceTexts line := by
  rw [setInPieces]
  split_ifs with hline
  · rw [hline]
  · rw [pieceTexts_append, ← List.map_replicate, pieceTexts_code, List.nil_append]

theorem spelled_setIn (f : String → String) (columns : Nat) (line : List Piece) :
    spelled f (setInPieces columns line) = setIn columns (spelled f line) := by
  by_cases hline : line = []
  · rw [hline]
    rfl
  · rw [setInPieces, if_neg hline, setIn, if_neg (spelled_eq_nil.not.2 hline), spelled_append,
      ← List.map_replicate, spelled_code]

/-- What comes out of the filter holds the same literals as what went in, and is the same code
around them whatever the texts are. -/
theorem Writes.indentLines {as : List String} {written : (String → String) → List Char}
    (h : Writes as written) (columns : Nat) :
    Writes as fun f => SchemaCompiler.indentLines columns (written f) := by
  obtain ⟨pieces, hpieces, hwritten⟩ := h
  obtain ⟨first, rest, htexts, hlines⟩ := textLines_spelled pieces false
  refine ⟨first ++ rest.flatMap fun line => .code '\n' :: setInPieces columns line, ?_,
    fun f hf => ?_⟩
  · rw [pieceTexts_append, ← hpieces, ← htexts, pieceTexts, pieceTexts, List.filterMap_flatMap]
    exact congrArg _ (List.flatMap_congr fun line _ => pieceTexts_setIn columns line)
  · have hrest : ∀ line ∈ rest, spelled f (.code '\n' :: setInPieces columns line) =
        '\n' :: setIn columns (spelled f line) := fun line _ =>
      congrArg ('\n' :: ·) (spelled_setIn f columns line)
    simp only [SchemaCompiler.indentLines, hwritten f hf, hlines]
    rw [spelled_append, spelled, spelled, List.flatMap_assoc, List.flatMap_map]
    exact congrArg _ (List.flatMap_congr hrest).symm

theorem writes_fieldMapText (fields : List FieldEntry) :
    Writes (fields.flatMap FieldEntry.texts) fun f =>
      fieldMapText (fields.map (FieldEntry.mapTexts f)) := by
  have hstart := Writes.code ['\x7b', '\n']
  have hend := Writes.code ['\x7d']
  refine ((hstart.append (writes_fieldLines fields).ended).append hend).congr (by simp)
    fun f _ => ?_
  rfl

/-- Whether the lines of a field map hold a line break does not depend on its texts. -/
theorem WritesLines.oneLine {as : List String} {written : (String → String) → List (List Char)}
    (h : WritesLines as written) {f g : String → String} (hf : KeepsEmpty f) (hg : KeepsEmpty g)
    (hwritten : ∀ line ∈ written f, ∀ c ∈ line, isLineBreak c = false) :
    ∀ line ∈ written g, ∀ c ∈ line, isLineBreak c = false := by
  obtain ⟨lines, -, hlines⟩ := h
  rw [hlines f hf, List.forall_mem_map] at hwritten
  rw [hlines g hg, List.forall_mem_map]
  intro line hline c hc
  obtain ⟨p, hp, hc⟩ := List.mem_flatMap.1 hc
  cases p with
  | code d => exact hwritten line hline c (List.mem_flatMap.2 ⟨.code d, hp, hc⟩)
  | text frame s => exact Piece.oneLine g frame s c hc

/-- Line feeds in front of lines and line feeds behind them. -/
theorem feeds_eq (lines : List (List Char)) (rest : List Char) :
    '\n' :: (lines.flatMap (· ++ ['\n']) ++ rest) = lines.flatMap ('\n' :: ·) ++ '\n' :: rest := by
  induction lines with
  | nil => rfl
  | cons line more ih =>
    simp only [List.flatMap_cons, List.append_assoc, List.cons_append, List.nil_append, ih]

/-- As long as there is no line break in the code of a field map, its lines in the module are what
the filter makes of it. -/
theorem fieldMapLines_eq (columns : Nat) (start : String) {fields : List FieldEntry}
    (hfields : ∀ line ∈ lineChars (fields.flatMap FieldEntry.lines),
      ∀ c ∈ line, isLineBreak c = false) :
    (lineChars (fieldMapLines columns start fields)).flatMap (· ++ ['\n']) =
      List.replicate columns ' ' ++ start.toList ++ indentLines columns (fieldMapText fields) ++
        [',', '\n'] := by
  set lines := lineChars (fields.flatMap FieldEntry.lines) with hlines
  have hnonempty : ∀ line ∈ lines, setIn columns line = List.replicate columns ' ' ++ line := by
    intro line hline
    obtain ⟨text, htext, rfl⟩ := List.mem_map.1 hline
    obtain ⟨field, -, htext⟩ := List.mem_flatMap.1 htext
    refine if_neg fun hnil => ?_
    have hhead := field.head?_of_mem_lines text htext
    rw [hnil] at hhead
    cases hhead
  have hread : textLines false (fieldMapText fields) = ['\x7b'] :: (lines ++ [['\x7d']]) := by
    rw [fieldMapText, List.cons_append, List.cons_append, textLines_plain (by decide),
      textLines_lineFeed, textLines_ended hfields]
    rfl
  have hset : indentLines columns (fieldMapText fields) = '\x7b' ::
      ((lines.map (List.replicate columns ' ' ++ ·)).flatMap ('\n' :: ·) ++
        '\n' :: (List.replicate columns ' ' ++ ['\x7d'])) := by
    simp only [indentLines, hread]
    rw [List.flatMap_append, List.flatMap_map, List.flatMap_congr fun line hline =>
      congrArg ('\n' :: ·) (hnonempty line hline)]
    simp [setIn]
  rw [hset, ← feeds_eq]
  simp [fieldMapLines, lineChars_indented, toList_indented, ← hlines]

theorem getLast?_fieldMapText (fields : List FieldEntry) :
    (fieldMapText fields).getLast? = some '\x7d' := by
  rw [fieldMapText, List.getLast?_append]
  rfl

/-- That a filter leaves the literals in field maps and the code around them alone, and, as long as
no name holds a line break, sets the lines in as they stand in a module. -/
structure KeepsFieldMaps (indent : Nat → List Char → List Char) : Prop where
  written : ∀ columns (fields : List FieldEntry), Writes (fields.flatMap FieldEntry.texts) fun f =>
    indent columns (fieldMapText (fields.map (FieldEntry.mapTexts f)))
  lines : ∀ columns (fields : List FieldEntry),
    (∀ line ∈ lineChars (fields.flatMap FieldEntry.lines), ∀ c ∈ line, isLineBreak c = false) →
    ∀ start f, KeepsEmpty f →
      (lineChars (fieldMapLines columns start (fields.map (FieldEntry.mapTexts f)))).flatMap
          (· ++ ['\n']) =
        List.replicate columns ' ' ++ start.toList ++
          indent columns (fieldMapText (fields.map (FieldEntry.mapTexts f))) ++ [',', '\n']

theorem IndentsLines.keepsFieldMaps {indent : Nat → List Char → List Char}
    (h : IndentsLines indent) : KeepsFieldMaps indent := by
  have hfilter : ∀ columns fields,
      indent columns (fieldMapText fields) = indentLines columns (fieldMapText fields) := by
    intro columns fields
    refine h columns _ ?_
    rw [getLast?_fieldMapText]
    decide
  constructor
  · intro columns fields
    exact ((writes_fieldMapText fields).indentLines columns).congr rfl fun f _ => hfilter ..
  · intro columns fields hfields start f hf
    have hsame : fields.map (FieldEntry.mapTexts id) = fields :=
      List.map_id'' FieldEntry.mapTexts_id fields
    have honeLine := (writes_fieldLines fields).oneLine keepsEmpty_id hf
    rw [hsame] at honeLine
    rw [hfilter]
    exact fieldMapLines_eq columns start (honeLine hfields)

/-- No text gets out of its literal. Every quoted text is one literal on one line that is read to
its end and stands for the text, and its frame adds nothing to it. The texts of a module have no
part in anything but their literals, and the filter that sets field maps in does not touch them. -/
theorem SchemaModule.texts_contained {indent : Nat → List Char → List Char}
    (hindent : IndentsLines indent) (m : SchemaModule) :
    (∀ s, IsLiteral s (quoted s).toList) ∧
      (∀ frame : Frame, Token.isWordChar frame.before = false ∧ frame.after ≠ '\'') ∧
      m.ApartFromTexts ∧ KeepsFieldMaps indent :=
  ⟨isLiteral_quoted, Frame.apart, m.apartFromTexts, hindent.keepsFieldMaps⟩

/-- A text with both quotes and two kinds of line breaks. -/
def noteText : String :=
  "it's\u2028\"here\"\n"

def noteField : FieldEntry where
  name := "body"
  type := .library "GraphQLString"
  arguments := []
  resolver := ⟨"Note", ⟨"Note", "body", none, .property, .immediate, [], none, none, none⟩, []⟩
  description := some noteText
  deprecationReason := none

/-- A module whose only text would end lines and literals. -/
def noteModule : SchemaModule where
  header := ""
  docstring := ""
  runtimeModule := "runtime"
  libraryImports := ["GraphQLField", "GraphQLObjectType", "GraphQLString"]
  runtimeImports := ["read_property"]
  scalars := []
  enums := []
  factories := []
  objects := [⟨"Note", "Note", none, false, [noteField]⟩]
  instances := []
  schema := none

theorem noteModule_texts :
    IndentsLines indentLines ∧ noteModule.texts = [noteText] ∧
      quoted noteText = "'it\\'s\\u2028\"here\"\\n'" ∧
      IsLiteral noteText (quoted noteText).toList ∧
      (Writes [noteText] fun f => (noteModule.mapTexts f).text.toList) ∧
      (noteModule.mapTexts fun s => if s = "" then "" else "other").bodyWords =
        noteModule.bodyWords ∧
      (lineChars (fieldMapLines 4 "fields=" [noteField])).flatMap (· ++ ['\n']) =
        "    fields=".toList ++ indentLines 4 (fieldMapText [noteField]) ++ [',', '\n'] := by
  have hfilter : IndentsLines indentLines := fun _ _ _ => rfl
  have htexts : noteModule.texts = [noteText] := by decide +kernel
  have hspelled : noteModule.WellSpelled := by
    refine ⟨by simp [noteModule], by simp [noteModule], by simp [noteModule], fun o ho => ?_,
      by simp [noteModule], by simp [noteModule]⟩
    have hname : IsWord "Note" := ⟨isName_literal rfl, rfl⟩
    obtain rfl := List.mem_singleton.1 ho
    refine ⟨hname, hname.isName, fun f hf => ?_⟩
    obtain rfl := List.mem_singleton.1 hf
    refine ⟨isName_literal rfl, fun name hmem => ?_, by simp [noteField], isName_literal rfl,
      by simp [noteField]⟩
    obtain rfl := List.mem_singleton.1 hmem
    exact ⟨isName_literal rfl, rfl⟩
  have hkeeps : KeepsEmpty fun s => if s = "" then "" else "other" := by
    intro s
    by_cases hs : s = "" <;> simp [hs]
  have hlines : ((lineChars ([noteField].flatMap FieldEntry.lines)).all fun line =>
      line.all fun c => !isLineBreak c) = true := by decide +kernel
  obtain ⟨hliteral, -, hmodule, hfields⟩ := noteModule.texts_contained hfilter
  have hmap := hfields.lines 4 [noteField] (by simpa using hlines) "fields=" id keepsEmpty_id
  rw [List.map_id'' FieldEntry.mapTexts_id] at hmap
  exact ⟨hfilter, htexts, by decide +kernel, hliteral _, htexts ▸ hmodule.written,
    hmodule.words hspelled _ hkeeps, hmap⟩

end SchemaCompiler
