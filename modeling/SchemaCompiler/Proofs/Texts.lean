import SchemaCompiler.Proofs.Lines
import SchemaCompiler.Proofs.Literals

/-! The texts of a module and the code around them. A module writes each of its texts as one literal
between two marks, and what it writes besides does not depend on what the texts say. -/

namespace SchemaCompiler

/-- What stands around a text in a module. -/
structure Frame where
  before : Char
  after : Char
  opens : before ∈ ['=', '(', ' ']
  closes : after ∈ [',', ')']

namespace Frame

/-- No letter in front of a literal belongs to it, and no quote behind it. -/
theorem apart (frame : Frame) :
    Token.isWordChar frame.before = false ∧ frame.after ≠ '\'' := by
  have hopens : (['=', '(', ' '].all fun c => !Token.isWordChar c) = true := by decide
  have hcloses : ([',', ')'].all (· ≠ '\'')) = true := by decide
  exact ⟨by simpa using List.all_eq_true.1 hopens _ frame.opens,
    by simpa using List.all_eq_true.1 hcloses _ frame.closes⟩

def keyword : Frame := ⟨'=', ',', by decide, by decide⟩

/-- The value of the last keyword argument of a call. -/
def lastKeyword : Frame := ⟨'=', ')', by decide, by decide⟩

/-- An argument on a line of its own. -/
def line : Frame := ⟨' ', ',', by decide, by decide⟩

def first : Frame := ⟨'(', ',', by decide, by decide⟩

def only : Frame := ⟨'(', ')', by decide, by decide⟩

end Frame

/-- A character of a module's code, or a text in its frame. -/
inductive Piece where
  | code (c : Char)
  | text (frame : Frame) (s : String)

namespace Piece

def text? : Piece → Option String
  | .code _ => none
  | .text _ s => some s

/-- A piece as it is written when `f` is applied to the texts. -/
def chars (f : String → String) : Piece → List Char
  | .code c => [c]
  | .text frame s => frame.before :: (quoted (f s)).toList ++ [frame.after]

end Piece

def spelled (f : String → String) (pieces : List Piece) : List Char :=
  pieces.flatMap (Piece.chars f)

def pieceTexts (pieces : List Piece) : List String :=
  pieces.filterMap Piece.text?

/-- A change of texts that leaves the empty text empty and makes no other text empty. -/
def KeepsEmpty (f : String → String) : Prop :=
  ∀ s, f s = "" ↔ s = ""

theorem keepsEmpty_id : KeepsEmpty id := fun _ => Iff.rfl

theorem KeepsEmpty.given_map {f : String → String} (hf : KeepsEmpty f) (s : Option String) :
    given (s.map f) = (given s).map f := by
  rcases s with _ | s
  · rfl
  · by_cases hempty : s = ""
    · simp [given, Option.filter_some, hempty, (hf "").2 rfl]
    · simp [given, Option.filter_some, hempty, (hf s).not.2 hempty]

/-- That a written text holds literals of the given texts, in this order, and is the same code
around them whatever the texts are changed to. -/
def Writes (texts : List String) (written : (String → String) → List Char) : Prop :=
  ∃ pieces, pieceTexts pieces = texts ∧ ∀ f, KeepsEmpty f → written f = spelled f pieces

/-- That lines hold literals of the given texts, and are the same code around them. -/
def WritesLines (texts : List String) (written : (String → String) → List (List Char)) : Prop :=
  ∃ lines : List (List Piece), lines.flatMap pieceTexts = texts ∧
    ∀ f, KeepsEmpty f → written f = lines.map (spelled f)

theorem spelled_append (f : String → String) (ps qs : List Piece) :
    spelled f (ps ++ qs) = spelled f ps ++ spelled f qs :=
  List.flatMap_append

theorem spelled_code (f : String → String) (cs : List Char) : spelled f (cs.map .code) = cs := by
  rw [spelled, List.flatMap_map]
  exact List.flatMap_singleton' cs

theorem pieceTexts_append (ps qs : List Piece) :
    pieceTexts (ps ++ qs) = pieceTexts ps ++ pieceTexts qs :=
  List.filterMap_append

theorem pieceTexts_code (cs : List Char) : pieceTexts (cs.map .code) = [] := by
  rw [pieceTexts, List.filterMap_map]
  exact List.filterMap_eq_nil_iff.2 fun _ _ => rfl

namespace Writes

variable {as bs : List String} {written more : (String → String) → List Char}

theorem code (cs : List Char) : Writes [] fun _ => cs :=
  ⟨cs.map .code, pieceTexts_code cs, fun f _ => (spelled_code f cs).symm⟩

theorem text (frame : Frame) (s : String) :
    Writes [s] fun f => frame.before :: (quoted (f s)).toList ++ [frame.after] :=
  ⟨[.text frame s], rfl, fun _ _ => (List.flatMap_singleton ..).symm⟩

theorem append (ha : Writes as written) (hb : Writes bs more) :
    Writes (as ++ bs) fun f => written f ++ more f := by
  obtain ⟨ps, hps, hwritten⟩ := ha
  obtain ⟨qs, hqs, hmore⟩ := hb
  refine ⟨ps ++ qs, by rw [pieceTexts_append, hps, hqs], fun f hf => ?_⟩
  simp only [hwritten f hf, hmore f hf, spelled_append]

theorem congr (h : Writes as written) (htexts : bs = as)
    (hwritten : ∀ f, KeepsEmpty f → more f = written f) : Writes bs more := by
  obtain ⟨ps, hps, hspelled⟩ := h
  exact ⟨ps, hps.trans htexts.symm, fun f hf => (hwritten f hf).trans (hspelled f hf)⟩

/-- Code, a text in its frame, and code. -/
theorem framed (front : List Char) (frame : Frame) (s : String) (back : List Char) :
    Writes [s] fun f =>
      front ++ (frame.before :: (quoted (f s)).toList ++ [frame.after]) ++ back := by
  simpa using ((code front).append (text frame s)).append (code back)

theorem line (h : Writes as written) : WritesLines as fun f => [written f] := by
  obtain ⟨ps, hps, hwritten⟩ := h
  exact ⟨[ps], by simpa using hps, fun f hf => by simp [hwritten f hf]⟩

end Writes

namespace WritesLines

variable {as bs : List String} {written more : (String → String) → List (List Char)}

theorem code (lines : List (List Char)) : WritesLines [] fun _ => lines := by
  refine ⟨lines.map fun cs => cs.map .code, ?_, fun f _ => ?_⟩
  · rw [List.flatMap_map]
    exact List.flatMap_eq_nil_iff.2 fun cs _ => pieceTexts_code cs
  · simp [Function.comp_def, spelled_code]

theorem append (ha : WritesLines as written) (hb : WritesLines bs more) :
    WritesLines (as ++ bs) fun f => written f ++ more f := by
  obtain ⟨ps, hps, hwritten⟩ := ha
  obtain ⟨qs, hqs, hmore⟩ := hb
  refine ⟨ps ++ qs, by rw [List.flatMap_append, hps, hqs], fun f hf => ?_⟩
  simp only [hwritten f hf, hmore f hf, List.map_append]

theorem congr (h : WritesLines as written) (htexts : bs = as)
    (hwritten : ∀ f, KeepsEmpty f → more f = written f) : WritesLines bs more := by
  obtain ⟨ps, hps, hspelled⟩ := h
  exact ⟨ps, hps.trans htexts.symm, fun f hf => (hwritten f hf).trans (hspelled f hf)⟩

theorem flatMap {α : Type} {texts : α → List String}
    {written : (String → String) → α → List (List Char)}
    (entries : List α) (h : ∀ a ∈ entries, WritesLines (texts a) fun f => written f a) :
    WritesLines (entries.flatMap texts) fun f => entries.flatMap (written f) := by
  induction entries with
  | nil => exact code []
  | cons a rest ih =>
    have hfirst := h a List.mem_cons_self
    exact (hfirst.append (ih fun b hb => h b (List.mem_cons_of_mem a hb))).congr rfl fun f _ =>
      List.flatMap_cons

theorem map {α : Type} {texts : α → List String} {written : (String → String) → α → List Char}
    (entries : List α) (h : ∀ a ∈ entries, Writes (texts a) fun f => written f a) :
    WritesLines (entries.flatMap texts) fun f => entries.map (written f) :=
  (flatMap entries fun a ha => (h a ha).line).congr rfl fun _ _ => List.map_eq_flatMap

/-- Code put in front of each line. -/
theorem behind (front : List Char) (h : WritesLines as written) :
    WritesLines as fun f => (written f).map (front ++ ·) := by
  obtain ⟨ps, hps, hwritten⟩ := h
  refine ⟨ps.map (front.map Piece.code ++ ·), ?_, fun f hf => ?_⟩
  · rw [List.flatMap_map, ← hps]
    exact List.flatMap_congr fun line _ => by
      rw [pieceTexts_append, pieceTexts_code, List.nil_append]
  · simp [hwritten f hf, Function.comp_def, spelled_append, spelled_code]

/-- The lines one behind the other, each with a line feed at its end. -/
theorem ended (h : WritesLines as written) :
    Writes as fun f => (written f).flatMap (· ++ ['\n']) := by
  obtain ⟨ps, hps, hwritten⟩ := h
  refine ⟨ps.flatMap (· ++ [.code '\n']), ?_, fun f hf => ?_⟩
  · rw [← hps, pieceTexts, List.filterMap_flatMap]
    exact List.flatMap_congr fun line _ => by
      rw [List.filterMap_append]
      exact List.append_nil _
  · simp only [hwritten f hf, spelled, List.flatMap_assoc, List.flatMap_map]
    exact List.flatMap_congr fun line _ => (spelled_append f line [.code '\n']).symm

end WritesLines

def lineChars (lines : List String) : List (List Char) :=
  lines.map String.toList

@[simp]
theorem lineChars_nil : lineChars [] = [] :=
  rfl

@[simp]
theorem lineChars_append (as bs : List String) :
    lineChars (as ++ bs) = lineChars as ++ lineChars bs :=
  List.map_append

@[simp]
theorem lineChars_cons (line : String) (lines : List String) :
    lineChars (line :: lines) = line.toList :: lineChars lines :=
  rfl

theorem lineChars_indented (columns : Nat) (lines : List String) :
    lineChars (lines.map (indented columns)) =
      (lineChars lines).map (List.replicate columns ' ' ++ ·) := by
  simp [lineChars, toList_indented]

/-- The texts of an enum's value, of which a number has none. -/
def EnumLiteral.texts : EnumLiteral → List String
  | .text s => [s]
  | .int _ => []

def EnumLiteral.mapTexts (f : String → String) : EnumLiteral → EnumLiteral
  | .text s => .text (f s)
  | .int n => .int n

namespace EnumMember

def texts (v : EnumMember) : List String :=
  v.value.texts ++ (given v.description).toList

def mapTexts (f : String → String) (v : EnumMember) : EnumMember :=
  { v with value := v.value.mapTexts f, description := v.description.map f }

end EnumMember

namespace ScalarEntry

def texts (s : ScalarEntry) : List String :=
  s.implementation.toList ++ s.description.toList

def mapTexts (f : String → String) (s : ScalarEntry) : ScalarEntry :=
  { s with implementation := s.implementation.map f, description := s.description.map f }

end ScalarEntry

namespace EnumEntry

def texts (e : EnumEntry) : List String :=
  e.values.flatMap EnumMember.texts ++ (given e.description).toList

def mapTexts (f : String → String) (e : EnumEntry) : EnumEntry :=
  { e with values := e.values.map (EnumMember.mapTexts f), description := e.description.map f }

end EnumEntry

namespace ArgumentEntry

def texts (a : ArgumentEntry) : List String :=
  (given a.description).toList

def mapTexts (f : String → String) (a : ArgumentEntry) : ArgumentEntry :=
  { a with description := a.description.map f }

end ArgumentEntry

namespace FieldEntry

def texts (f : FieldEntry) : List String :=
  f.arguments.flatMap ArgumentEntry.texts ++ (given f.description).toList ++
    (given f.deprecationReason).toList

def mapTexts (g : String → String) (f : FieldEntry) : FieldEntry :=
  { f with
    arguments := f.arguments.map (ArgumentEntry.mapTexts g)
    description := f.description.map g
    deprecationReason := f.deprecationReason.map g }

end FieldEntry

namespace FactoryEntry

def texts (f : FactoryEntry) : List String :=
  (given f.description).toList ++ f.fields.flatMap FieldEntry.texts

def mapTexts (g : String → String) (f : FactoryEntry) : FactoryEntry :=
  { f with description := f.description.map g, fields := f.fields.map (FieldEntry.mapTexts g) }

end FactoryEntry

namespace ObjectEntry

def texts (o : ObjectEntry) : List String :=
  (given o.description).toList ++ o.fields.flatMap FieldEntry.texts

def mapTexts (f : String → String) (o : ObjectEntry) : ObjectEntry :=
  { o with description := o.description.map f, fields := o.fields.map (FieldEntry.mapTexts f) }

end ObjectEntry

namespace SchemaModule

/-- The texts that a module writes: the implementations and descriptions of its scalars, the values
of its enums, and all other descriptions and reasons that are not empty. -/
def texts (m : SchemaModule) : List String :=
  m.scalars.flatMap ScalarEntry.texts ++ m.enums.flatMap EnumEntry.texts ++
    m.factories.flatMap FactoryEntry.texts ++ m.objects.flatMap ObjectEntry.texts

def mapTexts (f : String → String) (m : SchemaModule) : SchemaModule :=
  { m with
    scalars := m.scalars.map (ScalarEntry.mapTexts f)
    enums := m.enums.map (EnumEntry.mapTexts f)
    factories := m.factories.map (FactoryEntry.mapTexts f)
    objects := m.objects.map (ObjectEntry.mapTexts f) }

end SchemaModule

theorem EnumMember.mapTexts_id (v : EnumMember) : v.mapTexts id = v := by
  rcases v with ⟨name, _ | _, description⟩ <;> simp [mapTexts, EnumLiteral.mapTexts]

theorem FieldEntry.mapTexts_id (f : FieldEntry) : f.mapTexts id = f := by
  have harguments : ∀ a : ArgumentEntry, a.mapTexts id = a := by simp [ArgumentEntry.mapTexts]
  simp [mapTexts, List.map_id'' harguments]

theorem SchemaModule.mapTexts_id (m : SchemaModule) : m.mapTexts id = m := by
  have hscalars : ∀ s : ScalarEntry, s.mapTexts id = s := by simp [ScalarEntry.mapTexts]
  have henums : ∀ e : EnumEntry, e.mapTexts id = e := by
    simp [EnumEntry.mapTexts, List.map_id'' EnumMember.mapTexts_id]
  have hfactories : ∀ f : FactoryEntry, f.mapTexts id = f := by
    simp [FactoryEntry.mapTexts, List.map_id'' FieldEntry.mapTexts_id]
  have hobjects : ∀ o : ObjectEntry, o.mapTexts id = o := by
    simp [ObjectEntry.mapTexts, List.map_id'' FieldEntry.mapTexts_id]
  simp [mapTexts, List.map_id'' hscalars, List.map_id'' henums, List.map_id'' hfactories,
    List.map_id'' hobjects]

section

variable {f : String → String} (hf : KeepsEmpty f)

include hf

theorem KeepsEmpty.toList_given_map (s : Option String) :
    (given (s.map f)).toList = (given s).toList.map f := by
  rw [hf.given_map]
  cases given s <;> rfl

theorem EnumEntry.texts_mapTexts (e : EnumEntry) : (e.mapTexts f).texts = e.texts.map f := by
  have hvalue : ∀ v : EnumMember, (v.mapTexts f).texts = v.texts.map f := by
    intro v
    rcases v with ⟨name, _ | _, description⟩ <;>
      simp [EnumMember.mapTexts, EnumMember.texts, EnumLiteral.mapTexts, EnumLiteral.texts,
        hf.toList_given_map]
  simp [texts, mapTexts, List.flatMap_map, List.map_flatMap, hvalue, hf.toList_given_map]

theorem FieldEntry.texts_mapTexts (field : FieldEntry) :
    (field.mapTexts f).texts = field.texts.map f := by
  simp [texts, mapTexts, ArgumentEntry.texts, ArgumentEntry.mapTexts, List.flatMap_map,
    List.map_flatMap, hf.toList_given_map]

/-- The texts of a module with other texts are these. -/
theorem SchemaModule.texts_mapTexts (m : SchemaModule) : (m.mapTexts f).texts = m.texts.map f := by
  have hscalars : ∀ s : ScalarEntry, (s.mapTexts f).texts = s.texts.map f := by
    simp [ScalarEntry.texts, ScalarEntry.mapTexts, Option.toList_map]
  have hfactories : ∀ g : FactoryEntry, (g.mapTexts f).texts = g.texts.map f := by
    simp [FactoryEntry.texts, FactoryEntry.mapTexts, List.flatMap_map, List.map_flatMap,
      hf.toList_given_map, FieldEntry.texts_mapTexts hf]
  have hobjects : ∀ o : ObjectEntry, (o.mapTexts f).texts = o.texts.map f := by
    simp [ObjectEntry.texts, ObjectEntry.mapTexts, List.flatMap_map, List.map_flatMap,
      hf.toList_given_map, FieldEntry.texts_mapTexts hf]
  simp [texts, mapTexts, List.flatMap_map, List.map_flatMap, hscalars,
    EnumEntry.texts_mapTexts hf, hfactories, hobjects]

end

/-- The end of a call whose last argument is a description, if there is one. -/
theorem writes_descriptionSuffix (front : List Char) (description : Option String) :
    Writes (given description).toList fun f =>
      front ++ (descriptionSuffix (description.map f) ++ "),").toList := by
  rcases hgiven : given description with _ | d
  · refine (Writes.code (front ++ "),".toList)).congr rfl fun f hf => ?_
    simp [descriptionSuffix, hf.given_map, hgiven]
  · have hline := Writes.framed (front ++ ", description".toList) .lastKeyword d [',']
    refine hline.congr rfl fun f hf => ?_
    simp [descriptionSuffix, hf.given_map, hgiven, Frame.lastKeyword]

theorem EnumMember.writes_line (v : EnumMember) :
    Writes v.texts fun f => (enumValueLine (v.mapTexts f)).toList := by
  rcases hvalue : v.value with s | n
  · rcases hgiven : given v.description with _ | d
    · have hline := Writes.framed (nameLiteral v.name ++ ": GraphQLEnumValue").toList .only s [',']
      rw [texts, hvalue, hgiven]
      refine hline.congr rfl fun f hf => ?_
      simp [enumValueLine, mapTexts, hvalue, EnumLiteral.mapTexts, EnumLiteral.literal,
        descriptionSuffix, hf.given_map, hgiven, Frame.only]
    · have hline := (Writes.framed (nameLiteral v.name ++ ": GraphQLEnumValue").toList .first s
        " description".toList).append ((Writes.text .lastKeyword d).append (Writes.code [',']))
      rw [texts, hvalue, hgiven]
      refine hline.congr rfl fun f hf => ?_
      simp [enumValueLine, mapTexts, hvalue, EnumLiteral.mapTexts, EnumLiteral.literal,
        descriptionSuffix, hf.given_map, hgiven, Frame.first, Frame.lastKeyword]
  · have hline := writes_descriptionSuffix
      (nameLiteral v.name ++ ": GraphQLEnumValue(" ++ toString n).toList v.description
    rw [texts, hvalue]
    refine hline.congr rfl fun f _ => ?_
    simp [enumValueLine, mapTexts, hvalue, EnumLiteral.mapTexts, EnumLiteral.literal]

theorem ArgumentEntry.writes_line (a : ArgumentEntry) :
    Writes a.texts fun f => (a.mapTexts f).line.toList := by
  refine (writes_descriptionSuffix (nameLiteral a.name ++ ": GraphQLArgument(" ++
    a.type.text).toList a.description).congr rfl fun f _ => ?_
  simp [line, mapTexts]

theorem writes_optionalLine (columns : Nat) (keyword : String) (s : Option String) :
    WritesLines (given s).toList fun f => lineChars (optionalLine columns keyword (s.map f)) := by
  rcases hgiven : given s with _ | d
  · refine (WritesLines.code []).congr rfl fun f hf => ?_
    simp [optionalLine, hf.given_map, hgiven, lineChars]
  · have hline := Writes.framed (List.replicate columns ' ' ++ keyword.toList) .keyword d []
    refine hline.line.congr rfl fun f hf => ?_
    simp [optionalLine, hf.given_map, hgiven, lineChars, toList_indented, Frame.keyword]

/-- A text or its absence at the end of a line. -/
theorem writes_textLiteral? (front : List Char) (frame : Frame) (hframe : frame.after = ',')
    (s : Option String) : WritesLines s.toList fun f =>
      [front ++ frame.before :: (textLiteral? (s.map f) ++ ",").toList] := by
  rcases s with _ | s
  · exact .code [front ++ frame.before :: "None,".toList]
  · refine (Writes.framed front frame s []).line.congr rfl fun f _ => ?_
    simp [textLiteral?, hframe]

theorem ScalarEntry.writes_lines (s : ScalarEntry) :
    WritesLines s.texts fun f => lineChars (s.mapTexts f).lines := by
  have hstart := WritesLines.code
    (lineChars [s.var ++ " = define_scalar(", indented 4 (nameLiteral s.name ++ ",")])
  have himplementation := writes_textLiteral? "   ".toList .line rfl s.implementation
  have hdescription :=
    writes_textLiteral? "    description".toList .keyword rfl s.description
  refine (((hstart.append himplementation).append hdescription).append
    (.code (lineChars [")"]))).congr ?_ fun f _ => ?_
  · simp [texts]
  · simp [lines, mapTexts, lineChars, toList_indented, Frame.line, Frame.keyword]

theorem EnumEntry.writes_lines (e : EnumEntry) :
    WritesLines e.texts fun f => lineChars (e.mapTexts f).lines := by
  have hstart := WritesLines.code (lineChars
    [e.var ++ " = GraphQLEnumType(", indented 4 (nameLiteral e.name ++ ","), indented 4 "\x7b"])
  have hvalues := (WritesLines.map e.values fun v _ => v.writes_line).behind
    (List.replicate 8 ' ')
  have hclose := WritesLines.code (lineChars [indented 4 "\x7d,"])
  have hdescription := writes_optionalLine 4 "description" e.description
  have hend := WritesLines.code (lineChars [")"])
  refine ((((hstart.append hvalues).append hclose).append hdescription).append hend).congr
    (by simp [texts]) fun f _ => ?_
  simp [lines, mapTexts, lineChars, toList_indented, Function.comp_def]

theorem FieldEntry.writes_lines (f : FieldEntry) :
    WritesLines f.texts fun g => lineChars (f.mapTexts g).lines := by
  have hstart := WritesLines.code (lineChars
    [indented 4 (nameLiteral f.name ++ ": GraphQLField("), indented 8 (f.type.text ++ ",")])
  have harguments : WritesLines (f.arguments.flatMap ArgumentEntry.texts) fun g => lineChars
      (if f.arguments.isEmpty then []
      else [indented 8 "args=\x7b"] ++ f.arguments.map (fun a => indented 12 (a.mapTexts g).line) ++
        [indented 8 "\x7d,"]) := by
    rcases f.arguments with _ | ⟨a, rest⟩
    · exact .code []
    · have hopen := WritesLines.code (lineChars [indented 8 "args=\x7b"])
      have hlines := (WritesLines.map (a :: rest) fun b _ => b.writes_line).behind
        (List.replicate 12 ' ')
      have hclose := WritesLines.code (lineChars [indented 8 "\x7d,"])
      refine ((hopen.append hlines).append hclose).congr (by simp) fun g _ => ?_
      simp [lineChars, toList_indented, Function.comp_def]
  have hresolve := WritesLines.code
    (lineChars [indented 8 ("resolve=" ++ f.resolver.expression ++ ",")])
  have hdescription := writes_optionalLine 8 "description" f.description
  have hreason := writes_optionalLine 8 "deprecation_reason" f.deprecationReason
  have hend := WritesLines.code (lineChars [indented 4 "),"])
  refine (((((hstart.append harguments).append hresolve).append hdescription).append
    hreason).append hend).congr (by simp [texts]) fun g _ => ?_
  simp [lines, mapTexts, Function.comp_def]

theorem writes_fieldLines (fields : List FieldEntry) :
    WritesLines (fields.flatMap FieldEntry.texts) fun f =>
      lineChars ((fields.map (FieldEntry.mapTexts f)).flatMap FieldEntry.lines) := by
  refine (WritesLines.flatMap fields fun field _ => field.writes_lines).congr rfl fun f _ => ?_
  simp [lineChars, List.map_flatMap, List.flatMap_map]

theorem writes_fieldMapLines (columns : Nat) (start : String) (fields : List FieldEntry) :
    WritesLines (fields.flatMap FieldEntry.texts) fun f =>
      lineChars (fieldMapLines columns start (fields.map (FieldEntry.mapTexts f))) := by
  have hstart := WritesLines.code (lineChars [indented columns (start ++ "\x7b")])
  have hfields := (writes_fieldLines fields).behind (List.replicate columns ' ')
  have hend := WritesLines.code (lineChars [indented columns "\x7d,"])
  refine ((hstart.append hfields).append hend).congr (by simp) fun f _ => ?_
  simp only [fieldMapLines, lineChars_append, lineChars_indented]

theorem FactoryEntry.writes_lines (f : FactoryEntry) :
    WritesLines f.texts fun g => lineChars (f.mapTexts g).lines := by
  have hstart := WritesLines.code (lineChars
    ["@generic_factory", "def " ++ f.var ++ "(" ++ commaSeparated f.parameters ++ "):",
      indented 4 "return GraphQLObjectType(", indented 8 ("name=" ++ f.nameExpression ++ ",")])
  have hdescription := writes_optionalLine 8 "description" f.description
  have hfields := writes_fieldMapLines 8 "fields=lambda: " f.fields
  have hend := WritesLines.code (lineChars [indented 4 ")"])
  refine (((hstart.append hdescription).append hfields).append hend).congr
    (by simp [texts]) fun g _ => ?_
  simp [lines, mapTexts, nameExpression]

theorem ObjectEntry.writes_lines (o : ObjectEntry) :
    WritesLines o.texts fun f => lineChars (o.mapTexts f).lines := by
  have hstart := WritesLines.code (lineChars
    [o.var ++ " = GraphQLObjectType(", indented 4 ("name=" ++ nameLiteral o.name ++ ",")])
  have hdescription := writes_optionalLine 4 "description" o.description
  have hfields :=
    writes_fieldMapLines 4 (if o.isLazy then "fields=lambda: " else "fields=") o.fields
  have hend := WritesLines.code (lineChars [")"])
  refine (((hstart.append hdescription).append hfields).append hend).congr
    (by simp [texts]) fun f _ => ?_
  rw [lines, lineChars_append, lineChars_append, lineChars_append]
  rfl

/-- The definitions of the entries of one kind, each set off from what stands before it. -/
theorem writes_setOff {α : Type} {texts : α → List String} {lines : α → List String}
    {mapTexts : (String → String) → α → α} (entries : List α)
    (h : ∀ a, WritesLines (texts a) fun f => lineChars (lines (mapTexts f a))) :
    WritesLines (entries.flatMap texts) fun f =>
      lineChars ((entries.map (mapTexts f)).flatMap fun a => setOff (lines a)) := by
  have hsetOff : ∀ a ∈ entries, WritesLines (texts a) fun f =>
      lineChars (setOff (lines (mapTexts f a))) := fun a _ =>
    ((WritesLines.code (lineChars ["", ""])).append (h a)).congr rfl fun f _ => lineChars_append ..
  refine (WritesLines.flatMap entries hsetOff).congr rfl fun f _ => ?_
  simp [lineChars, List.map_flatMap, List.flatMap_map]

/-- The names that a module assigns and offers are not among its texts. -/
theorem SchemaModule.headLines_mapTexts (m : SchemaModule) (f : String → String) :
    (m.mapTexts f).headLines = m.headLines := by
  have hnames : (m.mapTexts f).assignedNames = m.assignedNames := by
    simp [assignedNames, mapTexts, ScalarEntry.mapTexts, EnumEntry.mapTexts, FactoryEntry.mapTexts,
      ObjectEntry.mapTexts, Function.comp_def]
  rw [headLines, exports, hnames]
  rfl

theorem SchemaModule.writes_lines (m : SchemaModule) :
    WritesLines m.texts fun f => lineChars (m.mapTexts f).lines := by
  have hhead := WritesLines.code (lineChars m.headLines)
  have hscalars := writes_setOff m.scalars ScalarEntry.writes_lines
  have henums := writes_setOff m.enums EnumEntry.writes_lines
  have hfactories := writes_setOff m.factories FactoryEntry.writes_lines
  have hobjects := writes_setOff m.objects ObjectEntry.writes_lines
  have hrest := WritesLines.code (lineChars
    ((if m.instances.isEmpty then [] else setOff (m.instances.map InstanceEntry.line)) ++
      m.schema.elim [] fun s => setOff s.lines))
  refine (((((hhead.append hscalars).append henums).append hfactories).append hobjects).append
    hrest).congr (by simp [texts]) fun f _ => ?_
  rw [lines_eq, bodyLines, headLines_mapTexts]
  simp [mapTexts]

/-- The text of a module is the same code around its texts, whatever they say. -/
theorem SchemaModule.writes_text (m : SchemaModule) :
    Writes m.texts fun f => (m.mapTexts f).text.toList := by
  refine m.writes_lines.ended.congr rfl fun f _ => ?_
  simp [text, String.toList_join, lineChars, List.flatMap_map]

theorem textWords?_map (f : String → String) (s : Option String) :
    textWords? (s.map f) = textWords? s := by
  rw [textWords?, textWords?, Option.isNone_map]

/-- The words of a scalar do not depend on its texts. -/
theorem ScalarEntry.words_mapTexts (f : String → String) (s : ScalarEntry) :
    (s.mapTexts f).words = s.words := by
  simp only [words, mapTexts, textWords?_map]

section

variable {f : String → String} (hf : KeepsEmpty f)

include hf

theorem keywordWords_map (keyword : String) (s : Option String) :
    keywordWords keyword (s.map f) = keywordWords keyword s := by
  rw [keywordWords, keywordWords, hf.given_map]
  cases given s <;> rfl

theorem EnumEntry.words_mapTexts (e : EnumEntry) : (e.mapTexts f).words = e.words := by
  simp [words, mapTexts, EnumMember.mapTexts, keywordWords_map hf, List.flatMap_map]

theorem ArgumentEntry.words_mapTexts (a : ArgumentEntry) : (a.mapTexts f).words = a.words := by
  simp only [words, mapTexts, keywordWords_map hf]

theorem FieldEntry.words_mapTexts (field : FieldEntry) :
    (field.mapTexts f).words = field.words := by
  have harguments := List.flatMap_congr fun a (_ : a ∈ field.arguments) => a.words_mapTexts hf
  simp [words, mapTexts, keywordWords_map hf, List.flatMap_map, harguments]

theorem fieldMapWords_mapTexts (fields : List FieldEntry) :
    fieldMapWords (fields.map (FieldEntry.mapTexts f)) = fieldMapWords fields := by
  rw [fieldMapWords, List.flatMap_map]
  exact List.flatMap_congr fun field _ => field.words_mapTexts hf

theorem FactoryEntry.words_mapTexts (factory : FactoryEntry) :
    (factory.mapTexts f).words = factory.words := by
  simp only [words, mapTexts, keywordWords_map hf, fieldMapWords_mapTexts hf]

theorem ObjectEntry.words_mapTexts (o : ObjectEntry) : (o.mapTexts f).words = o.words := by
  rw [words, mapTexts, keywordWords_map hf, fieldMapWords_mapTexts hf]
  rfl

end

theorem FieldEntry.WellSpelled.mapTexts {field : FieldEntry} (h : field.WellSpelled)
    (f : String → String) : (field.mapTexts f).WellSpelled where
  name := h.name
  type := h.type
  arguments := List.forall_mem_map.2 fun a ha => ⟨(h.arguments a ha).name, (h.arguments a ha).type⟩
  resolver := h.resolver

theorem SchemaModule.WellSpelled.mapTexts {m : SchemaModule} (h : m.WellSpelled)
    (f : String → String) : (m.mapTexts f).WellSpelled where
  scalars := List.forall_mem_map.2 fun s hs => ⟨(h.scalars s hs).var, (h.scalars s hs).name⟩
  enums := List.forall_mem_map.2 fun e he =>
    ⟨(h.enums e he).var, (h.enums e he).name, List.forall_mem_map.2 (h.enums e he).values⟩
  factories := List.forall_mem_map.2 fun factory hfactory =>
    have hsame := h.factories factory hfactory
    ⟨hsame.var, hsame.name, hsame.parameters,
      List.forall_mem_map.2 fun field hfield => (hsame.fields field hfield).mapTexts f⟩
  objects := List.forall_mem_map.2 fun o ho =>
    have hsame := h.objects o ho
    ⟨hsame.var, hsame.name,
      List.forall_mem_map.2 fun field hfield => (hsame.fields field hfield).mapTexts f⟩
  instances := h.instances
  schema := h.schema

/-- The words of a module's definitions do not depend on its texts. -/
theorem SchemaModule.bodyWords_mapTexts {m : SchemaModule} (h : m.WellSpelled)
    {f : String → String} (hf : KeepsEmpty f) : (m.mapTexts f).bodyWords = m.bodyWords := by
  have hscalars := List.flatMap_congr fun s (_ : s ∈ m.scalars) => s.words_mapTexts f
  have henums := List.flatMap_congr fun e (_ : e ∈ m.enums) => e.words_mapTexts hf
  have hfactories := List.flatMap_congr fun g (_ : g ∈ m.factories) => g.words_mapTexts hf
  have hobjects := List.flatMap_congr fun o (_ : o ∈ m.objects) => o.words_mapTexts hf
  rw [bodyWords_eq (h.mapTexts f), bodyWords_eq h]
  simp only [mapTexts, List.flatMap_map, hscalars, henums, hfactories, hobjects]

/-- That the texts of a module may be changed and nothing else changes with them: neither the code
around their literals nor, where the names are well spelled, its words. -/
structure SchemaModule.ApartFromTexts (m : SchemaModule) : Prop where
  same : m.mapTexts id = m
  texts : ∀ f, KeepsEmpty f → (m.mapTexts f).texts = m.texts.map f
  written : Writes m.texts fun f => (m.mapTexts f).text.toList
  words : m.WellSpelled → ∀ f, KeepsEmpty f → (m.mapTexts f).bodyWords = m.bodyWords

theorem SchemaModule.apartFromTexts (m : SchemaModule) : m.ApartFromTexts where
  same := m.mapTexts_id
  texts _ hf := m.texts_mapTexts hf
  written := m.writes_text
  words h _ hf := bodyWords_mapTexts h hf

end SchemaCompiler
