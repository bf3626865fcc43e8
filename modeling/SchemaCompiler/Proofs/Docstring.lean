import SchemaCompiler.Proofs.OutputFiles
import SchemaCompiler.Proofs.Verbatim

/-! The docstring of a module. It is written between triple quotes as it is configured, so whoever
reads the module sees the configured docstring only if it can stand between them as it is. That the
text is a module does not ensure this. -/

namespace SchemaCompiler

/-- What the literal at the head of a text stands for. -/
def headLiteral? (text : String) : Option String :=
  (readLiteral? (unifyLineEnds text.toList)).map fun (value, _) => String.ofList value

theorem headLiteral?_eq {text : String} {cs body rest value : List Char}
    (hstart : unifyLineEnds text.toList = tripleQuote ++ cs)
    (hbody : literalBody '"' true cs = some (body, rest))
    (hvalue : unescape? false body = some value) :
    headLiteral? text = some (String.ofList value) := by
  rw [headLiteral?, hstart]
  simp [tripleQuote, readLiteral?, hbody, hvalue]

/-- There are no tokens where the quotes at the start open nothing that can be read. -/
theorem Token.scan_tripleQuote_eq_none {cs : List Char}
    (h : literal? [] '"' ('"' :: '"' :: cs) = none) (bound : ℕ) :
    scan (bound + 2) true [] [] [] (tripleQuote ++ cs) = none := by
  have hline : scan (bound + 2) true [] [] [] (tripleQuote ++ cs) =
      scan (bound + 1) false [] [] [] (tripleQuote ++ cs) := rfl
  have hnext : next? (tripleQuote ++ cs) = none := h
  have hquote : ¬('"' = ' ' ∨ '"' = '\t' ∨ '"' = '\x0c') := by decide
  simp only [tripleQuote, List.cons_append, List.nil_append] at hline hnext ⊢
  rw [hline, scan, if_neg hquote, hnext] <;> decide

/-- The first token of a module that starts with a triple quote is a literal that can be read. -/
theorem exists_readLiteral? {text : String} {cs : List Char} (hmodule : isModuleText text = true)
    (hstart : unifyLineEnds text.toList = tripleQuote ++ cs) : ∃ body rest value,
      literalBody '"' true cs = some (body, rest) ∧ unescape? false body = some value := by
  rw [isModuleText_eq, areModuleText, Token.ofChars?, hstart] at hmodule
  split_ifs at hmodule
  rcases hbody : literalBody '"' true cs with _ | ⟨body, rest⟩
  · have hnone : Token.literal? [] '"' ('"' :: '"' :: cs) = none := by
      simp [Token.literal?, hbody]
    rw [Token.scan_tripleQuote_eq_none hnone] at hmodule
    cases hmodule
  · rcases hvalue : unescape? false body with _ | value
    · have hnone : Token.literal? [] '"' ('"' :: '"' :: cs) = none := by
        simp [Token.literal?, hbody, hvalue]
      rw [Token.scan_tripleQuote_eq_none hnone] at hmodule
      cases hmodule
    · exact ⟨body, rest, value, rfl, hvalue⟩

/-- The text of a module without a header starts with its docstring. -/
theorem SchemaModule.text_starts {m : SchemaModule} (h : m.header = "") : ∃ more,
    m.text.toList = tripleQuote ++ (m.docstring.toList ++ tripleQuote ++ '\n' :: more) := by
  rw [text_toList, lines, if_pos h]
  simp [tripleQuote]

/-- What the style takes from the configuration where there is no header. -/
theorem Config.style_eq_ok {config : Config} {style : ModuleStyle} (h : config.style = .ok style)
    (hheader : config.header.isTruthy = false) :
    style.docstring = config.moduleDocstring.plainText ∧ style.header = "" := by
  rw [Config.style] at h
  split at h
  · rename_i s hs
    rw [hs] at hheader
    cases h
    exact ⟨rfl, by simpa [Json.isTruthy] using hheader⟩
  · rw [if_neg (by simp [hheader])] at h
    cases h
    exact ⟨rfl, rfl⟩

/-- The literal at the head of a module stands for the configured docstring exactly if the docstring
can stand between triple quotes as it is. -/
theorem UnitSource.docstring_iff {source : UnitSource} {config : Config} {hooks : Hooks}
    {schema : EmittedSchema} {docstring : String} (h : source.compile config hooks = .ok schema)
    (hdocstring : config.moduleDocstring = .string docstring)
    (hheader : config.header.isTruthy = false) :
    ∃ a m value, source.Emits config hooks a m schema ∧ headLiteral? m.text = some value ∧
      (value = docstring ↔ Verbatim docstring.toList) := by
  obtain ⟨a, m, hemits⟩ := compile_eq_ok.1 h
  obtain ⟨style, hstyle, hsections⟩ := hemits.written
  obtain ⟨htaken, hnone⟩ := Config.style_eq_ok hstyle hheader
  have hplain : m.header = "" := by
    rw [hsections.header, hnone]
    rfl
  have hconfigured : m.docstring = docstring := by
    rw [hsections.docstring, htaken, hdocstring]
    rfl
  obtain ⟨more, htext⟩ := SchemaModule.text_starts hplain
  have hquote (cs : List Char) : unifyLineEnds (tripleQuote ++ cs) =
      tripleQuote ++ unifyLineEnds cs := by
    simp [tripleQuote, unifyLineEnds]
  have hunified : unifyLineEnds m.text.toList = tripleQuote ++
      (unifyLineEnds docstring.toList ++ tripleQuote ++ unifyLineEnds ('\n' :: more)) := by
    rw [htext, hconfigured, hquote, List.append_assoc, List.append_assoc, ← hquote ('\n' :: more)]
    rw [unifyLineEnds_append (by simp [tripleQuote])]
  obtain ⟨body, rest, value, hbody, hvalue⟩ := exists_readLiteral? hemits.accepted hunified
  refine ⟨a, m, String.ofList value, hemits, ?_, ?_⟩
  · exact headLiteral?_eq hunified hbody hvalue
  · rw [← tripleQuoted_value_eq_iff hbody hvalue, String.ofList_eq]

theorem Config.style_docstring {config : Config} {style : ModuleStyle}
    (h : config.style = .ok style) (docstring : String) :
    { config with moduleDocstring := .string docstring }.style =
      .ok { style with docstring := docstring } := by
  rw [Config.style] at h ⊢
  dsimp only
  split at h
  · cases h
    rfl
  · split_ifs at h with hgiven
    · cases h
    · rw [if_neg hgiven]
      cases h
      rfl

/-- Another docstring changes nothing but the docstring, as long as the text is still a module. -/
theorem UnitSource.Emits.docstring {source : UnitSource} {config : Config} {hooks : Hooks}
    {a : Analysis} {m : SchemaModule} {schema : EmittedSchema}
    (h : source.Emits config hooks a m schema) (docstring : String)
    (haccepted : isModuleText { m with docstring := docstring }.text = true) :
    ∃ schema, source.Emits { config with moduleDocstring := .string docstring } hooks a
      { m with docstring := docstring } schema := by
  obtain ⟨style, hstyle, hsections⟩ := h.written
  refine ⟨⟨a.model.unit, moduleFileName a.model.unit, hooks.runPost (moduleFileName a.model.unit)
    { m with docstring := docstring }.text, { m with docstring := docstring }.assignedNames⟩,
    h.analyzed, ⟨_, Config.style_docstring hstyle docstring, ?_⟩, h.template, haccepted, rfl, rfl,
    rfl, rfl⟩
  exact ⟨hsections.header, rfl, hsections.runtimeModule, hsections.libraryImports,
    hsections.runtimeImports, hsections.scalars, hsections.enums, hsections.factories,
    hsections.objects, hsections.instances, hsections.schema⟩

/-- A unit of one scalar is emitted with any docstring that leaves its text a module. -/
theorem dateUnit_docstring (docstring : String)
    (haccepted : isModuleText { scalarModule "Date" with docstring := docstring }.text = true) :
    ∃ a schema, (UnitSource.loaded (scalarUnit "a-b" "Date" "date")).Emits
      { moduleDocstring := .string docstring } {} a
      { scalarModule "Date" with docstring := docstring } schema := by
  obtain ⟨a, schema, hemits⟩ := dateUnit_emits
  obtain ⟨schema, hemits⟩ := hemits.docstring docstring haccepted
  exact ⟨a, schema, hemits⟩

/-- Not every docstring is read back: in `C:\temp` the backslash and the letter are a tab. -/
theorem docstring_may_change :
    ¬∀ (source : UnitSource) (config : Config) (hooks : Hooks) (schema : EmittedSchema)
      (docstring : String), source.compile config hooks = .ok schema → hooks.post = [] →
        config.moduleDocstring = .string docstring → config.header.isTruthy = false →
          headLiteral? schema.content = some docstring := by
  intro hall
  obtain ⟨a, schema, hemits⟩ := dateUnit_docstring "C:\\temp" (by decide +kernel)
  have hread := hall _ _ _ _ _ (UnitSource.compile_eq_ok.2 ⟨a, _, hemits⟩) rfl rfl (by decide)
  rw [hemits.content] at hread
  have hvalue : headLiteral? { scalarModule "Date" with docstring := "C:\\temp" }.text ≠
      some "C:\\temp" := by decide +kernel
  exact hvalue hread

theorem quoting_verbatim : Verbatim "A \"type\" per row, named \\w+".toList := by
  simp [Verbatim.cons_iff, Verbatim.nil, Verbatim.Closes, startsEscape, isOctal, tripleQuote]

theorem dateUnit_docstring_read : ∃ schema a m,
    (UnitSource.loaded (scalarUnit "a-b" "Date" "date")).compile
      { moduleDocstring := .string "A \"type\" per row, named \\w+" } {} = .ok schema ∧
    (UnitSource.loaded (scalarUnit "a-b" "Date" "date")).Emits
      { moduleDocstring := .string "A \"type\" per row, named \\w+" } {} a m schema ∧
    headLiteral? m.text = some "A \"type\" per row, named \\w+" := by
  obtain ⟨a₀, schema, hemits₀⟩ :=
    dateUnit_docstring "A \"type\" per row, named \\w+" (by decide +kernel)
  have hcompiles := UnitSource.compile_eq_ok.2 ⟨a₀, _, hemits₀⟩
  obtain ⟨a, m, value, hemits, hread, hvalue⟩ :=
    UnitSource.docstring_iff hcompiles rfl (by decide)
  rw [hvalue.2 quoting_verbatim] at hread
  exact ⟨schema, a, m, hcompiles, hemits, hread⟩

end SchemaCompiler
