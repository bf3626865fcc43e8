import SchemaCompiler.Proofs.Words

/-! The words of a module, line by line. Behind the imports and the list of exported names each
entry of the module writes its own words, in an order that is fixed. -/

namespace SchemaCompiler

open Reading

theorem toList_indented (columns : Nat) (line : String) :
    (indented columns line).toList = List.replicate columns ' ' ++ line.toList := by
  rw [indented, String.toList_append, String.toList_ofList]

theorem head?_indented (columns : Nat) (text : String) :
    (indented (columns + 1) text).toList.head? = some ' ' := by
  rw [toList_indented]
  rfl

/-- The lines of a field are set in. -/
theorem FieldEntry.head?_of_mem_lines (f : FieldEntry) :
    ∀ line ∈ f.lines, line.toList.head? = some ' ' := by
  rw [lines]
  split <;>
    simp only [optionalLine, List.forall_mem_append, List.forall_mem_cons, List.forall_mem_map,
      List.not_mem_nil, IsEmpty.forall_iff, head?_indented, implies_true, and_true]

theorem lineWords_indented (columns : Nat) (line : String) :
    lineWords (indented columns line) = lineWords line := by
  have hblanks : run {} (List.replicate columns ' ') = {} := by
    induction columns with
    | zero => rfl
    | succ n ih => exact ih
  rw [lineWords, toList_indented, run_append, hblanks]
  rfl

theorem flatMap_lineWords_indented (columns : Nat) (lines : List String) :
    (lines.map (indented columns)).flatMap lineWords = lines.flatMap lineWords := by
  simp only [List.flatMap_map, lineWords_indented]

/-- The name of a keyword argument, if there is something to say. -/
def keywordWords (keyword : String) (s : Option String) : List String :=
  (given s).toList.map fun _ => keyword

theorem adds_descriptionSuffix {s : String} {ws : List String} (h : Adds s ws)
    (description : Option String) : Adds (s ++ descriptionSuffix description)
      (ws ++ keywordWords "description" description) := by
  rw [descriptionSuffix, keywordWords]
  rcases given description with _ | d
  · rw [Option.elim_none, String.append_empty, Option.toList_none, List.map_nil, List.append_nil]
    exact h
  · have hstart : Closes ", description=" ["description"] := closes_of_run rfl
    have hall := hstart.append (closes_quoted d)
    refine (h.append ?_ hall).adds
    rw [String.toList_append]
    rfl

theorem optionalLine_words {columns : Nat} {keyword : String}
    (hkeyword : Closes (keyword ++ "=") [keyword]) (s : Option String) :
    (optionalLine columns keyword s).flatMap lineWords = keywordWords keyword s := by
  rw [optionalLine, keywordWords]
  rcases given s with _ | d
  · rfl
  · have hcomma : Closes "," [] := closes_of_run rfl
    have hline := ((hkeyword.append (closes_quoted d)).append hcomma).lineWords
    simp [lineWords_indented, hline]

theorem closes_description : Closes ("description" ++ "=") ["description"] :=
  closes_of_run rfl

def ArgumentEntry.words (a : ArgumentEntry) : List String :=
  "GraphQLArgument" :: a.type.words ++ keywordWords "description" a.description

structure ArgumentEntry.WellSpelled (a : ArgumentEntry) : Prop where
  name : IsName a.name
  type : ∀ name ∈ a.type.words, IsWord name

theorem ArgumentEntry.closes_line {a : ArgumentEntry} (h : a.WellSpelled) :
    Closes a.line a.words := by
  have hopens : Closes ": GraphQLArgument(" ["GraphQLArgument"] := closes_of_run rfl
  have hends : Closes ")," [] := closes_of_run rfl
  have hstart := (closes_nameLiteral h.name).append hopens
  have htype := adds_descriptionSuffix (TypeTerm.adds_text h.type) a.description
  have hall := (hstart.append_adds htype).append rfl hends
  simpa [line, words, String.append_assoc] using hall

def FieldEntry.words (f : FieldEntry) : List String :=
  "GraphQLField" :: f.type.words ++
    (if f.arguments.isEmpty then [] else "args" :: f.arguments.flatMap ArgumentEntry.words) ++
    "resolve" :: f.resolver.runtimeNames ++ keywordWords "description" f.description ++
    keywordWords "deprecation_reason" f.deprecationReason

structure FieldEntry.WellSpelled (f : FieldEntry) : Prop where
  name : IsName f.name
  type : ∀ name ∈ f.type.words, IsWord name
  arguments : ∀ a ∈ f.arguments, a.WellSpelled
  resolver : f.resolver.WellSpelled

theorem FieldEntry.lines_words {f : FieldEntry} (h : f.WellSpelled) :
    f.lines.flatMap lineWords = f.words := by
  have hcomma : Closes "," [] := closes_of_run rfl
  have hopens : Closes ": GraphQLField(" ["GraphQLField"] := closes_of_run rfl
  have hfirst := ((closes_nameLiteral h.name).append hopens).lineWords
  have htype := ((TypeTerm.adds_text h.type).append rfl hcomma).lineWords
  have hresolve : Closes "resolve=" ["resolve"] := closes_of_run rfl
  have hexpression := Binding.closes_expression h.resolver
  have hresolver := ((hresolve.append hexpression).append hcomma).lineWords
  have harguments : f.arguments.flatMap (fun a => lineWords a.line) =
      f.arguments.flatMap ArgumentEntry.words :=
    List.flatMap_congr fun a ha => (ArgumentEntry.closes_line (h.arguments a ha)).lineWords
  have hargs : lineWords "args=\x7b" = ["args"] := (closes_of_run rfl : Closes _ _).lineWords
  have hends : lineWords "\x7d," = [] := (closes_of_run rfl : Closes _ _).lineWords
  have hcloses : lineWords ")," = [] := (closes_of_run rfl : Closes _ _).lineWords
  have hreason : Closes ("deprecation_reason" ++ "=") ["deprecation_reason"] := closes_of_run rfl
  rw [lines]
  simp only [List.flatMap_append, List.flatMap_cons, List.flatMap_nil, lineWords_indented,
    optionalLine_words closes_description, optionalLine_words hreason, hfirst, htype, hresolver,
    hcloses]
  split
  · simp [words, *]
  · simp [words, List.flatMap_map, lineWords_indented, *]

def fieldMapWords (fields : List FieldEntry) : List String :=
  fields.flatMap FieldEntry.words

theorem fieldMapLines_words {columns : Nat} {start : String} {ws : List String}
    {fields : List FieldEntry} (hstart : Closes start ws) (h : ∀ f ∈ fields, f.WellSpelled) :
    (fieldMapLines columns start fields).flatMap lineWords = ws ++ fieldMapWords fields := by
  have hopens : Closes "\x7b" [] := closes_of_run rfl
  have hfirst := (hstart.append hopens).lineWords
  have hends : lineWords "\x7d," = [] := (closes_of_run rfl : Closes _ _).lineWords
  have hfields : fields.flatMap (fun f => f.lines.flatMap lineWords) = fieldMapWords fields :=
    List.flatMap_congr fun f hf => FieldEntry.lines_words (h f hf)
  rw [fieldMapLines]
  simp only [List.flatMap_append, List.flatMap_cons, List.flatMap_nil, lineWords_indented,
    flatMap_lineWords_indented, List.flatMap_assoc, hfirst, hends, hfields, List.append_nil]

def textWords? (s : Option String) : List String :=
  if s.isNone then ["None"] else []

theorem adds_textLiteral? (s : Option String) : Adds (textLiteral? s) (textWords? s) := by
  cases s with
  | none => exact adds_word ⟨isName_literal rfl, rfl⟩
  | some s => exact (closes_quoted s).adds

def ScalarEntry.words (s : ScalarEntry) : List String :=
  [s.var, "define_scalar"] ++ textWords? s.implementation ++ "description" ::
    textWords? s.description

structure ScalarEntry.WellSpelled (s : ScalarEntry) : Prop where
  var : IsWord s.var
  name : IsName s.name

theorem ScalarEntry.lines_words {s : ScalarEntry} (h : s.WellSpelled) :
    s.lines.flatMap lineWords = s.words := by
  have hcomma : Closes "," [] := closes_of_run rfl
  have hopens : Closes " = define_scalar(" ["define_scalar"] := closes_of_run rfl
  have hfirst := ((adds_word h.var).append rfl hopens).lineWords
  have hname := ((closes_nameLiteral h.name).append hcomma).lineWords
  have himplementation := ((adds_textLiteral? s.implementation).append rfl hcomma).lineWords
  have hkeyword : Closes "description=" ["description"] := closes_of_run rfl
  have hdescription :=
    ((hkeyword.append_adds (adds_textLiteral? s.description)).append rfl hcomma).lineWords
  have hends : lineWords ")" = [] := (closes_of_run rfl : Closes _ _).lineWords
  simp [lines, words, lineWords_indented, hfirst, hname, himplementation, hdescription, hends]

def EnumEntry.words (e : EnumEntry) : List String :=
  [e.var, "GraphQLEnumType"] ++ (e.values.flatMap fun v =>
    "GraphQLEnumValue" :: keywordWords "description" v.description) ++
    keywordWords "description" e.description

structure EnumEntry.WellSpelled (e : EnumEntry) : Prop where
  var : IsWord e.var
  name : IsName e.name
  values : ∀ v ∈ e.values, IsName v.name

theorem closes_enumValueLine {v : EnumMember} (h : IsName v.name) :
    Closes (enumValueLine v) ("GraphQLEnumValue" :: keywordWords "description" v.description) := by
  have hopens : Closes ": GraphQLEnumValue(" ["GraphQLEnumValue"] := closes_of_run rfl
  have hends : Closes ")," [] := closes_of_run rfl
  have hstart := (closes_nameLiteral h).append hopens
  have hvalue := adds_descriptionSuffix (adds_literal v.value) v.description
  have hall := (hstart.append_adds hvalue).append rfl hends
  simpa [enumValueLine, String.append_assoc] using hall

theorem EnumEntry.lines_words {e : EnumEntry} (h : e.WellSpelled) :
    e.lines.flatMap lineWords = e.words := by
  have hcomma : Closes "," [] := closes_of_run rfl
  have hopens : Closes " = GraphQLEnumType(" ["GraphQLEnumType"] := closes_of_run rfl
  have hfirst := ((adds_word h.var).append rfl hopens).lineWords
  have hname := ((closes_nameLiteral h.name).append hcomma).lineWords
  have hvalues : e.values.flatMap (fun v => lineWords (enumValueLine v)) = e.values.flatMap fun v =>
      "GraphQLEnumValue" :: keywordWords "description" v.description :=
    List.flatMap_congr fun v hv => (closes_enumValueLine (h.values v hv)).lineWords
  have hbrace : lineWords "\x7b" = [] := (closes_of_run rfl : Closes _ _).lineWords
  have hends : lineWords "\x7d," = [] := (closes_of_run rfl : Closes _ _).lineWords
  have hcloses : lineWords ")" = [] := (closes_of_run rfl : Closes _ _).lineWords
  simp [lines, words, List.flatMap_map, lineWords_indented, optionalLine_words closes_description,
    hfirst, hname, hvalues, hbrace, hends, hcloses]

def FactoryEntry.words (f : FactoryEntry) : List String :=
  ["generic_factory", "def", f.var] ++ f.parameters ++ ["return", "GraphQLObjectType", "name"] ++
    keywordWords "description" f.description ++ ["fields", "lambda"] ++ fieldMapWords f.fields

structure FactoryEntry.WellSpelled (f : FactoryEntry) : Prop where
  var : IsWord f.var
  name : IsName f.name
  parameters : ∀ p ∈ f.parameters, IsWord p
  fields : ∀ field ∈ f.fields, field.WellSpelled

/-- The name of an instantiation is put together inside a literal. -/
theorem FactoryEntry.closes_nameExpression {f : FactoryEntry} (h : f.WellSpelled) :
    Closes f.nameExpression [] := by
  have hname : ∀ {name : String}, IsName name →
      run ⟨[], .literal '"'⟩ name.toList = ⟨[], .literal '"'⟩ :=
    fun hname => run_literal hname.no_quote []
  have hpieces : ∀ ps : List String, (∀ p ∈ ps, IsWord p) →
      run ⟨[], .literal '"'⟩ (String.join (ps.map fun p => "\x7b" ++ p ++ ".name\x7d")).toList =
        ⟨[], .literal '"'⟩ := by
    intro ps hps
    rw [String.toList_join]
    induction ps with
    | nil => rfl
    | cons p rest ih =>
      have hp := hname (hps p List.mem_cons_self).isName
      rw [List.map_cons, List.flatMap_cons, run_append, String.toList_append, String.toList_append,
        run_append, run_append, show run ⟨[], .literal '"'⟩ "\x7b".toList = ⟨[], .literal '"'⟩
          from rfl, hp, show run ⟨[], .literal '"'⟩ ".name\x7d".toList = ⟨[], .literal '"'⟩ from rfl]
      exact ih fun x hx => hps x (List.mem_cons_of_mem _ hx)
  refine closes_of_run ?_
  simp only [nameExpression, String.toList_append, run_append]
  rw [show run {} "f\"".toList = ⟨[], .literal '"'⟩ from rfl, hpieces _ h.parameters, hname h.name]
  rfl

theorem FactoryEntry.lines_words {f : FactoryEntry} (h : f.WellSpelled) :
    f.lines.flatMap lineWords = f.words := by
  have hcomma : Closes "," [] := closes_of_run rfl
  have hdecorator : lineWords "@generic_factory" = ["generic_factory"] := by decide
  have hdef : Closes "def " ["def"] := closes_of_run rfl
  have hopens : Closes "(" [] := closes_of_run rfl
  have hcloses : Closes "):" [] := closes_of_run rfl
  have hparameters : Adds (commaSeparated f.parameters) f.parameters := by
    have hall := adds_commaSeparated (f := id) (g := fun p => [p])
      fun p hp => adds_word (h.parameters p hp)
    simpa using hall
  have hsignature := ((((hdef.append_adds (adds_word h.var)).append rfl hopens).append_adds
    hparameters).append rfl hcloses).lineWords
  have hreturn : lineWords "return GraphQLObjectType(" = ["return", "GraphQLObjectType"] := by
    decide
  have hkeyword : Closes "name=" ["name"] := closes_of_run rfl
  have hname := ((hkeyword.append (closes_nameExpression h)).append hcomma).lineWords
  have hfields : Closes "fields=lambda: " ["fields", "lambda"] := closes_of_run rfl
  have hends : lineWords ")" = [] := by decide
  simp [lines, words, lineWords_indented, optionalLine_words closes_description,
    fieldMapLines_words hfields h.fields, hdecorator, hsignature, hreturn, hname, hends]

def ObjectEntry.words (o : ObjectEntry) : List String :=
  [o.var, "GraphQLObjectType", "name"] ++ keywordWords "description" o.description ++
    (if o.isLazy then ["fields", "lambda"] else ["fields"]) ++ fieldMapWords o.fields

structure ObjectEntry.WellSpelled (o : ObjectEntry) : Prop where
  var : IsWord o.var
  name : IsName o.name
  fields : ∀ f ∈ o.fields, f.WellSpelled

theorem ObjectEntry.lines_words {o : ObjectEntry} (h : o.WellSpelled) :
    o.lines.flatMap lineWords = o.words := by
  have hcomma : Closes "," [] := closes_of_run rfl
  have hopens : Closes " = GraphQLObjectType(" ["GraphQLObjectType"] := closes_of_run rfl
  have hfirst := ((adds_word h.var).append rfl hopens).lineWords
  have hkeyword : Closes "name=" ["name"] := closes_of_run rfl
  have hname := ((hkeyword.append (closes_nameLiteral h.name)).append hcomma).lineWords
  have hstart : Closes (if o.isLazy then "fields=lambda: " else "fields=")
      (if o.isLazy then ["fields", "lambda"] else ["fields"]) := by
    split <;> exact closes_of_run rfl
  have hends : lineWords ")" = [] := by decide
  simp [lines, words, lineWords_indented, optionalLine_words closes_description,
    fieldMapLines_words hstart h.fields, hfirst, hname, hends]

def InstanceEntry.words (i : InstanceEntry) : List String :=
  [i.var, i.factory] ++ i.arguments.flatMap TypeTerm.words

structure InstanceEntry.WellSpelled (i : InstanceEntry) : Prop where
  var : IsWord i.var
  factory : IsWord i.factory
  arguments : ∀ t ∈ i.arguments, ∀ name ∈ t.words, IsWord name

theorem InstanceEntry.line_words {i : InstanceEntry} (h : i.WellSpelled) :
    lineWords i.line = i.words := by
  have hequals : Closes " = " [] := closes_of_run rfl
  have hopens : Closes "(" [] := closes_of_run rfl
  have hcloses : Closes ")" [] := closes_of_run rfl
  have harguments := adds_commaSeparated fun t ht => TypeTerm.adds_text (h.arguments t ht)
  have hall := (((((adds_word h.var).append rfl hequals).append_adds (adds_word h.factory)).append
    rfl hopens).append_adds harguments).append rfl hcloses
  rw [line, hall.lineWords]
  simp [words]

def SchemaEntry.words (s : SchemaEntry) : List String :=
  ["def", "build_schema", "GraphQLSchema", "return", "GraphQLSchema"] ++
    (s.roots.flatMap fun (operation, var) => [operation, var]) ++ "types" :: s.types

structure SchemaEntry.WellSpelled (s : SchemaEntry) : Prop where
  roots : ∀ root ∈ s.roots, IsWord root.1 ∧ IsWord root.2
  types : ∀ t ∈ s.types, IsWord t

theorem SchemaEntry.lines_words {s : SchemaEntry} (h : s.WellSpelled) :
    s.lines.flatMap lineWords = s.words := by
  have hcomma : Closes "," [] := closes_of_run rfl
  have hequals : Closes "=" [] := closes_of_run rfl
  have hfirst : lineWords "def build_schema() -> GraphQLSchema:" =
      ["def", "build_schema", "GraphQLSchema"] := by decide
  have hreturn : lineWords "return GraphQLSchema(" = ["return", "GraphQLSchema"] := by decide
  have hopens : lineWords "types=[" = ["types"] := by decide
  have hcloses : lineWords "]," = [] := by decide
  have hends : lineWords ")" = [] := by decide
  have hroots : s.roots.flatMap (fun root => lineWords (root.1 ++ "=" ++ root.2 ++ ",")) =
      s.roots.flatMap fun root => [root.1, root.2] := by
    refine List.flatMap_congr fun root hroot => ?_
    obtain ⟨hoperation, hvar⟩ := h.roots root hroot
    exact ((((adds_word hoperation).append rfl hequals).append_adds (adds_word hvar)).append rfl
      hcomma).lineWords
  have htypes : s.types.flatMap (fun t => lineWords (t ++ ",")) = s.types := by
    rw [List.flatMap_congr fun t ht => ((adds_word (h.types t ht)).append rfl hcomma).lineWords]
    simp
  simp [lines, words, List.flatMap_map, lineWords_indented, hfirst, hreturn, hopens, hcloses, hends,
    hroots, htypes]

namespace SchemaModule

def headLines (m : SchemaModule) : List String :=
  (if m.header = "" then [] else [m.header, ""]) ++
    ["\"\"\"" ++ m.docstring ++ "\"\"\"", ""] ++
    (if m.libraryImports.isEmpty then [] else importLines "graphql" m.libraryImports) ++
    (if m.runtimeImports.isEmpty then [] else "" :: importLines m.runtimeModule m.runtimeImports) ++
    ["", "__all__ = ["] ++ m.exports.map (fun n => indented 4 (nameLiteral n ++ ",")) ++ ["]"]

def bodyLines (m : SchemaModule) : List String :=
  m.scalars.flatMap (fun s => setOff s.lines) ++ m.enums.flatMap (fun e => setOff e.lines) ++
    m.factories.flatMap (fun f => setOff f.lines) ++ m.objects.flatMap (fun o => setOff o.lines) ++
    (if m.instances.isEmpty then [] else setOff (m.instances.map InstanceEntry.line)) ++
    m.schema.elim [] fun s => setOff s.lines

theorem lines_eq (m : SchemaModule) : m.lines = m.headLines ++ m.bodyLines := by
  simp only [lines, headLines, bodyLines, List.append_assoc]

def bodyWords (m : SchemaModule) : List String :=
  m.bodyLines.flatMap lineWords

structure WellSpelled (m : SchemaModule) : Prop where
  scalars : ∀ s ∈ m.scalars, s.WellSpelled
  enums : ∀ e ∈ m.enums, e.WellSpelled
  factories : ∀ f ∈ m.factories, f.WellSpelled
  objects : ∀ o ∈ m.objects, o.WellSpelled
  instances : ∀ i ∈ m.instances, i.WellSpelled
  schema : ∀ s, m.schema = some s → s.WellSpelled

theorem bodyWords_eq {m : SchemaModule} (h : m.WellSpelled) : m.bodyWords =
    m.scalars.flatMap ScalarEntry.words ++ m.enums.flatMap EnumEntry.words ++
      m.factories.flatMap FactoryEntry.words ++ m.objects.flatMap ObjectEntry.words ++
      m.instances.flatMap InstanceEntry.words ++ m.schema.elim [] SchemaEntry.words := by
  have hsetOff : ∀ lines, (setOff lines).flatMap lineWords = lines.flatMap lineWords := by
    intro lines
    simp [setOff, show lineWords "" = [] from rfl]
  have hscalars := List.flatMap_congr fun s hs => ScalarEntry.lines_words (h.scalars s hs)
  have henums := List.flatMap_congr fun e he => EnumEntry.lines_words (h.enums e he)
  have hfactories := List.flatMap_congr fun f hf => FactoryEntry.lines_words (h.factories f hf)
  have hobjects := List.flatMap_congr fun o ho => ObjectEntry.lines_words (h.objects o ho)
  have hinstances := List.flatMap_congr fun i hi => InstanceEntry.line_words (h.instances i hi)
  have hinstanceLines : (if m.instances.isEmpty then [] else
      setOff (m.instances.map InstanceEntry.line)).flatMap lineWords =
        m.instances.flatMap InstanceEntry.words := by
    rcases hlist : m.instances with _ | ⟨i, rest⟩
    · rfl
    · rw [← hlist, if_neg (by simp [hlist]), hsetOff, List.flatMap_map, hinstances]
  have hschema : (m.schema.elim [] fun s => setOff s.lines).flatMap lineWords =
      m.schema.elim [] SchemaEntry.words := by
    rcases hs : m.schema with _ | s
    · rfl
    · rw [Option.elim_some, Option.elim_some, hsetOff, SchemaEntry.lines_words (h.schema s hs)]
  simp only [bodyWords, bodyLines, List.flatMap_append, List.flatMap_assoc, hsetOff, hscalars,
    henums, hfactories, hobjects, hinstanceLines, hschema]

end SchemaModule

end SchemaCompiler
