import Mathlib.Data.List.Forall2
import SchemaCompiler.Module.Emission
import SchemaCompiler.Module.Printer
import SchemaCompiler.Module.Token

/-! The words of a written module: what stands in its lines outside of literals and is no number. A
line is read character by character, so the words of a line are those of its parts, as long as no
two words run into each other. -/

namespace SchemaCompiler

/-- Whether a character can stand in a word. A name may end in a line feed. -/
def isNamePart (c : Char) : Bool :=
  Token.isWordChar c || c = '\n'

/-- Where the reading of a line stands. -/
inductive Place where
  /-- Outside of literals; the characters of the word there are given, which may be none. -/
  | code (word : List Char)
  | literal (quote : Char)
  /-- Behind a backslash in a literal. -/
  | escape (quote : Char)
  deriving DecidableEq, Repr

structure Reading where
  words : List String := []
  place : Place := .code []
  deriving DecidableEq, Repr

namespace Reading

/-- The words together with one that has come to its end. A number is no word. -/
def ended (words : List String) : List Char → List String
  | [] => words
  | c :: rest => if c.isDigit then words else words ++ [String.ofList (c :: rest)]

/-- Reads one character. The letters in front of a literal belong to it. -/
def step (r : Reading) (c : Char) : Reading :=
  match r.place with
  | .code word =>
    if isNamePart c then ⟨r.words, .code (word ++ [c])⟩
    else if Token.opensLiteral word c then ⟨r.words, .literal c⟩
    else if c = '"' ∨ c = '\'' then ⟨ended r.words word, .literal c⟩
    else ⟨ended r.words word, .code []⟩
  | .literal quote =>
    if c = '\\' then ⟨r.words, .escape quote⟩
    else if c = quote then ⟨r.words, .code []⟩
    else r
  | .escape quote => ⟨r.words, .literal quote⟩

def run (r : Reading) (cs : List Char) : Reading :=
  cs.foldl step r

def settle (r : Reading) : Reading :=
  match r.place with
  | .code word => ⟨ended r.words word, .code []⟩
  | _ => r

end Reading

def lineWords (line : String) : List String :=
  (Reading.run {} line.toList).settle.words

namespace Reading

/-- A character that ends a word and opens no literal. -/
def isMark (c : Char) : Bool :=
  !isNamePart c && c ≠ '"' && c ≠ '\''

theorem run_append (r : Reading) (as bs : List Char) :
    r.run (as ++ bs) = (r.run as).run bs :=
  List.foldl_append

theorem run_cons (r : Reading) (c : Char) (cs : List Char) : r.run (c :: cs) = (r.step c).run cs :=
  rfl

/-- In front of a mark it makes no difference whether a word has been ended already. -/
theorem run_mark {c : Char} (hc : isMark c = true) (r : Reading) (cs : List Char) :
    r.run (c :: cs) = r.settle.run (c :: cs) := by
  simp only [isMark, Bool.and_eq_true, Bool.not_eq_true', decide_eq_true_eq] at hc
  obtain ⟨⟨hpart, hdouble⟩, hsingle⟩ := hc
  obtain ⟨words, word | quote | quote⟩ := r
  · rw [run_cons, run_cons]
    simp [step, settle, hpart, hdouble, hsingle, Token.opensLiteral, ended]
  · rfl
  · rfl

theorem ended_words (words : List String) (word : List Char) :
    ended words word = words ++ ended [] word := by
  rcases word with _ | ⟨c, rest⟩
  · simp [ended]
  · by_cases hc : c.isDigit <;> simp [ended, hc]

theorem step_words (words : List String) (p : Place) (c : Char) :
    step ⟨words, p⟩ c = ⟨words ++ (step ⟨[], p⟩ c).words, (step ⟨[], p⟩ c).place⟩ := by
  rcases p with word | quote | quote
  · by_cases hpart : isNamePart c = true
    · simp [step, hpart]
    · by_cases hopens : Token.opensLiteral word c = true
      · simp [step, hpart, hopens]
      · by_cases hquote : c = '"' ∨ c = '\'' <;>
          simp [step, hpart, hopens, hquote, ended_words words word]
  · by_cases hslash : c = '\\'
    · simp [step, hslash]
    · by_cases hquote : c = quote
      · subst hquote
        simp [step, hslash]
      · simp [step, hslash, hquote]
  · simp [step]

/-- Reading adds words to those that are there. -/
theorem run_words (words : List String) (p : Place) (cs : List Char) :
    run ⟨words, p⟩ cs = ⟨words ++ (run ⟨[], p⟩ cs).words, (run ⟨[], p⟩ cs).place⟩ := by
  induction cs generalizing words p with
  | nil => simp [run]
  | cons c rest ih =>
    rw [run_cons, run_cons, step_words, ih, ih (step ⟨[], p⟩ c).words, List.append_assoc]

/-- Characters that read outside of literals to the end of their last word, if they are read from
the end of a word on. -/
def Adds (s : String) (words : List String) : Prop :=
  ∀ before, (run ⟨before, .code []⟩ s.toList).settle = ⟨before ++ words, .code []⟩

/-- Characters behind which no word is left open. -/
def Closes (s : String) (words : List String) : Prop :=
  ∀ before, run ⟨before, .code []⟩ s.toList = ⟨before ++ words, .code []⟩

variable {s t : String} {ws ws' : List String}

theorem closes_of_run (h : run {} s.toList = ⟨ws, .code []⟩) : Closes s ws := by
  intro before
  rw [run_words, show run ⟨[], .code []⟩ s.toList = _ from h]

theorem Closes.adds (h : Closes s ws) : Adds s ws := by
  intro before
  rw [h]
  rfl

theorem Closes.append (h : Closes s ws) (h' : Closes t ws') : Closes (s ++ t) (ws ++ ws') := by
  intro before
  rw [String.toList_append, run_append, h, h', List.append_assoc]

theorem Closes.append_adds (h : Closes s ws) (h' : Adds t ws') : Adds (s ++ t) (ws ++ ws') := by
  intro before
  rw [String.toList_append, run_append, h, h', List.append_assoc]

/-- A word may be followed by a mark. -/
theorem Adds.run_append (h : Adds s ws) (ht : t.toList.head?.any isMark = true)
    (before : List String) :
    run ⟨before, .code []⟩ (s ++ t).toList = run ⟨before ++ ws, .code []⟩ t.toList := by
  rcases hlist : t.toList with _ | ⟨c, cs⟩
  · rw [hlist] at ht
    cases ht
  · rw [hlist] at ht
    rw [String.toList_append, Reading.run_append, hlist, run_mark ht, h]

theorem Adds.append (h : Adds s ws) (ht : t.toList.head?.any isMark = true) (h' : Closes t ws') :
    Closes (s ++ t) (ws ++ ws') := by
  intro before
  rw [h.run_append ht, h', List.append_assoc]

theorem Adds.lineWords (h : Adds s ws) : lineWords s = ws := by
  rw [SchemaCompiler.lineWords, show ({} : Reading) = ⟨[], .code []⟩ from rfl, h]
  rfl

theorem Closes.lineWords (h : Closes s ws) : SchemaCompiler.lineWords s = ws :=
  h.adds.lineWords

theorem run_word {cs : List Char} (h : ∀ c ∈ cs, isNamePart c = true) (words : List String)
    (word : List Char) : run ⟨words, .code word⟩ cs = ⟨words, .code (word ++ cs)⟩ := by
  induction cs generalizing word with
  | nil => simp [run]
  | cons c rest ih =>
    rw [run_cons, show step ⟨words, .code word⟩ c = ⟨words, .code (word ++ [c])⟩ by
      simp [step, h c], ih fun x hx => h x (List.mem_cons_of_mem _ hx)]
    simp

/-- Plain characters in a literal. -/
theorem run_literal {quote : Char} {cs : List Char} (h : ∀ c ∈ cs, c ≠ quote ∧ c ≠ '\\')
    (words : List String) : run ⟨words, .literal quote⟩ cs = ⟨words, .literal quote⟩ := by
  induction cs with
  | nil => rfl
  | cons c rest ih =>
    have hc := h c List.mem_cons_self
    rw [run_cons, show step ⟨words, .literal quote⟩ c = ⟨words, .literal quote⟩ by
      simp [step, hc.1, hc.2]]
    exact ih fun x hx => h x (List.mem_cons_of_mem _ hx)

end Reading

def IsName (name : String) : Prop :=
  ∀ c ∈ name.toList, isNamePart c = true

theorem isName_literal {name : String} (h : name.toList.all isNamePart = true) : IsName name :=
  List.all_eq_true.1 h

structure IsWord (name : String) : Prop where
  isName : IsName name
  ended : Reading.ended [] name.toList = [name]

theorem IsName.no_quote {name : String} (h : IsName name) :
    ∀ c ∈ name.toList, c ≠ '"' ∧ c ≠ '\\' := by
  intro c hc
  have hpart := h c hc
  constructor
  · rintro rfl
    exact absurd hpart (by decide)
  · rintro rfl
    exact absurd hpart (by decide)

namespace Reading

variable {name : String} {ws : List String}

theorem adds_word (h : IsWord name) : Adds name [name] := by
  intro before
  rw [run_word h.isName, List.nil_append]
  simp only [settle]
  rw [ended_words, h.ended]

theorem closes_nameLiteral (h : IsName name) : Closes (nameLiteral name) [] := by
  refine closes_of_run ?_
  simp only [nameLiteral, String.toList_append, run_append]
  rw [show run {} "\"".toList = ⟨[], .literal '"'⟩ from rfl, run_literal h.no_quote]
  rfl

theorem toDigits_plain {n : Nat} {c : Char} (hc : c ∈ Nat.toDigits 16 n) : c.isAlphanum = true := by
  have hdigit : ∀ k < 16, (Nat.digitChar k).isAlphanum = true := by decide
  induction n using Nat.strongRecOn with
  | ind n ih =>
    rw [Nat.toDigits_eq_if (by decide)] at hc
    split_ifs at hc with hlt
    · rw [List.mem_singleton.1 hc]
      exact hdigit n hlt
    · rcases List.mem_append.1 hc with hc | hc
      · exact ih (n / 16) (Nat.div_lt_self (by omega) (by decide)) hc
      · rw [List.mem_singleton.1 hc]
        exact hdigit (n % 16) (Nat.mod_lt _ (by decide))

theorem hexDigits_plain {width n : Nat} {c : Char} (hc : c ∈ hexDigits width n) :
    c.isAlphanum = true := by
  rcases List.mem_append.1 hc with hzero | hdigit
  · rw [List.eq_of_mem_replicate hzero]
    decide
  · exact toDigits_plain hdigit

theorem run_escapeChar {quote : Char} (hquote : quote = '"' ∨ quote = '\'') (c : Char) :
    run ⟨[], .literal quote⟩ (escapeChar quote c) = ⟨[], .literal quote⟩ := by
  have hslash : quote ≠ '\\' := by rcases hquote with rfl | rfl <;> decide
  have hescape : ∀ (d : Char) (rest : List Char),
      run ⟨[], .literal quote⟩ ('\\' :: d :: rest) = run ⟨[], .literal quote⟩ rest := by
    intro d rest
    rw [run_cons, run_cons]
    simp [step]
  have hhex : ∀ width n, run ⟨[], .literal quote⟩ (hexDigits width n) = ⟨[], .literal quote⟩ := by
    intro width n
    refine run_literal (fun d hd => ?_) []
    have halpha := hexDigits_plain hd
    constructor
    · rintro rfl
      rcases hquote with rfl | rfl <;> exact absurd halpha (by decide)
    · rintro rfl
      exact absurd halpha (by decide)
  -- an escaped quote or slash, the three short escapes, a printable character, hexadecimal digits
  rw [escapeChar]
  split_ifs with hspecial
  · exact hescape c []
  · exact hescape _ []
  · exact hescape _ []
  · exact hescape _ []
  · exact run_literal (by simpa [not_or] using hspecial) []
  · rw [hescape, hhex]
  · rw [hescape, hhex]
  · rw [hescape, hhex]

theorem closes_quoted (s : String) : Closes (quoted s) [] := by
  refine closes_of_run ?_
  have hquote : quoteFor s.toList = '"' ∨ quoteFor s.toList = '\'' := by
    unfold quoteFor
    split
    · exact .inl rfl
    · exact .inr rfl
  have hbody : ∀ cs : List Char,
      run ⟨[], .literal (quoteFor s.toList)⟩ (cs.flatMap (escapeChar (quoteFor s.toList))) =
        ⟨[], .literal (quoteFor s.toList)⟩ := by
    intro cs
    induction cs with
    | nil => rfl
    | cons c rest ih => rw [List.flatMap_cons, run_append, run_escapeChar hquote, ih]
  rw [quoted, String.toList_ofList, quotedChars, run_cons]
  rw [show step {} (quoteFor s.toList) = ⟨[], .literal (quoteFor s.toList)⟩ by
    rcases hquote with h | h <;> rw [h] <;> rfl, run_append, hbody]
  rcases hquote with h | h <;> rw [h] <;> rfl

theorem adds_digits {s : String} (hs : s.toList ≠ []) (h : ∀ c ∈ s.toList, c.isDigit = true) :
    Adds s [] := by
  intro before
  have hpart : ∀ c ∈ s.toList, isNamePart c = true := by
    intro c hc
    simp [isNamePart, Token.isWordChar, Char.isAlphanum, h c hc]
  rw [run_word hpart, List.nil_append, List.append_nil]
  rcases hlist : s.toList with _ | ⟨c, rest⟩
  · exact absurd hlist hs
  · have hc := h c (by rw [hlist]; exact List.mem_cons_self)
    simp [settle, ended, hc]

theorem adds_literal (v : EnumLiteral) : Adds v.literal [] := by
  cases v with
  | text s => exact (closes_quoted s).adds
  | int n =>
    have hnat : ∀ k : Nat, Adds k.repr [] := by
      intro k
      refine adds_digits ?_ ?_
      · rw [Nat.toList_repr]
        exact Nat.toDigits_ne_nil
      · intro c hc
        rw [Nat.toList_repr] at hc
        exact Nat.isDigit_of_mem_toDigits (by decide) (by decide) hc
    show Adds n.repr []
    rw [Int.repr_eq_if]
    split
    · exact hnat _
    · have hminus : Closes "-" [] := closes_of_run rfl
      exact hminus.append_adds (hnat _)

theorem adds_commaSeparated {α : Type} {f : α → String} {g : α → List String} {as : List α}
    (h : ∀ a ∈ as, Adds (f a) (g a)) : Adds (commaSeparated (as.map f)) (as.flatMap g) := by
  induction as with
  | nil => exact (closes_of_run rfl).adds
  | cons a rest ih =>
    have ha := h a List.mem_cons_self
    rcases rest with _ | ⟨b, rest⟩
    · simpa [commaSeparated] using ha
    · have hrest := ih fun x hx => h x (List.mem_cons_of_mem _ hx)
      have hcomma : Closes (f a ++ ", ") (g a ++ []) := ha.append rfl (closes_of_run rfl)
      rw [List.append_nil] at hcomma
      rw [List.map_cons, List.map_cons, commaSeparated, String.intercalate_cons_cons]
      exact hcomma.append_adds hrest

end Reading

open Reading

def TypeTerm.words : TypeTerm → List String
  | .library name => [name]
  | .var name => [name]
  | .parameter name => [name]
  | .list element => "GraphQLList" :: element.words
  | .nonNull inner => "GraphQLNonNull" :: inner.words
  | .call factory argument => factory :: argument.words

theorem TypeTerm.adds_text {t : TypeTerm} (h : ∀ name ∈ t.words, IsWord name) :
    Adds t.text t.words := by
  induction t with
  | library name => exact adds_word (h name List.mem_cons_self)
  | var name => exact adds_word (h name List.mem_cons_self)
  | parameter name => exact adds_word (h name List.mem_cons_self)
  | list element ih =>
    have hinner := ih fun name hname => h name (List.mem_cons_of_mem _ hname)
    have hopens : Closes "GraphQLList(" ["GraphQLList"] := closes_of_run rfl
    have hcloses : Closes ")" [] := closes_of_run rfl
    have hall := (hopens.append_adds hinner).append rfl hcloses
    rw [List.append_nil] at hall
    exact hall.adds
  | nonNull inner ih =>
    have hinner := ih fun name hname => h name (List.mem_cons_of_mem _ hname)
    have hopens : Closes "GraphQLNonNull(" ["GraphQLNonNull"] := closes_of_run rfl
    have hcloses : Closes ")" [] := closes_of_run rfl
    have hall := (hopens.append_adds hinner).append rfl hcloses
    rw [List.append_nil] at hall
    exact hall.adds
  | call factory argument ih =>
    have hinner := ih fun name hname => h name (List.mem_cons_of_mem _ hname)
    have hfactory := adds_word (h factory List.mem_cons_self)
    have hopens : Closes "(" [] := closes_of_run rfl
    have hcloses : Closes ")" [] := closes_of_run rfl
    have hall := ((hfactory.append rfl hopens).append_adds hinner).append rfl hcloses
    rw [List.append_nil, List.append_nil] at hall
    exact hall.adds

theorem ArgumentBinding.expression_eq (a : ArgumentBinding) :
    a.expression = "argument(" ++ nameLiteral a.name ++ if a.toId then ", to_id)" else ")" := by
  rw [← String.toList_inj]
  rcases htoId : a.toId with _ | _ <;> simp [expression, converter, nameLiteral, htoId]

theorem ArgumentBinding.closes_expression {a : ArgumentBinding} (h : IsName a.name) :
    Closes a.expression ("argument" :: a.converter.toList) := by
  have hopens : Closes "argument(" ["argument"] := closes_of_run rfl
  have hends : Closes (if a.toId then ", to_id)" else ")") a.converter.toList := by
    rw [converter]
    split <;> exact closes_of_run rfl
  rw [expression_eq]
  exact (hopens.append (closes_nameLiteral h)).append hends

structure Binding.WellSpelled (b : Binding) : Prop where
  member : IsName b.descriptor.name
  arguments : ∀ a ∈ b.arguments, IsName a.name

theorem Binding.closes_expression {b : Binding} (h : b.WellSpelled) :
    Closes b.expression b.runtimeNames := by
  have hhelper : Closes (b.helper.name ++ "(") [b.helper.name] := by
    cases b.helper <;> exact closes_of_run rfl
  have hmember := (closes_nameLiteral h.member).adds
  have hcloses : Closes ")" [] := closes_of_run rfl
  have hitems : Adds (commaSeparated (nameLiteral b.descriptor.name ::
      b.arguments.map (·.expression))) (b.arguments.flatMap fun a =>
        "argument" :: a.converter.toList) := by
    have hall : ∀ a ∈ none :: b.arguments.map some,
        Adds (a.elim (nameLiteral b.descriptor.name) ArgumentBinding.expression)
          (a.elim [] fun a => "argument" :: a.converter.toList) := by
      intro a ha
      rcases List.mem_cons.1 ha with rfl | ha
      · exact hmember
      · obtain ⟨b', hb', rfl⟩ := List.mem_map.1 ha
        exact (ArgumentBinding.closes_expression (h.arguments b' hb')).adds
    simpa [List.flatMap_map, Function.comp_def] using adds_commaSeparated hall
  have hall := (hhelper.append_adds hitems).append rfl hcloses
  rw [List.append_nil] at hall
  exact hall

end SchemaCompiler
