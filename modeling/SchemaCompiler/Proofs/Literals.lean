import SchemaCompiler.Proofs.Spelling

/-! Reading quoted texts back. A quoted text is one literal on one line. It is read to its last
character, whatever follows it, and it stands for the text. -/

namespace SchemaCompiler

theorem hexValue?_digitChar : ∀ n < 16, Json.hexValue? (Nat.digitChar n) = some n := by
  decide

theorem code_lt (c : Char) : c.toNat < 0x110000 := by
  have hvalid : c.toNat.isValidChar := c.valid
  rcases hvalid with h | ⟨-, h⟩ <;> omega

theorem charOfCode?_toNat (c : Char) : charOfCode? c.toNat = some c := by
  have hbound : ¬c.toNat > 0x10ffff := not_lt.2 (Nat.le_of_lt_succ (code_lt c))
  have hvalid : c.toNat.isValidChar := c.valid
  rw [charOfCode?, if_neg hbound, if_pos hvalid, Char.ofNat_toNat]

def ReadAs (digits : List Char) (n : Nat) : Prop :=
  ∃ ds, digits.mapM Json.hexValue? = some ds ∧ ds.length = digits.length ∧
    ds.foldl (fun n d => n * 16 + d) 0 = n

/-- The digits of a number are read as that number. -/
theorem readAs_toDigits (n : Nat) : ReadAs (Nat.toDigits 16 n) n := by
  induction n using Nat.strongRecOn with
  | ind n ih =>
    rw [Nat.toDigits_eq_if (by decide)]
    split_ifs with hsmall
    · exact ⟨[n], by simp [hexValue?_digitChar n hsmall], rfl, by simp⟩
    · obtain ⟨ds, hds, hlength, hvalue⟩ := ih (n / 16) (Nat.div_lt_self (by omega) (by decide))
      refine ⟨ds ++ [n % 16], ?_, by simp [hlength], ?_⟩
      · rw [List.mapM_append, hds]
        simp [hexValue?_digitChar _ (Nat.mod_lt n (by decide))]
      · rw [List.foldl_append, hvalue]
        simp only [List.foldl_cons, List.foldl_nil]
        omega

/-- Zeros in front of digits make no difference. -/
theorem ReadAs.zeros {digits : List Char} {n : Nat} (h : ReadAs digits n) (k : Nat) :
    ReadAs (List.replicate k '0' ++ digits) n := by
  induction k with
  | zero => exact h
  | succ k ih =>
    obtain ⟨ds, hds, hlength, hvalue⟩ := ih
    rw [List.replicate_succ, List.cons_append]
    refine ⟨0 :: ds, ?_, congrArg (· + 1) hlength, by simpa using hvalue⟩
    rw [List.mapM_cons, hds]
    rfl

theorem length_hexDigits {width n : Nat} (hwidth : 0 < width) (h : n < 16 ^ width) :
    (hexDigits width n).length = width := by
  have hlength := (Nat.length_toDigits_le_iff (by decide : 1 < 16) hwidth).2 h
  rw [hexDigits, List.length_append, List.length_replicate]
  omega

/-- A character is read from the digits of its code. -/
theorem hexEscape?_hexDigits {width : Nat} (hwidth : 0 < width) {c : Char}
    (h : c.toNat < 16 ^ width) (rest : List Char) :
    hexEscape? width (hexDigits width c.toNat ++ rest) = some ([c], width) := by
  have hlength := length_hexDigits hwidth h
  obtain ⟨ds, hds, hsame, hvalue⟩ := (readAs_toDigits c.toNat).zeros
    (width - (Nat.toDigits 16 c.toNat).length)
  change (hexDigits width c.toNat).mapM Json.hexValue? = some ds at hds
  rw [hexEscape?, List.take_left' hlength, hds]
  simp only [Option.bind_eq_bind, Option.bind_some, hvalue, charOfCode?_toNat]
  exact if_pos (hsame.trans hlength)

theorem isPrintable_of_isAlphanum {c : Char} (h : c.isAlphanum = true) : isPrintable c = true :=
  of_isNameChar (P := fun c => isPrintable c = true) (by decide +kernel) (by simp [isNameChar, h])

/-- How a character is spelled between quotes: as it is, by a letter behind a backslash, or by the
digits of its code. What is spelled by another character is not the quote and no backslash. -/
inductive SpelledAs (quote c : Char) : List Char → Prop where
  | plain (visible : isPrintable c = true) (other : c ≠ quote ∧ c ≠ '\\') : SpelledAs quote c [c]
  | letter (letter : Char) (visible : isPrintable letter = true)
      (value : ∀ rest, escapeValue? false letter rest = some ([c], 0)) :
    SpelledAs quote c ['\\', letter]
  | code (letter : Char) (width : Nat) (visible : isPrintable letter = true) (positive : 0 < width)
      (small : c.toNat < 16 ^ width)
      (value : ∀ rest, escapeValue? false letter rest = hexEscape? width rest) :
    SpelledAs quote c ('\\' :: letter :: hexDigits width c.toNat)

theorem spelledAs_escapeChar {quote : Char} (hquote : quote = '"' ∨ quote = '\'') (c : Char) :
    SpelledAs quote c (escapeChar quote c) := by
  have hcode : c.toNat < 16 ^ 8 := lt_of_lt_of_le (code_lt c) (by decide)
  rw [escapeChar]
  split_ifs with hspecial hn hr ht hvisible hbyte hshort
  · rcases hspecial with rfl | rfl
    · rcases hquote with rfl | rfl <;> exact .letter _ (by decide +kernel) fun rest => rfl
    · exact .letter _ (by decide +kernel) fun rest => rfl
  · subst hn
    exact .letter 'n' (by decide +kernel) fun rest => rfl
  · subst hr
    exact .letter 'r' (by decide +kernel) fun rest => rfl
  · subst ht
    exact .letter 't' (by decide +kernel) fun rest => rfl
  · exact .plain hvisible (not_or.1 hspecial)
  · exact .code 'x' 2 (by decide +kernel) (by decide) hbyte fun rest => rfl
  · exact .code 'u' 4 (by decide +kernel) (by decide) hshort fun rest => rfl
  · exact .code 'U' 8 (by decide +kernel) (by decide) hcode fun rest => rfl

namespace SpelledAs

variable {quote c : Char} {cs : List Char}

/-- Reading the inside of a literal gives the character back and goes on behind it. -/
theorem unescape? (h : SpelledAs quote c cs) (rest : List Char) :
    unescape? false (cs ++ rest) = (unescape? false rest).map (c :: ·) := by
  cases h with
  | plain visible other =>
    rw [List.cons_append, List.nil_append, SchemaCompiler.unescape?]
    exact fun _ _ hslash => absurd hslash other.2
  | letter letter _ value =>
    rw [List.cons_append, List.cons_append, List.nil_append, SchemaCompiler.unescape?, value]
    rfl
  | code letter width _ positive small value =>
    rw [List.cons_append, List.cons_append, SchemaCompiler.unescape?, value,
      hexEscape?_hexDigits positive small]
    simp only [List.drop_left' (length_hexDigits positive small)]
    rfl

/-- All that a character is spelled by is visible. -/
theorem isPrintable (h : SpelledAs quote c cs) : ∀ d ∈ cs, SchemaCompiler.isPrintable d = true := by
  have hslash : SchemaCompiler.isPrintable '\\' = true := by decide +kernel
  cases h with
  | plain visible _ => simpa using visible
  | letter letter visible _ => simp [hslash, visible]
  | code letter width visible _ _ _ =>
    simp only [List.forall_mem_cons, hslash, visible, true_and]
    exact fun d hd => isPrintable_of_isAlphanum (Reading.hexDigits_plain hd)

end SpelledAs

/-- Characters that stand in the inside of a literal, whatever follows them. -/
def Inside (quote : Char) (cs : List Char) : Prop :=
  ∀ rest, literalBody quote false (cs ++ rest) =
    (literalBody quote false rest).map fun (body, rest) => (cs ++ body, rest)

namespace Inside

variable {quote : Char} {as bs : List Char}

theorem nil (quote : Char) : Inside quote [] := by
  intro rest
  simp

theorem append (ha : Inside quote as) (hb : Inside quote bs) : Inside quote (as ++ bs) := by
  intro rest
  rw [List.append_assoc, ha, hb, Option.map_map]
  simp [Function.comp_def]

theorem escape (quote d : Char) : Inside quote ['\\', d] := by
  intro rest
  rw [List.cons_append, List.cons_append, List.nil_append, literalBody]
  rfl

theorem plain {c : Char} (hquote : c ≠ quote) (hslash : c ≠ '\\') (hline : c ≠ '\n') :
    Inside quote [c] := by
  intro rest
  rw [List.cons_append, List.nil_append, literalBody]
  · simp [hquote, hline]
  · exact fun h _ => hslash h
  · exact fun _ _ h _ => hslash h

theorem plains {cs : List Char} (h : ∀ c ∈ cs, c ≠ quote ∧ c ≠ '\\' ∧ c ≠ '\n') :
    Inside quote cs := by
  induction cs with
  | nil => exact nil quote
  | cons c rest ih =>
    obtain ⟨⟨hquote, hslash, hline⟩, hrest⟩ := List.forall_mem_cons.1 h
    exact (plain hquote hslash hline).append (ih hrest)

end Inside

/-- What a character is spelled by stays inside of the literal. -/
theorem SpelledAs.inside {quote c : Char} {cs : List Char} (h : SpelledAs quote c cs)
    (hquote : quote = '"' ∨ quote = '\'') : Inside quote cs := by
  cases h with
  | plain visible other =>
    refine .plain other.1 other.2 ?_
    rintro rfl
    exact absurd visible (by decide +kernel)
  | letter letter _ _ => exact .escape quote letter
  | code letter width _ _ _ _ =>
    refine (Inside.escape quote letter).append (.plains fun d hd => ?_)
    have halpha := Reading.hexDigits_plain hd
    refine ⟨?_, ?_, ?_⟩
    · rintro rfl
      rcases hquote with rfl | rfl <;> exact absurd halpha (by decide)
    · rintro rfl
      exact absurd halpha (by decide)
    · rintro rfl
      exact absurd halpha (by decide)

/-- What a character is spelled by does not start with the quote. -/
theorem SpelledAs.head_ne {quote c : Char} {cs : List Char} (h : SpelledAs quote c cs)
    (hquote : quote = '"' ∨ quote = '\'') : ∃ d rest, cs = d :: rest ∧ d ≠ quote := by
  have hslash : '\\' ≠ quote := by rcases hquote with rfl | rfl <;> decide
  cases h with
  | plain _ other => exact ⟨c, [], rfl, other.1⟩
  | letter _ _ _ => exact ⟨_, _, rfl, hslash⟩
  | code _ _ _ _ _ _ => exact ⟨_, _, rfl, hslash⟩

def escaped (quote : Char) (cs : List Char) : List Char :=
  cs.flatMap (escapeChar quote)

theorem quoteFor_eq (cs : List Char) : quoteFor cs = '"' ∨ quoteFor cs = '\'' := by
  rw [quoteFor]
  split
  · exact .inl rfl
  · exact .inr rfl

theorem toList_quoted (s : String) : (quoted s).toList =
    quoteFor s.toList :: (escaped (quoteFor s.toList) s.toList ++ [quoteFor s.toList]) := by
  rw [quoted, String.toList_ofList]
  rfl

section

variable {quote : Char} (hquote : quote = '"' ∨ quote = '\'') (cs : List Char)

include hquote

theorem unescape?_escaped : unescape? false (escaped quote cs) = some cs := by
  induction cs with
  | nil => rw [escaped, List.flatMap_nil, unescape?]
  | cons c rest ih =>
    rw [escaped, List.flatMap_cons, (spelledAs_escapeChar hquote c).unescape?]
    rw [show rest.flatMap (escapeChar quote) = escaped quote rest from rfl, ih]
    rfl

theorem inside_escaped : Inside quote (escaped quote cs) := by
  induction cs with
  | nil => exact .nil quote
  | cons c rest ih => exact ((spelledAs_escapeChar hquote c).inside hquote).append ih

/-- The inside of a literal ends at the quote behind it. -/
theorem literalBody_escaped (rest : List Char) :
    literalBody quote false (escaped quote cs ++ quote :: rest) = some (escaped quote cs, rest) := by
  have hslash : quote ≠ '\\' := by rcases hquote with rfl | rfl <;> decide
  rw [inside_escaped hquote, literalBody]
  · simp
  · exact fun h _ => hslash h
  · exact fun _ _ h _ => hslash h

/-- The quote at the start of a literal is not the first of three, unless the text is empty and the
literal is followed by another one. -/
theorem take_escaped_ne (rest : List Char) (hrest : cs = [] → rest.head? ≠ some quote) :
    (escaped quote cs ++ quote :: rest).take 2 ≠ [quote, quote] := by
  intro heq
  rcases cs with _ | ⟨c, cs⟩
  · rcases rest with _ | ⟨d, rest⟩
    · simp [escaped] at heq
    · exact hrest rfl (by simpa [escaped] using heq)
  · obtain ⟨d, tail, hspelled, hne⟩ := (spelledAs_escapeChar hquote c).head_ne hquote
    rw [escaped, List.flatMap_cons, hspelled] at heq
    exact hne (List.cons.inj heq).1

end

/-- A quoted text is read to its end and stands for the text. -/
theorem readLiteral?_quoted (s : String) {rest : List Char} (hrest : rest.head? ≠ some '\'') :
    readLiteral? ((quoted s).toList ++ rest) = some (s.toList, rest) := by
  have hquote := (quoteFor_eq s.toList).symm
  have htriple := take_escaped_ne hquote.symm s.toList rest fun hnil => by
    rwa [hnil]
  rw [toList_quoted, List.cons_append, List.append_assoc, List.singleton_append, readLiteral?,
    if_pos hquote]
  simp only [htriple, decide_false, if_false, literalBody_escaped hquote.symm,
    unescape?_escaped hquote.symm, Option.map_some]

/-- At the start of a quoted text the next token is a literal that stands for the text and takes
all of it. -/
theorem next?_quoted (s : String) {rest : List Char} (hrest : rest.head? ≠ some '\'') :
    Token.next? ((quoted s).toList ++ rest) =
      some (.literal false false false (escaped (quoteFor s.toList) s.toList), rest) := by
  have hquote := quoteFor_eq s.toList
  have htriple := take_escaped_ne hquote s.toList rest fun hnil => by
    rwa [hnil]
  have hword : Token.isWordChar (quoteFor s.toList) = false := by
    rcases hquote with h | h <;> rw [h] <;> decide
  have hopens : Token.opensLiteral [] (quoteFor s.toList) = true := by
    rcases hquote with h | h <;> rw [h] <;> decide
  rw [toList_quoted, List.cons_append, List.append_assoc, List.singleton_append, Token.next?,
    List.takeWhile_cons_of_neg (by simp [hword]), List.dropWhile_cons_of_neg (by simp [hword])]
  simp only [hopens, if_true, Token.literal?, List.map_nil, List.contains_nil, htriple, decide_false,
    if_false, literalBody_escaped hquote, unescape?_escaped hquote]
  rfl

/-- A scan that has come to a quoted text takes it as one literal, and nothing else changes. -/
theorem scan_quoted (bound : Nat) (indents : List (Nat × Nat)) (brackets : List Char)
    (done : List Token) (s : String) {rest : List Char} (hrest : rest.head? ≠ some '\'') :
    Token.scan (bound + 1) false indents brackets done ((quoted s).toList ++ rest) =
      Token.scan bound false indents brackets
        (.literal false false false (escaped (quoteFor s.toList) s.toList) :: done) rest := by
  have hnext := next?_quoted s hrest
  obtain ⟨c, cs, hlist, hc⟩ : ∃ c cs, (quoted s).toList ++ rest = c :: cs ∧
      (c = '"' ∨ c = '\'') := by
    rw [toList_quoted]
    exact ⟨_, _, rfl, quoteFor_eq s.toList⟩
  rw [hlist] at hnext ⊢
  have hblank : ¬(c = ' ' ∨ c = '\t' ∨ c = '\x0c') := by
    rcases hc with rfl | rfl <;> decide
  rw [Token.scan, if_neg hblank, hnext]
  · rfl
  all_goals rcases hc with rfl | rfl <;> simp

/-- Every character of a quoted text has a visible form. -/
theorem isPrintable_of_mem_quoted {s : String} {c : Char} (hc : c ∈ (quoted s).toList) :
    isPrintable c = true := by
  have hquote := quoteFor_eq s.toList
  have hvisible : isPrintable (quoteFor s.toList) = true := by
    rcases hquote with h | h <;> rw [h] <;> decide +kernel
  rw [toList_quoted] at hc
  rcases List.mem_cons.1 hc with rfl | hc
  · exact hvisible
  · rcases List.mem_append.1 hc with hc | hc
    · obtain ⟨d, -, hd⟩ := List.mem_flatMap.1 hc
      exact (spelledAs_escapeChar hquote d).isPrintable c hd
    · rw [List.mem_singleton.1 hc]
      exact hvisible

/-- The characters that end a line for some reader of texts. -/
def lineBreaks : List Char :=
  ['\n', '\r', '\x0b', '\x0c', '\x1c', '\x1d', '\x1e', '\x85', '\u2028', '\u2029']

def isLineBreak (c : Char) : Bool :=
  lineBreaks.contains c

theorem isPrintable_of_isLineBreak {c : Char} (h : isLineBreak c = true) :
    isPrintable c = false := by
  have hbreaks : (lineBreaks.all fun d => !isPrintable d) = true := by decide +kernel
  simpa using List.all_eq_true.1 hbreaks c (List.contains_iff_mem.1 h)

/-- Characters that are one literal of a text, as long as no apostrophe follows. The literal stands
on one line and is read to its last character, whatever follows it there. -/
structure IsLiteral (s : String) (cs : List Char) : Prop where
  visible : ∀ c ∈ cs, isPrintable c = true
  oneLine : ∀ c ∈ cs, isLineBreak c = false
  read : ∀ rest, rest.head? ≠ some '\'' → readLiteral? (cs ++ rest) = some (s.toList, rest)
  token : ∀ rest, rest.head? ≠ some '\'' → ∃ body, unescape? false body = some s.toList ∧
    ∀ bound indents brackets done,
      Token.scan (bound + 1) false indents brackets done (cs ++ rest) =
        Token.scan bound false indents brackets (.literal false false false body :: done) rest

/-- A quoted text is a literal of the text. -/
theorem isLiteral_quoted (s : String) : IsLiteral s (quoted s).toList where
  visible _ hc := isPrintable_of_mem_quoted hc
  oneLine c hc := by
    by_contra hbreak
    have hinvisible := isPrintable_of_isLineBreak (Bool.eq_true_of_not_eq_false hbreak)
    rw [isPrintable_of_mem_quoted hc] at hinvisible
    cases hinvisible
  read rest hrest := readLiteral?_quoted s hrest
  token rest hrest :=
    ⟨_, unescape?_escaped (quoteFor_eq s.toList) s.toList, fun bound indents brackets done =>
      scan_quoted bound indents brackets done s hrest⟩

end SchemaCompiler
