import Mathlib
import SchemaCompiler.Module.StringLiteral
import SchemaCompiler.Text.Basic

/-! Texts between triple quotes that nothing was escaped in. A reader takes such a text as it stands
unless something in it is read as an escape, ends the literal or is another line end. The texts that
are read as they stand are exactly those without any of these. -/

namespace SchemaCompiler

def tripleQuote : List Char :=
  ['"', '"', '"']

/-- Whether a character behind a backslash stands for something else together with it. -/
def startsEscape (c : Char) : Bool :=
  isOctal c || ['\n', '\\', '\'', '"', 'a', 'b', 'f', 'n', 'r', 't', 'v', 'x', 'u', 'U', 'N'].contains c

/-- Texts that a literal with triple quotes can hold as they are. -/
structure Verbatim (text : List Char) : Prop where
  lines : '\r' ∉ text
  inner : ¬tripleQuote <:+: text
  final : text.getLast? ≠ some '"'
  escapes : ∀ after, '\\' :: after <:+ text → ∃ c ∈ after.head?, startsEscape c = false

/-- A text is taken character by character, a backslash together with what stands behind it. -/
theorem escapes_induction {motive : List Char → Prop} (nil : motive []) (lone : motive ['\\'])
    (escape : ∀ c rest, motive rest → motive ('\\' :: c :: rest))
    (plain : ∀ c rest, c ≠ '\\' → motive rest → motive (c :: rest)) : ∀ cs, motive cs
  | [] => nil
  | [c] => if hc : c = '\\' then hc ▸ lone else plain c [] hc nil
  | c :: d :: rest =>
    if hc : c = '\\' then hc ▸ escape d rest (escapes_induction nil lone escape plain rest)
    else plain c (d :: rest) hc (escapes_induction nil lone escape plain (d :: rest))

section Reading

variable {c : Char} {rest : List Char}

theorem tripleBody_plain (hc : c ≠ '\\') : literalBody '"' true (c :: rest) =
    if c = '"' ∧ rest.take 2 = ['"', '"'] then some ([], rest.drop 2)
    else (literalBody '"' true rest).map fun (body, rest) => (c :: body, rest) := by
  rw [literalBody]
  · simp
  · exact fun h _ => hc h
  · exact fun _ _ h _ => hc h

theorem unescape?_plain (hc : c ≠ '\\') :
    unescape? false (c :: rest) = (unescape? false rest).map (c :: ·) := by
  rw [unescape?]
  exact fun _ _ h _ => hc h

/-- A quote is no digit. -/
theorem quote_notMem_of_digits {cs : List Char} {digits : List ℕ}
    (h : cs.mapM Json.hexValue? = some digits) : '"' ∉ cs := by
  induction cs generalizing digits with
  | nil => exact List.not_mem_nil
  | cons c cs ih =>
    simp only [List.mapM_cons, Option.bind_eq_bind, Option.bind_eq_some_iff] at h
    obtain ⟨d, hd, ds, hds, -⟩ := h
    refine List.not_mem_cons_of_ne_of_not_mem ?_ (ih hds)
    rintro rfl
    cases hd

theorem hexEscape?_eq_some {count used : ℕ} {value : List Char}
    (h : hexEscape? count rest = some (value, used)) :
    value.length ≤ 1 ∧ '"' ∉ rest.take used := by
  simp only [hexEscape?, Option.bind_eq_bind, Option.bind_eq_some_iff] at h
  obtain ⟨digits, hdigits, h⟩ := h
  split at h
  · obtain ⟨d, -, heq⟩ := Option.bind_eq_some_iff.1 h
    obtain ⟨rfl, rfl⟩ := Prod.mk.inj (Option.some.inj heq)
    exact ⟨le_rfl, quote_notMem_of_digits hdigits⟩
  · cases h

theorem take_takeWhile_take (p : Char → Bool) (n : ℕ) (cs : List Char) :
    cs.take ((cs.take n).takeWhile p).length = (cs.take n).takeWhile p :=
  (List.prefix_iff_eq_take.1
    ((List.takeWhile_prefix p).trans (List.take_prefix n cs))).symm

/-- The characters that an escape by name takes. -/
theorem take_named {name : List Char} (hname : name = (rest.drop 1).takeWhile isCharacterName)
    (hopen : rest.head? = some '\x7b') (hclose : rest[name.length + 1]? = some '\x7d') :
    rest.take (name.length + 2) = '\x7b' :: name ++ ['\x7d'] := by
  obtain ⟨tail, rfl⟩ := List.head?_eq_some_iff.1 hopen
  have htake : tail.take name.length = name := by
    rw [List.drop_one, List.tail_cons] at hname
    exact (List.prefix_iff_eq_take.1 (hname ▸ List.takeWhile_prefix isCharacterName)).symm
  rw [List.getElem?_cons_succ] at hclose
  rw [List.take_succ_cons, List.take_add_one, htake, hclose]
  rfl

/-- What a backslash and the characters after it stand for: either themselves, or at most one
character, and then no quote gets lost. -/
theorem escapeValue?_eq_some {value : List Char} {used : ℕ}
    (h : escapeValue? false c rest = some (value, used)) :
    (startsEscape c = false ∧ value = ['\\', c] ∧ used = 0) ∨
      value.length ≤ 1 ∧ (c :: rest.take used).count '"' ≤ value.count '"' := by
  have hunknown (hc : c ≠ '"') (hvalue : value.length ≤ 1 ∧ '"' ∉ rest.take used) :
      value.length ≤ 1 ∧ (c :: rest.take used).count '"' ≤ value.count '"' := by
    rw [List.count_cons_of_ne hc, List.count_eq_zero_of_not_mem hvalue.2]
    exact ⟨hvalue.1, Nat.zero_le _⟩
  unfold escapeValue? at h
  split at h
  case h_4 => cases h; exact .inr ⟨le_rfl, le_rfl⟩
  case h_12 => exact .inr (hunknown (by decide) (hexEscape?_eq_some h))
  case h_13 =>
    have hc : c ≠ '"' := by assumption
    split_ifs at h with hoctal hbytes hu hU hN
    · obtain ⟨d, -, heq⟩ := Option.map_eq_some_iff.1 h
      obtain ⟨rfl, rfl⟩ := Prod.mk.inj heq
      refine .inr (hunknown hc ⟨le_rfl, fun hquote => ?_⟩)
      rw [take_takeWhile_take] at hquote
      exact absurd (List.mem_takeWhile_imp hquote) (by decide)
    · exact absurd hbytes (by decide)
    · exact .inr (hunknown hc (hexEscape?_eq_some h))
    · exact .inr (hunknown hc (hexEscape?_eq_some h))
    · refine .inr (hunknown hc ?_)
      dsimp only at h
      split_ifs at h with hname
      obtain ⟨rfl, rfl⟩ := Prod.mk.inj (Option.some.inj h)
      refine ⟨le_rfl, ?_⟩
      rw [take_named rfl hname.1 hname.2.2]
      intro hquote
      have hmem : '"' ∈ (rest.drop 1).takeWhile isCharacterName := by simpa using hquote
      exact absurd (List.mem_takeWhile_imp hmem) (by decide)
    · obtain ⟨rfl, rfl⟩ := Prod.mk.inj (Option.some.inj h)
      refine .inl ⟨?_, rfl, rfl⟩
      simp_all [startsEscape]
  all_goals
    cases h
    exact .inr ⟨by simp, by simp⟩

theorem escapeValue?_of_not_startsEscape (h : startsEscape c = false) (rest : List Char) :
    escapeValue? false c rest = some (['\\', c], 0) := by
  simp only [startsEscape, Bool.or_eq_false_iff, List.contains_eq_mem, decide_eq_false_iff_not,
    List.mem_cons, List.not_mem_nil, or_false, not_or] at h
  unfold escapeValue?
  split <;> simp_all

/-- Reading what stands between the quotes never makes it longer, and no quote gets lost. -/
theorem unescape?_bounds {cs value : List Char} (h : unescape? false cs = some value) :
    value.length ≤ cs.length ∧ cs.count '"' ≤ value.count '"' := by
  induction cs using unescape?.induct false generalizing value with
  | case1 =>
    rw [unescape?] at h
    cases h
    exact ⟨le_rfl, le_rfl⟩
  | case2 c rest first used hfirst ih =>
    rw [unescape?, hfirst] at h
    obtain ⟨more, hmore, rfl⟩ := Option.map_eq_some_iff.1 h
    obtain ⟨hlength, hcount⟩ := ih hmore
    have hsplit : rest.count '"' =
        (rest.take used).count '"' + (rest.drop used).count '"' := by
      rw [← List.count_append, List.take_append_drop]
    have hdrop := (List.drop_sublist used rest).length_le
    rw [List.length_append, List.count_append, List.length_cons, List.length_cons,
      List.count_cons_of_ne (by decide), List.count_cons, hsplit]
    rcases escapeValue?_eq_some hfirst with ⟨-, rfl, rfl⟩ | ⟨hone, hquotes⟩
    · simp only [List.length_cons, List.length_nil, List.count_cons, List.count_nil, List.take_zero]
        at *
      constructor <;> omega
    · rw [List.count_cons] at hquotes
      omega
  | case3 c rest hnone =>
    rw [unescape?, hnone] at h
    cases h
  | case4 c rest hplain ih =>
    rw [unescape?] at h
    · obtain ⟨more, hmore, rfl⟩ := Option.map_eq_some_iff.1 h
      obtain ⟨hlength, hcount⟩ := ih hmore
      simp only [List.length_cons, List.count_cons]
      omega
    · exact hplain

/-- Reading that does not make a text shorter leaves it as it is. -/
theorem unescape?_eq_self {cs value : List Char} (h : unescape? false cs = some value)
    (hlength : cs.length ≤ value.length) : value = cs := by
  induction cs using unescape?.induct false generalizing value with
  | case1 =>
    rw [unescape?] at h
    cases h
    rfl
  | case2 c rest first used hfirst ih =>
    rw [unescape?, hfirst] at h
    obtain ⟨more, hmore, rfl⟩ := Option.map_eq_some_iff.1 h
    have hshort := (unescape?_bounds hmore).1
    rw [List.length_drop] at hshort
    rw [List.length_append, List.length_cons, List.length_cons] at hlength
    rcases escapeValue?_eq_some hfirst with ⟨-, rfl, rfl⟩ | ⟨hone, -⟩
    · rw [List.length_cons, List.length_singleton] at hlength
      rw [ih hmore (by rw [List.length_drop]; omega)]
      rfl
    · omega
  | case3 c rest hnone =>
    rw [unescape?, hnone] at h
    cases h
  | case4 c rest hplain ih =>
    rw [unescape?] at h
    · obtain ⟨more, hmore, rfl⟩ := Option.map_eq_some_iff.1 h
      rw [ih hmore (Nat.le_of_succ_le_succ hlength)]
    · exact hplain

/-- What stands between the quotes comes back as it is only if no escape starts in it. -/
theorem unescape?_escape_eq_self (h : unescape? false ('\\' :: c :: rest) =
    some ('\\' :: c :: rest)) : startsEscape c = false ∧ unescape? false rest = some rest := by
  rw [unescape?] at h
  split at h
  · rename_i value used hvalue
    obtain ⟨more, hmore, heq⟩ := Option.map_eq_some_iff.1 h
    have hlength := (unescape?_bounds hmore).1
    rcases escapeValue?_eq_some hvalue with ⟨hplain, rfl, rfl⟩ | ⟨hone, -⟩
    · rw [List.drop_zero] at hmore
      have hrest : more = rest := List.append_cancel_left heq
      exact ⟨hplain, hrest ▸ hmore⟩
    · have hsame := congrArg List.length heq
      simp only [List.length_append, List.length_cons, List.length_drop] at hsame hlength
      omega
  · cases h

theorem literalBody_eq_some {cs body rest : List Char}
    (h : literalBody '"' true cs = some (body, rest)) : cs = body ++ tripleQuote ++ rest := by
  induction cs using escapes_induction generalizing body with
  | nil => cases h
  | lone => cases h
  | escape c cs ih =>
    rw [literalBody] at h
    obtain ⟨⟨more, _⟩, hmore, heq⟩ := Option.map_eq_some_iff.1 h
    cases heq
    rw [ih hmore]
    rfl
  | plain c cs hc ih =>
    rw [tripleBody_plain hc] at h
    split_ifs at h with hclose
    · cases h
      obtain ⟨rfl, htake⟩ := hclose
      rw [List.nil_append, ← List.take_append_drop 2 cs, htake]
      rfl
    · obtain ⟨⟨more, _⟩, hmore, heq⟩ := Option.map_eq_some_iff.1 h
      cases heq
      rw [ih hmore]
      rfl

end Reading

namespace Verbatim

variable {c : Char} {rest : List Char}

theorem nil : Verbatim [] :=
  ⟨List.not_mem_nil, by simp [tripleQuote], by simp, by simp⟩

theorem not_lone : ¬Verbatim ['\\'] := by
  intro h
  obtain ⟨c, hc, -⟩ := h.escapes [] (List.suffix_refl _)
  cases hc

/-- Whether three quotes in a row start with a character of a text between triple quotes. -/
def Closes (c : Char) (rest : List Char) : Prop :=
  c = '"' ∧ (rest ++ tripleQuote).take 2 = ['"', '"']

theorem closes_of_quotes {c : Char} {rest : List Char}
    (h : tripleQuote <+: c :: rest ∨ rest = [] ∧ c = '"') : Closes c rest := by
  rcases h with ⟨more, hmore⟩ | ⟨rfl, rfl⟩
  · obtain ⟨rfl, rfl⟩ := List.cons.inj hmore
    exact ⟨rfl, rfl⟩
  · exact ⟨rfl, rfl⟩

theorem quotes_of_closes {c : Char} {rest : List Char} (h : Closes c rest) :
    tripleQuote <:+: c :: rest ∨ (c :: rest).getLast? = some '"' := by
  obtain ⟨rfl, htake⟩ := h
  match rest, htake with
  | [], _ => exact .inr rfl
  | [a], htake =>
    obtain ⟨rfl, -⟩ := List.cons.inj htake
    exact .inr rfl
  | a :: b :: more, htake =>
    obtain ⟨rfl, hb⟩ := List.cons.inj htake
    obtain ⟨rfl, -⟩ := List.cons.inj hb
    exact .inl (List.prefix_append tripleQuote more).isInfix

theorem tail (h : Verbatim (c :: rest)) : Verbatim rest where
  lines := fun hmem => h.lines (List.mem_cons_of_mem c hmem)
  inner := fun hinner => h.inner (List.infix_cons_iff.2 (.inr hinner))
  final := fun hfinal => h.final (by rw [List.getLast?_cons, hfinal]; rfl)
  escapes := fun after hafter => h.escapes after (List.suffix_cons_iff.2 (.inr hafter))

/-- What has to hold of a first character. -/
theorem cons_iff : Verbatim (c :: rest) ↔ c ≠ '\r' ∧ ¬Closes c rest ∧
    (c = '\\' → ∃ d ∈ rest.head?, startsEscape d = false) ∧ Verbatim rest := by
  constructor
  · intro h
    refine ⟨fun hc => h.lines (hc ▸ List.mem_cons_self), fun hcloses => ?_, ?_, h.tail⟩
    · exact (quotes_of_closes hcloses).elim h.inner h.final
    · rintro rfl
      exact h.escapes rest (List.suffix_refl _)
  · rintro ⟨hline, hcloses, hescape, h⟩
    refine ⟨?_, fun hinner => ?_, fun hfinal => ?_, fun after hafter => ?_⟩
    · exact List.not_mem_cons_of_ne_of_not_mem (Ne.symm hline) h.lines
    · rcases List.infix_cons_iff.1 hinner with hfirst | hinner
      · exact hcloses (closes_of_quotes (.inl hfirst))
      · exact h.inner hinner
    · rcases eq_or_ne rest [] with rfl | hrest
      · exact hcloses (closes_of_quotes (.inr ⟨rfl, Option.some.inj hfinal⟩))
      · obtain ⟨d, more, rfl⟩ := List.exists_cons_of_ne_nil hrest
        exact h.final (by rwa [List.getLast?_cons_cons] at hfinal)
    · rcases List.suffix_cons_iff.1 hafter with heq | hafter
      · obtain ⟨rfl, rfl⟩ := List.cons.inj heq
        exact hescape rfl
      · exact h.escapes after hafter

theorem plain_iff (hc : c ≠ '\\') :
    Verbatim (c :: rest) ↔ c ≠ '\r' ∧ ¬Closes c rest ∧ Verbatim rest := by
  simp [cons_iff, hc]

theorem escape_iff : Verbatim ('\\' :: c :: rest) ↔
    startsEscape c = false ∧ c ≠ '\r' ∧ Verbatim rest := by
  have hopens : ¬Closes '\\' (c :: rest) := fun h => absurd h.1 (by decide)
  rw [cons_iff]
  simp only [hopens, List.head?_cons, Option.mem_some_iff, exists_eq_left', ne_eq, not_false_eq_true,
    true_and, forall_const, show ¬ '\\' = '\r' by decide]
  refine and_congr_right fun hplain => ?_
  have hslash : c ≠ '\\' := by rintro rfl; exact absurd hplain (by decide)
  have hcloses : ¬Closes c rest := by rintro ⟨rfl, -⟩; exact absurd hplain (by decide)
  rw [plain_iff hslash, and_iff_right hcloses]

/-- A text is read as it is exactly if it is one that the literal can hold as it is. -/
theorem iff_reads (text z : List Char) : Verbatim text ↔ '\r' ∉ text ∧
    literalBody '"' true (text ++ tripleQuote ++ z) = some (text, z) ∧
      unescape? false text = some text := by
  induction text using escapes_induction with
  | nil => simp [nil, unescape?, literalBody, tripleQuote]
  | lone =>
    refine iff_of_false not_lone fun h => ?_
    have hbody := h.2.1
    obtain ⟨⟨more, _⟩, -, heq⟩ := Option.map_eq_some_iff.1 hbody
    cases heq
  | escape c rest ih =>
    have hbody : literalBody '"' true ('\\' :: c :: rest ++ tripleQuote ++ z) =
        some ('\\' :: c :: rest, z) ↔
          literalBody '"' true (rest ++ tripleQuote ++ z) = some (rest, z) := by
      simp [literalBody]
    have hvalue : unescape? false ('\\' :: c :: rest) = some ('\\' :: c :: rest) ↔
        startsEscape c = false ∧ unescape? false rest = some rest := by
      refine ⟨unescape?_escape_eq_self, fun h => ?_⟩
      obtain ⟨hplain, hrest⟩ := h
      rw [unescape?, escapeValue?_of_not_startsEscape hplain]
      simp [hrest]
    rw [escape_iff, ih, hbody, hvalue]
    simp only [List.mem_cons, not_or, show ¬ '\r' = '\\' by decide, not_false_eq_true, true_and,
      ne_comm (a := '\r'), ne_eq]
    tauto
  | plain c rest hc ih =>
    have hvalue : unescape? false (c :: rest) = some (c :: rest) ↔
        unescape? false rest = some rest := by
      simp [unescape?_plain hc]
    have hbody : literalBody '"' true (c :: rest ++ tripleQuote ++ z) = some (c :: rest, z) ↔
        ¬Closes c rest ∧ literalBody '"' true (rest ++ tripleQuote ++ z) = some (rest, z) := by
      have htake : (rest ++ tripleQuote ++ z).take 2 = (rest ++ tripleQuote).take 2 :=
        List.take_append_of_le_length (by simp [tripleQuote])
      rw [List.cons_append, List.cons_append, tripleBody_plain hc, htake]
      split_ifs with hcloses
      · have hcloses : Closes c rest := hcloses
        simp [hcloses]
      · have hcloses : ¬Closes c rest := hcloses
        simp [hcloses]
    rw [plain_iff hc, ih, hbody, hvalue]
    simp only [List.mem_cons, not_or, eq_comm (a := '\r'), ne_eq]
    tauto

end Verbatim

section LineEnds

theorem unifyLineEnds_bounds (cs : List Char) : (unifyLineEnds cs).length ≤ cs.length ∧
    (unifyLineEnds cs).count '"' = cs.count '"' := by
  fun_induction unifyLineEnds cs with
  | case1 => exact ⟨le_rfl, rfl⟩
  | case2 rest ih | case3 rest _ ih | case4 c rest _ _ ih =>
    refine ⟨?_, by simp [List.count_cons, ih.2]⟩
    simp only [List.length_cons]
    omega

theorem return_notMem_unifyLineEnds (cs : List Char) : '\r' ∉ unifyLineEnds cs := by
  fun_induction unifyLineEnds cs with
  | case1 => exact List.not_mem_nil
  | case2 rest ih | case3 rest _ ih => exact List.not_mem_cons_of_ne_of_not_mem (by decide) ih
  | case4 c rest _ hc ih => exact List.not_mem_cons_of_ne_of_not_mem (fun h => hc h.symm) ih

theorem unifyLineEnds_of_notMem {cs : List Char} (h : '\r' ∉ cs) : unifyLineEnds cs = cs := by
  fun_induction unifyLineEnds cs with
  | case1 => rfl
  | case2 rest ih | case3 rest _ ih => exact absurd List.mem_cons_self h
  | case4 c rest _ _ ih => rw [ih (List.not_mem_of_not_mem_cons h)]

theorem unifyLineEnds_append {as bs : List Char} (h : bs.head? ≠ some '\n') :
    unifyLineEnds (as ++ bs) = unifyLineEnds as ++ unifyLineEnds bs := by
  fun_induction unifyLineEnds as with
  | case1 => rfl
  | case2 rest ih =>
    rw [List.cons_append, List.cons_append, unifyLineEnds, ih]
    rfl
  | case3 rest hrest ih =>
    rw [List.cons_append, unifyLineEnds, ih]
    · rfl
    · intro more hmore
      rcases List.append_eq_cons_iff.1 hmore with ⟨rfl, rfl⟩ | ⟨more, rfl, -⟩
      · exact h rfl
      · exact hrest more rfl
  | case4 c rest hpair hc ih =>
    rw [List.cons_append, unifyLineEnds, ih]
    · rfl
    · exact fun more heq _ => hc heq
    · exact hc

end LineEnds

/-- A text between triple quotes is read as itself exactly if the literal can hold it as it is: where
the literal ends inside of the text, less is read, and where it ends behind it, a quote more. -/
theorem tripleQuoted_value_eq_iff {text z body rest value : List Char}
    (hbody : literalBody '"' true (unifyLineEnds text ++ tripleQuote ++ z) = some (body, rest))
    (hvalue : unescape? false body = some value) : value = text ↔ Verbatim text := by
  constructor
  · rintro rfl
    obtain ⟨hshort, hquotes⟩ := unescape?_bounds hvalue
    obtain ⟨hunified, hkept⟩ := unifyLineEnds_bounds value
    have hsplit := literalBody_eq_some hbody
    rw [List.append_assoc, List.append_assoc] at hsplit
    have hsame : body = unifyLineEnds value := by
      rcases List.append_eq_append_iff.1 hsplit with ⟨more, rfl, hmore⟩ | ⟨more, heq, -⟩
      · rcases more with _ | ⟨c, more⟩
        · exact List.append_nil _
        · obtain ⟨rfl, -⟩ := List.cons.inj hmore
          rw [List.count_append, List.count_cons_self] at hquotes
          omega
      · have hlength := congrArg List.length heq
        rw [List.length_append] at hlength
        have hnone : more = [] := List.length_eq_zero_iff.1 (by omega)
        rw [heq, hnone, List.append_nil]
    subst hsame
    have hline : value = unifyLineEnds value := unescape?_eq_self hvalue (by omega)
    rw [← hline] at hbody hvalue
    have hrest : z = rest := by simpa using literalBody_eq_some hbody
    refine (Verbatim.iff_reads value z).2 ⟨?_, hrest ▸ hbody, hvalue⟩
    rw [hline]
    exact return_notMem_unifyLineEnds value
  · intro h
    rw [unifyLineEnds_of_notMem h.lines] at hbody
    obtain ⟨-, hreads, hself⟩ := (Verbatim.iff_reads text z).1 h
    obtain ⟨rfl, rfl⟩ := Prod.mk.inj (Option.some.inj (hbody.symm.trans hreads))
    exact Option.some.inj (hvalue.symm.trans hself)

end SchemaCompiler
