import SchemaCompiler.Proofs.ResolverText
import SchemaCompiler.Proofs.SchemaNames

/-! The host's notation for type expressions. All marks of an expression but the opening bracket stand
behind what they belong to, so its text is taken from the end: the last characters tell the form of the
expression, and where its text begins is told by what stands before it. Two expressions have one text
only if they are the same but for type parameters, which look like names of types. -/

namespace SchemaCompiler

/-- A name of ASCII letters, digits and underscores. -/
structure IsIdentifier (name : String) : Prop where
  nonempty : name ≠ ""
  chars : ∀ c ∈ name.toList, AsciiLetter c ∨ AsciiDigit c ∨ c = '_'

theorem IsIdentifier.nameChars {name : String} (h : IsIdentifier name) :
    ∀ c ∈ name.toList.reverse, isNameChar c = true :=
  fun c hc => isNameChar_iff.2 (h.chars c (List.mem_reverse.1 hc))

theorem isIdentifier_iff {name : String} :
    IsIdentifier name ↔ name ≠ "" ∧ name.toList.all isNameChar = true := by
  rw [List.all_eq_true]
  exact ⟨fun h => ⟨h.nonempty, fun c hc => isNameChar_iff.2 (h.chars c hc)⟩,
    fun h => ⟨h.1, fun c hc => isNameChar_iff.1 (h.2 c hc)⟩⟩

instance (name : String) : Decidable (IsIdentifier name) :=
  decidable_of_iff' _ isIdentifier_iff

namespace TypeExpr

mutual

/-- The expression with its type parameters read as names of types. -/
def asNamed : TypeExpr → TypeExpr
  | .ref name => .ref name
  | .param name => .ref name
  | .list element => .list element.asNamed
  | .nullable inner => .nullable inner.asNamed
  | .apply generic arguments => .apply generic (allAsNamed arguments)

def allAsNamed : List TypeExpr → List TypeExpr
  | [] => []
  | e :: rest => e.asNamed :: allAsNamed rest

end

theorem allNames_eq_flatMap (es : List TypeExpr) : allNames es = es.flatMap names := by
  induction es with
  | nil => rfl
  | cons e rest ih => rw [allNames, List.flatMap_cons, ih]

theorem allAsNamed_eq_map (es : List TypeExpr) : allAsNamed es = es.map asNamed := by
  induction es with
  | nil => rfl
  | cons e rest ih => rw [allAsNamed, List.map_cons, ih]

theorem describeAll_eq_map (es : List TypeExpr) : describeAll es = es.map describe := by
  induction es with
  | nil => rfl
  | cons e rest ih => rw [describeAll, List.map_cons, ih]

def backwards (e : TypeExpr) : List Char :=
  e.describe.toList.reverse

def allBackwards (es : List TypeExpr) : List Char :=
  (commaSeparated (describeAll es)).toList.reverse

def elementBackwards (e : TypeExpr) : List Char :=
  if e.isNullable then ')' :: (e.backwards ++ ['(']) else e.backwards

theorem backwards_list (e : TypeExpr) : (list e).backwards = ']' :: '[' :: e.elementBackwards := by
  unfold backwards elementBackwards
  rw [describe]
  split <;> simp [backwards]

theorem backwards_nullable (e : TypeExpr) :
    (nullable e).backwards = "llun | ".toList ++ e.backwards := by
  simp [backwards, describe]

theorem backwards_apply (generic : String) (es : List TypeExpr) :
    (apply generic es).backwards = '>' :: (allBackwards es ++ '<' :: generic.toList.reverse) := by
  simp [backwards, allBackwards, commaSeparated, describe]

theorem allBackwards_cons (e : TypeExpr) (rest : List TypeExpr) : allBackwards (e :: rest) =
    rest.reverse.flatMap (fun x => x.backwards ++ [' ', ',']) ++ e.backwards := by
  rw [allBackwards, describeAll, commaSeparated_cons, List.reverse_append, List.reverse_flatMap,
    describeAll_eq_map, ← List.map_reverse, List.flatMap_map]
  simp [backwards]

inductive Form where
  | name
  | list
  | nullable
  | apply
  deriving DecidableEq

def form : TypeExpr → Form
  | .ref _ => .name
  | .param _ => .name
  | .list _ => .list
  | .nullable _ => .nullable
  | .apply _ _ => .apply

/-- The form of an expression that ends a text, told from the last characters. -/
def formAtEnd (cs : List Char) : Form :=
  if "llun | ".toList <+: cs then .nullable
  else match cs.head? with
    | some ']' => .list
    | some '>' => .apply
    | _ => .name

end TypeExpr

/-- What may stand before an expression, taken from its end: nothing, the bracket of a generic or of an
element, or the comma behind another argument. -/
inductive Before : List Char → Prop
  | nothing : Before []
  | generic (cs : List Char) : Before ('<' :: cs)
  | element (cs : List Char) : Before ('(' :: cs)
  | argument (cs : List Char) : Before (' ' :: ',' :: cs)

section

variable {name name' : String} {cs cs' : List Char}

/-- A name at the end of a text reaches up to what may stand before it. -/
theorem Before.span (h : Before cs) (hname : IsIdentifier name) :
    (name.toList.reverse ++ cs).span isNameChar = (name.toList.reverse, cs) := by
  rw [List.span_eq_takeWhile_dropWhile, List.takeWhile_append_of_pos hname.nameChars,
    List.dropWhile_append_of_pos hname.nameChars]
  cases h <;> simp [isNameChar]

theorem Before.name_inj (h : Before cs) (h' : Before cs') (hname : IsIdentifier name)
    (hname' : IsIdentifier name')
    (heq : name.toList.reverse ++ cs = name'.toList.reverse ++ cs') : name = name' ∧ cs = cs' := by
  have hspan := congrArg (List.span isNameChar) heq
  rw [h.span hname, h'.span hname'] at hspan
  obtain ⟨hreverse, hbefore⟩ := Prod.mk.inj hspan
  exact ⟨String.toList_inj.1 (List.reverse_injective hreverse), hbefore⟩

/-- The last character of a name. -/
theorem IsIdentifier.reverse_eq_cons (h : IsIdentifier name) :
    ∃ c rest, name.toList.reverse = c :: rest ∧ isNameChar c = true := by
  rcases hlist : name.toList.reverse with _ | ⟨c, rest⟩
  · rw [List.reverse_eq_nil_iff] at hlist
    exact absurd (String.toList_inj.1 hlist) h.nonempty
  · exact ⟨c, rest, rfl, h.nameChars c (hlist ▸ List.mem_cons_self)⟩

end

namespace TypeExpr

variable {e e' : TypeExpr} {es es' : List TypeExpr} {name generic : String} {cs cs' : List Char}

theorem formAtEnd_name (hname : IsIdentifier name) (h : Before cs) :
    formAtEnd (name.toList.reverse ++ cs) = .name := by
  have hmark : ¬"llun | ".toList <+: name.toList.reverse ++ cs := by
    rintro ⟨rest, hrest⟩
    have hspan := congrArg (List.span isNameChar) hrest
    rw [h.span hname] at hspan
    have hbefore : ' ' :: '|' :: ' ' :: rest = cs := congrArg Prod.snd hspan
    subst hbefore
    cases h
  obtain ⟨c, rest, hlist, hc⟩ := hname.reverse_eq_cons
  rw [formAtEnd, if_neg hmark, hlist]
  rw [List.cons_append, List.head?_cons]
  split
  · rename_i hend
    cases hend
    exact absurd hc (by decide)
  · rename_i hend
    cases hend
    exact absurd hc (by decide)
  · rfl

/-- The end of a text tells how the expression there is made. -/
theorem formAtEnd_backwards (hnames : ∀ name ∈ e.names, IsIdentifier name) (h : Before cs) :
    formAtEnd (e.backwards ++ cs) = e.form := by
  cases e with
  | ref name => exact formAtEnd_name (hnames name List.mem_cons_self) h
  | param name => exact formAtEnd_name (hnames name List.mem_cons_self) h
  | list element =>
    rw [backwards_list]
    simp [formAtEnd, form]
  | nullable inner =>
    rw [backwards_nullable]
    simp [formAtEnd, form]
  | apply generic arguments =>
    rw [backwards_apply]
    simp [formAtEnd, form]

/-- The last character of an expression is no opening bracket and no parenthesis. -/
theorem backwards_eq_cons (hnames : ∀ name ∈ e.names, IsIdentifier name) :
    ∃ c rest, e.backwards = c :: rest ∧ c ≠ ')' ∧ c ≠ '<' := by
  have hname (name : String) (hname : IsIdentifier name) :
      ∃ c rest, name.toList.reverse = c :: rest ∧ c ≠ ')' ∧ c ≠ '<' := by
    obtain ⟨c, rest, hlist, hc⟩ := hname.reverse_eq_cons
    refine ⟨c, rest, hlist, ?_, ?_⟩ <;> rintro rfl <;> exact absurd hc (by decide)
  cases e with
  | ref name => exact hname name (hnames name List.mem_cons_self)
  | param name => exact hname name (hnames name List.mem_cons_self)
  | list element => exact ⟨']', _, backwards_list element, by decide, by decide⟩
  | nullable inner => exact ⟨'l', _, backwards_nullable inner, by decide, by decide⟩
  | apply generic arguments => exact ⟨'>', _, backwards_apply generic arguments, by decide, by decide⟩

/-- Whether a text that ends in an expression tells the expression and where it begins. -/
def Told (e : TypeExpr) : Prop :=
  ∀ {e' : TypeExpr} {cs cs' : List Char}, (∀ name ∈ e'.names, IsIdentifier name) →
    Before cs → Before cs' → e.backwards ++ cs = e'.backwards ++ cs' →
      e.asNamed = e'.asNamed ∧ cs = cs'

theorem form_eq (hnames : ∀ name ∈ e.names, IsIdentifier name)
    (hnames' : ∀ name ∈ e'.names, IsIdentifier name) (h : Before cs) (h' : Before cs')
    (heq : e.backwards ++ cs = e'.backwards ++ cs') : e.form = e'.form := by
  rw [← formAtEnd_backwards hnames h, heq, formAtEnd_backwards hnames' h']

theorem told_name (hname : IsIdentifier name) : (ref name).Told := by
  intro e' cs cs' hnames' h h' heq
  have hnames : ∀ n ∈ (ref name).names, IsIdentifier n := by
    simpa [names] using hname
  have hform := form_eq hnames hnames' h h' heq
  cases e' with
  | ref name' | param name' =>
    obtain ⟨rfl, rfl⟩ := h.name_inj h' hname (hnames' _ List.mem_cons_self) heq
    exact ⟨rfl, rfl⟩
  | _ => cases hform

/-- The element of a list is told by the parenthesis around it, or else as the expression that stands
there. -/
theorem told_element (htold : e.Told) (hnames : ∀ name ∈ e.names, IsIdentifier name)
    (hnames' : ∀ name ∈ e'.names, IsIdentifier name) (h : Before cs) (h' : Before cs')
    (heq : e.elementBackwards ++ cs = e'.elementBackwards ++ cs') :
    e.asNamed = e'.asNamed ∧ cs = cs' := by
  obtain ⟨c, rest, hlast, hc, -⟩ := backwards_eq_cons hnames
  obtain ⟨c', rest', hlast', hc', -⟩ := backwards_eq_cons hnames'
  unfold elementBackwards at heq
  split at heq <;> split at heq
  · rw [List.cons_append, List.cons_append, List.append_assoc, List.append_assoc] at heq
    obtain ⟨hsame, hbefore⟩ := htold hnames' (.element cs) (.element cs') (List.cons.inj heq).2
    exact ⟨hsame, (List.cons.inj hbefore).2⟩
  · rw [hlast'] at heq
    exact absurd (List.cons.inj heq).1.symm hc'
  · rw [hlast] at heq
    exact absurd (List.cons.inj heq).1 hc
  · exact htold hnames' h h' heq

theorem told_list (htold : e.Told) (hnames : ∀ name ∈ e.names, IsIdentifier name) :
    (list e).Told := by
  intro e' cs cs' hnames' h h' heq
  have hform := form_eq (e := list e) hnames hnames' h h' heq
  cases e' with
  | list element' =>
    have hnames' : ∀ name ∈ element'.names, IsIdentifier name := hnames'
    rw [backwards_list, backwards_list] at heq
    have helement := (List.cons.inj (List.cons.inj heq).2).2
    obtain ⟨hsame, hbefore⟩ := told_element htold hnames hnames' h h' helement
    exact ⟨congrArg list hsame, hbefore⟩
  | _ => cases hform

theorem told_nullable (htold : e.Told) (hnames : ∀ name ∈ e.names, IsIdentifier name) :
    (nullable e).Told := by
  intro e' cs cs' hnames' h h' heq
  have hform := form_eq (e := nullable e) hnames hnames' h h' heq
  cases e' with
  | nullable inner' =>
    have hnames' : ∀ name ∈ inner'.names, IsIdentifier name := hnames'
    rw [backwards_nullable, backwards_nullable, List.append_assoc, List.append_assoc] at heq
    obtain ⟨hsame, hbefore⟩ := htold hnames' h h' (List.append_cancel_left heq)
    exact ⟨congrArg nullable hsame, hbefore⟩
  | _ => cases hform

/-- Arguments are told one after the other, from the last one on. -/
theorem told_items (htold : ∀ x ∈ e :: es, x.Told)
    (hnames' : ∀ x ∈ e' :: es', ∀ name ∈ x.names, IsIdentifier name)
    (heq : es.flatMap (fun x => x.backwards ++ [' ', ',']) ++ (e.backwards ++ '<' :: cs) =
      es'.flatMap (fun x => x.backwards ++ [' ', ',']) ++ (e'.backwards ++ '<' :: cs')) :
    es.map asNamed = es'.map asNamed ∧ e.asNamed = e'.asNamed ∧ cs = cs' := by
  obtain ⟨he, hes⟩ := List.forall_mem_cons.1 htold
  obtain ⟨he', hes'⟩ := List.forall_mem_cons.1 hnames'
  induction es generalizing es' with
  | nil =>
    rcases es' with _ | ⟨x', rest'⟩
    · obtain ⟨hsame, hbefore⟩ := he he' (.generic cs) (.generic cs') heq
      exact ⟨rfl, hsame, (List.cons.inj hbefore).2⟩
    · rw [List.flatMap_cons, List.append_assoc, List.append_assoc] at heq
      obtain ⟨-, hbefore⟩ := he (hes' x' List.mem_cons_self) (.generic cs) (.argument _) heq
      cases hbefore
  | cons x rest ih =>
    obtain ⟨hx, hrest⟩ := List.forall_mem_cons.1 hes
    rw [List.flatMap_cons, List.append_assoc, List.append_assoc] at heq
    rcases es' with _ | ⟨x', rest'⟩
    · obtain ⟨-, hbefore⟩ := hx he' (.argument _) (.generic cs') heq
      cases hbefore
    · obtain ⟨hx', hrest'⟩ := List.forall_mem_cons.1 hes'
      rw [List.flatMap_cons, List.append_assoc, List.append_assoc] at heq
      obtain ⟨hsame, hbefore⟩ := hx hx' (.argument _) (.argument _) heq
      have hothers := (List.cons.inj (List.cons.inj hbefore).2).2
      obtain ⟨hall, hlast⟩ := ih (List.forall_mem_cons.2 ⟨he, hrest⟩)
        (List.forall_mem_cons.2 ⟨he', hrest'⟩) hothers hrest hrest'
      exact ⟨congrArg₂ List.cons hsame hall, hlast⟩

/-- The arguments of a generic do not begin with its opening bracket, taken from their end. -/
theorem allBackwards_eq_cons (hnames : ∀ x ∈ e :: es, ∀ name ∈ x.names, IsIdentifier name) :
    ∃ c rest, allBackwards (e :: es) = c :: rest ∧ c ≠ '<' := by
  rw [allBackwards_cons]
  rcases hreverse : es.reverse with _ | ⟨last, others⟩
  · obtain ⟨c, rest, hlast, -, hc⟩ := backwards_eq_cons (hnames e List.mem_cons_self)
    exact ⟨c, rest, hlast, hc⟩
  · have hmem : last ∈ es := List.mem_reverse.1 (hreverse ▸ List.mem_cons_self)
    obtain ⟨c, rest, hlast, -, hc⟩ :=
      backwards_eq_cons (hnames last (List.mem_cons_of_mem _ hmem))
    rw [List.flatMap_cons, hlast]
    exact ⟨c, _, rfl, hc⟩

theorem told_arguments (htold : ∀ x ∈ es, x.Told)
    (hnames : ∀ x ∈ es, ∀ name ∈ x.names, IsIdentifier name)
    (hnames' : ∀ x ∈ es', ∀ name ∈ x.names, IsIdentifier name)
    (heq : allBackwards es ++ '<' :: cs = allBackwards es' ++ '<' :: cs') :
    es.map asNamed = es'.map asNamed ∧ cs = cs' := by
  rcases es with _ | ⟨first, rest⟩ <;> rcases es' with _ | ⟨first', rest'⟩
  · exact ⟨rfl, (List.cons.inj heq).2⟩
  · obtain ⟨c, _, hlast, hc⟩ := allBackwards_eq_cons hnames'
    rw [hlast] at heq
    exact absurd (List.cons.inj heq).1.symm hc
  · obtain ⟨c, _, hlast, hc⟩ := allBackwards_eq_cons hnames
    rw [hlast] at heq
    exact absurd (List.cons.inj heq).1 hc
  · rw [allBackwards_cons, allBackwards_cons, List.append_assoc, List.append_assoc] at heq
    obtain ⟨hrest, hfirst, hbefore⟩ := told_items
      (fun x hx => htold x (by simpa using hx)) (fun x hx => hnames' x (by simpa using hx)) heq
    rw [List.map_reverse, List.map_reverse] at hrest
    exact ⟨congrArg₂ List.cons hfirst (List.reverse_injective hrest), hbefore⟩

theorem told_apply (htold : ∀ x ∈ es, x.Told)
    (hnames : ∀ name ∈ (apply generic es).names, IsIdentifier name) : (apply generic es).Told := by
  intro e' cs cs' hnames' h h' heq
  have hform := form_eq hnames hnames' h h' heq
  cases e' with
  | apply generic' es' =>
    rw [names, allNames_eq_flatMap] at hnames hnames'
    obtain ⟨hgeneric, hes⟩ := List.forall_mem_cons.1 hnames
    obtain ⟨hgeneric', hes'⟩ := List.forall_mem_cons.1 hnames'
    rw [List.forall_mem_flatMap] at hes hes'
    simp only [backwards_apply, List.cons_append, List.append_assoc] at heq
    obtain ⟨hsame, hbefore⟩ := told_arguments htold hes hes' (List.cons.inj heq).2
    obtain ⟨rfl, rfl⟩ := h.name_inj h' hgeneric hgeneric' hbefore
    rw [asNamed, asNamed, allAsNamed_eq_map, allAsNamed_eq_map, hsame]
    exact ⟨rfl, rfl⟩
  | _ => cases hform

mutual

/-- Every expression is told by a text that ends in it. -/
theorem told : ∀ e : TypeExpr, (∀ name ∈ e.names, IsIdentifier name) → e.Told
  | .ref name, hnames => told_name (hnames name List.mem_cons_self)
  | .param name, hnames => told_name (hnames name List.mem_cons_self)
  | .list element, hnames => told_list (told element hnames) hnames
  | .nullable inner, hnames => told_nullable (told inner hnames) hnames
  | .apply _ arguments, hnames =>
    told_apply (allTold arguments fun name hname => hnames name (List.mem_cons_of_mem _ hname)) hnames

theorem allTold : ∀ es : List TypeExpr, (∀ name ∈ allNames es, IsIdentifier name) →
    ∀ e ∈ es, e.Told
  | [], _ => fun _ he => nomatch he
  | e :: rest, hnames => by
    rw [allNames, List.forall_mem_append] at hnames
    exact List.forall_mem_cons.2 ⟨told e hnames.1, allTold rest hnames.2⟩

end

theorem isNullable_asNamed (e : TypeExpr) : e.asNamed.isNullable = e.isNullable := by
  cases e <;> rfl

mutual

/-- A type parameter is described as a type of its name. -/
theorem describe_asNamed : ∀ e : TypeExpr, e.asNamed.describe = e.describe
  | .ref _ => rfl
  | .param _ => rfl
  | .list element => by
    rw [asNamed, describe, describe, isNullable_asNamed, describe_asNamed element]
  | .nullable inner => by
    rw [asNamed, describe, describe, describe_asNamed inner]
  | .apply _ arguments => by
    rw [asNamed, describe, describe, describeAll_allAsNamed arguments]

theorem describeAll_allAsNamed : ∀ es : List TypeExpr,
    describeAll (allAsNamed es) = describeAll es
  | [] => rfl
  | e :: rest => by
    rw [allAsNamed, describeAll, describeAll, describe_asNamed e, describeAll_allAsNamed rest]

end

/-- Expressions whose names are identifiers have the same text. -/
theorem describe_inj (hnames : ∀ name ∈ e.names, IsIdentifier name)
    (hnames' : ∀ name ∈ e'.names, IsIdentifier name) :
    e.describe = e'.describe ↔ e.asNamed = e'.asNamed := by
  constructor
  · intro heq
    have hbackwards : e.backwards ++ [] = e'.backwards ++ [] := by
      rw [backwards, heq, backwards]
    exact (told e hnames hnames' .nothing .nothing hbackwards).1
  · intro heq
    rw [← describe_asNamed, heq, describe_asNamed]

theorem describe_ne (hnames : ∀ name ∈ e.names, IsIdentifier name)
    (hnames' : ∀ name ∈ e'.names, IsIdentifier name) (hne : e.asNamed ≠ e'.asNamed) :
    e.describe ≠ e'.describe :=
  fun heq => hne ((describe_inj hnames hnames').1 heq)

theorem nullable_ne (e : TypeExpr) : nullable e ≠ e := by
  intro heq
  have hsize := congrArg sizeOf heq
  simp at hsize

/-- Expressions whose names are identifiers are described by one text exactly if they differ in nothing
but in which of the names are type parameters. So a list that may be absent, a list of what may be
absent, and what may be absent twice or only once, never have the same text. -/
theorem describe_unambiguous {e e' : TypeExpr} (hnames : ∀ name ∈ e.names, IsIdentifier name)
    (hnames' : ∀ name ∈ e'.names, IsIdentifier name) :
    (e.describe = e'.describe ↔ e.asNamed = e'.asNamed) ∧
    (nullable (list e)).describe ≠ (list (nullable e')).describe ∧
    (nullable (list e)).describe ≠ (nullable (nullable e')).describe ∧
    (list (nullable e)).describe ≠ (nullable (nullable e')).describe ∧
    (nullable (nullable e)).describe ≠ (nullable e).describe := by
  refine ⟨describe_inj hnames hnames', ?_, ?_, ?_, ?_⟩
  · exact describe_ne hnames hnames' fun heq => by cases heq
  · exact describe_ne hnames hnames' fun heq => by cases heq
  · exact describe_ne hnames hnames' fun heq => by cases heq
  · exact describe_ne hnames hnames (nullable_ne (nullable e).asNamed)

/-- Pages of users and of lists of what a node may be. -/
def pages (node : TypeExpr) : TypeExpr :=
  nullable (list (apply "Page_2" [ref "User", list (nullable node)]))

theorem pages_described :
    (∀ name ∈ (pages (param "T")).names, IsIdentifier name) ∧
    (∀ name ∈ (pages (ref "T")).names, IsIdentifier name) ∧
    (pages (param "T")).describe = "Page_2<User, (T | null)[]>[] | null" ∧
    (pages (param "T")).describe = (pages (ref "T")).describe ∧
    (nullable (list (pages (param "T")))).describe ≠
      (list (nullable (pages (ref "T")))).describe := by
  have hnames : ∀ name ∈ ["Page_2", "User", "T"], IsIdentifier name := by decide
  have hparam : ∀ name ∈ (pages (param "T")).names, IsIdentifier name := hnames
  have hnamed : ∀ name ∈ (pages (ref "T")).names, IsIdentifier name := hnames
  obtain ⟨hiff, hlist, -⟩ := describe_unambiguous hparam hnamed
  exact ⟨hparam, hnamed, by cbv, hiff.2 rfl, hlist⟩

end TypeExpr

end SchemaCompiler
