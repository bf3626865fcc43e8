import SchemaCompiler.Model.Extraction
import SchemaCompiler.Proofs.Analyzed

/-! The normal forms of shapes. A shape has a normal form exactly if it belongs to a grammar, which
says what unions and arguments of generics may look like. The type parameter occurs in the normal
form exactly if its name occurs in the shape. -/

namespace SchemaCompiler

namespace Shape

/-- Induction over shapes: a union or a generic may rely on each of its parts. -/
theorem induct {motive : Shape → Prop} (named : ∀ name, motive (.named name))
    (absent : ∀ marker, motive (.absent marker))
    (union : ∀ members, (∀ m ∈ members, motive m) → motive (.union members))
    (array : ∀ element, motive element → motive (.array element))
    (generic : ∀ name arguments, (∀ a ∈ arguments, motive a) → motive (.generic name arguments)) :
    ∀ shape, motive shape
  | .named name => named name
  | .absent marker => absent marker
  | .union members => union members fun m _ => induct named absent union array generic m
  | .array element => array element (induct named absent union array generic element)
  | .generic name arguments =>
    generic name arguments fun a _ => induct named absent union array generic a

/-- The grammar of shapes inside a declaration whose type parameter is `param`. -/
inductive Accepted (param : Option String) : Shape → Prop
  | named (name : String) : Accepted param (.named name)
  | array {element : Shape} (accepted : Accepted param element) : Accepted param (.array element)
  | union {members : List Shape} {m : Shape} (marker : ∃ x ∈ members, x.isAbsent = true)
      (only : members.filter (!·.isAbsent) = [m]) (accepted : Accepted param m) :
    Accepted param (.union members)
  | generic {name : String} {arguments : List Shape} (head : param ≠ some name)
      (form : ∀ a ∈ arguments, a.isArgument = true)
      (accepted : ∀ a ∈ arguments, Accepted param a) :
    Accepted param (.generic name arguments)

/-- A name occurs in a shape where a type is named. -/
inductive Mentions (name : String) : Shape → Prop
  | named : Mentions name (.named name)
  | array {element : Shape} (mentions : Mentions name element) : Mentions name (.array element)
  | union {members : List Shape} {m : Shape} (mem : m ∈ members) (mentions : Mentions name m) :
    Mentions name (.union members)
  | generic {head : String} {arguments : List Shape} {a : Shape} (mem : a ∈ arguments)
      (mentions : Mentions name a) : Mentions name (.generic head arguments)

variable {param : Option String}

/-- What is read off the first member that is no absence marker is read off the only one. -/
theorem of_only {β : Type} {present : List Shape → β} {read : Shape → β}
    (hcons : ∀ m rest, present (m :: rest) = if m.isAbsent then present rest else read m)
    {members : List Shape} {m : Shape} (h : members.filter (!·.isAbsent) = [m]) :
    present members = read m := by
  induction members with
  | nil => cases h
  | cons first rest ih =>
    rw [hcons]
    by_cases hfirst : first.isAbsent = true
    · rw [if_pos hfirst]
      rw [List.filter_cons_of_neg (by simp [hfirst])] at h
      exact ih h
    · rw [if_neg hfirst]
      rw [List.filter_cons_of_pos (by simp [hfirst])] at h
      rw [(List.cons.inj h).1]

theorem normalizePresent_of_only {members : List Shape} {m : Shape}
    (h : members.filter (!·.isAbsent) = [m]) :
    normalizePresent param members = m.normalize param :=
  of_only (fun _ _ => by rw [normalizePresent]) h

theorem normalizeArguments_eq_ok {generic : String} {arguments : List Shape}
    {es : List TypeExpr} : normalizeArguments param generic arguments = .ok es ↔
      List.Forall₂ (fun a e => a.isArgument = true ∧ a.normalize param = .ok e) arguments es := by
  induction arguments generalizing es with
  | nil =>
    rw [normalizeArguments, List.forall₂_nil_left_iff]
    exact ⟨fun h => by cases h; rfl, fun h => by rw [h]⟩
  | cons a rest ih =>
    rw [normalizeArguments, List.forall₂_cons_left_iff]
    constructor
    · intro h
      split at h
      · rename_i hform
        obtain ⟨e, he, h⟩ := except_bind_eq_ok.1 h
        obtain ⟨es', hes, h⟩ := except_bind_eq_ok.1 h
        cases h
        exact ⟨e, es', ⟨hform, he⟩, ih.1 hes, rfl⟩
      · cases h
    · rintro ⟨e, es', ⟨hform, he⟩, hes, rfl⟩
      rw [if_pos hform]
      exact except_bind_eq_ok.2 ⟨e, he, except_bind_eq_ok.2 ⟨es', ih.2 hes, rfl⟩⟩

theorem normalize_array_eq_ok {element : Shape} {e : TypeExpr} :
    (array element).normalize param = .ok e ↔
      ∃ x, element.normalize param = .ok x ∧ e = .list x := by
  rw [normalize, except_bind_eq_ok]
  exact exists_congr fun _ => and_congr_right fun _ =>
    ⟨fun h => by cases h; rfl, fun h => by rw [h]⟩

/-- A union is nullable: one of its members is a marker, and one is the type. -/
theorem normalize_union_eq_ok {members : List Shape} {e : TypeExpr} :
    (union members).normalize param = .ok e ↔ ∃ m x, (∃ a ∈ members, a.isAbsent = true) ∧
      members.filter (!·.isAbsent) = [m] ∧ m.normalize param = .ok x ∧ e = x.orNull := by
  have hmarker : members.countP (fun m => !m.isAbsent) = members.length ↔
      ¬ ∃ a ∈ members, a.isAbsent = true := by
    simp [List.countP_eq_length]
  rw [normalize]
  constructor
  · intro h
    split at h
    · cases h
    · rename_i hsome
      split at h
      · cases h
      · rename_i hone
        rw [not_not, List.countP_eq_length_filter, List.length_eq_one_iff] at hone
        obtain ⟨m, hm⟩ := hone
        obtain ⟨x, hx, h⟩ := except_bind_eq_ok.1 h
        cases h
        rw [normalizePresent_of_only hm] at hx
        exact ⟨m, x, by simpa [hmarker] using hsome, hm, hx, rfl⟩
  · rintro ⟨m, x, hsome, hm, hx, rfl⟩
    have hone : members.countP (fun m => !m.isAbsent) = 1 := by
      rw [List.countP_eq_length_filter, hm, List.length_singleton]
    rw [if_neg fun h => hmarker.1 h hsome, if_neg fun h => h hone, normalizePresent_of_only hm, hx]
    rfl

theorem normalize_generic_eq_ok {name : String} {arguments : List Shape} {e : TypeExpr} :
    (generic name arguments).normalize param = .ok e ↔ param ≠ some name ∧ ∃ es,
      List.Forall₂ (fun a e => a.isArgument = true ∧ a.normalize param = .ok e) arguments es ∧
        e = .apply name es := by
  rw [normalize]
  by_cases hname : param = some name
  · rw [if_pos hname]
    exact ⟨fun h => (nomatch h), fun h => absurd hname h.1⟩
  · rw [if_neg hname, except_bind_eq_ok]
    constructor
    · rintro ⟨es, hes, h⟩
      cases h
      exact ⟨hname, es, normalizeArguments_eq_ok.1 hes, rfl⟩
    · rintro ⟨-, es, hes, rfl⟩
      exact ⟨es, normalizeArguments_eq_ok.2 hes, rfl⟩

theorem mem_of_filter {members : List Shape} {m : Shape}
    (h : members.filter (!·.isAbsent) = [m]) : m ∈ members :=
  List.mem_of_mem_filter (h ▸ List.mem_singleton_self m)

/-- The shapes that have a normal form are those of the grammar. -/
theorem normalize_iff_accepted (shape : Shape) :
    (∃ e, shape.normalize param = .ok e) ↔ shape.Accepted param := by
  induction shape using induct with
  | named name => exact ⟨fun _ => .named name, fun _ => ⟨_, rfl⟩⟩
  | absent marker => exact ⟨fun ⟨_, h⟩ => (nomatch h), fun h => nomatch h⟩
  | union members ih =>
    constructor
    · rintro ⟨e, h⟩
      obtain ⟨m, x, hsome, hm, hx, -⟩ := normalize_union_eq_ok.1 h
      exact .union hsome hm ((ih m (mem_of_filter hm)).1 ⟨x, hx⟩)
    · rintro (_ | _ | ⟨hsome, hm, haccepted⟩ | _)
      obtain ⟨x, hx⟩ := (ih _ (mem_of_filter hm)).2 haccepted
      exact ⟨_, normalize_union_eq_ok.2 ⟨_, x, hsome, hm, hx, rfl⟩⟩
  | array element ih =>
    constructor
    · rintro ⟨e, h⟩
      obtain ⟨x, hx, -⟩ := normalize_array_eq_ok.1 h
      exact .array (ih.1 ⟨x, hx⟩)
    · rintro (_ | haccepted | _ | _)
      obtain ⟨x, hx⟩ := ih.2 haccepted
      exact ⟨_, normalize_array_eq_ok.2 ⟨x, hx, rfl⟩⟩
  | generic name arguments ih =>
    constructor
    · rintro ⟨e, h⟩
      obtain ⟨hname, es, hes, -⟩ := normalize_generic_eq_ok.1 h
      refine .generic hname (fun a ha => ?_) fun a ha => ?_
      · obtain ⟨-, -, hform, -⟩ := forall₂_mem_left hes a ha
        exact hform
      · obtain ⟨x, -, -, hx⟩ := forall₂_mem_left hes a ha
        exact (ih a ha).1 ⟨x, hx⟩
    · rintro (_ | _ | _ | ⟨hname, hform, haccepted⟩)
      obtain ⟨es, hes⟩ : ∃ es, List.Forall₂
          (fun (a : Shape) e => a.isArgument = true ∧ a.normalize param = .ok e) arguments es := by
        refine exists_forall₂ fun a ha => ?_
        obtain ⟨x, hx⟩ := (ih a ha).2 (haccepted a ha)
        exact ⟨x, hform a ha, hx⟩
      exact ⟨_, normalize_generic_eq_ok.2 ⟨hname, es, hes, rfl⟩⟩

end Shape

theorem TypeExpr.orNull_usesParam (e : TypeExpr) : e.orNull.usesParam = e.usesParam := by
  cases e <;> rfl

theorem TypeExpr.anyUsesParam_iff {es : List TypeExpr} :
    anyUsesParam es = true ↔ ∃ e ∈ es, e.usesParam = true := by
  induction es with
  | nil => simp [anyUsesParam]
  | cons e rest ih => simp [anyUsesParam, ih]

namespace Shape

/-- An absence marker mentions nothing, so what a union mentions its type does. -/
theorem mentions_union {name : String} {members : List Shape} {m : Shape}
    (h : members.filter (!·.isAbsent) = [m]) : (union members).Mentions name ↔ m.Mentions name := by
  constructor
  · rintro (_ | _ | ⟨hmem, hmentions⟩ | _)
    rename_i x
    have hx : x ∈ members.filter (!·.isAbsent) := by
      rw [List.mem_filter]
      refine ⟨hmem, ?_⟩
      cases hmentions <;> rfl
    rw [h, List.mem_singleton] at hx
    exact hx ▸ hmentions
  · exact fun hm => .union (mem_of_filter h) hm

/-- The type parameter is used by a normal form exactly if the shape mentions it. -/
theorem usesParam_iff_mentions (parameter : String) (shape : Shape) {e : TypeExpr}
    (h : shape.normalize (some parameter) = .ok e) :
    e.usesParam = true ↔ shape.Mentions parameter := by
  induction shape using induct generalizing e with
  | named name =>
    by_cases hname : parameter = name
    · subst hname
      simp only [normalize, if_true] at h
      cases h
      exact ⟨fun _ => .named, fun _ => rfl⟩
    · simp only [normalize, Option.some.injEq, if_neg hname] at h
      cases h
      refine ⟨fun h => (nomatch h), ?_⟩
      rintro (_ | _ | _ | _)
      exact absurd rfl hname
  | absent marker => cases h
  | union members ih =>
    obtain ⟨m, x, -, hm, hx, rfl⟩ := normalize_union_eq_ok.1 h
    rw [TypeExpr.orNull_usesParam, ih m (mem_of_filter hm) hx, mentions_union hm]
  | array element ih =>
    obtain ⟨x, hx, rfl⟩ := normalize_array_eq_ok.1 h
    rw [TypeExpr.usesParam, ih hx]
    refine ⟨.array, ?_⟩
    rintro (_ | hmentions | _ | _)
    exact hmentions
  | generic name arguments ih =>
    obtain ⟨-, es, hes, rfl⟩ := normalize_generic_eq_ok.1 h
    rw [TypeExpr.usesParam, TypeExpr.anyUsesParam_iff]
    constructor
    · rintro ⟨e, he, huses⟩
      obtain ⟨a, ha, -, hnormal⟩ := forall₂_mem_right hes e he
      exact .generic ha ((ih a ha hnormal).1 huses)
    · rintro (_ | _ | _ | ⟨ha, hmentions⟩)
      obtain ⟨e, he, -, hnormal⟩ := forall₂_mem_left hes _ ha
      exact ⟨e, he, (ih _ ha hnormal).2 hmentions⟩

end Shape

end SchemaCompiler
