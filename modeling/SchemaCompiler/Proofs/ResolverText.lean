import SchemaCompiler.Execution.Resolver
import SchemaCompiler.Proofs.Words

/-! Reading the expression of a resolver: a helper is called with the name of a member and with the
arguments of the accessor. What the expression of a binding is read as is the resolver that the
binding stands for. -/

namespace SchemaCompiler

/-- A name between double quotes and the text behind it. Nothing is escaped in a name. -/
def readName? : List Char → Option (String × List Char)
  | '"' :: rest =>
    match rest.takeWhile (· ≠ '"'), rest.dropWhile (· ≠ '"') with
    | _, [] => none
    | name, _ :: after => if '\\' ∈ name then none else some (String.ofList name, after)
  | _ => none

def readArgument? (text : List Char) : Option (ArgumentSpec × List Char) := do
  let rest ← "argument(".toList.isPrefixOf? text
  let (name, rest) ← readName? rest
  match ")".toList.isPrefixOf? rest with
  | some rest => some (⟨name, false⟩, rest)
  | none =>
    let rest ← ", to_id)".toList.isPrefixOf? rest
    some (⟨name, true⟩, rest)

theorem isPrefixOf?_append (start rest : List Char) :
    start.isPrefixOf? (start ++ rest) = some rest :=
  List.isPrefixOf?_eq_some_iff_append_eq.2 rfl

theorem isPrefixOf?_length {start text rest : List Char} (h : start.isPrefixOf? text = some rest) :
    rest.length ≤ text.length := by
  rw [List.isPrefixOf?_eq_some_iff_append_eq] at h
  rw [← h, List.length_append]
  exact Nat.le_add_left _ _

theorem readName?_length {text rest : List Char} {name : String}
    (h : readName? text = some (name, rest)) : rest.length ≤ text.length := by
  unfold readName? at h
  split at h
  · rename_i inside
    split at h
    · cases h
    · rename_i first after _ hdrop
      split at h
      · cases h
      · cases h
        have hle := (List.dropWhile_sublist (p := (· ≠ '"')) (l := inside)).length_le
        rw [hdrop, List.length_cons] at hle
        rw [List.length_cons]
        omega
  · cases h

theorem readArgument?_length {text rest : List Char} {a : ArgumentSpec}
    (h : readArgument? text = some (a, rest)) : rest.length ≤ text.length := by
  obtain ⟨inside, hinside, h⟩ := Option.bind_eq_some_iff.1 h
  obtain ⟨⟨name, after⟩, hname, h⟩ := Option.bind_eq_some_iff.1 h
  refine Nat.le_trans ?_ (Nat.le_trans (readName?_length hname) (isPrefixOf?_length hinside))
  dsimp only at h
  split at h
  · cases h
    exact isPrefixOf?_length ‹_›
  · obtain ⟨last, hlast, h⟩ := Option.bind_eq_some_iff.1 h
    cases h
    exact isPrefixOf?_length hlast

/-- The arguments up to the parenthesis that ends the expression. -/
def readArguments? (text : List Char) : Option (List ArgumentSpec) :=
  match text with
  | [')'] => some []
  | ',' :: ' ' :: rest =>
    match _h : readArgument? rest with
    | some (a, after) => (readArguments? after).map (a :: ·)
    | none => none
  | _ => none
termination_by text.length
decreasing_by
  have hle := readArgument?_length _h
  simp only [List.length_cons]
  omega

namespace Resolver

def readCall? (helper : ResolverHelper) (text : List Char) : Option Resolver := do
  let rest ← (helper.name ++ "(").toList.isPrefixOf? text
  let (name, rest) ← readName? rest
  let arguments ← readArguments? rest
  some ⟨helper, name, arguments⟩

def read? (expression : String) : Option Resolver :=
  [ResolverHelper.readProperty, .readDeferredProperty, .callAccessor,
    .callDeferredAccessor].findSome? (readCall? · expression.toList)

end Resolver

theorem readName?_nameLiteral {name : String} (h : IsName name) (rest : List Char) :
    readName? ((nameLiteral name).toList ++ rest) = some (name, rest) := by
  have hplain : ∀ c ∈ name.toList, decide (c ≠ '"') = true := fun c hc => by
    simpa using (h.no_quote c hc).1
  have hslash : '\\' ∉ name.toList := fun hmem => (h.no_quote _ hmem).2 rfl
  have hlist : (nameLiteral name).toList ++ rest = '"' :: (name.toList ++ '"' :: rest) := by
    simp [nameLiteral]
  rw [hlist, readName?, List.dropWhile_append_of_pos hplain, List.takeWhile_append_of_pos hplain]
  simp [hslash]

theorem readArgument?_expression {a : ArgumentBinding} (h : IsName a.name) (rest : List Char) :
    readArgument? (a.expression.toList ++ rest) = some (⟨a.name, a.toId⟩, rest) := by
  rw [a.expression_eq]
  obtain ⟨name, type, toId⟩ := a
  simp only [String.toList_append, List.append_assoc]
  rw [readArgument?, isPrefixOf?_append]
  simp only [Option.bind_eq_bind, Option.bind_some, readName?_nameLiteral h]
  cases toId with
  | false =>
    rw [if_neg (by decide), isPrefixOf?_append]
  | true =>
    have hnone : ")".toList.isPrefixOf? (", to_id)".toList ++ rest) = none := rfl
    rw [if_pos rfl, hnone, isPrefixOf?_append]
    rfl

theorem readArguments?_expressions {as : List ArgumentBinding} (h : ∀ a ∈ as, IsName a.name) :
    readArguments? (as.flatMap (fun a => ',' :: ' ' :: a.expression.toList) ++ [')']) =
      some (as.map fun a => ⟨a.name, a.toId⟩) := by
  induction as with
  | nil =>
    rw [List.flatMap_nil, List.nil_append, readArguments?]
    rfl
  | cons a rest ih =>
    have hrest := ih fun x hx => h x (List.mem_cons_of_mem _ hx)
    have hlist : (a :: rest).flatMap (fun a => ',' :: ' ' :: a.expression.toList) ++ [')'] =
        ',' :: ' ' :: (a.expression.toList ++
          (rest.flatMap (fun a => ',' :: ' ' :: a.expression.toList) ++ [')'])) := by
      simp
    rw [hlist, readArguments?, readArgument?_expression (h a List.mem_cons_self)]
    simp [hrest]

theorem commaSeparated_cons (s : String) (rest : List String) :
    (commaSeparated (s :: rest)).toList =
      s.toList ++ rest.flatMap fun t => ',' :: ' ' :: t.toList := by
  induction rest generalizing s with
  | nil => simp [commaSeparated]
  | cons t rest ih =>
    rw [commaSeparated, String.intercalate_cons_cons]
    simp only [String.toList_append]
    rw [show (", ".intercalate (t :: rest)).toList = _ from ih t]
    simp

theorem readCall?_other {helper helper' : ResolverHelper} (hne : helper ≠ helper')
    (rest : List Char) :
    Resolver.readCall? helper ((helper'.name ++ "(").toList ++ rest) = none := by
  cases helper <;> cases helper' <;> first | contradiction | rfl

/-- The expression of a binding makes the resolver that the binding stands for. -/
theorem Binding.read?_expression {b : Binding} (h : b.WellSpelled) :
    Resolver.read? b.expression = some b.resolver := by
  have hexpression : b.expression.toList = (b.helper.name ++ "(").toList ++
      ((nameLiteral b.field).toList ++
        (b.arguments.flatMap (fun a => ',' :: ' ' :: a.expression.toList) ++ [')'])) := by
    have hitems := commaSeparated_cons (nameLiteral b.field) (b.arguments.map (·.expression))
    rw [List.flatMap_map] at hitems
    simp only [expression, String.toList_append, List.append_assoc]
    rw [show "\"" ++ b.descriptor.name ++ "\"" = nameLiteral b.field from rfl, hitems]
    simp
  have hmember : IsName b.field := h.member
  have hcall : Resolver.readCall? b.helper b.expression.toList = some b.resolver := by
    rw [hexpression, Resolver.readCall?, isPrefixOf?_append]
    simp only [Option.bind_eq_bind, Option.bind_some]
    rw [readName?_nameLiteral hmember, Option.bind_some, readArguments?_expressions h.arguments]
    rfl
  -- no other helper's name begins the expression
  have hother : ∀ helper, helper ≠ b.helper →
      Resolver.readCall? helper b.expression.toList = none := by
    intro helper hne
    rw [hexpression]
    exact readCall?_other hne _
  rw [Resolver.read?]
  cases hhelper : b.helper <;> rw [hhelper] at hcall hother <;>
    simp [hother, hcall]

end SchemaCompiler
