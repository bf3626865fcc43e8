import SchemaCompiler.Host.Document
import SchemaCompiler.Proofs.Emitted

/-! Checking a unit that was checked before. A checked unit written as a document, every default
included, is read back as it is: what a coercion answers is taken unchanged wherever it stands. So a
document and the unit that it was checked to are compiled to the same result. -/

namespace SchemaCompiler

namespace Checked

variable {α β : Type}

@[simp]
theorem pure_eq (a : α) : (pure a : Checked α) = .valid a :=
  rfl

@[simp]
theorem map_valid (f : α → β) (a : α) : f <$> Checked.valid a = .valid (f a) :=
  rfl

@[simp]
theorem seq_valid (f : α → β) (a : α) : Checked.valid f <*> Checked.valid a = .valid (f a) :=
  rfl

@[simp]
theorem within_valid (step : PathStep) (a : α) : (Checked.valid a).within step = .valid a :=
  rfl

theorem map_eq_valid {f : α → β} {x : Checked α} {b : β} :
    f <$> x = .valid b ↔ ∃ a, x = .valid a ∧ f a = b := by
  cases x with
  | valid a => simp
  | faulty fs => exact ⟨fun h => (nomatch h), fun ⟨_, h, _⟩ => nomatch h⟩

theorem seq_eq_valid {f : Checked (α → β)} {x : Checked α} {b : β} :
    f <*> x = .valid b ↔ ∃ g a, f = .valid g ∧ x = .valid a ∧ g a = b := by
  cases f with
  | valid g =>
    cases x with
    | valid a => simp
    | faulty fs => exact ⟨fun h => (nomatch h), fun ⟨_, _, _, h, _⟩ => nomatch h⟩
  | faulty fs => cases x <;> exact ⟨fun h => (nomatch h), fun ⟨_, _, h, _⟩ => nomatch h⟩

theorem within_eq_valid {step : PathStep} {x : Checked α} {a : α} :
    x.within step = .valid a ↔ x = .valid a := by
  cases x with
  | valid b => rfl
  | faulty fs => exact ⟨fun h => (nomatch h), fun h => nomatch h⟩

/-- Whether a check takes what is written for any value as that value. -/
def ReadsBack (check : Json → Checked α) (write : α → Json) : Prop :=
  ∀ a, check (write a) = .valid a

theorem noOthers_eq_valid {known : List String} {members : List (String × Json)}
    (h : ∀ member ∈ members, member.1 ∈ known) : noOthers known members = .valid () := by
  induction members with
  | nil => rfl
  | cons first rest ih =>
    rw [noOthers, if_pos (by simpa using h first List.mem_cons_self)]
    exact ih fun member hmember => h member (List.mem_cons_of_mem _ hmember)

/-- An object is taken if its members are, and none of them is unknown. -/
theorem object_eq_valid {part : String} {known : List String}
    {build : List (String × Json) → Checked α} {members : List (String × Json)} {a : α}
    (hbuild : build members = .valid a) (hknown : ∀ member ∈ members, member.1 ∈ known) :
    object part known build (.object members) = .valid a := by
  rw [object, hbuild, noOthers_eq_valid hknown]
  rfl

theorem required_eq_valid {members : List (String × Json)} {name : String} {json : Json}
    {check : Json → Checked α} {a : α} (hmember : Json.member? name members = some json)
    (hcheck : check json = .valid a) : required members name check = .valid a := by
  rw [required, hmember, Option.elim_some, hcheck, within_valid]

theorem optional_eq_valid {members : List (String × Json)} {name : String} {json : Json} {default : α}
    {check : Json → Checked α} {a : α} (hmember : Json.member? name members = some json)
    (hcheck : check json = .valid a) : optional members name default check = .valid a := by
  rw [optional, hmember, Option.elim_some, hcheck, within_valid]

theorem text_readsBack : ReadsBack text .string := fun _ => rfl

theorem text?_readsBack : ReadsBack text? .ofText? := by
  rintro (_ | s) <;> rfl

/-- What a boolean is coerced to is a boolean. -/
theorem boolean_readsBack : ReadsBack boolean .bool := fun _ => rfl

/-- What an enum value is coerced to is a text or an integer of any size. -/
theorem enumLiteral?_readsBack :
    ReadsBack enumLiteral? fun value => value.elim .null EnumLiteral.toJson := by
  rintro (_ | (s | n)) <;> rfl

theorem access_readsBack : ReadsBack access Access.toJson := by
  rintro (_ | _) <;> rfl

theorem declarationKind_readsBack : ReadsBack declarationKind DeclarationKind.toJson := by
  rintro (_ | _ | _ | _) <;> rfl

theorem items_eq_valid {check : Json → Checked α} {write : α → Json} (h : ReadsBack check write)
    (position : Nat) (as : List α) : items check position (as.map write) = .valid as := by
  induction as generalizing position with
  | nil => rfl
  | cons a rest ih => rw [List.map_cons, items, h a, ih, within_valid, map_valid, seq_valid]

theorem list_readsBack {check : Json → Checked α} {write : α → Json} (h : ReadsBack check write) :
    ReadsBack (list check) fun as => .array (as.map write) :=
  fun as => items_eq_valid h 0 as

theorem table_readsBack {check : Json → Checked α} {write : α → Json} (h : ReadsBack check write) :
    ReadsBack (table check) fun entries => .object (entries.map fun (name, a) => (name, write a)) := by
  intro table
  rw [Checked.table]
  induction table with
  | nil => rfl
  | cons first rest ih => rw [List.map_cons, entries, h first.2, ih]; rfl

mutual

/-- A shape is taken as it is written, whatever shapes stand in it. -/
theorem shape_toJson : ∀ s : Shape, shape s.toJson = .valid s
  | .named name => by
    simp [Shape.toJson, shape, Json.member?, required, text, noOthers]
  | .absent .null => by
    simp [Shape.toJson, shape, Json.member?, noOthers]
  | .absent .undefined => by
    simp [Shape.toJson, shape, Json.member?, noOthers]
  | .union members => by
    simp [Shape.toJson, shape, Json.member?, noOthers, shapeListMember, shapeList,
      shapeItems_toJson 0 members]
  | .array element => by
    simp [Shape.toJson, shape, Json.member?, noOthers, shapeMember, shape_toJson element]
  | .generic name arguments => by
    simp [Shape.toJson, shape, Json.member?, required, text, noOthers, shapeListMember, shapeList,
      shapeItems_toJson 0 arguments]

theorem shapeItems_toJson (position : Nat) :
    ∀ shapes : List Shape, shapeItems position (shapesToJson shapes) = .valid shapes
  | [] => rfl
  | s :: rest => by
    rw [shapesToJson, shapeItems, shape_toJson s, shapeItems_toJson (position + 1) rest,
      within_valid, map_valid, seq_valid]

end

theorem shape?_readsBack : ReadsBack shape? fun type => type.elim .null Shape.toJson := by
  rintro (_ | s)
  · rfl
  · have hobject : shape? s.toJson = some <$> shape s.toJson := by
      rcases s with _ | (_ | _) | _ | _ | _ <;> rw [Shape.toJson, shape?]
      all_goals nofun
    exact hobject.trans (by rw [shape_toJson, map_valid])

theorem argument_readsBack : ReadsBack argument HostArgument.toJson := by
  refine fun a => object_eq_valid ?_ (by simp)
  rw [required_eq_valid rfl (text_readsBack a.name), required_eq_valid rfl (shape_toJson a.type),
    optional_eq_valid rfl (text?_readsBack a.tag), optional_eq_valid rfl (text?_readsBack a.description)]
  rfl

theorem field_readsBack : ReadsBack field HostField.toJson := by
  refine fun f => object_eq_valid ?_ (by simp)
  rw [required_eq_valid rfl (text_readsBack f.name), optional_eq_valid rfl (shape?_readsBack f.type),
    optional_eq_valid rfl (text?_readsBack f.tag), optional_eq_valid rfl (access_readsBack f.access),
    optional_eq_valid rfl (boolean_readsBack f.deferred),
    optional_eq_valid rfl (list_readsBack argument_readsBack f.arguments),
    optional_eq_valid rfl (text?_readsBack f.description),
    optional_eq_valid rfl (text?_readsBack f.deprecationReason)]
  rfl

theorem enumValue_readsBack : ReadsBack enumValue HostEnumValue.toJson := by
  refine fun v => object_eq_valid ?_ (by simp)
  rw [required_eq_valid rfl (text_readsBack v.name),
    optional_eq_valid rfl (enumLiteral?_readsBack v.value),
    optional_eq_valid rfl (text?_readsBack v.description)]
  rfl

theorem declaration_readsBack : ReadsBack declaration HostDeclaration.toJson := by
  refine fun d => object_eq_valid ?_ (by simp)
  rw [required_eq_valid rfl (declarationKind_readsBack d.kind),
    required_eq_valid rfl (text_readsBack d.name),
    optional_eq_valid rfl (boolean_readsBack d.participates),
    optional_eq_valid rfl (text?_readsBack d.description),
    optional_eq_valid rfl (list_readsBack field_readsBack d.fields),
    optional_eq_valid rfl (list_readsBack text_readsBack d.typeParameters),
    optional_eq_valid rfl (list_readsBack enumValue_readsBack d.values),
    optional_eq_valid rfl (text?_readsBack d.internalType),
    optional_eq_valid rfl (text?_readsBack d.tag),
    optional_eq_valid rfl (text?_readsBack d.implementation)]
  rfl

theorem participation_readsBack : ReadsBack participation Participation.toJson := by
  refine fun p => object_eq_valid ?_ (by simp)
  rw [optional_eq_valid rfl (boolean_readsBack p.participates),
    optional_eq_valid rfl (text?_readsBack p.description)]
  rfl

end Checked

namespace HostUnit

open Checked

/-- A unit is read back as it is written. -/
theorem check_readsBack : ReadsBack check HostUnit.toJson := by
  refine fun u => object_eq_valid ?_ (by simp)
  rw [required_eq_valid rfl (text_readsBack u.name),
    optional_eq_valid rfl (list_readsBack declaration_readsBack u.declarations),
    optional_eq_valid rfl (table_readsBack participation_readsBack u.participation)]
  rfl

theorem load_eq_ok {json : Json} {unit : HostUnit} :
    HostUnit.load json = .ok unit ↔ HostUnit.check json = .valid unit := by
  unfold HostUnit.load
  cases HostUnit.check json with
  | valid u => exact ⟨fun h => by cases h; rfl, fun h => by cases h; rfl⟩
  | faulty fs => exact ⟨fun h => (nomatch h), fun h => nomatch h⟩

/-- A document that is taken has the name of its unit as a text. -/
theorem member?_name_of_check {json : Json} {unit : HostUnit} (h : HostUnit.check json = .valid unit) :
    ∃ members, json = .object members ∧ Json.member? "name" members = some (.string unit.name) := by
  cases json with
  | object members =>
    obtain ⟨_, _, hobject, -, rfl⟩ := seq_eq_valid.1 h
    obtain ⟨u, hbuild, rfl⟩ := map_eq_valid.1 hobject
    obtain ⟨_, _, htable, -, rfl⟩ := seq_eq_valid.1 hbuild
    obtain ⟨_, _, hlist, -, rfl⟩ := seq_eq_valid.1 htable
    obtain ⟨name, hname, rfl⟩ := map_eq_valid.1 hlist
    rw [required, within_eq_valid] at hname
    refine ⟨members, rfl, ?_⟩
    rcases hmember : Json.member? "name" members with _ | value
    · rw [hmember] at hname
      cases hname
    · rw [hmember] at hname
      cases value with
      | string s => cases hname; rfl
      | _ => cases hname
  | _ => cases h

end HostUnit

namespace UnitSource

variable {source : UnitSource} {unit : HostUnit}

theorem name_of_load (h : source.load = .ok unit) : source.name = unit.name := by
  cases source with
  | document json =>
    obtain ⟨members, rfl, hname⟩ := HostUnit.member?_name_of_check (HostUnit.load_eq_ok.1 h)
    rw [name, hname]
    rfl
  | loaded u =>
    cases h
    rfl

theorem extract_of_load (h : source.load = .ok unit) : source.extract = unit.extract := by
  rw [extract, h]
  rfl

/-- A source is compiled as the unit that it is checked to. -/
theorem compileWith_of_load (h : source.load = .ok unit) {config : Config} {runner : HookRunner} :
    source.compileWith config runner = (UnitSource.loaded unit).compileWith config runner := by
  rw [compileWith, extract_of_load h]
  rfl

theorem extractIsolated_of_load (h : source.load = .ok unit) :
    source.extractIsolated = (UnitSource.loaded unit).extractIsolated := by
  rw [extractIsolated, name_of_load h, extract_of_load h]
  rfl

end UnitSource

/-- A source may take the place of another one that is extracted alike. -/
theorem compileAllWith_congr {source source' : UnitSource}
    (h : source.extractIsolated = source'.extractIsolated) (before after : List UnitSource)
    (config : Config) (runner : HookRunner) (workers : Option Int) :
    compileAllWith (before ++ source :: after) config runner workers =
      compileAllWith (before ++ source' :: after) config runner workers := by
  rw [compileAllWith, compileAllWith, List.map_append, List.map_cons, h, List.map_append,
    List.map_cons]

/-- A unit that a document was checked to is checked to itself when it is written with all its
defaults, and no other unit is written like it. The document, what is written and the unit itself are
compiled to the same result, alone and among any other units. -/
theorem HostUnit.load_idempotent {json : Json} {unit : HostUnit} (h : HostUnit.load json = .ok unit) :
    HostUnit.load unit.toJson = .ok unit ∧
    (∀ other : HostUnit, other.toJson = unit.toJson → other = unit) ∧
    ∀ source ∈ [UnitSource.document json, .document unit.toJson], ∀ config runner,
      source.compileWith config runner = (UnitSource.loaded unit).compileWith config runner ∧
      ∀ before after workers,
        compileAllWith (before ++ source :: after) config runner workers =
          compileAllWith (before ++ .loaded unit :: after) config runner workers := by
  have hread (u : HostUnit) : HostUnit.load u.toJson = .ok u :=
    load_eq_ok.2 (check_readsBack u)
  refine ⟨hread unit, fun other heq => ?_, fun source hsource config runner => ?_⟩
  · exact Except.ok.inj ((hread other).symm.trans (heq ▸ hread unit))
  · have hload : source.load = .ok unit := by
      simp only [List.mem_cons, List.not_mem_nil, or_false] at hsource
      rcases hsource with rfl | rfl
      exacts [h, hread unit]
    exact ⟨UnitSource.compileWith_of_load hload, fun before after workers =>
      compileAllWith_congr (UnitSource.extractIsolated_of_load hload) ..⟩

/-- A document in which flags are words and numbers and the values of an enum are of all sorts. -/
def laxDocument : Json :=
  .object [
    ("participation", .object [("Page", .object [("participates", .string "Yes")])]),
    ("name", .string "shop"),
    ("declarations", .array [
      .object [("kind", .string "enum"), ("name", .string "Order"), ("participates", .int 1),
        ("values", .array [
          .object [("name", .string "ASC"), ("value", .bool true)],
          .object [("value", .float (.finite false 4503599627370496 (-51))), ("name", .string "DESC")],
          .object [("name", .string "NONE"), ("value", .null)]])],
      .object [("kind", .string "object"), ("name", .string "Query"),
        ("participates", .float (.finite false 4503599627370496 (-52))),
        ("fields", .array [
          .object [("name", .string "find"), ("deferred", .string "ON"),
            ("type", .object [("kind", .string "union"), ("members", .array [
              .object [("kind", .string "generic"), ("name", .string "Page"),
                ("arguments", .array [.object [("kind", .string "named"), ("name", .string "ID")]])],
              .object [("kind", .string "null")]])])]])]])]

def laxUnit : HostUnit where
  name := "shop"
  declarations := [
    { kind := .enum, name := "Order", participates := true
      values := [{ name := "ASC", value := some (.int 1) }, { name := "DESC", value := some (.int 2) },
        { name := "NONE" }] },
    { kind := .object, name := "Query", participates := true
      fields := [{ name := "find", deferred := true
                   type := some (.union [.generic "Page" [.named "ID"], .absent .null]) }] }]
  participation := [("Page", {})]

theorem laxDocument_reloaded : HostUnit.load laxDocument = .ok laxUnit ∧
    HostUnit.load laxUnit.toJson = .ok laxUnit := by
  have hload : HostUnit.load laxDocument = .ok laxUnit := by with_unfolding_all rfl
  exact ⟨hload, (HostUnit.load_idempotent hload).1⟩

end SchemaCompiler
