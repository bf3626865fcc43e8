import SchemaCompiler.Proofs.Normalized

/-! The units that are accepted. What has to hold of a field, of a declaration of each kind and of a
unit as a whole is said once, without the order in which it is checked, and so is what they become.
An extraction ends well exactly on the well-formed units, and its model is what they become. -/

namespace SchemaCompiler

section

variable {ε α β : Type}

theorem option_mapM_eq_ok {f : α → Except ε β} {a : Option α} {b : Option β} :
    a.mapM f = .ok b ↔ Option.Rel (fun x y => f x = .ok y) a b := by
  rcases a with _ | x
  · constructor
    · intro h
      cases h
      exact .none
    · rintro ⟨⟩
      rfl
  · rw [Option.mapM_some]
    rcases hx : f x with e | y
    · constructor
      · intro h
        cases h
      · rintro (hy | _)
        cases hx.symm.trans hy
    · constructor
      · intro h
        cases h
        exact .some hx
      · rintro (hy | _)
        cases hx.symm.trans hy
        rfl

/-- Names that differ from one another and from those that were seen before. -/
def Fresh (seen names : List String) : Prop :=
  names.Nodup ∧ ∀ name ∈ names, name ∉ seen

theorem fresh_nil (seen : List String) : Fresh seen [] :=
  ⟨.nil, fun _ h => nomatch h⟩

theorem fresh_cons {seen names : List String} {name : String} :
    Fresh seen (name :: names) ↔ name ∉ seen ∧ Fresh (name :: seen) names := by
  rw [Fresh, Fresh, List.nodup_cons, List.forall_mem_cons]
  constructor
  · rintro ⟨⟨hnew, hnodup⟩, hseen, hall⟩
    refine ⟨hseen, hnodup, fun x hx hmem => ?_⟩
    rcases List.mem_cons.1 hmem with rfl | hmem
    · exact hnew hx
    · exact hall x hx hmem
  · rintro ⟨hseen, hnodup, hall⟩
    exact ⟨⟨fun hmem => hall name hmem List.mem_cons_self, hnodup⟩, hseen,
      fun x hx hmem => hall x hx (List.mem_cons_of_mem _ hmem)⟩

theorem fresh_empty {names : List String} : Fresh [] names ↔ names.Nodup := by
  simp [Fresh]

theorem locate_eq_ok {declaration : String} {field : Option String} {x : Except Cause α} {a : α} :
    locate declaration field x = .ok a ↔ x = .ok a := by
  rcases x with cause | b
  · constructor <;> intro h <;> cases h
  · constructor <;> intro h <;> cases h <;> rfl

theorem checkName_eq_ok {name : String} :
    checkName name = .ok () ↔ isSchemaName name = true := by
  unfold checkName
  split
  · rename_i h
    exact ⟨fun _ => h, fun _ => rfl⟩
  · rename_i h
    exact ⟨fun h' => (nomatch h'), fun h' => absurd h' h⟩

end

structure HostArgument.Becomes (param : Option String) (a : HostArgument) (d : ArgumentDescriptor) :
    Prop where
  name : d.name = a.name
  type : a.type.normalize param = .ok d.type
  tag : d.tag = a.tag
  description : d.description = a.description

namespace HostField

/-- What is asked of a field inside a declaration whose type parameter is `param`. -/
structure WellFormed (param : Option String) (f : HostField) : Prop where
  name : isSchemaName f.name = true
  property : f.access = .property → f.type.isSome = true ∧ f.arguments = []
  type : ∀ shape, f.type = some shape → shape.Accepted param
  argumentNames : ∀ a ∈ f.arguments, isSchemaName a.name = true
  argumentTypes : ∀ a ∈ f.arguments, a.type.Accepted param
  distinct : (f.arguments.map (·.name)).Nodup

structure Becomes (param : Option String) (owner : String) (f : HostField) (d : FieldDescriptor) :
    Prop where
  owner : d.owner = owner
  name : d.name = f.name
  type : Option.Rel (fun shape e => shape.normalize param = .ok e) f.type d.type
  access : d.access = f.access
  effect : d.effect = if f.deferred then .deferred else .immediate
  arguments : List.Forall₂ (HostArgument.Becomes param) f.arguments d.arguments
  tag : d.tag = f.tag
  description : d.description = f.description
  deprecationReason : d.deprecationReason = f.deprecationReason

end HostField

namespace HostDeclaration

structure FieldsWellFormed (decl : HostDeclaration) (param : Option String) : Prop where
  some : decl.fields ≠ []
  distinct : (decl.fields.map (·.name)).Nodup
  each : ∀ f ∈ decl.fields, f.WellFormed param

def FormOfKind (decl : HostDeclaration) : Prop :=
  match decl.kind with
  | .object => decl.FieldsWellFormed none
  | .genericObject => ∃ parameter, decl.typeParameters = [parameter] ∧
      isSchemaName parameter = true ∧ decl.FieldsWellFormed (some parameter) ∧
        ∃ f ∈ decl.fields, ∃ shape, f.type = some shape ∧ shape.Mentions parameter
  | .enum => decl.values ≠ [] ∧ (decl.values.map (·.name)).Nodup ∧
      ∀ v ∈ decl.values, isSchemaName v.name = true
  | .scalar => ∃ internalType, decl.internalType = some internalType ∧ internalType ≠ ""

structure WellFormed (decl : HostDeclaration) : Prop where
  name : isSchemaName decl.name = true
  form : decl.FormOfKind

/-- What a declaration with a description is in the source model. -/
def Becomes (decl : HostDeclaration) (description : Option String) : Declaration → Prop
  | .object d => decl.kind = .object ∧ d.name = decl.name ∧ d.description = description ∧
      List.Forall₂ (HostField.Becomes none decl.name) decl.fields d.fields
  | .generic d => decl.kind = .genericObject ∧ d.name = decl.name ∧ d.description = description ∧
      decl.typeParameters = [d.parameter] ∧
        List.Forall₂ (HostField.Becomes (some d.parameter) decl.name) decl.fields d.fields
  | .enum d => decl.kind = .enum ∧ d.name = decl.name ∧ d.description = description ∧
      d.members = decl.values.map fun v => ⟨v.name, v.value.getD (.text v.name), v.description⟩
  | .scalar d => decl.kind = .scalar ∧ d.name = decl.name ∧ d.description = description ∧
      decl.internalType = some d.internalType ∧ d.tag = decl.tag ∧
        d.implementation = decl.implementation

end HostDeclaration

namespace HostUnit

def participating (unit : HostUnit) : List HostDeclaration :=
  unit.declarations.filter unit.includes

structure WellFormed (unit : HostUnit) : Prop where
  distinct : (unit.participating.map (·.name)).Nodup
  each : ∀ decl ∈ unit.participating, decl.WellFormed

/-- The source model of a unit: what its participating declarations are, in order. -/
structure Becomes (unit : HostUnit) (model : SourceModel) : Prop where
  name : model.unit = unit.name
  declarations : List.Forall₂ (fun decl d => decl.Becomes (unit.descriptionOf decl) d)
    unit.participating model.declarations

end HostUnit

variable {param : Option String} {owner : String}

theorem HostArgument.extract_eq_ok {a : HostArgument} {d : ArgumentDescriptor} :
    a.extract param = .ok d ↔ isSchemaName a.name = true ∧ a.Becomes param d := by
  rw [extract, except_bind_eq_ok]
  constructor
  · rintro ⟨_, hname, h⟩
    obtain ⟨e, he, h⟩ := except_bind_eq_ok.1 h
    cases h
    exact ⟨checkName_eq_ok.1 hname, rfl, he, rfl, rfl⟩
  · rintro ⟨hname, hd⟩
    refine ⟨(), checkName_eq_ok.2 hname, except_bind_eq_ok.2 ⟨d.type, hd.type, ?_⟩⟩
    rw [← hd.name, ← hd.tag, ← hd.description]

theorem HostArgument.Becomes.names {as : List HostArgument} {ds : List ArgumentDescriptor}
    (h : List.Forall₂ (HostArgument.Becomes param) as ds) :
    ds.map (·.name) = as.map (·.name) :=
  forall₂_map_eq (h.imp fun _ _ hd => hd.name)

namespace HostField

variable {f : HostField} {d : FieldDescriptor}

theorem checkAccess_eq_ok : f.checkAccess = .ok () ↔
    (f.access = .property → f.type.isSome = true ∧ f.arguments = []) := by
  unfold checkAccess
  rcases f.access with _ | _
  · rcases f.arguments with _ | ⟨a, rest⟩ <;> rcases f.type with _ | shape <;> simp
  · simp

/-- A field passes its checks if it is well-formed, and then it is extracted as a whole. -/
theorem extract_eq_ok : isSchemaName f.name = true ∧ f.extract param owner = .ok d ↔
    f.WellFormed param ∧ f.Becomes param owner d := by
  rw [extract, except_bind_eq_ok]
  constructor
  · rintro ⟨hname, _, haccess, h⟩
    obtain ⟨as, has, h⟩ := except_bind_eq_ok.1 h
    have hall := (mapM_eq_ok.1 has).imp fun _ _ ha => HostArgument.extract_eq_ok.1 ha
    have harguments := hall.imp fun _ _ ha => ha.2
    split at h
    · rename_i hdistinct
      obtain ⟨t, ht, h⟩ := except_bind_eq_ok.1 h
      cases h
      have htype := option_mapM_eq_ok.1 ht
      refine ⟨⟨hname, checkAccess_eq_ok.1 haccess, fun shape hshape => ?_, fun a ha => ?_,
        fun a ha => ?_, HostArgument.Becomes.names harguments ▸ hdistinct⟩,
        rfl, rfl, htype, rfl, rfl, harguments, rfl, rfl, rfl⟩
      · rw [hshape] at htype
        obtain ⟨he⟩ | _ := htype
        exact (shape.normalize_iff_accepted).1 ⟨_, he⟩
      · obtain ⟨_, -, hvalid, -⟩ := forall₂_mem_left hall a ha
        exact hvalid
      · obtain ⟨_, -, -, hbecomes⟩ := forall₂_mem_left hall a ha
        exact (a.type.normalize_iff_accepted).1 ⟨_, hbecomes.type⟩
    · cases h
  · rintro ⟨hf, hd⟩
    have hall : List.Forall₂ (fun a d => HostArgument.extract param a = .ok d) f.arguments
        d.arguments := by
      refine List.Forall₂.imp (fun _ _ ha => HostArgument.extract_eq_ok.2 ha) ?_
      exact (List.forall₂_and_left _ _).2 ⟨hf.argumentNames, hd.arguments⟩
    refine ⟨hf.name, (), checkAccess_eq_ok.2 hf.property,
      except_bind_eq_ok.2 ⟨d.arguments, mapM_eq_ok.2 hall, ?_⟩⟩
    rw [if_pos (HostArgument.Becomes.names hd.arguments ▸ hf.distinct), except_bind_eq_ok]
    refine ⟨d.type, option_mapM_eq_ok.2 hd.type, ?_⟩
    rw [← hd.owner, ← hd.name, ← hd.access, ← hd.effect, ← hd.tag, ← hd.description,
      ← hd.deprecationReason]

theorem WellFormed.becomes (h : f.WellFormed param) (owner : String) :
    ∃ d, f.Becomes param owner d := by
  obtain ⟨as, has⟩ : ∃ as, List.Forall₂ (HostArgument.Becomes param) f.arguments as := by
    refine exists_forall₂ fun a ha => ?_
    obtain ⟨e, he⟩ := (a.type.normalize_iff_accepted).2 (h.argumentTypes a ha)
    exact ⟨⟨a.name, e, a.tag, a.description⟩, rfl, he, rfl, rfl⟩
  obtain ⟨t, ht⟩ : ∃ t, Option.Rel (fun shape e => shape.normalize param = .ok e) f.type t := by
    rcases htype : f.type with _ | shape
    · exact ⟨none, .none⟩
    · obtain ⟨e, he⟩ := (shape.normalize_iff_accepted).2 (h.type shape htype)
      exact ⟨some e, .some he⟩
  exact ⟨⟨owner, f.name, t, f.access, if f.deferred then .deferred else .immediate, as, f.tag,
    f.description, f.deprecationReason⟩, rfl, rfl, ht, rfl, rfl, has, rfl, rfl, rfl⟩

/-- Fields whose names are new pass one after the other. -/
theorem extractFields_eq_ok {seen : List String} {fs : List HostField}
    {ds : List FieldDescriptor} : extractFields param owner seen fs = .ok ds ↔
      Fresh seen (fs.map (·.name)) ∧
        List.Forall₂ (fun f d => f.WellFormed param ∧ f.Becomes param owner d) fs ds := by
  induction fs generalizing seen ds with
  | nil =>
    rw [extractFields, List.forall₂_nil_left_iff]
    exact ⟨fun h => by cases h; exact ⟨fresh_nil seen, rfl⟩, fun h => by rw [h.2]⟩
  | cons f rest ih =>
    rw [extractFields, except_bind_eq_ok, List.map_cons, fresh_cons, List.forall₂_cons_left_iff]
    constructor
    · rintro ⟨_, hname, h⟩
      split at h
      · cases h
      · rename_i hseen
        obtain ⟨d, hd, h⟩ := except_bind_eq_ok.1 h
        obtain ⟨ds', hds, h⟩ := except_bind_eq_ok.1 h
        cases h
        obtain ⟨hfresh, hall⟩ := ih.1 hds
        exact ⟨⟨by simpa using hseen, hfresh⟩, d, ds', extract_eq_ok.1
          ⟨checkName_eq_ok.1 (locate_eq_ok.1 hname), locate_eq_ok.1 hd⟩, hall, rfl⟩
    · rintro ⟨⟨hseen, hfresh⟩, d, ds', hd, hall, rfl⟩
      obtain ⟨hname, hextract⟩ := extract_eq_ok.2 hd
      refine ⟨(), locate_eq_ok.2 (checkName_eq_ok.2 hname), ?_⟩
      rw [if_neg (by simpa using hseen)]
      exact except_bind_eq_ok.2 ⟨d, locate_eq_ok.2 hextract,
        except_bind_eq_ok.2 ⟨ds', ih.2 ⟨hfresh, hall⟩, rfl⟩⟩

end HostField

/-- The values of an enum whose names are new pass one after the other. -/
theorem extractMembers_eq_ok {seen : List String} {vs : List HostEnumValue}
    {members : List EnumMember} : extractMembers owner seen vs = .ok members ↔
      Fresh seen (vs.map (·.name)) ∧ (∀ v ∈ vs, isSchemaName v.name = true) ∧
        members = vs.map fun v => ⟨v.name, v.value.getD (.text v.name), v.description⟩ := by
  induction vs generalizing seen members with
  | nil =>
    rw [extractMembers]
    refine ⟨fun h => ?_, fun h => by rw [h.2.2]; rfl⟩
    cases h
    exact ⟨fresh_nil seen, fun _ hv => (nomatch hv), rfl⟩
  | cons v rest ih =>
    rw [extractMembers, except_bind_eq_ok, List.map_cons, fresh_cons, List.forall_mem_cons]
    constructor
    · rintro ⟨_, hname, h⟩
      split at h
      · cases h
      · rename_i hseen
        obtain ⟨members', hmembers, h⟩ := except_bind_eq_ok.1 h
        cases h
        obtain ⟨hfresh, hnames, rfl⟩ := ih.1 hmembers
        exact ⟨⟨by simpa using hseen, hfresh⟩,
          ⟨checkName_eq_ok.1 (locate_eq_ok.1 hname), hnames⟩, rfl⟩
    · rintro ⟨⟨hseen, hfresh⟩, ⟨hname, hnames⟩, rfl⟩
      refine ⟨(), locate_eq_ok.2 (checkName_eq_ok.2 hname), ?_⟩
      rw [if_neg (by simpa using hseen)]
      exact except_bind_eq_ok.2 ⟨_, ih.2 ⟨hfresh, hnames, rfl⟩, rfl⟩

namespace HostDeclaration

variable {decl : HostDeclaration} {description : Option String}

theorem extractFields_eq_ok {ds : List FieldDescriptor} :
    decl.extractFields param = .ok ds ↔ decl.FieldsWellFormed param ∧
      List.Forall₂ (HostField.Becomes param decl.name) decl.fields ds := by
  unfold extractFields
  split
  · rename_i hempty
    refine ⟨fun h => (nomatch h), fun h => absurd ?_ h.1.some⟩
    simpa using hempty
  · rename_i hsome
    rw [HostField.extractFields_eq_ok, fresh_empty]
    constructor
    · rintro ⟨hdistinct, hall⟩
      refine ⟨⟨by simpa using hsome, hdistinct, fun f hf => ?_⟩, hall.imp fun _ _ h => h.2⟩
      obtain ⟨_, -, hwell, -⟩ := forall₂_mem_left hall f hf
      exact hwell
    · rintro ⟨hwell, hall⟩
      exact ⟨hwell.distinct, (List.forall₂_and_left _ _).2 ⟨hwell.each, hall⟩⟩

theorem FieldsWellFormed.becomes (h : decl.FieldsWellFormed param) :
    ∃ ds, List.Forall₂ (HostField.Becomes param decl.name) decl.fields ds :=
  exists_forall₂ fun f hf => (h.each f hf).becomes decl.name

/-- Some field's type is left open exactly if it mentions the type parameter. -/
theorem usesParam_iff {parameter : String} {ds : List FieldDescriptor}
    (h : List.Forall₂ (HostField.Becomes (some parameter) owner) decl.fields ds) :
    (ds.any fun d => d.type.any TypeExpr.usesParam) = true ↔
      ∃ f ∈ decl.fields, ∃ shape, f.type = some shape ∧ shape.Mentions parameter := by
  simp only [List.any_eq_true, Option.any_eq_true]
  constructor
  · rintro ⟨d, hd, e, htype, huses⟩
    obtain ⟨f, hf, hbecomes⟩ := forall₂_mem_right h d hd
    have hrel := hbecomes.type
    rw [htype] at hrel
    obtain ⟨shape, hshape, hnormal⟩ : ∃ shape, f.type = some shape ∧
        shape.normalize (some parameter) = .ok e := by
      generalize f.type = type at hrel
      obtain ⟨hnormal⟩ | _ := hrel
      exact ⟨_, rfl, hnormal⟩
    exact ⟨f, hf, shape, hshape, (shape.usesParam_iff_mentions parameter hnormal).1 huses⟩
  · rintro ⟨f, hf, shape, hshape, hmentions⟩
    obtain ⟨d, hd, hbecomes⟩ := forall₂_mem_left h f hf
    have hrel := hbecomes.type
    rw [hshape] at hrel
    generalize htype : d.type = type at hrel
    obtain ⟨hnormal⟩ | _ := hrel
    exact ⟨d, hd, _, htype, (shape.usesParam_iff_mentions parameter hnormal).2 hmentions⟩

theorem extractGeneric_eq_ok {d : GenericDecl} (hkind : decl.kind = .genericObject) :
    decl.extractGeneric description = .ok d ↔
      decl.FormOfKind ∧ decl.Becomes description (.generic d) := by
  simp only [FormOfKind, Becomes, hkind, true_and]
  unfold extractGeneric
  split
  · rename_i parameter hparameters
    rw [except_bind_eq_ok]
    constructor
    · rintro ⟨_, hname, h⟩
      obtain ⟨ds, hds, h⟩ := except_bind_eq_ok.1 h
      obtain ⟨hwell, hall⟩ := extractFields_eq_ok.1 hds
      split at h
      · rename_i huses
        cases h
        exact ⟨⟨parameter, hparameters, checkName_eq_ok.1 (locate_eq_ok.1 hname), hwell,
          (usesParam_iff hall).1 huses⟩, rfl, rfl, hparameters, hall⟩
      · cases h
    · rintro ⟨⟨parameter', hparameters', hname, hwell, huses⟩, hdName, hdDescription,
        hdParameter, hall⟩
      obtain rfl : parameter = parameter' := by
        rw [hparameters] at hparameters'
        exact (List.cons.inj hparameters').1
      obtain rfl : parameter = d.parameter := by
        rw [hparameters] at hdParameter
        exact (List.cons.inj hdParameter).1
      refine ⟨(), locate_eq_ok.2 (checkName_eq_ok.2 hname), except_bind_eq_ok.2
        ⟨d.fields, extractFields_eq_ok.2 ⟨hwell, hall⟩, ?_⟩⟩
      rw [if_pos ((usesParam_iff hall).2 huses), ← hdName, ← hdDescription]
  · rename_i parameters hother
    refine ⟨fun h => (nomatch h), ?_⟩
    rintro ⟨⟨parameter, hparameters, -⟩, -⟩
    exact absurd hparameters (hother parameter)

theorem extractEnum_eq_ok {d : EnumDecl} (hkind : decl.kind = .enum) :
    decl.extractEnum description = .ok d ↔
      decl.FormOfKind ∧ decl.Becomes description (.enum d) := by
  simp only [FormOfKind, Becomes, hkind, true_and]
  unfold extractEnum
  split
  · rename_i hempty
    refine ⟨fun h => (nomatch h), fun h => absurd ?_ h.1.1⟩
    simpa using hempty
  · rename_i hsome
    rw [except_bind_eq_ok]
    constructor
    · rintro ⟨members, hmembers, h⟩
      cases h
      obtain ⟨hfresh, hnames, rfl⟩ := extractMembers_eq_ok.1 hmembers
      exact ⟨⟨by simpa using hsome, fresh_empty.1 hfresh, hnames⟩, rfl, rfl, rfl⟩
    · rintro ⟨⟨-, hdistinct, hnames⟩, hdName, hdDescription, hdMembers⟩
      refine ⟨d.members, extractMembers_eq_ok.2 ⟨fresh_empty.2 hdistinct, hnames, hdMembers⟩, ?_⟩
      rw [← hdName, ← hdDescription]

theorem extractScalar_eq_ok {d : ScalarDecl} (hkind : decl.kind = .scalar) :
    decl.extractScalar description = .ok d ↔
      decl.FormOfKind ∧ decl.Becomes description (.scalar d) := by
  simp only [FormOfKind, Becomes, hkind, true_and]
  unfold extractScalar
  split
  · rename_i hnone
    refine ⟨fun h => (nomatch h), ?_⟩
    rintro ⟨⟨_, hsome, -⟩, -⟩
    cases hnone.symm.trans hsome
  · rename_i hempty
    refine ⟨fun h => (nomatch h), ?_⟩
    rintro ⟨⟨_, hsome, hne⟩, -⟩
    cases hempty.symm.trans hsome
    exact absurd rfl hne
  · rename_i internalType hne hsome
    constructor
    · intro h
      cases h
      exact ⟨⟨internalType, hsome, hne⟩, rfl, rfl, hsome, rfl, rfl⟩
    · rintro ⟨-, hdName, hdDescription, hdType, hdTag, hdImplementation⟩
      obtain rfl := Option.some.inj (hsome.symm.trans hdType)
      rw [← hdName, ← hdDescription, ← hdTag, ← hdImplementation]

theorem extract_eq_ok {d : Declaration} : decl.extract description = .ok d ↔
    decl.FormOfKind ∧ decl.Becomes description d := by
  unfold extract
  rcases hkind : decl.kind with _ | _ | _ | _ <;> simp only [except_bind_eq_ok]
  case object =>
    constructor
    · rintro ⟨ds, hds, h⟩
      cases h
      obtain ⟨hwell, hall⟩ := extractFields_eq_ok.1 hds
      exact ⟨by simpa only [FormOfKind, hkind] using hwell, hkind, rfl, rfl, hall⟩
    · rintro ⟨hform, hd⟩
      simp only [FormOfKind, hkind] at hform
      cases d with
      | object d =>
        obtain ⟨-, hdName, hdDescription, hall⟩ := hd
        refine ⟨d.fields, extractFields_eq_ok.2 ⟨hform, hall⟩, ?_⟩
        rw [← hdName, ← hdDescription]
      | _ => cases hkind.symm.trans hd.1
  all_goals
    constructor
    · rintro ⟨part, hpart, h⟩
      cases h
      first
        | exact (extractEnum_eq_ok hkind).1 hpart
        | exact (extractScalar_eq_ok hkind).1 hpart
        | exact (extractGeneric_eq_ok hkind).1 hpart
    · rintro ⟨hform, hd⟩
      cases d <;> first
        | exact ⟨_, (extractEnum_eq_ok hkind).2 ⟨hform, hd⟩, rfl⟩
        | exact ⟨_, (extractScalar_eq_ok hkind).2 ⟨hform, hd⟩, rfl⟩
        | exact ⟨_, (extractGeneric_eq_ok hkind).2 ⟨hform, hd⟩, rfl⟩
        | cases hkind.symm.trans hd.1

theorem Becomes.name {d : Declaration} (h : decl.Becomes description d) : d.name = decl.name := by
  cases d <;> exact h.2.1

/-- A well-formed declaration becomes something. -/
theorem FormOfKind.becomes (h : decl.FormOfKind) (description : Option String) :
    ∃ d, decl.Becomes description d := by
  unfold FormOfKind at h
  split at h
  · rename_i hkind
    obtain ⟨ds, hds⟩ := FieldsWellFormed.becomes h
    exact ⟨.object ⟨decl.name, ds, description⟩, hkind, rfl, rfl, hds⟩
  · rename_i hkind
    obtain ⟨parameter, hparameters, -, hwell, -⟩ := h
    obtain ⟨ds, hds⟩ := hwell.becomes
    exact ⟨.generic ⟨decl.name, parameter, ds, description⟩, hkind, rfl, rfl, hparameters, hds⟩
  · rename_i hkind
    exact ⟨.enum ⟨decl.name, _, description⟩, hkind, rfl, rfl, rfl⟩
  · rename_i hkind
    obtain ⟨internalType, hsome, -⟩ := h
    exact ⟨.scalar ⟨decl.name, internalType, decl.tag, decl.implementation, description⟩, hkind, rfl,
      rfl, hsome, rfl, rfl⟩

end HostDeclaration

namespace HostUnit

variable {unit : HostUnit}

theorem extractAll_eq_ok {seen : List String} {hosts : List HostDeclaration}
    {ds : List Declaration} : unit.extractAll seen hosts = .ok ds ↔
      Fresh seen (hosts.map (·.name)) ∧ List.Forall₂
        (fun decl d => decl.WellFormed ∧ decl.Becomes (unit.descriptionOf decl) d) hosts ds := by
  induction hosts generalizing seen ds with
  | nil =>
    rw [extractAll, List.forall₂_nil_left_iff]
    exact ⟨fun h => by cases h; exact ⟨fresh_nil seen, rfl⟩, fun h => by rw [h.2]⟩
  | cons decl rest ih =>
    rw [extractAll, except_bind_eq_ok, List.map_cons, fresh_cons, List.forall₂_cons_left_iff]
    constructor
    · rintro ⟨_, hname, h⟩
      split at h
      · cases h
      · rename_i hseen
        obtain ⟨d, hd, h⟩ := except_bind_eq_ok.1 h
        obtain ⟨ds', hds, h⟩ := except_bind_eq_ok.1 h
        cases h
        obtain ⟨hfresh, hall⟩ := ih.1 hds
        obtain ⟨hform, hbecomes⟩ := HostDeclaration.extract_eq_ok.1 hd
        exact ⟨⟨by simpa using hseen, hfresh⟩, d, ds',
          ⟨⟨checkName_eq_ok.1 (locate_eq_ok.1 hname), hform⟩, hbecomes⟩, hall, rfl⟩
    · rintro ⟨⟨hseen, hfresh⟩, d, ds', ⟨hwell, hbecomes⟩, hall, rfl⟩
      refine ⟨(), locate_eq_ok.2 (checkName_eq_ok.2 hwell.name), ?_⟩
      rw [if_neg (by simpa using hseen)]
      exact except_bind_eq_ok.2 ⟨d, HostDeclaration.extract_eq_ok.2 ⟨hwell.form, hbecomes⟩,
        except_bind_eq_ok.2 ⟨ds', ih.2 ⟨hfresh, hall⟩, rfl⟩⟩

theorem extract_eq_ok {model : SourceModel} :
    unit.extract = .ok model ↔ unit.WellFormed ∧ unit.Becomes model := by
  rw [extract, except_bind_eq_ok]
  constructor
  · rintro ⟨ds, hds, h⟩
    cases h
    obtain ⟨hfresh, hall⟩ := extractAll_eq_ok.1 hds
    refine ⟨⟨fresh_empty.1 hfresh, fun decl hdecl => ?_⟩, rfl, hall.imp fun _ _ h => h.2⟩
    obtain ⟨_, -, hwell, -⟩ := forall₂_mem_left hall decl hdecl
    exact hwell
  · rintro ⟨hwell, hunit, hall⟩
    exact ⟨model.declarations, extractAll_eq_ok.2 ⟨fresh_empty.2 hwell.distinct,
      (List.forall₂_and_left _ _).2 ⟨hwell.each, hall⟩⟩, by rw [← hunit]⟩

/-- No two declarations of an extracted model share a name. -/
theorem extract_names_nodup {model : SourceModel} (h : unit.extract = .ok model) :
    (model.declarations.map Declaration.name).Nodup := by
  obtain ⟨hwell, hbecomes⟩ := extract_eq_ok.1 h
  rw [forall₂_map_eq (hbecomes.declarations.imp fun _ _ hd => hd.name)]
  exact hwell.distinct

theorem WellFormed.becomes (h : unit.WellFormed) : ∃ model, unit.Becomes model := by
  obtain ⟨ds, hds⟩ : ∃ ds, List.Forall₂
      (fun decl d => HostDeclaration.Becomes decl (unit.descriptionOf decl) d)
      unit.participating ds :=
    exists_forall₂ fun decl hdecl => (h.each decl hdecl).form.becomes _
  exact ⟨⟨unit.name, ds⟩, rfl, hds⟩

/-- An extraction accepts exactly the well-formed units. Its model holds what the declarations that
take part have become, and nothing else. -/
theorem extract_iff_wellFormed (unit : HostUnit) :
    ((∃ model, unit.extract = .ok model) ↔ unit.WellFormed) ∧
      ∀ model, unit.extract = .ok model ↔ unit.WellFormed ∧ unit.Becomes model := by
  refine ⟨⟨?_, fun h => ?_⟩, fun _ => extract_eq_ok⟩
  · rintro ⟨model, hmodel⟩
    exact (extract_eq_ok.1 hmodel).1
  · obtain ⟨model, hmodel⟩ := h.becomes
    exact ⟨model, extract_eq_ok.2 ⟨h, hmodel⟩⟩

end HostUnit

end SchemaCompiler
