import SchemaCompiler.Compilation
import SchemaCompiler.Proofs.WellFormed

/-! Proper models: all names are names of the schema, and nothing that needs a part is without one.
Extractions answer proper models. A hook may answer any model; one that selects declarations keeps
a model proper. -/

namespace SchemaCompiler

structure FieldDescriptor.Proper (f : FieldDescriptor) : Prop where
  name : isSchemaName f.name = true
  arguments : ∀ a ∈ f.arguments, isSchemaName a.name = true

/-- The fields of a declaration. -/
structure ProperFields (fields : List FieldDescriptor) : Prop where
  nonempty : fields ≠ []
  names : (fields.map (·.name)).Nodup
  proper : ∀ f ∈ fields, f.Proper

/-- What a declaration needs besides its name. -/
def Declaration.ProperBody : Declaration → Prop
  | .object d => ProperFields d.fields
  | .generic d => isSchemaName d.parameter = true ∧ ProperFields d.fields
  | .enum d => d.members ≠ [] ∧ ∀ m ∈ d.members, isSchemaName m.name = true
  | .scalar _ => True

structure Declaration.Proper (d : Declaration) : Prop where
  name : isSchemaName d.name = true
  body : d.ProperBody

def SourceModel.Proper (model : SourceModel) : Prop :=
  ∀ d ∈ model.declarations, d.Proper

theorem HostField.Becomes.proper {param : Option String} {owner : String} {f : HostField}
    {d : FieldDescriptor} (hf : f.WellFormed param) (h : f.Becomes param owner d) : d.Proper := by
  refine ⟨h.name ▸ hf.name, fun a ha => ?_⟩
  obtain ⟨host, hhost, hbecomes⟩ := forall₂_mem_right h.arguments a ha
  rw [hbecomes.name]
  exact hf.argumentNames host hhost

namespace HostDeclaration

variable {host : HostDeclaration} {description : Option String}

theorem FieldsWellFormed.proper {param : Option String} {owner : String}
    {fields : List FieldDescriptor} (hwell : host.FieldsWellFormed param)
    (h : List.Forall₂ (HostField.Becomes param owner) host.fields fields) : ProperFields fields := by
  refine ⟨?_, ?_, fun d hd => ?_⟩
  · rintro rfl
    exact hwell.some (List.forall₂_nil_right_iff.1 h)
  · rw [forall₂_map_eq (h.imp fun _ _ hd => hd.name)]
    exact hwell.distinct
  · obtain ⟨f, hf, hbecomes⟩ := forall₂_mem_right h d hd
    exact hbecomes.proper (hwell.each f hf)

/-- What a well-formed declaration becomes is proper. -/
theorem Becomes.proper {d : Declaration} (hwell : host.WellFormed)
    (h : host.Becomes description d) : d.Proper := by
  have hform := hwell.form
  refine ⟨h.name ▸ hwell.name, ?_⟩
  cases d with
  | object d =>
    obtain ⟨hkind, -, -, hfields⟩ := h
    simp only [FormOfKind, hkind] at hform
    exact hform.proper hfields
  | generic d =>
    obtain ⟨hkind, -, -, hparameters, hfields⟩ := h
    simp only [FormOfKind, hkind] at hform
    obtain ⟨parameter, hparameters', hname, hfieldsWell, -⟩ := hform
    obtain rfl : parameter = d.parameter := by
      rw [hparameters] at hparameters'
      exact (List.cons.inj hparameters').1.symm
    exact ⟨hname, hfieldsWell.proper hfields⟩
  | enum d =>
    obtain ⟨hkind, -, -, hmembers⟩ := h
    simp only [FormOfKind, hkind] at hform
    obtain ⟨hsome, -, hnames⟩ := hform
    refine ⟨?_, fun m hm => ?_⟩
    · rw [hmembers]
      simpa using hsome
    · rw [hmembers] at hm
      obtain ⟨v, hv, rfl⟩ := List.mem_map.1 hm
      exact hnames v hv
  | scalar d => trivial

end HostDeclaration

theorem HostUnit.extract_proper {unit : HostUnit} {model : SourceModel}
    (h : unit.extract = .ok model) : model.Proper := by
  obtain ⟨hwell, hbecomes⟩ := extract_eq_ok.1 h
  intro d hd
  obtain ⟨host, hhost, hdecl⟩ := forall₂_mem_right hbecomes.declarations d hd
  exact hdecl.proper (hwell.each host hhost)

theorem UnitSource.extract_proper {source : UnitSource} {model : SourceModel}
    (h : source.extract = .ok model) : model.Proper := by
  obtain ⟨unit, -, h⟩ := except_bind_eq_ok.1 h
  exact HostUnit.extract_proper h

/-- Hooks that answer a proper model when they are given one. -/
def Hooks.KeepProper (hooks : Hooks) : Prop :=
  ∀ f ∈ hooks.pre, ∀ model : SourceModel, model.Proper → (f model).Proper

theorem Hooks.keepProper_empty : ({} : Hooks).KeepProper := by
  intro f hf
  cases hf

theorem Hooks.KeepProper.runPre {hooks : Hooks} (h : hooks.KeepProper) {model : SourceModel}
    (hmodel : model.Proper) : (hooks.runPre model).Proper := by
  obtain ⟨pre, post⟩ := hooks
  rw [Hooks.runPre]
  induction pre generalizing model with
  | nil => exact hmodel
  | cons f rest ih =>
    rw [List.foldl_cons]
    exact ih (h f List.mem_cons_self model hmodel) fun g hg => h g (List.mem_cons_of_mem _ hg)

theorem Hooks.addPre_selections {selections : List Selection} {hooks hooks' : Hooks}
    (h : (selections.map Selection.hook).foldlM Hooks.addPre hooks = .ok hooks') :
    hooks'.pre = hooks.pre ++ selections.map fun s model => model.filter s.selects := by
  induction selections generalizing hooks with
  | nil =>
    cases h
    rw [List.map_nil, List.append_nil]
  | cons s rest ih =>
    rw [List.map_cons, List.foldlM_cons] at h
    obtain ⟨next, hnext, h⟩ := except_bind_eq_ok.1 h
    cases hnext
    rw [ih h, List.append_assoc]
    rfl

/-- Hooks that select declarations keep models proper. -/
theorem Hooks.keepProper_of_selections {selections : List Selection} {hooks : Hooks}
    (h : Hooks.ofLists (selections.map Selection.hook) [] = .ok hooks) : hooks.KeepProper := by
  obtain ⟨hooks', hpre, h⟩ := except_bind_eq_ok.1 h
  cases h
  intro f hf model hmodel
  rw [Hooks.addPre_selections hpre] at hf
  obtain ⟨s, -, rfl⟩ := List.mem_map.1 hf
  exact fun d hd => hmodel d (List.mem_filter.1 hd).1

end SchemaCompiler
