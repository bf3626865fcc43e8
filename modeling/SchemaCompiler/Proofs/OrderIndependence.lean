import SchemaCompiler.Proofs.Alike
import SchemaCompiler.Proofs.WellFormed
import SchemaCompiler.Proofs.Building

/-! The order of the declarations makes no difference to an analysis. What an analysis leaves behind
is told by the plans of the declarations, up to the order in which it came up, and scopes of the same
declarations make the same plans. -/

namespace SchemaCompiler

namespace SourceModel

variable {model model' : SourceModel} {a b : Analysis}

/-- Two analyses that are made in different orders. -/
structure Reordered (model model' : SourceModel) (a b : Analysis) : Prop where
  names : (model.declarations.map Declaration.name).Nodup
  perm : model.declarations.Perm model'.declarations
  left : model.analyze = .ok a
  right : model'.analyze = .ok b

theorem Reordered.symm (h : Reordered model model' a b) : Reordered model' model b a :=
  ⟨(h.perm.map _).nodup_iff.1 h.names, h.perm.symm, h.right, h.left⟩

theorem Reordered.alike (h : Reordered model model' a b) : a.scope.Alike b.scope := by
  obtain ⟨rfl, hregistry, -, -⟩ := analyze_eq_ok.1 h.left
  obtain ⟨rfl, hregistry', -, -⟩ := analyze_eq_ok.1 h.right
  exact alike_of_perm h.perm h.names hregistry hregistry'

theorem Reordered.holds (h : Reordered model model' a b) {t : Named}
    (ht : a.resolution.Holds t) : b.resolution.Holds t :=
  (complete_of_analyze h.right).holds_of_occurs
    ((within_of_analyze h.left t ht).alike h.alike)

theorem Reordered.declaration (h : Reordered model model' a b) {d d' : Declaration}
    (hd : d ∈ a.scope.model.declarations) (hd' : d' ∈ b.scope.model.declarations)
    (hname : d.name = d'.name) : d = d' := by
  have hmem := (h.alike.declarations d').2 hd'
  have hnames := h.names
  rw [← (analyze_eq_ok.1 h.left).1] at hnames
  exact List.inj_on_of_nodup_map hnames hd hmem hname

/-- The fields that a plan answers are the same in either order. -/
theorem Reordered.fields (h : Reordered model model' a b) {owner : String}
    {env : Scope.Environment} {ds : List FieldDescriptor} {fields fields' : List GraphField}
    (hf : Scope.Resolved a.resolution (a.scope.planFields owner env ds) fields)
    (hf' : Scope.Resolved b.resolution (b.scope.planFields owner env ds) fields') :
    fields = fields' := by
  have halike := (Scope.planFields_alike h.alike owner env ds).outcome fields
  exact Except.ok.inj ((halike.1 hf.outcome).symm.trans hf'.outcome)

theorem Reordered.object_eq (h : Reordered model model' a b) {t t' : ObjectType}
    (ht : .object t ∈ a.graph.nodes) (ht' : .object t' ∈ b.graph.nodes)
    (hname : t'.name = t.name) : t' = t := by
  have hca := complete_of_analyze h.left
  have hcb := complete_of_analyze h.right
  obtain ⟨decl, hdecl, hdeclName, hf⟩ := hca.sound.nodes _ ht
  obtain ⟨decl', hdecl', hdeclName', hf'⟩ := hcb.sound.nodes _ ht'
  have hfilled := hca.filled _ ht
  have hfilled' := hcb.filled _ ht'
  have hsame := h.declaration hdecl hdecl' (hdeclName.trans (hname.symm.trans hdeclName'.symm))
  obtain rfl : decl = decl' := Declaration.object.inj hsame
  obtain ⟨hdescription, hfields⟩ := hf hfilled
  obtain ⟨hdescription', hfields'⟩ := hf' hfilled'
  have hfieldsEq := h.fields hfields hfields'
  obtain ⟨name, fields, description, filled⟩ := t
  obtain ⟨name', fields', description', filled'⟩ := t'
  simp only [Node.filled] at hfilled hfilled' hname hdescription hdescription' hfieldsEq
  subst hfilled hfilled' hname hdescription hdescription' hfieldsEq
  rfl

theorem Reordered.enum_eq (h : Reordered model model' a b) {t t' : EnumType}
    (ht : .enum t ∈ a.graph.nodes) (ht' : .enum t' ∈ b.graph.nodes)
    (hname : t'.name = t.name) : t' = t := by
  have hca := complete_of_analyze h.left
  have hcb := complete_of_analyze h.right
  obtain ⟨decl, hdecl, hdeclName, hf⟩ := hca.sound.nodes _ ht
  obtain ⟨decl', hdecl', hdeclName', hf'⟩ := hcb.sound.nodes _ ht'
  have hfilled := hca.filled _ ht
  have hfilled' := hcb.filled _ ht'
  have hsame := h.declaration hdecl hdecl' (hdeclName.trans (hname.symm.trans hdeclName'.symm))
  obtain rfl : decl = decl' := Declaration.enum.inj hsame
  obtain ⟨hdescription, hvalues⟩ := hf hfilled
  obtain ⟨hdescription', hvalues'⟩ := hf' hfilled'
  obtain ⟨name, values, description, filled⟩ := t
  obtain ⟨name', values', description', filled'⟩ := t'
  simp only [Node.filled] at hfilled hfilled' hname hdescription hdescription' hvalues hvalues'
  subst hfilled hfilled' hname hdescription hdescription' hvalues hvalues'
  rfl

theorem Reordered.instantiation_eq (h : Reordered model model' a b) {i i' : Instantiation}
    (hi : .instantiation i ∈ a.graph.nodes) (hi' : .instantiation i' ∈ b.graph.nodes)
    (hkey : i'.key = i.key) : i' = i := by
  have hca := complete_of_analyze h.left
  have hcb := complete_of_analyze h.right
  obtain ⟨hmemo, hfilled⟩ := hca.sound.nodes _ hi
  obtain ⟨hmemo', hfilled'⟩ := hcb.sound.nodes _ hi'
  obtain ⟨decl, hentry⟩ := hca.sound.memo i hmemo
  obtain ⟨decl', hentry'⟩ := hcb.sound.memo i' hmemo'
  obtain ⟨hname, hargumentName⟩ := InstanceKey.mk.inj
    (hentry'.key.symm.trans (hkey.trans hentry.key))
  have hsame := h.declaration (get?_mem hentry.declared) (get?_mem hentry'.declared) hname.symm
  obtain rfl : decl = decl' := Declaration.generic.inj hsame
  have hargument : i'.argument = i.argument :=
    hcb.holds_inj hentry'.argument (h.holds hentry.argument) hargumentName
  have hfields' := hentry'.body hfilled'
  rw [hargument] at hfields'
  have hfieldsEq := h.fields (hentry.body hfilled) hfields'
  have hdescription := hentry.description.trans hentry'.description.symm
  obtain ⟨key, argument, fields, description, filled⟩ := i
  obtain ⟨key', argument', fields', description', filled'⟩ := i'
  simp only at hfilled hfilled' hkey hargument hfieldsEq hdescription
  subst hfilled hfilled' hkey hargument hfieldsEq hdescription
  rfl

theorem Reordered.mem_nodes (h : Reordered model model' a b) {node : Node}
    (hnode : node ∈ a.graph.nodes) : node ∈ b.graph.nodes := by
  have hheld := h.holds (.inl (List.mem_map_of_mem hnode))
  obtain ⟨node', hnode', href⟩ := (complete_of_analyze h.right).holds_iff.1 hheld
  suffices hsame : node' = node from hsame ▸ hnode'
  cases node with
  | object t =>
    cases node' with
    | object t' => rw [h.object_eq hnode hnode' (Named.object.inj href)]
    | _ => cases href
  | enum t =>
    cases node' with
    | enum t' => rw [h.enum_eq hnode hnode' (Named.enum.inj href)]
    | _ => cases href
  | scalar sc =>
    cases node' with
    | scalar sc' => rw [show sc' = sc from Named.scalar.inj href]
    | _ => cases href
  | pending name site => exact absurd ((complete_of_analyze h.left).filled _ hnode) Bool.noConfusion
  | instantiation i =>
    cases node' with
    | instantiation i' => rw [h.instantiation_eq hnode hnode' (Named.instantiation.inj href)]
    | _ => cases href

theorem Reordered.mem_templates (h : Reordered model model' a b) {template : Template}
    (htemplate : template ∈ a.graph.templates) : template ∈ b.graph.templates := by
  obtain ⟨decl, hsound⟩ := (complete_of_analyze h.left).sound.templates template htemplate
  obtain ⟨template', htemplate', hsound'⟩ :=
    (complete_of_analyze h.right).template ((h.alike.declarations _).1 hsound.declared)
  have hname := hsound.name.trans hsound'.name.symm
  have hparameters := hsound.parameters.trans hsound'.parameters.symm
  have hfields := h.fields hsound.body hsound'.body
  have hdescription := hsound.description.trans hsound'.description.symm
  suffices hsame : template = template' from hsame ▸ htemplate'
  obtain ⟨name, parameters, fields, description⟩ := template
  obtain ⟨name', parameters', fields', description'⟩ := template'
  simp only at hname hparameters hfields hdescription
  subst hname hparameters hfields hdescription
  rfl

theorem Reordered.nodes (h : Reordered model model' a b) :
    a.graph.nodes.Perm b.graph.nodes :=
  (List.perm_ext_iff_of_nodup (complete_of_analyze h.left).sound.nodup.of_map
    (complete_of_analyze h.right).sound.nodup.of_map).2
    fun _ => ⟨h.mem_nodes, h.symm.mem_nodes⟩

theorem Reordered.templates (h : Reordered model model' a b) :
    a.graph.templates.Perm b.graph.templates :=
  (List.perm_ext_iff_of_nodup (templates_nodup h.left).of_map (templates_nodup h.right).of_map).2
    fun _ => ⟨h.mem_templates, h.symm.mem_templates⟩

theorem Reordered.finished (h : Reordered model model' a b) :
    a.resolution.finished.Perm b.resolution.finished := by
  have ha := (complete_of_analyze h.left).sound
  have hb := (complete_of_analyze h.right).sound
  refine (List.perm_ext_iff_of_nodup ha.finished hb.finished).2 fun key => ?_
  rw [ha.done, hb.done]
  exact ⟨fun ⟨i, hi, hkey⟩ => ⟨i, h.mem_nodes hi, hkey⟩,
    fun ⟨i, hi, hkey⟩ => ⟨i, h.symm.mem_nodes hi, hkey⟩⟩

end SourceModel

/-- Analyses that differ in nothing but the order in which things came up. Under a name stands the
same type or template, with the same fields in the same order, and the same resolvers belong to
it. -/
structure Analysis.Alike (a b : Analysis) : Prop where
  nodes : a.graph.nodes.Perm b.graph.nodes
  templates : a.graph.templates.Perm b.graph.templates
  instantiations : a.instantiations.Perm b.instantiations
  get? : ∀ name, a.graph.get? name = b.graph.get? name
  template? : ∀ name, a.graph.template? name = b.graph.template? name
  forType : ∀ owner, a.bindings.forType owner = b.bindings.forType owner

namespace SourceModel

variable {model model' : SourceModel} {a b : Analysis}

theorem Reordered.forType (h : Reordered model model' a b) (owner : String) :
    a.bindings.forType owner = b.bindings.forType owner := by
  have howners : a.graph.owners.Perm b.graph.owners :=
    (h.nodes.map _).append (h.templates.map _)
  by_cases howner : ∃ o ∈ a.graph.owners, o.1 = owner
  · obtain ⟨o, ho, rfl⟩ := howner
    exact Except.ok.inj ((bindFields_of_owner h.left ho).symm.trans
      (bindFields_of_owner h.right (howners.mem_iff.1 ho)))
  · rw [forType_eq_nil h.left fun o ho hname => howner ⟨o, ho, hname⟩,
      forType_eq_nil h.right fun o ho hname => howner ⟨o, howners.mem_iff.2 ho, hname⟩]

theorem Reordered.alike_analysis (h : Reordered model model' a b) : a.Alike b := by
  have hget : ∀ name, a.resolution.graph.get? name = b.resolution.graph.get? name :=
    find?_name_of_perm h.nodes (complete_of_analyze h.left).sound.nodup
  have hinstantiation : a.resolution.graph.instantiation? = b.resolution.graph.instantiation? := by
    funext key
    rw [TypeGraph.instantiation?, TypeGraph.instantiation?, hget]
  refine ⟨h.nodes, h.templates, ?_, hget, ?_, h.forType⟩
  · rw [Analysis.instantiations, Analysis.instantiations, Resolution.listed, Resolution.listed,
      hinstantiation]
    exact h.finished.filterMap _
  · exact find?_name_of_perm h.templates (templates_nodup h.left)

/-- The order of the declarations of a model makes no difference to its analysis. -/
theorem analyze_perm {registry registry' : ScalarRegistry}
    (hnames : (model.declarations.map Declaration.name).Nodup)
    (hperm : model.declarations.Perm model'.declarations)
    (h : ScalarRegistry.ofModel model = .ok registry)
    (h' : ScalarRegistry.ofModel model' = .ok registry') :
    ((∃ a, model.analyze = .ok a) ↔ ∃ b, model'.analyze = .ok b) ∧
      ∀ a b, model.analyze = .ok a → model'.analyze = .ok b → a.Alike b := by
  have halike := alike_of_perm hperm hnames h h'
  constructor
  · rw [analyze_ok_iff hnames h, analyze_ok_iff ((hperm.map _).nodup_iff.1 hnames) h']
    exact ⟨.alike halike, .alike halike.symm⟩
  · exact fun a b ha hb => Reordered.alike_analysis ⟨hnames, hperm, ha, hb⟩

end SourceModel

/-- However the declarations of an extracted model are put in order, the model is analyzed or it is
not, and the analyses are alike. -/
theorem HostUnit.analyze_reordered {unit : HostUnit} {model : SourceModel}
    {declarations : List Declaration} {registry registry' : ScalarRegistry}
    (hmodel : unit.extract = .ok model) (hperm : model.declarations.Perm declarations)
    (h : ScalarRegistry.ofModel model = .ok registry)
    (h' : ScalarRegistry.ofModel { model with declarations } = .ok registry') :
    ((∃ a, model.analyze = .ok a) ↔
        ∃ b, ({ model with declarations } : SourceModel).analyze = .ok b) ∧
      ∀ a b, model.analyze = .ok a →
        ({ model with declarations } : SourceModel).analyze = .ok b → a.Alike b :=
  SourceModel.analyze_perm (extract_names_nodup hmodel) hperm h h'

theorem treeUnit_reversed : ∃ model a b, treeUnit.extract = .ok model ∧ model.analyze = .ok a ∧
    ({ model with declarations := model.declarations.reverse } : SourceModel).analyze = .ok b ∧
      a.Alike b := by
  have hrun : (treeUnit.extract.toOption.bind fun model => (ScalarRegistry.ofModel
      { model with declarations := model.declarations.reverse }).toOption).isSome = true := by
    decide +kernel
  obtain ⟨registry', hregistry'⟩ := Option.isSome_iff_exists.1 hrun
  obtain ⟨model, hmodel, hregistry'⟩ := Option.bind_eq_some_iff.1 hregistry'
  obtain ⟨model', a, -, hmodel', ha, -⟩ := treeUnit_analyzed
  rw [except_toOption_eq_some] at hmodel hregistry'
  obtain rfl : model = model' := Except.ok.inj (hmodel.symm.trans hmodel')
  obtain ⟨hiff, halike⟩ := HostUnit.analyze_reordered hmodel (List.reverse_perm _).symm
    (SourceModel.analyze_eq_ok.1 ha).2.1 hregistry'
  obtain ⟨b, hb⟩ := hiff.1 ⟨a, ha⟩
  exact ⟨model, a, b, hmodel, ha, hb, halike a b ha hb⟩

end SchemaCompiler
