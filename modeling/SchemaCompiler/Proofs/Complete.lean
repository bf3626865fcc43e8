import SchemaCompiler.Proofs.Declared

/-! What a resolution leaves behind. Each declaration keeps the invariant and enters what it
declares. At the end no instantiation is open and nothing is unknown, so the graph holds exactly
what can be referred to. -/

namespace SchemaCompiler

namespace Resolution

variable {s : Resolution} {name : String}

theorem Only.cons (name : String) {names : List String} (h : s.Only names) :
    s.Only (name :: names) :=
  ⟨fun t ht hf => List.mem_cons_of_mem _ (h.objects t ht hf),
    fun t ht => List.mem_cons_of_mem _ (h.templates t ht)⟩

theorem mem_withObject {change : ObjectType → ObjectType} {nodes : List Node} {t : ObjectType}
    (h : .object t ∈ nodes.map (Node.withObject name change)) :
    ∃ o, .object o ∈ nodes ∧ (o.name = name ∧ t = change o ∨ o.name ≠ name ∧ t = o) := by
  obtain ⟨node, hnode, heq⟩ := List.mem_map.1 h
  cases node with
  | object o =>
    refine ⟨o, hnode, ?_⟩
    by_cases hname : o.name = name
    · rw [Node.withObject, if_pos hname] at heq
      cases heq
      exact .inl ⟨hname, rfl⟩
    · rw [Node.withObject, if_neg hname] at heq
      cases heq
      exact .inr ⟨hname, rfl⟩
  | _ => cases heq

/-- A change of an object that is not filled yet. -/
theorem keeps_withObject {change : ObjectType → ObjectType}
    (hchange : ∀ t, (change t).name = t.name)
    (hempty : ∀ t, .object t ∈ s.graph.nodes → t.name = name → t.filled = false) :
    s.Keeps (s.mapNodes (Node.withObject name change)) where
  toBelow := (harmless_withObject hchange).below s
  objects t ht hf := by
    refine List.mem_map.2 ⟨_, ht, ?_⟩
    have hname : t.name ≠ name := fun hname => by simp [hempty t ht hname] at hf
    rw [Node.withObject, if_neg hname]
  enums t ht hf := ⟨t, List.mem_map.2 ⟨_, ht, rfl⟩, rfl, hf⟩
  templates _ ht := ht

theorem only_withObject {change : ObjectType → ObjectType} {names : List String}
    (hchange : ∀ t, (change t).name = t.name) (h : s.Only (name :: names)) :
    (s.mapNodes (Node.withObject name change)).Only (name :: names) := by
  refine ⟨fun t ht hf => ?_, h.templates⟩
  obtain ⟨o, ho, ⟨hname, rfl⟩ | ⟨-, rfl⟩⟩ := mem_withObject ht
  · rw [hchange, hname]
    exact List.mem_cons_self
  · exact h.objects _ ho hf

theorem keeps_withEnum {change : EnumType → EnumType} (hchange : ∀ t, (change t).name = t.name)
    (hfilled : ∀ t, (change t).filled = true) :
    s.Keeps (s.mapNodes (Node.withEnum name change)) where
  toBelow := (harmless_withEnum hchange).below s
  objects t ht _ := List.mem_map.2 ⟨_, ht, rfl⟩
  enums t ht hf := by
    refine ⟨if t.name = name then change t else t, List.mem_map.2 ⟨_, ht, rfl⟩, ?_, ?_⟩
    · split
      · exact hchange t
      · rfl
    · split
      · exact hfilled t
      · exact hf
  templates _ ht := ht

theorem only_withEnum {change : EnumType → EnumType} {names : List String} (h : s.Only names) :
    (s.mapNodes (Node.withEnum name change)).Only names := by
  refine ⟨fun t ht hf => ?_, h.templates⟩
  obtain ⟨node, hnode, heq⟩ := List.mem_map.1 ht
  cases node with
  | object o => cases heq; exact h.objects _ hnode hf
  | _ => cases heq

theorem holds_object {name : String} :
    s.Holds (.object name) ↔ ∃ t, Node.object t ∈ s.graph.nodes ∧ t.name = name := by
  constructor
  · rintro (h | ⟨i, -, h⟩)
    · obtain ⟨node, hnode, href⟩ := List.mem_map.1 h
      cases node with
      | object t => cases href; exact ⟨t, hnode, rfl⟩
      | _ => cases href
    · cases h
  · rintro ⟨t, ht, rfl⟩
    exact .inl (List.mem_map_of_mem (f := Node.ref) ht)

theorem holds_enum {name : String} :
    s.Holds (.enum name) ↔ ∃ t, Node.enum t ∈ s.graph.nodes ∧ t.name = name := by
  constructor
  · rintro (h | ⟨i, -, h⟩)
    · obtain ⟨node, hnode, href⟩ := List.mem_map.1 h
      cases node with
      | enum t => cases href; exact ⟨t, hnode, rfl⟩
      | _ => cases href
    · cases h
  · rintro ⟨t, ht, rfl⟩
    exact .inl (List.mem_map_of_mem (f := Node.ref) ht)

end Resolution

/-- Whether a declaration has fields of its own, under which its name is entered once. -/
def Declaration.isOwner : Declaration → Bool
  | .object _ | .generic _ => true
  | _ => false

/-- Whether no object and no generic comes after a declaration of its name. -/
def SourceModel.OwnersFresh (model : SourceModel) : Prop :=
  model.declarations.Pairwise fun d d' => d'.isOwner = true → d.name ≠ d'.name

theorem SourceModel.ownersFresh_of_nodup {model : SourceModel}
    (h : (model.declarations.map Declaration.name).Nodup) : model.OwnersFresh := by
  refine (List.pairwise_map.1 h).imp ?_
  intro d d' hne _
  exact hne

/-- A graph is complete when all its types are filled. -/
theorem TypeGraph.assertComplete_eq_ok {graph : TypeGraph} :
    graph.assertComplete = .ok () ↔ ∀ node ∈ graph.nodes, node.filled = true := by
  unfold assertComplete
  rcases h : graph.nodes.find? (!·.filled) with _ | node
  · simpa [h] using List.find?_eq_none.1 h
  · simp only [h]
    refine ⟨fun h' => (nomatch h'), fun hall => ?_⟩
    have hnode := hall node (List.mem_of_find?_eq_some h)
    have hunfilled := List.find?_some h
    simp [hnode] at hunfilled

namespace Scope

variable {scope : Scope} {s s' : Resolution} {depth : Nat}

/-- Whether a declaration has entered what it declares. -/
def Entered (scope : Scope) (s : Resolution) : Declaration → Prop
  | .object decl => ∃ t, Node.object t ∈ s.graph.nodes ∧ t.name = decl.name ∧ t.filled = true ∧
      Resolved s (scope.planObject decl) t.fields
  | .enum decl => ∃ t, Node.enum t ∈ s.graph.nodes ∧ t.name = decl.name ∧ t.filled = true
  | .scalar decl => ∃ sc, scope.registry.byName? decl.name = some sc ∧ s.Holds (.scalar sc)
  | .generic decl => ∃ t ∈ s.graph.templates, scope.TemplateSound s t decl

theorem Entered.mono (h : s.Keeps s') {d : Declaration} (hd : scope.Entered s d) :
    scope.Entered s' d := by
  cases d with
  | object decl =>
    obtain ⟨t, ht, hname, hf, hfields⟩ := hd
    exact ⟨t, h.objects t ht hf, hname, hf, hfields.mono h.toBelow⟩
  | enum decl =>
    obtain ⟨t, ht, hname, hf⟩ := hd
    obtain ⟨t', ht', hname', hf'⟩ := h.enums t ht hf
    exact ⟨t', ht', hname'.trans hname, hf'⟩
  | scalar decl =>
    obtain ⟨sc, hsc, hheld⟩ := hd
    exact ⟨sc, hsc, h.holds _ hheld⟩
  | generic decl =>
    obtain ⟨t, ht, hsound⟩ := hd
    exact ⟨t, h.templates ht, hsound.mono h.toBelow⟩

/-- What a declaration does to a sound state. -/
structure Declares (scope : Scope) (s s' : Resolution) (d : Declaration) : Prop where
  sound : scope.Sound s'
  keeps : s.Keeps s'
  still : ∀ key, s'.Open key ↔ s.Open key
  entered : scope.Entered s' d
  only : ∀ names, s.Only names → s'.Only (d.name :: names)

/-- The type that a name stands for is entered by a step on the graph. -/
theorem enter_ok {t r : Named} {g : TypeGraph} (hs : scope.Sound s) (ht : scope.IsTarget t)
    (h : s.graph.enter {} t = .ok (r, g)) :
    scope.Sound { s with graph := g } ∧ s.Grows { s with graph := g } ∧
      ({ s with graph := g } : Resolution).Holds t := by
  have hadv := enter_advances hs ht {}
  rw [ResolveM.onGraph_eq_ok.2 ⟨g, h, rfl⟩] at hadv
  exact ⟨hadv.sound, hadv.grows, hadv.met r rfl⟩

/-- The plan of a declaration's fields is carried out. -/
theorem resolveFields_ok {owner : String} {env : Environment} {ds : List FieldDescriptor}
    {fields : List GraphField} (hs : scope.Sound s) (henv : EnvKnown s.Holds env)
    (h : scope.resolveFields (instantiateWithin depth) owner env ds s = (.ok fields, s')) :
    scope.Sound s' ∧ s.Grows s' ∧ (∀ key, s'.Open key ↔ s.Open key) ∧
      Resolved s' (scope.planFields owner env ds) fields := by
  have hperform := (resolveFields_eq depth scope owner env ds hs.tidy).symm.trans h
  have hadv := perform_advances (sturdy_instantiateWithin depth scope) hs
    (fun _ ht => ht) (planFields_careful scope henv owner ds).ordered
  rw [hperform] at hadv
  exact ⟨hadv.sound, hadv.grows, hadv.still fields rfl, (perform_eq_ok.1 hperform).2,
    hadv.met fields rfl⟩

/-- The object of a name is not filled if what is found under the name is not. -/
theorem unfilled_of_name {name : String} (hs : scope.Sound s)
    (hunfilled : (s.graph.object? name).any (·.filled) = false) :
    ∀ t, Node.object t ∈ s.graph.nodes → t.name = name → t.filled = false := by
  intro t ht hname
  rw [← hname, TypeGraph.object?_of_mem hs.nodup ht] at hunfilled
  exact hunfilled

theorem sound_describeObject {decl : ObjectDecl} (hs : scope.Sound s)
    (hunfilled : (s.graph.object? decl.name).any (·.filled) = false) :
    scope.Sound (describeObject s decl) := by
  refine hs.mapNodes (Resolution.harmless_withObject fun _ => rfl) fun node hnode => ?_
  cases node with
  | object o =>
    obtain ⟨d, hd, hdName, hfilled⟩ := hs.nodes _ hnode
    by_cases hoName : o.name = decl.name
    · rw [Node.withObject, if_pos hoName]
      have hf := unfilled_of_name hs hunfilled o hnode hoName
      exact ⟨d, hd, hdName, fun h => by simp [hf] at h⟩
    · rw [Node.withObject, if_neg hoName]
      exact ⟨d, hd, hdName, hfilled⟩
  | _ => exact hs.nodes _ hnode

theorem declareObject_declares {decl : ObjectDecl} (hs : scope.Sound s)
    (hdecl : .object decl ∈ scope.model.declarations)
    (h : scope.declareObject depth decl s = (.ok (), s')) : scope.Declares s s' (.object decl) := by
  obtain ⟨r, g, fields, s₂, hshell, hunfilled, hrun, rfl⟩ := declareObject_eq_ok.1 h
  obtain ⟨hs₀, hgrows₀, hheld⟩ := enter_ok (t := .object decl.name) hs ⟨decl, hdecl, rfl⟩ hshell
  obtain ⟨t, ht, hname⟩ := Resolution.holds_object.1 hheld
  have hempty := unfilled_of_name hs₀ hunfilled
  have hs₁ := sound_describeObject hs₀ hunfilled
  obtain ⟨hs₂, hgrows₂, hstill, hfields⟩ := resolveFields_ok hs₁ (fun _ _ h => by cases h) hrun
  -- the only object of the name is the one that was entered here
  have hdescribed : ∀ o, Node.object o ∈ s₂.graph.nodes → o.name = decl.name →
      o = { t with description := decl.description } := by
    intro o ho hoName
    have hmem : Node.object { t with description := decl.description } ∈ s₂.graph.nodes := by
      refine hgrows₂.nodes.subset (List.mem_map.2 ⟨_, ht, ?_⟩)
      rw [Node.withObject, if_pos hname]
    have heq := List.inj_on_of_nodup_map hs₂.nodup ho hmem (hoName.trans hname.symm)
    exact Node.object.inj heq
  have hunfilled' := hempty t ht hname
  have hkeeps₂ : s₂.Keeps (fillObject s₂ decl fields) :=
    Resolution.keeps_withObject (fun _ => rfl) fun o ho hoName => by
      rw [hdescribed o ho hoName]; exact hunfilled'
  have hkeeps₁ : ({ s with graph := g } : Resolution).Keeps
      (describeObject { s with graph := g } decl) :=
    Resolution.keeps_withObject (fun _ => rfl) hempty
  refine ⟨?_, hgrows₀.keeps.trans (hkeeps₁.trans (hgrows₂.keeps.trans hkeeps₂)), hstill, ?_, ?_⟩
  · refine hs₂.mapNodes (Resolution.harmless_withObject fun _ => rfl) fun node hnode => ?_
    cases node with
    | object o =>
      by_cases hoName : o.name = decl.name
      · rw [Node.withObject, if_pos hoName]
        refine ⟨decl, hdecl, hoName.symm, fun _ => ⟨?_, hfields⟩⟩
        rw [hdescribed o hnode hoName]
      · rw [Node.withObject, if_neg hoName]
        exact hs₂.nodes _ hnode
    | _ => exact hs₂.nodes _ hnode
  · obtain ⟨o, ho, hoName⟩ := Resolution.holds_object.1
      (hgrows₂.below.holds _ (hkeeps₁.holds _ hheld))
    refine ⟨{ o with fields := fields, filled := true }, List.mem_map.2 ⟨_, ho, ?_⟩, hoName, rfl,
      hfields.mono hkeeps₂.toBelow⟩
    rw [Node.withObject, if_pos hoName]
  · intro names honly
    have honly₁ : (describeObject { s with graph := g } decl).Only (decl.name :: names) :=
      Resolution.only_withObject (fun _ => rfl) ((honly.grows hgrows₀).cons _)
    exact Resolution.only_withObject (fun _ => rfl) (honly₁.grows hgrows₂)

theorem declareEnum_declares {decl : EnumDecl} (hs : scope.Sound s)
    (hdecl : .enum decl ∈ scope.model.declarations)
    (h : declareEnum decl s = (.ok (), s')) : scope.Declares s s' (.enum decl) := by
  obtain ⟨r, g, hshell, rfl⟩ := declareEnum_eq_ok.1 h
  obtain ⟨hs₀, hgrows₀, hheld⟩ := enter_ok (t := .enum decl.name) hs ⟨decl, hdecl, rfl⟩ hshell
  obtain ⟨t, ht, hname⟩ := Resolution.holds_enum.1 hheld
  refine ⟨?_, hgrows₀.keeps.trans (Resolution.keeps_withEnum (fun _ => rfl) fun _ => rfl),
    fun _ => .rfl, ?_, fun names honly => (Resolution.only_withEnum (honly.grows hgrows₀)).cons _⟩
  · refine hs₀.mapNodes (Resolution.harmless_withEnum fun _ => rfl) fun node hnode => ?_
    cases node with
    | enum e =>
      by_cases heName : e.name = decl.name
      · rw [Node.withEnum, if_pos heName]
        exact ⟨decl, hdecl, heName.symm, fun _ => ⟨rfl, rfl⟩⟩
      · rw [Node.withEnum, if_neg heName]
        exact hs₀.nodes _ hnode
    | _ => exact hs₀.nodes _ hnode
  · refine ⟨{ t with description := decl.description, values := decl.members, filled := true },
      List.mem_map.2 ⟨_, ht, ?_⟩, hname, rfl⟩
    rw [Node.withEnum, if_pos hname]

theorem declareScalar_declares {decl : ScalarDecl} (hs : scope.Sound s)
    (h : scope.declareScalar decl s = (.ok (), s')) : scope.Declares s s' (.scalar decl) := by
  obtain ⟨sc, r, g, hsc, hadopt, rfl⟩ := declareScalar_eq_ok.1 h
  obtain ⟨hs₀, hgrows₀, hheld⟩ := enter_ok (t := .scalar sc) hs (ScalarRegistry.byName?_mem hsc)
    hadopt
  exact ⟨hs₀, hgrows₀.keeps, fun _ => .rfl, ⟨sc, hsc, hheld⟩,
    fun names honly => (honly.grows hgrows₀).cons _⟩

/-- A template under a free name keeps the invariant. -/
theorem sound_addTemplate {decl : GenericDecl} {fields : List GraphField} (h : scope.Sound s)
    (hdecl : .generic decl ∈ scope.model.declarations)
    (htemplate : s.graph.template? decl.name = none) (hget : s.graph.get? decl.name = none)
    (hfields : Resolved s (scope.planTemplate decl) fields) :
    scope.Sound (addTemplate s (templateOf decl fields)) := by
  have hbelow : s.Below (addTemplate s (templateOf decl fields)) :=
    ⟨fun _ ht => ht, fun _ hi _ => hi⟩
  refine ⟨?_, h.keys, h.finished, h.done, fun n hn => (h.nodes n hn).mono hbelow, fun t ht => ?_,
    fun t ht => ?_⟩
  · show (s.graph.nodes.map Node.name ++
      (s.graph.templates ++ [templateOf decl fields]).map Template.name).Nodup
    rw [List.map_append, List.map_singleton, ← List.append_assoc, ← List.concat_eq_append,
      List.nodup_concat]
    refine ⟨fun hn => ?_, h.names⟩
    rcases List.mem_append.1 hn with hn | hn
    · exact TypeGraph.get?_eq_none.1 hget hn
    · exact TypeGraph.template?_eq_none.1 htemplate hn
  · obtain ⟨d, hd⟩ := h.memo t ht
    exact ⟨d, hd.mono hbelow⟩
  · rcases List.mem_append.1 ht with ht | ht
    · obtain ⟨d, hd⟩ := h.templates t ht
      exact ⟨d, hd.mono hbelow⟩
    · rw [List.mem_singleton.1 ht]
      exact ⟨decl, hdecl, rfl, rfl, rfl, hfields.mono hbelow⟩

theorem declareGeneric_declares {decl : GenericDecl} (hs : scope.Sound s)
    (hdecl : .generic decl ∈ scope.model.declarations)
    (h : scope.declareGeneric depth decl s = (.ok (), s')) : scope.Declares s s' (.generic decl) := by
  obtain ⟨fields, s₁, hrun, htemplate, hget, rfl⟩ := declareGeneric_eq_ok.1 h
  obtain ⟨hs₁, hgrows₁, hstill, hfields⟩ := resolveFields_ok hs (envKnown_placeholder _ _) hrun
  have hbelow : s₁.Below (addTemplate s₁ (templateOf decl fields)) :=
    ⟨fun _ ht => ht, fun _ hi _ => hi⟩
  have hkeeps : s₁.Keeps (addTemplate s₁ (templateOf decl fields)) :=
    ⟨hbelow, fun _ ht _ => ht, fun t ht hf => ⟨t, ht, rfl, hf⟩,
      fun _ ht => List.mem_append_left _ ht⟩
  refine ⟨sound_addTemplate hs₁ hdecl htemplate hget hfields, hgrows₁.keeps.trans hkeeps, hstill,
    ⟨_, List.mem_append_right _ (List.mem_singleton_self _), hdecl, rfl, rfl, rfl,
      hfields.mono hbelow⟩, fun names honly => ?_⟩
  refine ⟨fun t ht hf => ((honly.grows hgrows₁).cons decl.name).objects t ht hf,
    fun t ht => ?_⟩
  rcases List.mem_append.1 ht with ht | ht
  · exact ((honly.grows hgrows₁).cons decl.name).templates t ht
  · rw [List.mem_singleton.1 ht]
    exact List.mem_cons_self

/-- Each declaration that ends well keeps the invariant and enters what it declares. -/
theorem declare_declares {d : Declaration} (hs : scope.Sound s)
    (hd : d ∈ scope.model.declarations) (h : scope.declare depth d s = (.ok (), s')) :
    scope.Declares s s' d := by
  cases d with
  | object decl => exact declareObject_declares hs hd h
  | generic decl => exact declareGeneric_declares hs hd h
  | enum decl => exact declareEnum_declares hs hd h
  | scalar decl => exact declareScalar_declares hs h

theorem resolveFields_focus (scope : Scope) (site : Site) (inst : Instantiate) (owner : String)
    (env : Environment) (ds : List FieldDescriptor) :
    (scope.focus site).resolveFields inst owner env ds = scope.resolveFields inst owner env ds := by
  induction ds with
  | nil => simp only [resolveFields]
  | cons d rest ih => simp only [resolveFields, ih]; rfl

/-- Where a declaration is entered from makes a difference to its errors only. -/
theorem declare_focus (scope : Scope) (site : Site) (depth : Nat) (d : Declaration) :
    (scope.focus site).declare depth d = scope.declare depth d := by
  cases d with
  | object decl => simp only [declare, declareObject, resolveFields_focus]
  | generic decl => simp only [declare, declareGeneric, resolveFields_focus]
  | enum decl => rfl
  | scalar decl => rfl

theorem declareAll_cons_eq_ok {d : Declaration} {ds : List Declaration} :
    scope.declareAllWithin depth (d :: ds) s = (.ok (), s') ↔
      ∃ mid, scope.declare depth d s = (.ok (), mid) ∧ scope.declareAllWithin depth ds mid = (.ok (), s') := by
  rw [declareAllWithin, ResolveM.bind_eq_ok, located, declare_focus]
  constructor
  · rintro ⟨_, mid, h, hrest⟩
    exact ⟨mid, ResolveM.attaching_eq_ok.1 h, hrest⟩
  · rintro ⟨mid, h, hrest⟩
    exact ⟨(), mid, ResolveM.attaching_eq_ok.2 h, hrest⟩

/-- A run of declarations from a sound state. -/
theorem declareAll_ok {ds : List Declaration} {s : Resolution} (hs : scope.Sound s)
    (hds : ∀ d ∈ ds, d ∈ scope.model.declarations)
    (h : scope.declareAllWithin depth ds s = (.ok (), s')) :
    scope.Sound s' ∧ s.Keeps s' ∧ (∀ key, s'.Open key ↔ s.Open key) ∧
      ∀ d ∈ ds, scope.Entered s' d := by
  induction ds generalizing s with
  | nil =>
    cases h
    exact ⟨hs, .refl _, fun _ => .rfl, fun _ hd => nomatch hd⟩
  | cons d rest ih =>
    obtain ⟨mid, hfirst, hrest⟩ := declareAll_cons_eq_ok.1 h
    have hd := declare_declares hs (hds d List.mem_cons_self) hfirst
    obtain ⟨hs', hkeeps, hstill, hentered⟩ :=
      ih hd.sound (fun x hx => hds x (List.mem_cons_of_mem _ hx)) hrest
    refine ⟨hs', hd.keeps.trans hkeeps, fun key => (hstill key).trans (hd.still key),
      fun x hx => ?_⟩
    rcases List.mem_cons.1 hx with rfl | hx
    · exact hd.entered.mono hkeeps
    · exact hentered x hx

/-- What a declaration has entered goes by its name: a node that is filled, or a template. -/
theorem Entered.holder {d : Declaration} (h : scope.Entered s d) :
    (∃ node ∈ s.graph.nodes, node.name = d.name ∧ node.filled = true) ∨
      ∃ t ∈ s.graph.templates, t.name = d.name := by
  cases d with
  | object decl =>
    obtain ⟨t, ht, hname, hf, -⟩ := h
    exact .inl ⟨_, ht, hname, hf⟩
  | enum decl =>
    obtain ⟨t, ht, hname, hf⟩ := h
    exact .inl ⟨_, ht, hname, hf⟩
  | scalar decl =>
    obtain ⟨sc, hsc, hheld | ⟨i, -, hi⟩⟩ := h
    · obtain ⟨node, hnode, href⟩ := List.mem_map.1 hheld
      cases node with
      | scalar found =>
        cases href
        exact .inl ⟨_, hnode, ScalarRegistry.byName?_name hsc, rfl⟩
      | _ => cases href
    · cases hi
  | generic decl =>
    obtain ⟨t, ht, hsound⟩ := h
    exact .inr ⟨t, ht, hsound.name⟩

/-- An object or a generic is refused if its name was entered before. -/
theorem declare_fresh (hs : scope.Sound s) {d d' : Declaration} (hentered : scope.Entered s d)
    (hd' : d' ∈ scope.model.declarations) (hrun : scope.declare depth d' s = (.ok (), s'))
    (howner : d'.isOwner = true) : d.name ≠ d'.name := by
  intro hname
  have hholder := hentered.holder
  rw [hname] at hholder
  cases d' with
  | object decl =>
    obtain ⟨r, g, fields, s₁, hshell, hunfilled, -, -⟩ := declareObject_eq_ok.1 hrun
    have htarget : scope.IsTarget (.object decl.name) := ⟨decl, hd', rfl⟩
    have henter : s.graph.enter {} (.object decl.name) = .ok (r, g) := hshell
    obtain ⟨-, ⟨rfl, node, hnode, href⟩ | ⟨htemplate, hget, -⟩⟩ :=
      enter_eq_ok hs.tidy htarget henter
    · have hnodeName : node.name = decl.name := congrArg Named.name href
      rcases hholder with ⟨x, hx, hxName, hf⟩ | ⟨t, ht, htName⟩
      · -- the only node of the name is an object that is not filled
        obtain rfl := List.inj_on_of_nodup_map hs.nodup hx hnode (hxName.trans hnodeName.symm)
        cases x with
        | object t =>
          have hempty := unfilled_of_name hs hunfilled t hx (Named.object.inj href)
          exact absurd (hf.symm.trans hempty) Bool.noConfusion
        | _ => cases href
      · exact (List.nodup_append.1 hs.names).2.2 _ (List.mem_map_of_mem hnode) t.name
          (List.mem_map_of_mem ht) (hnodeName.trans htName.symm)
    · rw [TypeGraph.get?_eq_none] at hget
      rw [TypeGraph.template?_eq_none] at htemplate
      rcases hholder with ⟨x, hx, hxName, -⟩ | ⟨t, ht, htName⟩
      · exact hget (List.mem_map.2 ⟨x, hx, hxName⟩)
      · exact htemplate (List.mem_map.2 ⟨t, ht, htName⟩)
  | generic decl =>
    obtain ⟨fields, s₁, hfields, htemplate, hget, -⟩ := declareGeneric_eq_ok.1 hrun
    obtain ⟨-, hgrows, -, -⟩ := resolveFields_ok hs (envKnown_placeholder _ _) hfields
    rw [TypeGraph.template?_eq_none, hgrows.templates] at htemplate
    rw [TypeGraph.get?_eq_none] at hget
    rcases hholder with ⟨x, hx, hxName, -⟩ | ⟨t, ht, htName⟩
    · exact hget (List.mem_map.2 ⟨x, hgrows.nodes.subset hx, hxName⟩)
    · exact htemplate (List.mem_map.2 ⟨t, ht, htName⟩)
  | _ => cases howner

/-- In a model that is resolved no object and no generic comes after a declaration of its name. -/
theorem ownersFresh_of_declareAll {ds : List Declaration} (hs : scope.Sound s)
    (hds : ∀ d ∈ ds, d ∈ scope.model.declarations)
    (h : scope.declareAllWithin depth ds s = (.ok (), s')) :
    (∀ d, scope.Entered s d → ∀ d' ∈ ds, d'.isOwner = true → d.name ≠ d'.name) ∧
      ds.Pairwise fun d d' => d'.isOwner = true → d.name ≠ d'.name := by
  induction ds generalizing s with
  | nil => exact ⟨fun _ _ _ hd => (nomatch hd), .nil⟩
  | cons first rest ih =>
    obtain ⟨mid, hfirst, hrest⟩ := declareAll_cons_eq_ok.1 h
    have hdeclares := declare_declares hs (hds first List.mem_cons_self) hfirst
    obtain ⟨hlater, hpairwise⟩ :=
      ih hdeclares.sound (fun x hx => hds x (List.mem_cons_of_mem _ hx)) hrest
    refine ⟨fun d hentered d' hd' howner => ?_,
      List.pairwise_cons.2 ⟨hlater first hdeclares.entered, hpairwise⟩⟩
    rcases List.mem_cons.1 hd' with rfl | hd'
    · exact declare_fresh hs hentered (hds _ List.mem_cons_self) hfirst howner
    · exact hlater d (hentered.mono hdeclares.keeps) d' hd' howner

/-- What a resolution that ends well leaves behind. -/
structure Complete (scope : Scope) (s : Resolution) : Prop where
  sound : scope.Sound s
  closed : ∀ key, ¬ s.Open key
  filled : ∀ node ∈ s.graph.nodes, node.filled = true
  entered : ∀ d ∈ scope.model.declarations, scope.Entered s d

theorem resolveWithin_eq_ok :
    scope.resolveWithin depth s = (.ok (), s') ↔
      scope.declareAllWithin depth scope.model.declarations s = (.ok (), s') ∧
        ∀ node ∈ s'.graph.nodes, node.filled = true := by
  rw [resolveWithin, ResolveM.bind_eq_ok]
  constructor
  · rintro ⟨_, mid, hrun, h⟩
    rw [ResolveM.bind_ok (ResolveM.get_apply mid)] at h
    rcases hcheck : mid.graph.assertComplete with e | _
    · rw [hcheck] at h; cases h
    · rw [hcheck] at h
      cases h
      exact ⟨hrun, TypeGraph.assertComplete_eq_ok.1 hcheck⟩
  · rintro ⟨hrun, hfilled⟩
    refine ⟨(), s', hrun, ?_⟩
    rw [ResolveM.bind_ok (ResolveM.get_apply s'), TypeGraph.assertComplete_eq_ok.2 hfilled]
    rfl

theorem complete_of_resolveWithin (h : scope.resolveWithin depth {} = (.ok (), s)) :
    scope.Complete s := by
  obtain ⟨hrun, hfilled⟩ := resolveWithin_eq_ok.1 h
  obtain ⟨hs, -, hstill, hentered⟩ := declareAll_ok (sound_empty scope) (fun _ hd => hd) hrun
  exact ⟨hs, fun key hopen => (nomatch ((hstill key).1 hopen).1), hfilled, hentered⟩

theorem complete_of_resolve (h : scope.resolve {} = (.ok (), s)) : scope.Complete s :=
  complete_of_resolveWithin h

theorem ownersFresh_of_resolve (h : scope.resolve {} = (.ok (), s)) : scope.model.OwnersFresh :=
  (ownersFresh_of_declareAll (sound_empty scope) (fun _ hd => hd) (resolveWithin_eq_ok.1 h).1).2

namespace Complete

/-- Every instantiation that was begun stands in the graph. -/
theorem instantiation (h : scope.Complete s) {i : Instantiation} (hi : i ∈ s.memo) :
    Node.instantiation i ∈ s.graph.nodes := by
  have hfinished : i.key ∈ s.finished := by
    by_contra hunfinished
    exact h.closed i.key ⟨List.mem_map_of_mem hi, hunfinished⟩
  obtain ⟨t, ht, hkey⟩ := (h.sound.done i.key).1 hfinished
  rwa [← List.inj_on_of_nodup_map h.sound.keys (h.sound.nodes _ ht).1 hi hkey]

theorem holds_iff (h : scope.Complete s) {t : Named} :
    s.Holds t ↔ ∃ node ∈ s.graph.nodes, node.ref = t := by
  constructor
  · rintro (ht | ⟨i, hi, rfl⟩)
    · exact List.mem_map.1 ht
    · exact ⟨_, h.instantiation hi, rfl⟩
  · rintro ⟨node, hnode, rfl⟩
    exact .inl (List.mem_map_of_mem hnode)

/-- A name refers to one type only. -/
theorem holds_inj (h : scope.Complete s) {t t' : Named} (ht : s.Holds t) (ht' : s.Holds t')
    (hname : t.name = t'.name) : t = t' := by
  obtain ⟨node, hnode, rfl⟩ := h.holds_iff.1 ht
  obtain ⟨node', hnode', rfl⟩ := h.holds_iff.1 ht'
  rw [List.inj_on_of_nodup_map h.sound.nodup hnode hnode' hname]

/-- The template of a declared generic. -/
theorem template (h : scope.Complete s) {decl : GenericDecl}
    (hdecl : .generic decl ∈ scope.model.declarations) :
    ∃ t ∈ s.graph.templates, scope.TemplateSound s t decl :=
  h.entered _ hdecl

end Complete

end Scope

end SchemaCompiler
