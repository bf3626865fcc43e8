import Mathlib.Data.List.Nodup
import SchemaCompiler.Proofs.Asking

/-! The invariant of a resolution. Names are unique, every node comes from what its name stands for,
and whatever is filled holds what its plan answers, with all its requests met. Instantiations are
begun before they are in the graph, so a type counts as held from its beginning on. -/

namespace SchemaCompiler

namespace Resolution

/-- The types that can be referred to: those of the graph and the instantiations begun. -/
def Holds (s : Resolution) (t : Named) : Prop :=
  t ∈ s.graph.nodes.map Node.ref ∨ ∃ i ∈ s.memo, t = .instantiation i.key

def Met (s : Resolution) : Request → Prop
  | .enter type => s.Holds type
  | .apply generic argument =>
    s.Holds argument ∧ s.Holds (.instantiation ⟨generic.name, argument.name⟩)

/-- An instantiation that was begun and is not finished. -/
def Open (s : Resolution) (key : InstanceKey) : Prop :=
  key ∈ s.memo.map (·.key) ∧ key ∉ s.finished

/-- A state that holds all that another holds, filled instantiations included. -/
structure Below (s s' : Resolution) : Prop where
  holds : ∀ t, s.Holds t → s'.Holds t
  kept : ∀ i ∈ s.memo, i.filled = true → i ∈ s'.memo

/-- A state that came out of another by requests. No object is filled on the way. -/
structure Grows (s s' : Resolution) : Prop where
  nodes : s.graph.nodes <+: s'.graph.nodes
  memo : s.memo <+: s'.memo
  finished : s.finished <+: s'.finished
  templates : s'.graph.templates = s.graph.templates
  filled : ∀ t, Node.object t ∈ s'.graph.nodes → t.filled = true → Node.object t ∈ s.graph.nodes

theorem Grows.refl (s : Resolution) : s.Grows s :=
  ⟨List.prefix_refl _, List.prefix_refl _, List.prefix_refl _, rfl, fun _ h _ => h⟩

theorem Grows.trans {a b c : Resolution} (h₁ : a.Grows b) (h₂ : b.Grows c) : a.Grows c :=
  ⟨h₁.nodes.trans h₂.nodes, h₁.memo.trans h₂.memo, h₁.finished.trans h₂.finished,
    h₂.templates.trans h₁.templates, fun t ht hf => h₁.filled t (h₂.filled t ht hf) hf⟩

theorem Grows.below {s s' : Resolution} (h : s.Grows s') : s.Below s' := by
  refine ⟨fun t ht => ?_, fun i hi _ => h.memo.subset hi⟩
  rcases ht with ht | ⟨i, hi, rfl⟩
  · exact .inl ((h.nodes.map Node.ref).subset ht)
  · exact .inr ⟨i, h.memo.subset hi, rfl⟩

theorem Below.met {s s' : Resolution} (h : s.Below s') {r : Request} (hr : s.Met r) : s'.Met r := by
  cases r with
  | enter type => exact h.holds _ hr
  | apply generic argument => exact ⟨h.holds _ hr.1, h.holds _ hr.2⟩

end Resolution

namespace Scope

/-- Fields are those of a plan whose requests are met. -/
structure Resolved (s : Resolution) (plan : Plan (List GraphField)) (fields : List GraphField) :
    Prop where
  outcome : plan.outcome = .ok fields
  met : ∀ r ∈ plan.requests, s.Met r.2

def planObject (scope : Scope) (decl : ObjectDecl) : Plan (List GraphField) :=
  scope.planFields decl.name [] decl.fields

def planTemplate (scope : Scope) (decl : GenericDecl) : Plan (List GraphField) :=
  scope.planBody decl (.placeholder decl.parameter)

def NodeSound (scope : Scope) (s : Resolution) : Node → Prop
  | .object t => ∃ decl, .object decl ∈ scope.model.declarations ∧ decl.name = t.name ∧
      (t.filled = true → t.description = decl.description ∧
        Resolved s (scope.planObject decl) t.fields)
  | .enum t => ∃ decl, .enum decl ∈ scope.model.declarations ∧ decl.name = t.name ∧
      (t.filled = true → t.description = decl.description ∧ t.values = decl.members)
  | .scalar sc => sc ∈ scope.registry.scalars
  | .pending name _ => scope.IsUnknown name
  | .instantiation t => t ∈ s.memo ∧ t.filled = true

structure EntrySound (scope : Scope) (s : Resolution) (t : Instantiation) (decl : GenericDecl) :
    Prop where
  declared : scope.model.get? decl.name = some (.generic decl)
  key : t.key = ⟨decl.name, t.argument.name⟩
  description : t.description = decl.description
  argument : s.Holds t.argument
  body : t.filled = true → Resolved s (scope.planBody decl (.named t.argument)) t.fields

structure TemplateSound (scope : Scope) (s : Resolution) (t : Template) (decl : GenericDecl) :
    Prop where
  declared : .generic decl ∈ scope.model.declarations
  name : t.name = decl.name
  parameters : t.parameters = [decl.parameter]
  description : t.description = decl.description
  body : Resolved s (scope.planTemplate decl) t.fields

structure Sound (scope : Scope) (s : Resolution) : Prop where
  names : (s.graph.nodes.map Node.name ++ s.graph.templates.map (·.name)).Nodup
  keys : (s.memo.map (·.key)).Nodup
  finished : s.finished.Nodup
  done : ∀ key, key ∈ s.finished ↔ ∃ t, Node.instantiation t ∈ s.graph.nodes ∧ t.key = key
  nodes : ∀ node ∈ s.graph.nodes, scope.NodeSound s node
  memo : ∀ t ∈ s.memo, ∃ decl, scope.EntrySound s t decl
  templates : ∀ t ∈ s.graph.templates, ∃ decl, scope.TemplateSound s t decl

variable {scope : Scope} {s s' : Resolution}

theorem Resolved.mono (h : s.Below s') {plan : Plan (List GraphField)} {fields : List GraphField}
    (hr : Resolved s plan fields) : Resolved s' plan fields :=
  ⟨hr.outcome, fun r hmem => h.met (hr.met r hmem)⟩

theorem NodeSound.mono (h : s.Below s') {node : Node} (hn : scope.NodeSound s node) :
    scope.NodeSound s' node := by
  cases node with
  | object t =>
    obtain ⟨decl, hdecl, hname, hfilled⟩ := hn
    exact ⟨decl, hdecl, hname, fun hf => ⟨(hfilled hf).1, (hfilled hf).2.mono h⟩⟩
  | instantiation t => exact ⟨h.kept t hn.1 hn.2, hn.2⟩
  | enum t => exact hn
  | scalar sc => exact hn
  | pending name site => exact hn

theorem EntrySound.mono (h : s.Below s') {t : Instantiation} {decl : GenericDecl}
    (ht : scope.EntrySound s t decl) : scope.EntrySound s' t decl :=
  ⟨ht.declared, ht.key, ht.description, h.holds _ ht.argument, fun hf => (ht.body hf).mono h⟩

theorem TemplateSound.mono (h : s.Below s') {t : Template} {decl : GenericDecl}
    (ht : scope.TemplateSound s t decl) : scope.TemplateSound s' t decl :=
  ⟨ht.declared, ht.name, ht.parameters, ht.description, ht.body.mono h⟩

theorem Sound.tidy (h : scope.Sound s) : scope.Tidy s := by
  intro node hnode hunknown
  have hn := h.nodes node hnode
  cases node with
  | object t =>
    obtain ⟨decl, hdecl, hname, -⟩ := hn
    exact absurd (hname.trans rfl) (SourceModel.get?_eq_none.1 hunknown.1 _ hdecl)
  | enum t =>
    obtain ⟨decl, hdecl, hname, -⟩ := hn
    exact absurd (hname.trans rfl) (SourceModel.get?_eq_none.1 hunknown.1 _ hdecl)
  | scalar sc => exact absurd hunknown.2.2 (ScalarRegistry.byName?_ne_none hn)
  | pending name site => exact .inl rfl
  | instantiation t => exact .inr ⟨t, rfl⟩

theorem sound_empty (scope : Scope) : scope.Sound {} where
  names := List.nodup_nil
  keys := List.nodup_nil
  finished := List.nodup_nil
  done := by simp
  nodes := by simp
  memo := by simp
  templates := by simp

/-- A node under a free name keeps the invariant. If it is an instantiation, it counts as finished
from then on. -/
theorem Sound.append {node : Node} {finished : List InstanceKey} (h : scope.Sound s)
    (hget : s.graph.get? node.name = none) (htemplate : s.graph.template? node.name = none)
    (hnode : scope.NodeSound s node) (hnodup : finished.Nodup)
    (hdone : ∀ key, key ∈ finished ↔
      key ∈ s.finished ∨ ∃ t, .instantiation t = node ∧ t.key = key) :
    scope.Sound { s with
      graph := { s.graph with nodes := s.graph.nodes ++ [node] }, finished := finished } := by
  have hbelow : s.Below { s with
      graph := { s.graph with nodes := s.graph.nodes ++ [node] }, finished := finished } := by
    refine ⟨fun t ht => ht.imp_left fun ht => ?_, fun i hi _ => hi⟩
    rw [List.map_append]
    exact List.mem_append_left _ ht
  refine ⟨?_, h.keys, hnodup, fun key => ?_, fun n hn => ?_, fun t ht => ?_, fun t ht => ?_⟩
  · rw [List.map_append, List.map_singleton, List.append_assoc, List.singleton_append,
      List.nodup_middle, List.nodup_cons]
    refine ⟨?_, h.names⟩
    rw [List.mem_append, not_or]
    exact ⟨TypeGraph.get?_eq_none.1 hget, TypeGraph.template?_eq_none.1 htemplate⟩
  · rw [hdone, h.done, ← exists_or]
    refine exists_congr fun t => ?_
    rw [List.mem_append, List.mem_singleton, or_and_right]
  · rcases List.mem_append.1 hn with hn | hn
    · exact (h.nodes n hn).mono hbelow
    · rw [List.mem_singleton.1 hn]; exact hnode.mono hbelow
  · obtain ⟨decl, hd⟩ := h.memo t ht
    exact ⟨decl, hd.mono hbelow⟩
  · obtain ⟨decl, hd⟩ := h.templates t ht
    exact ⟨decl, hd.mono hbelow⟩

theorem grows_begin (decl : GenericDecl) (argument : Named) :
    s.Grows (s.begin (begun decl argument)) :=
  ⟨List.prefix_refl _, List.prefix_append _ _, List.prefix_refl _, rfl, fun _ h _ => h⟩

/-- Beginning an instantiation whose argument is held. -/
theorem Sound.begin {decl : GenericDecl} {argument : Named} (h : scope.Sound s)
    (hdecl : scope.model.get? decl.name = some (.generic decl)) (hargument : s.Holds argument)
    (hnew : (⟨decl.name, argument.name⟩ : InstanceKey) ∉ s.memo.map (·.key)) :
    scope.Sound (s.begin (begun decl argument)) := by
  have hgrows := grows_begin decl argument (s := s)
  refine ⟨h.names, ?_, h.finished, h.done, fun n hn => (h.nodes n hn).mono hgrows.below,
    fun t ht => ?_, fun t ht => ?_⟩
  · simp only [Resolution.begin, List.map_append, List.map_singleton]
    rw [← List.concat_eq_append, List.nodup_concat]
    exact ⟨hnew, h.keys⟩
  · rcases List.mem_append.1 ht with ht | ht
    · obtain ⟨d, hd⟩ := h.memo t ht
      exact ⟨d, hd.mono hgrows.below⟩
    · rw [List.mem_singleton.1 ht]
      exact ⟨decl, hdecl, rfl, rfl, hgrows.below.holds _ hargument, fun hf => by cases hf⟩
  · obtain ⟨d, hd⟩ := h.templates t ht
    exact ⟨d, hd.mono hgrows.below⟩

theorem fill_keys (key : InstanceKey) (fields : List GraphField) :
    (s.fill key fields).memo.map (·.key) = s.memo.map (·.key) := by
  simp only [Resolution.fill, List.map_map]
  refine List.map_congr_left fun t _ => ?_
  simp only [Function.comp]
  split <;> rfl

/-- The entry of a key is the only one that filling it changes. -/
theorem mem_fill {decl : GenericDecl} {argument : Named} (fields : List GraphField)
    (hkeys : (s.memo.map (·.key)).Nodup) (hbegun : begun decl argument ∈ s.memo)
    {t : Instantiation} :
    t ∈ (s.fill ⟨decl.name, argument.name⟩ fields).memo ↔
      t = filled decl argument fields ∨ t ∈ s.memo ∧ t.key ≠ ⟨decl.name, argument.name⟩ := by
  simp only [Resolution.fill, List.mem_map]
  constructor
  · rintro ⟨i, hi, rfl⟩
    split
    · rename_i hkey
      have := List.inj_on_of_nodup_map hkeys hi hbegun hkey
      subst this
      exact .inl rfl
    · rename_i hkey
      exact .inr ⟨hi, hkey⟩
  · rintro (rfl | ⟨hi, hkey⟩)
    · exact ⟨_, hbegun, by simp [begun, filled]⟩
    · exact ⟨t, hi, by simp [hkey]⟩

/-- Filling an instantiation with what its plan answers. -/
theorem Sound.fill {decl : GenericDecl} {argument : Named} {fields : List GraphField}
    (h : scope.Sound s) (hbegun : begun decl argument ∈ s.memo)
    (hdecl : scope.model.get? decl.name = some (.generic decl)) (hargument : s.Holds argument)
    (hbody : Resolved s (scope.planBody decl (.named argument)) fields) :
    scope.Sound (s.fill ⟨decl.name, argument.name⟩ fields) ∧
      s.Below (s.fill ⟨decl.name, argument.name⟩ fields) := by
  have hmem {t : Instantiation} := mem_fill fields h.keys hbegun (t := t)
  have hbelow : s.Below (s.fill ⟨decl.name, argument.name⟩ fields) := by
    refine ⟨fun t ht => ?_, fun i hi hfilled => ?_⟩
    · rcases ht with ht | ⟨i, hi, rfl⟩
      · exact .inl ht
      · have hkey : i.key ∈ (s.fill ⟨decl.name, argument.name⟩ fields).memo.map (·.key) := by
          rw [fill_keys]; exact List.mem_map_of_mem hi
        obtain ⟨j, hj, heq⟩ := List.mem_map.1 hkey
        exact .inr ⟨j, hj, by rw [heq]⟩
    · refine hmem.2 (.inr ⟨hi, fun hkey => ?_⟩)
      rw [List.inj_on_of_nodup_map h.keys hi hbegun hkey] at hfilled
      cases hfilled
  refine ⟨⟨h.names, ?_, h.finished, h.done, fun n hn => (h.nodes n hn).mono hbelow,
    fun t ht => ?_, fun t ht => ?_⟩, hbelow⟩
  · rw [fill_keys]; exact h.keys
  · rcases hmem.1 ht with rfl | ⟨ht, -⟩
    · exact ⟨decl, hdecl, rfl, rfl, hbelow.holds _ hargument, fun _ => hbody.mono hbelow⟩
    · obtain ⟨d, hd⟩ := h.memo t ht
      exact ⟨d, hd.mono hbelow⟩
  · obtain ⟨d, hd⟩ := h.templates t ht
    exact ⟨d, hd.mono hbelow⟩

end Scope

end SchemaCompiler
