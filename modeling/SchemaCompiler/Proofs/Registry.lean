import Mathlib.Data.List.Nodup
import SchemaCompiler.ScalarRegistry

/-! The registry of a model holds the builtin scalars and one scalar for each declared one. No two
of them share a name, or an internal type and a tag, so what is looked up does not hang on the order
in which they were registered. -/

namespace SchemaCompiler

def ScalarDecl.scalar (d : ScalarDecl) : Scalar where
  name := d.name
  internalType := d.internalType
  tag := d.tag
  implementation := d.implementation
  description := d.description

/-- The scalar of a declaration that is registered for an internal type, which may not be its own. -/
def ScalarDecl.scalarFor (d : ScalarDecl) (internalType : String) : Scalar :=
  { d.scalar with internalType := internalType }

namespace ScalarRegistry

/-- Whether a name, and an internal type with a tag, lead to one scalar only. -/
structure Unambiguous (registry : ScalarRegistry) : Prop where
  names : (registry.scalars.map (·.name)).Nodup
  bindings : (registry.scalars.map fun s => (s.internalType, s.tag)).Nodup

variable {registry registry' : ScalarRegistry}

/-- A scalar is registered under a name and a binding that are free. -/
theorem registerFor_eq_ok {internalType : String} {decl : ScalarDecl} {s : Scalar} :
    registry.register internalType decl = .ok (s, registry') ↔
      registry.byName? decl.name = none ∧ registry.binding? internalType decl.tag = none ∧
        (decl.tag = none → registry.tags internalType = []) ∧ s = decl.scalarFor internalType ∧
        registry' = ⟨registry.scalars ++ [decl.scalarFor internalType]⟩ := by
  unfold register
  dsimp only
  rcases registry.byName? decl.name with _ | existing
  · rw [if_neg (by simp)]
    by_cases htag : decl.tag = none ∧ registry.tags internalType ≠ []
    · rw [if_pos (by simpa using htag)]
      exact ⟨fun h => (nomatch h), fun h => absurd (h.2.2.1 htag.1) htag.2⟩
    · rw [if_neg (by simpa using htag)]
      have hfree : decl.tag = none → registry.tags internalType = [] := by
        simpa using htag
      rcases registry.binding? internalType decl.tag with _ | existing
      · constructor
        · intro h
          cases h
          exact ⟨rfl, rfl, hfree, rfl, rfl⟩
        · rintro ⟨-, -, -, rfl, rfl⟩
          rfl
      · exact ⟨fun h => (nomatch h), fun h => nomatch h.2.1⟩
  · rw [if_pos (by simp)]
    exact ⟨fun h => (nomatch h), fun h => nomatch h.1⟩

theorem register_eq_ok {decl : ScalarDecl} {s : Scalar} :
    registry.register decl.internalType decl = .ok (s, registry') ↔
      registry.byName? decl.name = none ∧ registry.binding? decl.internalType decl.tag = none ∧
        (decl.tag = none → registry.tags decl.internalType = []) ∧ s = decl.scalar ∧
        registry' = ⟨registry.scalars ++ [decl.scalar]⟩ :=
  registerFor_eq_ok

theorem Unambiguous.register {internalType : String} {decl : ScalarDecl} {s : Scalar}
    (hr : registry.Unambiguous) (h : registry.register internalType decl = .ok (s, registry')) :
    registry'.Unambiguous := by
  obtain ⟨hname, hbinding, -, -, rfl⟩ := registerFor_eq_ok.1 h
  rw [byName?, List.find?_eq_none] at hname
  rw [binding?, List.find?_eq_none] at hbinding
  constructor
  · rw [List.map_append, List.map_singleton, ← List.concat_eq_append, List.nodup_concat]
    refine ⟨fun hmem => ?_, hr.names⟩
    obtain ⟨t, ht, hsame⟩ := List.mem_map.1 hmem
    exact hname t ht (decide_eq_true hsame)
  · rw [List.map_append, List.map_singleton, ← List.concat_eq_append, List.nodup_concat]
    refine ⟨fun hmem => ?_, hr.bindings⟩
    obtain ⟨t, ht, hsame⟩ := List.mem_map.1 hmem
    obtain ⟨htype, htag⟩ := Prod.mk.inj hsame
    exact hbinding t ht (by simpa using ⟨htype, htag⟩)

theorem Unambiguous.byName?_of_mem (hr : registry.Unambiguous) {s : Scalar}
    (hs : s ∈ registry.scalars) : registry.byName? s.name = some s := by
  rcases h : registry.byName? s.name with _ | found
  · rw [byName?, List.find?_eq_none] at h
    exact absurd (decide_eq_true rfl) (h s hs)
  · have hname : found.name = s.name := by simpa using List.find?_some h
    rw [List.inj_on_of_nodup_map hr.names (List.mem_of_find?_eq_some h) hs hname]

theorem registerAll_eq_ok {decls : List ScalarDecl} (hr : registry.Unambiguous)
    (h : registry.registerAll decls = .ok registry') :
    registry'.Unambiguous ∧ registry'.scalars = registry.scalars ++ decls.map ScalarDecl.scalar := by
  induction decls generalizing registry with
  | nil =>
    cases h
    exact ⟨hr, by simp⟩
  | cons decl rest ih =>
    rw [registerAll] at h
    rcases hfirst : registry.register decl.internalType decl with e | ⟨s, next⟩
    · rw [hfirst] at h; cases h
    · rw [hfirst] at h
      obtain ⟨hunambiguous, heq⟩ := ih (hr.register hfirst) h
      obtain ⟨-, -, -, -, rfl⟩ := register_eq_ok.1 hfirst
      refine ⟨hunambiguous, ?_⟩
      rw [heq, List.map_cons, List.append_assoc, List.singleton_append]

theorem unambiguous_builtin : ({} : ScalarRegistry).Unambiguous :=
  ⟨by decide, by decide⟩

/-- The registry of a model holds the builtin scalars and those that the model declares. -/
theorem ofModel_eq_ok {model : SourceModel} (h : ofModel model = .ok registry) :
    registry.Unambiguous ∧
      registry.scalars = builtinScalars ++ model.scalars.map ScalarDecl.scalar :=
  registerAll_eq_ok unambiguous_builtin h

/-- A scalar that can be registered after some others can be registered after fewer. -/
theorem register_fewer {decl : ScalarDecl} {s : Scalar} {next : ScalarRegistry}
    (hsub : registry'.scalars ⊆ registry.scalars)
    (h : registry.register decl.internalType decl = .ok (s, next)) :
    registry'.register decl.internalType decl =
      .ok (decl.scalar, ⟨registry'.scalars ++ [decl.scalar]⟩) := by
  obtain ⟨hname, hbinding, htags, -, -⟩ := register_eq_ok.1 h
  refine register_eq_ok.2 ⟨?_, ?_, fun htag => ?_, rfl, rfl⟩
  · rw [byName?, List.find?_eq_none] at hname ⊢
    exact fun x hx => hname x (hsub hx)
  · rw [binding?, List.find?_eq_none] at hbinding ⊢
    exact fun x hx => hbinding x (hsub hx)
  · have hfree := htags htag
    rw [tags, List.map_eq_nil_iff, List.filter_eq_nil_iff] at hfree ⊢
    exact fun x hx => hfree x (hsub hx)

/-- Of scalars that can be registered, any can be registered without the others. -/
theorem registerAll_fewer {decls decls' : List ScalarDecl} {all : ScalarRegistry}
    (hdecls : decls'.Sublist decls) (hsub : registry'.scalars ⊆ registry.scalars)
    (h : registry.registerAll decls = .ok all) :
    registry'.registerAll decls' = .ok ⟨registry'.scalars ++ decls'.map ScalarDecl.scalar⟩ := by
  induction hdecls generalizing registry registry' with
  | slnil => simp [registerAll]
  | cons decl _ ih =>
    rw [registerAll] at h
    rcases hfirst : registry.register decl.internalType decl with e | ⟨s, next⟩
    · rw [hfirst] at h; cases h
    · rw [hfirst] at h
      obtain ⟨-, -, -, -, rfl⟩ := register_eq_ok.1 hfirst
      exact ih (List.Subset.trans hsub (List.subset_append_left _ _)) h
  | cons_cons decl _ ih =>
    rw [registerAll] at h ⊢
    rcases hfirst : registry.register decl.internalType decl with e | ⟨s, next⟩
    · rw [hfirst] at h; cases h
    · rw [hfirst] at h
      obtain ⟨-, -, -, -, rfl⟩ := register_eq_ok.1 hfirst
      have hrest := ih (List.append_subset.2 ⟨List.Subset.trans hsub (List.subset_append_left _ _),
        List.subset_append_right _ [decl.scalar]⟩) h
      rw [List.append_assoc, List.singleton_append] at hrest
      rw [register_fewer hsub hfirst]
      exact hrest

end ScalarRegistry

end SchemaCompiler
