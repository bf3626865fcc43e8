import SchemaCompiler.Graph.Resolution

/-! Programs, and the steps of a resolution, as functions of the state: what each primitive answers
and the state it leaves. Every later proof about a resolution runs its steps by these equations. -/

namespace SchemaCompiler

/-- A program on a state. What it has written stays when it fails. -/
abbrev Program (σ α : Type) := ExceptT CompileError (StateM σ) α

namespace Program

variable {σ α β : Type}

theorem pure_apply (a : α) (s : σ) : (pure a : Program σ α) s = (.ok a, s) := rfl

theorem throw_apply (e : CompileError) (s : σ) : (throw e : Program σ α) s = (.error e, s) := rfl

theorem get_apply (s : σ) : (get : Program σ σ) s = (.ok s, s) := rfl

theorem modify_apply (f : σ → σ) (s : σ) : (modify f : Program σ Unit) s = (.ok (), f s) := rfl

theorem bind_apply (x : Program σ α) (f : α → Program σ β) (s : σ) :
    (x >>= f) s = match x s with
      | (.ok a, s') => f a s'
      | (.error e, s') => (.error e, s') := by
  show (ExceptT.bind x f) s = _
  unfold ExceptT.bind ExceptT.mk
  show (ExceptT.bindCont f (x s).1) (x s).2 = _
  rcases x s with ⟨_ | _, s'⟩ <;> rfl

end Program

namespace ResolveM

variable {α β : Type}

@[simp] theorem pure_apply (a : α) (s : Resolution) : (pure a : ResolveM α) s = (.ok a, s) := rfl

@[simp] theorem throw_apply (e : CompileError) (s : Resolution) :
    (throw e : ResolveM α) s = (.error e, s) := rfl

@[simp] theorem refuse_apply (c : Cause) (s : Resolution) :
    (refuse c : ResolveM α) s = (.error ⟨c, {}⟩, s) := rfl

@[simp] theorem get_apply (s : Resolution) : (get : ResolveM Resolution) s = (.ok s, s) := rfl

@[simp] theorem set_apply (s s' : Resolution) : (set s' : ResolveM Unit) s = (.ok (), s') := rfl

@[simp] theorem modify_apply (f : Resolution → Resolution) (s : Resolution) :
    (modify f : ResolveM Unit) s = (.ok (), f s) := rfl

@[simp] theorem changeGraph_apply (f : TypeGraph → TypeGraph) (s : Resolution) :
    changeGraph f s = (.ok (), { s with graph := f s.graph }) := rfl

theorem bind_apply (x : ResolveM α) (f : α → ResolveM β) (s : Resolution) :
    (x >>= f) s = match x s with
      | (.ok a, s') => f a s'
      | (.error e, s') => (.error e, s') := by
  rw [Program.bind_apply]
  rcases x s with ⟨_ | _, s'⟩ <;> rfl

theorem bind_ok {x : ResolveM α} {f : α → ResolveM β} {s s' : Resolution} {a : α}
    (h : x s = (.ok a, s')) : (x >>= f) s = f a s' := by
  rw [bind_apply, h]

theorem bind_error {x : ResolveM α} {f : α → ResolveM β} {s s' : Resolution} {e : CompileError}
    (h : x s = (.error e, s')) : (x >>= f) s = (.error e, s') := by
  rw [bind_apply, h]

/-- A sequence that ends well consists of two steps that end well. -/
theorem bind_eq_ok {x : ResolveM α} {f : α → ResolveM β} {s s' : Resolution} {b : β} :
    (x >>= f) s = (.ok b, s') ↔ ∃ a mid, x s = (.ok a, mid) ∧ f a mid = (.ok b, s') := by
  constructor
  · intro h
    rw [bind_apply] at h
    rcases hx : x s with ⟨e | a, mid⟩
    · rw [hx] at h; cases h
    · rw [hx] at h; exact ⟨a, mid, rfl, h⟩
  · rintro ⟨a, mid, hx, hf⟩
    rw [bind_ok hx, hf]

theorem onGraph_apply (step : TypeGraph → TypeGraph.Result α) (s : Resolution) :
    onGraph step s = match step s.graph with
      | .ok (a, graph) => (.ok a, { s with graph := graph })
      | .error e => (.error e, s) := by
  unfold onGraph
  rw [bind_ok (get_apply s)]
  rcases step s.graph with e | ⟨a, g⟩ <;> rfl

theorem onGraph_eq_ok {step : TypeGraph → TypeGraph.Result α} {s s' : Resolution} {a : α} :
    onGraph step s = (.ok a, s') ↔
      ∃ g, step s.graph = .ok (a, g) ∧ s' = { s with graph := g } := by
  rw [onGraph_apply]
  constructor
  · intro h
    rcases hstep : step s.graph with e | ⟨b, g⟩
    · rw [hstep] at h; cases h
    · rw [hstep] at h; cases h; exact ⟨g, rfl, rfl⟩
  · rintro ⟨g, hstep, rfl⟩
    rw [hstep]

theorem attaching_apply (site : Site) (x : ResolveM α) (s : Resolution) :
    attaching site x s = ((x s).1.mapError (·.attach site), (x s).2) := by
  unfold attaching
  rcases x s with ⟨_ | _, s'⟩ <;> rfl

@[simp] theorem attaching_pure (site : Site) (a : α) :
    attaching site (pure a) = (pure a : ResolveM α) := rfl

theorem attaching_bind (site : Site) (x : ResolveM α) (f : α → ResolveM β) :
    attaching site (x >>= f) = attaching site x >>= fun a => attaching site (f a) := by
  funext s
  rw [attaching_apply, bind_apply, bind_apply, attaching_apply]
  rcases x s with ⟨_ | _, s'⟩
  · rfl
  · exact (attaching_apply _ _ _).symm

/-- Attaching a site changes an error only. -/
theorem attaching_eq_ok {site : Site} {x : ResolveM α} {s s' : Resolution} {a : α} :
    attaching site x s = (.ok a, s') ↔ x s = (.ok a, s') := by
  rw [attaching_apply]
  rcases x s with ⟨e | b, t⟩
  · constructor <;> intro h <;> cases h
  · rfl

end ResolveM

end SchemaCompiler
