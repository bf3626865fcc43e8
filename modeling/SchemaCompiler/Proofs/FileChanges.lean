import Mathlib.Data.List.Nodup
import SchemaCompiler.CommandLine.Files

/-! What writing files changes. A path leads to one place, whatever stands on its way, and a file is
put there or nothing is changed. When several files are written, a place holds what the last file of
that place holds; everything else stays, except that directories are made on the way. -/

namespace SchemaCompiler

namespace Files

def stepFrom (here : List String) (step : String) : List String :=
  if step = "." then here else if step = ".." then here.dropLast else here ++ [step]

end Files

namespace Path

/-- The place that a path from the root leads to, whatever stands there. -/
def place (path : Path) : List String :=
  path.parts.foldl Files.stepFrom []

def Passes (path : Path) (place : List String) : Prop :=
  ∃ steps, steps <+: path.parts ∧ steps.foldl Files.stepFrom [] = place

end Path

structure Target where
  path : Path
  content : String

namespace Target

def place (t : Target) : List String :=
  t.path.place

def entry (t : Target) : Entry :=
  .file t.content.toUTF8.toList

end Target

def lastAt? (targets : List Target) (place : List String) : Option Target :=
  targets.reverse.find? (·.place = place)

theorem lastAt?_append (targets others : List Target) (place : List String) :
    lastAt? (targets ++ others) place = (lastAt? others place).or (lastAt? targets place) := by
  rw [lastAt?, List.reverse_append, List.find?_append, lastAt?, lastAt?]

theorem lastAt?_singleton (t : Target) (place : List String) :
    lastAt? [t] place = if t.place = place then some t else none := by
  rw [lastAt?, List.reverse_singleton, List.find?_singleton]
  simp only [decide_eq_true_eq]

theorem lastAt?_concat (targets : List Target) (t : Target) :
    lastAt? (targets ++ [t]) t.place = some t := by
  rw [lastAt?_append, lastAt?_singleton, if_pos rfl, Option.some_or]

theorem lastAt?_eq_none {targets : List Target} {place : List String} :
    lastAt? targets place = none ↔ ∀ t ∈ targets, t.place ≠ place := by
  simp [lastAt?]

/-- Of targets with places of their own, each is the last one of its place. -/
theorem lastAt?_of_mem {targets : List Target} (hplaces : (targets.map Target.place).Nodup)
    {t : Target} (ht : t ∈ targets) : lastAt? targets t.place = some t := by
  rcases hlast : lastAt? targets t.place with _ | t'
  · exact absurd rfl (lastAt?_eq_none.1 hlast t ht)
  · have hmem : t' ∈ targets := List.mem_reverse.1 (List.mem_of_find?_eq_some hlast)
    have hplace : t'.place = t.place := by simpa using List.find?_some hlast
    rw [List.inj_on_of_nodup_map hplaces hmem ht hplace]

namespace Files

/-- What files are after some targets were written: a place holds what the last target of that place
holds, and elsewhere nothing is changed, except that directories are made at certain places. -/
structure Receives (before after : Files) (written : List Target) (made : List String → Prop) :
    Prop where
  contents : ∀ place t, lastAt? written place = some t → after.entryAt? place = some t.entry
  others : ∀ place, lastAt? written place = none → after.entryAt? place = before.entryAt? place ∨
    (before.entryAt? place = none ∧ after.entryAt? place = some .directory ∧ made place)

variable {files before mid after : Files} {made : List String → Prop}

theorem Receives.refl (files : Files) (made : List String → Prop) :
    files.Receives files [] made where
  contents _ _ h := nomatch h
  others _ _ := .inl rfl

theorem Receives.mono {made' : List String → Prop} {written : List Target}
    (h : before.Receives after written made) (hmade : ∀ place, made place → made' place) :
    before.Receives after written made' where
  contents := h.contents
  others place hnone := (h.others place hnone).imp_right fun ⟨hbefore, hafter, hplace⟩ =>
    ⟨hbefore, hafter, hmade place hplace⟩

theorem Receives.trans {first second : List Target} (h₁ : before.Receives mid first made)
    (h₂ : mid.Receives after second made) : before.Receives after (first ++ second) made where
  contents place t ht := by
    rw [lastAt?_append] at ht
    rcases hsecond : lastAt? second place with _ | t'
    · rw [hsecond, Option.none_or] at ht
      have hmid := h₁.contents place t ht
      rcases h₂.others place hsecond with hsame | ⟨hnone, -, -⟩
      · rw [hsame, hmid]
      · cases hmid.symm.trans hnone
    · rw [hsecond, Option.some_or] at ht
      exact h₂.contents place t (hsecond.trans ht)
  others place hnone := by
    rw [lastAt?_append, Option.or_eq_none_iff] at hnone
    rcases h₂.others place hnone.1 with hsame | ⟨hmid, hafter, hplace⟩
    · rw [hsame]
      exact h₁.others place hnone.2
    · rcases h₁.others place hnone.2 with hsame | ⟨-, hdirectory, -⟩
      · exact .inr ⟨hsame ▸ hmid, hafter, hplace⟩
      · cases hdirectory.symm.trans hmid

/-- The entry that is found under a name after another one was put somewhere. -/
theorem find?_put (files : Files) (place other : List String) (entry : Entry) :
    (files.put place entry).entries.find? (·.1 = other) =
      if other = place then some (place, entry) else files.entries.find? (·.1 = other) := by
  by_cases hthere : files.entries.any (·.1 = place) = true
  · rw [put, if_pos hthere, List.find?_map]
    have hkeys : ((fun p : List String × Entry => decide (p.1 = other)) ∘
        fun (p, e) => if p = place then (p, entry) else (p, e)) =
        fun p => decide (p.1 = other) := by
      funext ⟨p, e⟩
      dsimp only [Function.comp]
      split_ifs <;> rfl
    rw [hkeys]
    split_ifs with hother
    · subst hother
      obtain ⟨⟨p, e⟩, hfound⟩ := Option.isSome_iff_exists.1 (List.find?_isSome.2
        (List.any_eq_true.1 hthere))
      obtain rfl : p = other := by simpa using List.find?_some hfound
      rw [hfound, Option.map_some]
      dsimp only
      rw [if_pos rfl]
    · rcases hfind : files.entries.find? (fun p => decide (p.1 = other)) with _ | ⟨p, e⟩
      · rw [hfind, Option.map_none]
      · obtain rfl : p = other := by simpa using List.find?_some hfind
        rw [hfind, Option.map_some]
        dsimp only
        rw [if_neg hother]
  · rw [put, if_neg hthere, List.find?_append, List.find?_singleton]
    simp only [List.any_eq_true, decide_eq_true_eq, not_exists, not_and] at hthere ⊢
    split_ifs with hkey hother hother
    · subst hother
      have hnone : files.entries.find? (·.1 = other) = none :=
        List.find?_eq_none.2 fun x hx => by simpa using hthere x hx
      rw [hnone, Option.none_or]
    · exact absurd hkey.symm hother
    · exact absurd hother.symm hkey
    · rw [Option.or_none]

theorem entryAt?_put {place : List String} (hplace : place ≠ []) (entry : Entry)
    (other : List String) : (files.put place entry).entryAt? other =
      if other = place then some entry else files.entryAt? other := by
  rcases other with _ | ⟨name, inner⟩
  · rw [if_neg hplace.symm]
    rfl
  · simp only [entryAt?, List.isEmpty_cons, Bool.false_eq_true, if_false, find?_put]
    split_ifs <;> rfl

/-- Steps lead to their place, if they lead anywhere. -/
theorem walk_eq_ok {steps here place : List String} (h : files.walk here steps = .ok place) :
    steps.foldl stepFrom here = place := by
  induction steps generalizing here with
  | nil => exact Except.ok.inj h
  | cons step rest ih =>
    rw [walk] at h
    rw [List.foldl_cons, stepFrom]
    split at h
    · split_ifs at h ⊢ with hstay hup hlong
      · exact ih h
      · exact ih h
      · exact ih h
    · cases h
    · cases h

theorem makeDirectory_receives {path : Path} (h : files.makeDirectory path = .ok after) :
    files.Receives after [] (· = path.place) := by
  unfold makeDirectory at h
  split at h
  · cases h
  · rename_i place hwalk
    split at h
    · cases h
    · rename_i hnone
      cases h
      have hplace : place ≠ [] := by
        rintro rfl
        cases hnone
      refine ⟨fun _ _ h => (nomatch h), fun other _ => ?_⟩
      rw [entryAt?_put hplace]
      split_ifs with hother
      · exact .inr ⟨hother ▸ hnone, rfl, hother.trans (walk_eq_ok hwalk).symm⟩
      · exact .inl rfl

theorem ensureDirectory_receives {path : Path} (h : files.ensureDirectory path = .ok after) :
    files.Receives after [] (· = path.place) := by
  unfold ensureDirectory at h
  split at h
  · rename_i made hmade
    cases h
    exact makeDirectory_receives hmade
  · split at h
    · cases h
      exact .refl _ _
    · cases h

/-- Directories are made at places on the way, whether or not all of them can be. -/
theorem ensureAll_receives (files : Files) (names : List String) :
    files.Receives (files.ensureAll names).2 [] (Path.Passes ⟨true, names.reverse⟩) := by
  induction names with
  | nil => exact .refl _ _
  | cons name outer ih =>
    have hself {start after : Files}
        (h : start.ensureDirectory ⟨true, (name :: outer).reverse⟩ = .ok after) :
        start.Receives after [] (Path.Passes ⟨true, (name :: outer).reverse⟩) :=
      (ensureDirectory_receives h).mono fun place hplace => ⟨_, List.prefix_rfl, hplace.symm⟩
    have houter : files.Receives (files.ensureAll outer).2 []
        (Path.Passes ⟨true, (name :: outer).reverse⟩) := by
      refine ih.mono fun place ⟨steps, hsteps, hplace⟩ => ⟨steps, hsteps.trans ?_, hplace⟩
      exact List.reverse_cons ▸ List.prefix_append _ _
    rw [ensureAll]
    split
    · rename_i after hensure
      exact hself hensure
    · rcases hrun : files.ensureAll outer with ⟨fault | _, mid⟩
      · rw [hrun] at houter
        exact houter
      · rw [hrun] at houter
        dsimp only
        split
        · rename_i after hensure
          exact houter.trans (hself hensure)
        · exact houter
    · exact .refl _ _

theorem makeDirectories_receives (files : Files) (path : Path) :
    files.Receives (files.makeDirectories path).2 [] path.Passes := by
  unfold makeDirectories
  split
  · exact .refl _ _
  · have h := files.ensureAll_receives path.parts.reverse
    rw [List.reverse_reverse] at h
    exact h

/-- A file is written to its place, or nothing is changed. -/
theorem write_receives (files : Files) (t : Target) (made : List String → Prop) :
    ((files.write t.path t.content).1 = .ok () ∧
      files.Receives (files.write t.path t.content).2 [t] made) ∨
    (∃ fault, (files.write t.path t.content).1 = .error fault) ∧
      (files.write t.path t.content).2 = files := by
  unfold write
  split
  · exact .inr ⟨⟨_, rfl⟩, rfl⟩
  · split
    · exact .inr ⟨⟨_, rfl⟩, rfl⟩
    · rename_i place hwalk
      obtain rfl : t.place = place := walk_eq_ok hwalk
      split
      · exact .inr ⟨⟨_, rfl⟩, rfl⟩
      · rename_i hfree
        have hplace : t.place ≠ [] := fun hempty => hfree (by rw [hempty]; rfl)
        refine .inl ⟨rfl, fun place t' ht' => ?_, fun place hnone => .inl ?_⟩
        · rw [lastAt?_singleton] at ht'
          split_ifs at ht' with heq
          cases ht'
          rw [entryAt?_put hplace, if_pos heq.symm]
          rfl
        · have hother := lastAt?_eq_none.1 hnone t List.mem_cons_self
          rw [entryAt?_put hplace, if_neg hother.symm]

def deposit (files : Files) (t : Target) : Except FileFault Unit × Files :=
  match files.makeDirectories t.path.parent with
  | (.error fault, files) => (.error fault, files)
  | (.ok (), files) => files.write t.path t.content

def depositAll (files : Files) : List Target → Except FileFault Unit × Files
  | [] => (.ok (), files)
  | t :: rest =>
    match files.deposit t with
    | (.error fault, files) => (.error fault, files)
    | (.ok (), files) => files.depositAll rest

def OnWay (targets : List Target) (place : List String) : Prop :=
  ∃ t ∈ targets, t.path.parent.Passes place

theorem OnWay.mono {targets others : List Target} (h : targets ⊆ others) {place : List String}
    (hplace : OnWay targets place) : OnWay others place :=
  let ⟨t, ht, hpasses⟩ := hplace
  ⟨t, h ht, hpasses⟩

/-- A file is written, or some directories on its way are made. -/
theorem deposit_receives (files : Files) (t : Target) :
    ((files.deposit t).1 = .ok () ∧ files.Receives (files.deposit t).2 [t] (OnWay [t])) ∨
    (∃ fault, (files.deposit t).1 = .error fault) ∧
      files.Receives (files.deposit t).2 [] (OnWay [t]) := by
  have hmade : files.Receives (files.makeDirectories t.path.parent).2 [] (OnWay [t]) :=
    (files.makeDirectories_receives t.path.parent).mono fun place hpasses =>
      ⟨t, List.mem_cons_self, hpasses⟩
  unfold deposit
  rcases hrun : files.makeDirectories t.path.parent with ⟨fault | _, mid⟩
  · rw [hrun] at hmade
    exact .inr ⟨⟨fault, rfl⟩, hmade⟩
  · rw [hrun] at hmade
    rcases mid.write_receives t (OnWay [t]) with ⟨hok, hwritten⟩ | ⟨hfault, hsame⟩
    · exact .inl ⟨hok, hmade.trans hwritten⟩
    · refine .inr ⟨hfault, ?_⟩
      dsimp only
      rwa [hsame]

/-- Files that are written one after the other are received, all of them or those before a fault. -/
theorem depositAll_receives (files : Files) (targets : List Target) :
    ∃ written, written <+: targets ∧
      files.Receives (files.depositAll targets).2 written (OnWay targets) ∧
      ((files.depositAll targets).1 = .ok () → written = targets) := by
  induction targets generalizing files with
  | nil => exact ⟨[], List.nil_prefix, .refl _ _, fun _ => rfl⟩
  | cons t rest ih =>
    have hself : [t] ⊆ t :: rest := List.cons_subset_cons t (List.nil_subset rest)
    have hstep := files.deposit_receives t
    rw [depositAll]
    rcases hrun : files.deposit t with ⟨fault | _, mid⟩ <;> rw [hrun] at hstep
    · obtain ⟨⟨⟩, -⟩ | ⟨-, hmade⟩ := hstep
      exact ⟨[], List.nil_prefix, hmade.mono fun _ => OnWay.mono hself, fun h => nomatch h⟩
    · obtain ⟨-, hwritten⟩ | ⟨⟨_, ⟨⟩⟩, -⟩ := hstep
      obtain ⟨written, hbefore, hrest, hall⟩ := ih mid
      refine ⟨t :: written, List.cons_prefix_cons.2 ⟨rfl, hbefore⟩, ?_, fun hok => ?_⟩
      · exact (hwritten.mono fun _ => OnWay.mono hself).trans
          (hrest.mono fun _ => OnWay.mono (List.subset_cons_self t rest))
      · rw [hall hok]

/-- Whether every target keeps a file of its own directly inside a directory, which holds what was
written to it, while no other file is changed. -/
structure KeepsEach (directory : List String) (targets : List Target) (before after : Files) :
    Prop where
  inside : ∀ t ∈ targets, ∃ name, t.place = directory ++ [name]
  apart : (targets.map Target.place).Nodup
  contents : ∀ t ∈ targets, after.entryAt? t.place = some t.entry
  others : ∀ place, (∀ t ∈ targets, t.place ≠ place) →
    after.entryAt? place = before.entryAt? place ∨
      (before.entryAt? place = none ∧ after.entryAt? place = some .directory)

/-- Targets that are written keep files of their own if their places are directly inside the
directory and differ. -/
theorem Receives.keepsEach_iff {directory : List String} {targets : List Target}
    (h : before.Receives after targets made) : KeepsEach directory targets before after ↔
      (∀ t ∈ targets, ∃ name, t.place = directory ++ [name]) ∧
        (targets.map Target.place).Nodup := by
  refine ⟨fun hkeeps => ⟨hkeeps.inside, hkeeps.apart⟩, fun ⟨hinside, hapart⟩ => ?_⟩
  refine ⟨hinside, hapart, fun t ht => h.contents _ t (lastAt?_of_mem hapart ht), ?_⟩
  intro place hplace
  exact (h.others place (lastAt?_eq_none.2 hplace)).imp_right fun ⟨hnone, hdirectory, _⟩ =>
    ⟨hnone, hdirectory⟩

end Files

end SchemaCompiler
