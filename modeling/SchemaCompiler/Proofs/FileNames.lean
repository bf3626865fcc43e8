import Mathlib.Data.List.Basic
import SchemaCompiler.Proofs.FileChanges

/-! Names that a system takes for files. Steps of this kind lead further down at each name, so files
can be written into a directory as long as no file is in the way of the directory and no directory
is in the place of a file; what is written keeps it so. -/

namespace SchemaCompiler

/-- Whether a text can be the name of a file in a directory. -/
structure IsFileName (name : String) : Prop where
  nonempty : name ≠ ""
  slash : '/' ∉ name.toList
  null : '\x00' ∉ name.toList
  dot : name ≠ "."
  dots : name ≠ ".."
  short : name.utf8ByteSize ≤ Files.longestName

instance (name : String) : Decidable (IsFileName name) :=
  decidable_of_iff (name ≠ "" ∧ '/' ∉ name.toList ∧ '\x00' ∉ name.toList ∧ name ≠ "." ∧
      name ≠ ".." ∧ name.utf8ByteSize ≤ Files.longestName)
    ⟨fun ⟨nonempty, slash, null, dot, dots, short⟩ => ⟨nonempty, slash, null, dot, dots, short⟩,
      fun h => ⟨h.nonempty, h.slash, h.null, h.dot, h.dots, h.short⟩⟩

theorem splitAll_of_not_mem {mark : Char} {cs : List Char} (h : mark ∉ cs) :
    splitAll mark cs = [cs] := by
  induction cs with
  | nil => rfl
  | cons c rest ih =>
    rw [List.mem_cons, not_or] at h
    rw [splitAll, ih h.2]
    exact if_neg (Ne.symm h.1)

/-- A name is a path of one step. -/
theorem Path.ofText_name {name : String} (h : IsFileName name) :
    Path.ofText name = ⟨false, [name]⟩ := by
  have hstart : name.startsWith "/" = false := by
    rw [String.startsWith_string_eq_false_iff]
    exact fun hslash => h.slash (hslash.subset (by decide))
  have hend : name.endsWith "/" = false := by
    have hslice : name.toSlice.endsWith "/" = false := by
      rw [String.Slice.endsWith_string_eq_false_iff, String.copy_toSlice]
      exact fun hslash => h.slash (hslash.subset (by decide))
    exact hslice
  have hsteps : Path.steps name = ⟨false, [name]⟩ := by
    rw [steps, hstart, hend, splitAll_of_not_mem h.slash]
    simp [h.nonempty]
  rw [ofText, hsteps]
  simp [h.dot]

theorem Path.hasNull_of_names {path : Path} (h : ∀ name ∈ path.parts, IsFileName name) :
    path.hasNull = false := by
  rw [hasNull, List.any_eq_false]
  intro part hpart
  simpa using (h part hpart).null

namespace Files

theorem foldl_names {steps : List String} (h : ∀ name ∈ steps, IsFileName name)
    (here : List String) : steps.foldl stepFrom here = here ++ steps := by
  induction steps generalizing here with
  | nil => rw [List.foldl_nil, List.append_nil]
  | cons step rest ih =>
    have hstep := h step List.mem_cons_self
    rw [List.foldl_cons, stepFrom, if_neg hstep.dot, if_neg hstep.dots,
      ih fun name hname => h name (List.mem_cons_of_mem _ hname), List.append_assoc,
      List.singleton_append]

variable {files : Files} {directory names : List String}

/-- Names lead down through directories. What stops them is a place on the way where nothing is, or
where a file is. -/
theorem walk_names (files : Files) {steps : List String} (h : ∀ name ∈ steps, IsFileName name)
    (here : List String) :
    (files.walk here steps = .ok (here ++ steps) ∧ ∀ inner, inner <+: steps → inner ≠ steps →
      files.entryAt? (here ++ inner) = some .directory) ∨
    ∃ inner, inner <+: steps ∧ inner ≠ steps ∧
      (files.entryAt? (here ++ inner) = none ∧ files.walk here steps = .error .missing ∨
        ∃ content, files.entryAt? (here ++ inner) = some (.file content)) := by
  induction steps generalizing here with
  | nil =>
    refine .inl ⟨by rw [walk, List.append_nil], fun inner hinner hproper => ?_⟩
    exact absurd (List.prefix_nil.1 hinner) hproper
  | cons step rest ih =>
    have hstep := h step List.mem_cons_self
    have hnext : files.entryAt? here = some .directory →
        files.walk here (step :: rest) = files.walk (here ++ [step]) rest := by
      intro hdirectory
      simp only [walk, hdirectory]
      rw [if_neg hstep.dot, if_neg hstep.dots, if_neg (Nat.not_lt.2 hstep.short)]
    have hsplit (inner : List String) : here ++ step :: inner = here ++ [step] ++ inner := by
      rw [List.append_assoc, List.singleton_append]
    rcases hhere : files.entryAt? here with _ | _ | content
    · refine .inr ⟨[], List.nil_prefix, (List.cons_ne_nil _ _).symm, .inl ?_⟩
      rw [List.append_nil]
      exact ⟨hhere, by simp only [walk, hhere]⟩
    · rw [hnext hhere]
      rcases ih (fun name hname => h name (List.mem_cons_of_mem _ hname)) (here ++ [step]) with
        ⟨hwalk, hdirectories⟩ | ⟨inner, hinner, hproper, hstop⟩
      · refine .inl ⟨hsplit rest ▸ hwalk, fun inner hinner hproper => ?_⟩
        rcases inner with _ | ⟨first, inner⟩
        · rwa [List.append_nil]
        · obtain ⟨rfl, hrest⟩ := List.cons_prefix_cons.1 hinner
          rw [hsplit]
          exact hdirectories inner hrest fun heq => hproper (heq ▸ rfl)
      · refine .inr ⟨step :: inner, List.cons_prefix_cons.2 ⟨rfl, hinner⟩,
          fun heq => hproper (List.cons.inj heq).2, ?_⟩
        rwa [hsplit]
    · refine .inr ⟨[], List.nil_prefix, (List.cons_ne_nil _ _).symm, .inr ⟨content, ?_⟩⟩
      rwa [List.append_nil]

/-- One directory can be made where no file is on the way, unless an outer one has to be made
first. -/
theorem ensureDirectory_names (hnames : ∀ name ∈ names, IsFileName name)
    (hway : ∀ place, place <+: names → ∀ content, files.entryAt? place ≠ some (.file content)) :
    (∃ after, files.ensureDirectory ⟨true, names⟩ = .ok after ∧
      ∀ place, place <+: names → after.entryAt? place = some .directory) ∨
    files.ensureDirectory ⟨true, names⟩ = .error .missing ∧
      ∃ place, place <+: names ∧ place ≠ names ∧ files.entryAt? place = none := by
  rcases files.walk_names hnames [] with ⟨hwalk, hdirectories⟩ |
    ⟨inner, hinner, hproper, ⟨hnone, hwalk⟩ | ⟨content, hfile⟩⟩
  · rw [List.nil_append] at hwalk
    rcases hentry : files.entryAt? names with _ | _ | content
    · have hplace : names ≠ [] := by
        rintro rfl
        cases hentry
      refine .inl ⟨files.put names .directory, ?_, fun place hbefore => ?_⟩
      · simp only [ensureDirectory, makeDirectory, hwalk, hentry]
      · rw [entryAt?_put hplace]
        split_ifs with hself
        · rfl
        · exact hdirectories place hbefore hself
    · refine .inl ⟨files, ?_, fun place hbefore => ?_⟩
      · simp only [ensureDirectory, makeDirectory, entry?, hwalk, hentry]
        exact if_pos ⟨nofun, trivial⟩
      · by_cases hself : place = names
        · rw [hself, hentry]
        · exact hdirectories place hbefore hself
    · exact absurd hentry (hway names List.prefix_rfl content)
  · refine .inr ⟨?_, inner, hinner, hproper, hnone⟩
    simp only [ensureDirectory, makeDirectory, hwalk]
    exact if_neg fun h => h.1 rfl
  · exact absurd hfile (hway inner hinner content)

/-- A directory can be made where no file is on the way. -/
theorem ensureAll_names {outward : List String} (hnames : ∀ name ∈ outward, IsFileName name)
    (hway : ∀ place, place <+: outward.reverse → ∀ content,
      files.entryAt? place ≠ some (.file content)) :
    (files.ensureAll outward).1 = .ok () ∧ ∀ place, place <+: outward.reverse →
      (files.ensureAll outward).2.entryAt? place = some .directory := by
  induction outward with
  | nil =>
    refine ⟨rfl, fun place hbefore => ?_⟩
    rw [List.prefix_nil.1 hbefore]
    rfl
  | cons name outer ih =>
    have hreverse : ∀ part ∈ (name :: outer).reverse, IsFileName part :=
      fun part hpart => hnames part (List.mem_reverse.1 hpart)
    rw [ensureAll]
    rcases ensureDirectory_names hreverse hway with ⟨after, hensure, hdirectories⟩ | ⟨hmissing, -⟩
    · rw [hensure]
      exact ⟨rfl, hdirectories⟩
    · rw [hmissing]
      rw [List.reverse_cons] at hway hreverse ⊢
      obtain ⟨hok, hdirectories⟩ := ih (fun part hpart => hnames part (List.mem_cons_of_mem _ hpart))
        fun place hbefore => hway place (hbefore.trans (List.prefix_append _ _))
      have hmade := files.ensureAll_receives outer
      rcases hrun : files.ensureAll outer with ⟨fault | _, mid⟩ <;>
        rw [hrun] at hok hdirectories hmade
      · cases hok
      have hmid : ∀ place, place <+: outer.reverse ++ [name] → ∀ content,
          mid.entryAt? place ≠ some (.file content) := by
        intro place hbefore content hfile
        rcases hmade.others place rfl with hsame | ⟨-, hdirectory, -⟩
        · exact hway place hbefore content (hsame.symm.trans hfile)
        · cases hdirectory.symm.trans hfile
      dsimp only
      rcases ensureDirectory_names hreverse hmid with ⟨after, hensure, hall⟩ |
        ⟨-, place, hbefore, hproper, hnone⟩
      · rw [hensure]
        exact ⟨rfl, hall⟩
      · have houter := (List.prefix_concat_iff.1 hbefore).resolve_left hproper
        cases hnone.symm.trans (hdirectories place houter)

/-- Whether files of certain names can be written into a directory, which is there or can be made. -/
structure Admits (files : Files) (directory names : List String) : Prop where
  directoryNames : ∀ name ∈ directory, IsFileName name
  fileNames : ∀ name ∈ names, IsFileName name
  way : ∀ place, place <+: directory → ∀ content, files.entryAt? place ≠ some (.file content)
  free : ∀ name ∈ names, files.entryAt? (directory ++ [name]) ≠ some .directory

variable {t : Target} {name : String}

/-- The places on the way to a file in a directory are those on the way to the directory. -/
theorem passes_names (hdirectory : ∀ part ∈ directory, IsFileName part)
    (hparts : t.path.parts = directory ++ [name]) {place : List String}
    (h : t.path.parent.Passes place) : place <+: directory := by
  obtain ⟨steps, hsteps, rfl⟩ := h
  rw [Path.parent, hparts, List.dropLast_concat] at hsteps
  rw [foldl_names fun part hpart => hdirectory part (hsteps.subset hpart), List.nil_append]
  exact hsteps

theorem names_of_parts {path : Path} (hdirectory : ∀ part ∈ directory, IsFileName part)
    (hname : IsFileName name) (hparts : path.parts = directory ++ [name]) :
    ∀ part ∈ path.parts, IsFileName part := by
  intro part hpart
  rcases List.mem_append.1 (hparts ▸ hpart) with hpart | hpart
  · exact hdirectory part hpart
  · exact List.mem_singleton.1 hpart ▸ hname

/-- The place of a file in a directory. -/
theorem place_names (hdirectory : ∀ part ∈ directory, IsFileName part) (hname : IsFileName name)
    (hparts : t.path.parts = directory ++ [name]) : t.place = directory ++ [name] := by
  rw [Target.place, Path.place, foldl_names (names_of_parts hdirectory hname hparts), hparts,
    List.nil_append]

theorem not_concat_before (directory : List String) (name : String) :
    ¬directory ++ [name] <+: directory := by
  intro h
  have hlength := h.length_le
  rw [List.length_append, List.length_singleton] at hlength
  omega

theorem makeDirectories_names {path : Path} (hnames : ∀ part ∈ path.parts, IsFileName part)
    (hway : ∀ place, place <+: path.parts → ∀ content, files.entryAt? place ≠ some (.file content)) :
    (files.makeDirectories path).1 = .ok () ∧ ∀ place, place <+: path.parts →
      (files.makeDirectories path).2.entryAt? place = some .directory := by
  have hmake : files.makeDirectories path = files.ensureAll path.parts.reverse := by
    rw [makeDirectories, Path.hasNull_of_names hnames]
    rfl
  rw [← List.reverse_reverse path.parts] at hway
  have hensure := ensureAll_names (fun part hpart => hnames part (List.mem_reverse.1 hpart)) hway
  rw [List.reverse_reverse] at hensure
  rwa [hmake]

/-- A file can be written into a directory that is there. -/
theorem write_names {path : Path} (hnames : ∀ part ∈ path.parts, IsFileName part)
    (hparts : path.parts = directory ++ [name])
    (hthere : ∀ place, place <+: directory → files.entryAt? place = some .directory)
    (hfree : files.entryAt? (directory ++ [name]) ≠ some .directory) (content : String) :
    (files.write path content).1 = .ok () := by
  rcases files.walk_names hnames [] with ⟨hwalk, -⟩ | ⟨inner, hinner, hproper, hstop⟩
  · rw [List.nil_append] at hwalk
    rw [write, Path.hasNull_of_names hnames, if_neg Bool.false_ne_true, hwalk]
    dsimp only
    split
    · exact absurd (hparts ▸ ‹files.entryAt? path.parts = some .directory›) hfree
    · rfl
  · have hdirectory := hthere inner
      ((List.prefix_concat_iff.1 (hparts ▸ hinner)).resolve_left (hparts ▸ hproper))
    rw [List.nil_append, hdirectory] at hstop
    rcases hstop with ⟨⟨⟩, -⟩ | ⟨_, ⟨⟩⟩

/-- A file is written into a directory that admits it. -/
theorem Admits.deposit (h : files.Admits directory names) (hname : name ∈ names)
    (hparts : t.path.parts = directory ++ [name]) : (files.deposit t).1 = .ok () := by
  have hparent : t.path.parent.parts = directory := by
    rw [Path.parent, hparts, List.dropLast_concat]
  obtain ⟨hmake, hthere⟩ := makeDirectories_names (hparent ▸ h.directoryNames) (hparent ▸ h.way)
  have hreceives := files.makeDirectories_receives t.path.parent
  rw [hparent] at hthere
  have hfree : (files.makeDirectories t.path.parent).2.entryAt? (directory ++ [name]) ≠
      some .directory := by
    rcases hreceives.others (directory ++ [name]) rfl with hsame | ⟨-, -, hpasses⟩
    · rw [hsame]
      exact h.free name hname
    · exact absurd (passes_names h.directoryNames hparts hpasses) (not_concat_before _ _)
  rw [Files.deposit]
  rcases hrun : files.makeDirectories t.path.parent with ⟨fault | _, mid⟩ <;>
    rw [hrun] at hmake hthere hfree
  · cases hmake
  · have hall := names_of_parts h.directoryNames (h.fileNames name hname) hparts
    exact write_names hall hparts hthere hfree t.content

/-- A directory still admits the same files after one of them is written. -/
theorem Admits.after_deposit (h : files.Admits directory names) (hname : name ∈ names)
    (hparts : t.path.parts = directory ++ [name]) : (files.deposit t).2.Admits directory names := by
  have hplace := place_names h.directoryNames (h.fileNames name hname) hparts
  obtain ⟨-, hreceives⟩ | ⟨⟨fault, hfault⟩, -⟩ := files.deposit_receives t
  · refine ⟨h.directoryNames, h.fileNames, fun place hbefore content hfile => ?_,
      fun other hother hdirectory => ?_⟩
    · have hnone : lastAt? [t] place = none := by
        rw [lastAt?_singleton, if_neg]
        rintro rfl
        exact not_concat_before _ _ (hplace ▸ hbefore)
      rcases hreceives.others place hnone with hsame | ⟨-, hdirectory, -⟩
      · exact h.way place hbefore content (hsame.symm.trans hfile)
      · cases hdirectory.symm.trans hfile
    · rcases hlast : lastAt? [t] (directory ++ [other]) with _ | t'
      · rcases hreceives.others _ hlast with hsame | ⟨-, -, t', ht', hpasses⟩
        · exact h.free other hother (hsame.symm.trans hdirectory)
        · obtain rfl := List.mem_singleton.1 ht'
          exact not_concat_before _ _ (passes_names h.directoryNames hparts hpasses)
      · cases (hreceives.contents _ t' hlast).symm.trans hdirectory
  · cases hfault.symm.trans (h.deposit hname hparts)

/-- All files are written into a directory that admits them. -/
theorem Admits.depositAll (h : files.Admits directory names) {targets : List Target}
    (htargets : ∀ t ∈ targets, ∃ name ∈ names, t.path.parts = directory ++ [name]) :
    (files.depositAll targets).1 = .ok () := by
  induction targets generalizing files with
  | nil => rfl
  | cons t rest ih =>
    obtain ⟨name, hname, hparts⟩ := htargets t List.mem_cons_self
    have hok := h.deposit hname hparts
    have hafter := h.after_deposit hname hparts
    rw [Files.depositAll]
    rcases hrun : files.deposit t with ⟨fault | _, mid⟩ <;> rw [hrun] at hok hafter
    · cases hok
    · exact ih hafter fun t ht => htargets t (List.mem_cons_of_mem _ ht)

end Files

end SchemaCompiler
