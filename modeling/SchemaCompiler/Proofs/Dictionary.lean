import Mathlib.Data.List.Nodup

/-! Dictionaries that are written in place. A new key goes to the end and every other one keeps its
place. As long as a dictionary holds values under keys of their own it is the list of its values. -/

namespace SchemaCompiler

variable {κ ν : Type} [DecidableEq κ]

/-- Where every key occurs once, a search for one finds the value that has it. -/
theorem find?_key_eq_some {key : ν → κ} {values : List ν} (hkeys : (values.map key).Nodup) {v : ν}
    (hv : v ∈ values) : values.find? (key · = key v) = some v := by
  rcases hfind : values.find? (key · = key v) with _ | found
  · exact absurd (decide_eq_true rfl) (List.find?_eq_none.1 hfind v hv)
  · have hkey : key found = key v := by simpa using List.find?_some hfind
    exact congrArg some (List.inj_on_of_nodup_map hkeys (List.mem_of_find?_eq_some hfind) hv hkey)

/-- Values under keys, in the order in which the keys came up. -/
abbrev Dictionary (κ ν : Type) := List (κ × ν)

namespace Dictionary

def get? (table : Dictionary κ ν) (key : κ) : Option ν :=
  (table.find? (·.1 = key)).map (·.2)

/-- Writes a value. A key that is there keeps its place and loses the value it had. -/
def set (table : Dictionary κ ν) (key : κ) (value : ν) : Dictionary κ ν :=
  if (table.get? key).isSome then table.map fun e => if e.1 = key then (key, value) else e
  else table ++ [(key, value)]

def keyed (key : ν → κ) (values : List ν) : Dictionary κ ν :=
  values.map fun v => (key v, v)

variable {table table' : Dictionary κ ν} {key : κ} {value : ν}

theorem get?_eq_none : table.get? key = none ↔ key ∉ table.map (·.1) := by
  rw [get?, Option.map_eq_none_iff, List.find?_eq_none, List.mem_map]
  simp only [decide_eq_true_eq, not_exists, not_and]

theorem mem_of_get? (h : table.get? key = some value) : (key, value) ∈ table := by
  obtain ⟨⟨k, v⟩, hfind, rfl⟩ := Option.map_eq_some_iff.1 h
  obtain rfl : k = key := by simpa using List.find?_some hfind
  exact List.mem_of_find?_eq_some hfind

theorem get?_mono (h : table <+: table') (hget : table.get? key = some value) :
    table'.get? key = some value := by
  obtain ⟨later, rfl⟩ := h
  obtain ⟨e, hfind, rfl⟩ := Option.map_eq_some_iff.1 hget
  rw [get?, List.find?_append, hfind]
  rfl

theorem get?_append_self (h : table.get? key = none) :
    Dictionary.get? (table ++ [(key, value)]) key = some value := by
  rw [get?, Option.map_eq_none_iff] at h
  simp [get?, List.find?_append, h]

theorem set_of_free (h : table.get? key = none) :
    table.set key value = table ++ [(key, value)] := by
  rw [set, h, if_neg (by simp)]

/-- Writing the value that a key has changes nothing. -/
theorem set_of_get? (hkeys : (table.map (·.1)).Nodup) (h : table.get? key = some value) :
    table.set key value = table := by
  rw [set, h, if_pos Option.isSome_some]
  refine (List.map_congr_left fun e he => ?_).trans (List.map_id table)
  split
  · rename_i heq
    exact (List.inj_on_of_nodup_map hkeys he (mem_of_get? h) heq).symm
  · rfl

variable (key : ν → κ) (values : List ν)

@[simp] theorem get?_keyed (k : κ) : (keyed key values).get? k = values.find? (key · = k) := by
  rw [get?, keyed, List.find?_map, Option.map_map]
  exact Option.map_id'

theorem set_keyed_of_free {v : ν} (h : values.find? (key · = key v) = none) :
    (keyed key values).set (key v) v = keyed key (values ++ [v]) := by
  rw [set_of_free (by rw [get?_keyed, h]), keyed, keyed, List.map_append, List.map_singleton]

end Dictionary

end SchemaCompiler
