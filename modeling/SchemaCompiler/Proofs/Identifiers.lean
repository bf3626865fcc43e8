import SchemaCompiler.Execution.Value
import Mathlib.Data.List.Basic

/-! Identifiers made of values. A value is turned into identifiers leaf by leaf: nulls stay, lists
stay as they are nested, and an identifier is left alone. -/

namespace SchemaCompiler

variable {φ : Type}

inductive Nesting where
  | null
  | leaf
  | list (items : List Nesting)

namespace Value

mutual

def nesting : Value φ → Nesting
  | .null => .null
  | .list items => .list (nestings items)
  | .tuple items => .list (nestings items)
  | _ => .leaf

def nestings : List (Value φ) → List Nesting
  | [] => []
  | item :: rest => item.nesting :: nestings rest

end

mutual

/-- What stands inside the lists of a value apart from nulls. -/
def leaves : Value φ → List (Value φ)
  | .null => []
  | .list items => allLeaves items
  | .tuple items => allLeaves items
  | value => [value]

def allLeaves : List (Value φ) → List (Value φ)
  | [] => []
  | item :: rest => item.leaves ++ allLeaves rest

end

theorem toIds_eq_map (vs : List (Value φ)) : toIds vs = vs.map toId := by
  induction vs with
  | nil => rfl
  | cons v rest ih => rw [toIds, List.map_cons, ih]

theorem nestings_eq_map (vs : List (Value φ)) : nestings vs = vs.map nesting := by
  induction vs with
  | nil => rfl
  | cons v rest ih => rw [nestings, List.map_cons, ih]

theorem allLeaves_eq_flatMap (vs : List (Value φ)) : allLeaves vs = vs.flatMap leaves := by
  induction vs with
  | nil => rfl
  | cons v rest ih => rw [allLeaves, List.flatMap_cons, ih]

mutual

/-- Induction on the nesting of a value. -/
theorem nesting_induction {P : Value φ → Prop} (null : P .null)
    (leaf : ∀ v : Value φ, v.nesting = .leaf → P v)
    (list : ∀ items, (∀ v ∈ items, P v) → P (.list items))
    (tuple : ∀ items, (∀ v ∈ items, P v) → P (.tuple items)) : ∀ v : Value φ, P v
  | .null => null
  | .list items => list items (nestings_induction null leaf list tuple items)
  | .tuple items => tuple items (nestings_induction null leaf list tuple items)
  | .bool _ => leaf _ rfl
  | .int _ => leaf _ rfl
  | .float _ => leaf _ rfl
  | .text _ => leaf _ rfl
  | .id _ => leaf _ rfl
  | .record _ => leaf _ rfl
  | .later _ => leaf _ rfl
  | .function _ => leaf _ rfl

theorem nestings_induction {P : Value φ → Prop} (null : P .null)
    (leaf : ∀ v : Value φ, v.nesting = .leaf → P v)
    (list : ∀ items, (∀ v ∈ items, P v) → P (.list items))
    (tuple : ∀ items, (∀ v ∈ items, P v) → P (.tuple items)) :
    ∀ vs : List (Value φ), ∀ v ∈ vs, P v
  | [] => fun _ hv => nomatch hv
  | v :: rest => List.forall_mem_cons.2
    ⟨nesting_induction null leaf list tuple v, nestings_induction null leaf list tuple rest⟩

end

theorem of_leaf {v : Value φ} (h : v.nesting = .leaf) :
    v.toId = .id v.plainText ∧ v.leaves = [v] := by
  cases v <;> first | exact ⟨rfl, rfl⟩ | cases h

/-- Identifiers are nested as the value was. -/
theorem toId_nesting (v : Value φ) : v.toId.nesting = v.nesting := by
  induction v using nesting_induction with
  | null => rfl
  | leaf v hleaf =>
    rw [(of_leaf hleaf).1, hleaf]
    rfl
  | list items ih =>
    rw [toId, nesting, nesting, toIds_eq_map, nestings_eq_map, nestings_eq_map, List.map_map]
    exact congrArg Nesting.list (List.map_congr_left ih)
  | tuple items ih =>
    rw [toId, nesting, nesting, toIds_eq_map, nestings_eq_map, nestings_eq_map, List.map_map]
    exact congrArg Nesting.list (List.map_congr_left ih)

/-- Every leaf becomes the identifier of its text. -/
theorem toId_leaves (v : Value φ) :
    v.toId.leaves = v.leaves.map fun leaf => .id leaf.plainText := by
  induction v using nesting_induction with
  | null => rfl
  | leaf v hleaf =>
    rw [(of_leaf hleaf).1, (of_leaf hleaf).2]
    rfl
  | list items ih =>
    rw [toId, leaves, leaves, toIds_eq_map, allLeaves_eq_flatMap, allLeaves_eq_flatMap,
      List.flatMap_map, List.map_flatMap]
    exact List.flatMap_congr ih
  | tuple items ih =>
    rw [toId, leaves, leaves, toIds_eq_map, allLeaves_eq_flatMap, allLeaves_eq_flatMap,
      List.flatMap_map, List.map_flatMap]
    exact List.flatMap_congr ih

/-- An identifier stays as it is. -/
theorem toId_toId (v : Value φ) : v.toId.toId = v.toId := by
  induction v using nesting_induction with
  | null => rfl
  | leaf v hleaf =>
    rw [(of_leaf hleaf).1]
    rfl
  | list items ih =>
    rw [toId, toId, toIds_eq_map, toIds_eq_map, List.map_map]
    exact congrArg Value.list (List.map_congr_left ih)
  | tuple items ih =>
    rw [toId, toId, toIds_eq_map, toIds_eq_map, List.map_map]
    exact congrArg Value.list (List.map_congr_left ih)

end Value

end SchemaCompiler
