import Mathlib.Data.List.Nodup
import Mathlib.Tactic.Common

/-!
# `JsMap`: a map that remembers insertion order

The JavaScript `Map`: lookup by key, and an iteration order that is the order in which the keys
were first inserted. Overwriting a key keeps its place; deleting it and inserting it again moves
it to the end, which is how a least-recently-used list is kept in one.

* `JsMap.get`, `JsMap.set`, `JsMap.delete`, `JsMap.keys`, `JsMap.size` follow the methods of the
  same names; `JsMap.deleteWhere` is a `forEach` that deletes the entries it is shown.
* An entry list without repeated keys is part of the structure, so that lookup and membership in
  the entry list are the same thing (`mem_entries_iff`).

Kinds, here and in every module: D is a definition, L a lemma, P a principal result, C a
corollary.
-/

namespace TyoMq.Lib

/-- A finite map from `κ` to `ν` with its keys in insertion order.
Kind: D -/
@[ext] structure JsMap (κ ν : Type*) where
  /-- The entries, oldest insertion first. -/
  entries : List (κ × ν)
  /-- No key occurs twice. -/
  nodup : (entries.map Prod.fst).Nodup

namespace JsMap

variable {κ ν : Type*}

/-- The map `new Map()`.
Kind: D -/
def empty : JsMap κ ν := ⟨[], List.nodup_nil⟩

/-- The keys in insertion order.
Kind: D -/
def keys (m : JsMap κ ν) : List κ := m.entries.map Prod.fst

/-- The number of entries.
Kind: D -/
def size (m : JsMap κ ν) : ℕ := m.entries.length

/-- A filtered entry list still has no repeated key.
Kind: L -/
theorem nodup_filter (m : JsMap κ ν) (p : κ × ν → Bool) :
    ((m.entries.filter p).map Prod.fst).Nodup :=
  m.nodup.sublist (List.filter_sublist.map _)

/-- `m.forEach((v, k) => { if (p(k, v)) m.delete(k); })`.
Kind: D -/
def deleteWhere (m : JsMap κ ν) (p : κ → ν → Bool) : JsMap κ ν :=
  ⟨m.entries.filter fun e => !p e.1 e.2, m.nodup_filter _⟩

theorem size_deleteWhere_le (m : JsMap κ ν) (p : κ → ν → Bool) : (m.deleteWhere p).size ≤ m.size :=
  List.length_filter_le _ _

/-- Change each value in place, or delete its entry.
Kind: D -/
def filterMapValues {ν' : Type*} (m : JsMap κ ν) (f : ν → Option ν') : JsMap κ ν' where
  entries := m.entries.filterMap fun e => (f e.2).map fun v => (e.1, v)
  nodup := by
    have hkeys : (m.entries.filterMap fun e => (f e.2).map fun v => (e.1, v)).map Prod.fst =
        (m.entries.filter fun e => (f e.2).isSome).map Prod.fst := by
      induction m.entries with
      | nil => rfl
      | cons e l ih => rcases hf : f e.2 with _ | v <;> simp [hf, ih]
    rw [hkeys]
    exact m.nodup_filter _

variable [DecidableEq κ]

/-- `m.get(k)`, with `none` for `undefined`.
Kind: D -/
def get (m : JsMap κ ν) (k : κ) : Option ν :=
  (m.entries.find? fun e => e.1 = k).map Prod.snd

/-- `m.delete(k)`.
Kind: D -/
def delete (m : JsMap κ ν) (k : κ) : JsMap κ ν :=
  ⟨m.entries.filter fun e => e.1 ≠ k, m.nodup_filter _⟩

/-- The entry list of `m.set(k, v)`: in place when the key is present, else at the end.
Kind: D -/
def setEntries (l : List (κ × ν)) (k : κ) (v : ν) : List (κ × ν) :=
  if k ∈ l.map Prod.fst then l.map fun e => if e.1 = k then (k, v) else e else l ++ [(k, v)]

/-- Overwriting values in place keeps the list of keys.
Kind: L -/
theorem map_fst_overwrite (l : List (κ × ν)) (k : κ) (v : ν) :
    (l.map fun e => if e.1 = k then (k, v) else e).map Prod.fst = l.map Prod.fst := by
  rw [List.map_map]
  apply List.map_congr_left
  intro e _
  by_cases h : e.1 = k <;> simp [h]

/-- The keys after a `set`.
Kind: L -/
theorem map_fst_setEntries (l : List (κ × ν)) (k : κ) (v : ν) :
    (setEntries l k v).map Prod.fst =
      if k ∈ l.map Prod.fst then l.map Prod.fst else l.map Prod.fst ++ [k] := by
  unfold setEntries
  by_cases h : k ∈ l.map Prod.fst
  · rw [if_pos h, if_pos h, map_fst_overwrite]
  · rw [if_neg h, if_neg h, List.map_append, List.map_singleton]

/-- A `set` keeps the keys distinct.
Kind: L -/
theorem nodup_setEntries {l : List (κ × ν)} (hl : (l.map Prod.fst).Nodup) (k : κ) (v : ν) :
    ((setEntries l k v).map Prod.fst).Nodup := by
  rw [map_fst_setEntries]
  by_cases h : k ∈ l.map Prod.fst
  · rwa [if_pos h]
  · rw [if_neg h]
    exact hl.append (List.nodup_singleton k) (by simpa using h)

/-- `m.set(k, v)`.
Kind: D -/
def set (m : JsMap κ ν) (k : κ) (v : ν) : JsMap κ ν :=
  ⟨setEntries m.entries k v, nodup_setEntries m.nodup k v⟩

/-! ### Lookup and the entry list -/

/-- Lookup finds exactly the entries of the list.
Kind: L -/
theorem mem_entries_iff {m : JsMap κ ν} {k : κ} {v : ν} :
    (k, v) ∈ m.entries ↔ m.get k = some v := by
  obtain ⟨l, hl⟩ := m
  simp only [get]
  induction l with
  | nil => simp
  | cons e l ih =>
      obtain ⟨k', v'⟩ := e
      have hl' : (l.map Prod.fst).Nodup := (List.nodup_cons.mp hl).2
      have hk' : k' ∉ l.map Prod.fst := (List.nodup_cons.mp hl).1
      by_cases h : k' = k
      · subst h
        have hnot : (k', v) ∉ l := fun hm => hk' (List.mem_map_of_mem (f := Prod.fst) hm)
        simp [hnot, eq_comm]
      · have hne : (k, v) ≠ (k', v') := fun he => h (congrArg Prod.fst he).symm
        simp only [List.mem_cons, hne, false_or, List.find?_cons, h, decide_false]
        exact ih hl'

/-- A key is present exactly when lookup succeeds.
Kind: L -/
theorem mem_keys_iff {m : JsMap κ ν} {k : κ} : k ∈ m.keys ↔ ∃ v, m.get k = some v := by
  simp only [keys, List.mem_map, Prod.exists, mem_entries_iff]
  constructor
  · rintro ⟨k', v, hv, rfl⟩
    exact ⟨v, hv⟩
  · rintro ⟨v, hv⟩
    exact ⟨k, v, hv, rfl⟩

/-- Lookup fails exactly outside the keys.
Kind: L -/
theorem get_eq_none_iff {m : JsMap κ ν} {k : κ} : m.get k = none ↔ k ∉ m.keys := by
  rw [mem_keys_iff, ← Option.not_isSome_iff_eq_none, Option.isSome_iff_exists]

/-- Two maps with the same lookups agree on what an entry of either is.
Kind: L -/
theorem get_eq_of_mem_iff {m m' : JsMap κ ν} {k : κ}
    (h : ∀ v, (k, v) ∈ m.entries ↔ (k, v) ∈ m'.entries) : m.get k = m'.get k := by
  apply Option.ext
  intro v
  rw [← mem_entries_iff, ← mem_entries_iff, h v]

@[simp] theorem get_empty (k : κ) : (empty : JsMap κ ν).get k = none := rfl

/-! ### The operations on lookups -/

/-- What a filter of the entries leaves of a lookup.
Kind: L -/
theorem get_deleteWhere (m : JsMap κ ν) (p : κ → ν → Bool) (k : κ) :
    (m.deleteWhere p).get k = (m.get k).filter fun v => !p k v := by
  apply Option.ext
  intro v
  rw [← mem_entries_iff, Option.filter_eq_some_iff, ← mem_entries_iff]
  simp [deleteWhere]

/-- A filter that looks at keys only.
Kind: L -/
theorem get_deleteWhere_key (m : JsMap κ ν) (p : κ → Bool) (k : κ) :
    (m.deleteWhere fun k' _ => p k').get k = if p k then none else m.get k := by
  rw [get_deleteWhere]
  by_cases h : p k = true
  · rw [if_pos h, h]
    cases m.get k <;> rfl
  · rw [if_neg h, Bool.eq_false_iff.mpr h]
    cases m.get k <;> rfl

@[simp] theorem get_delete_self (m : JsMap κ ν) (k : κ) : (m.delete k).get k = none := by
  rw [get_eq_none_iff]
  simp [delete, keys]

theorem get_delete_of_ne (m : JsMap κ ν) {k k' : κ} (h : k' ≠ k) :
    (m.delete k).get k' = m.get k' :=
  get_eq_of_mem_iff fun v => by simp [delete, h]

/-- The entries of a `set` are the new one and the old ones under other keys.
Kind: L -/
theorem mem_entries_set {m : JsMap κ ν} {k k' : κ} {v v' : ν} :
    (k', v') ∈ (m.set k v).entries ↔ (k' = k ∧ v' = v) ∨ (k' ≠ k ∧ (k', v') ∈ m.entries) := by
  simp only [set, setEntries]
  split_ifs with hk
  · obtain ⟨e, he, hek⟩ := List.mem_map.mp hk
    constructor
    · intro h
      obtain ⟨e', he', heq⟩ := List.mem_map.mp h
      by_cases hc : e'.1 = k
      · rw [if_pos hc] at heq
        exact Or.inl ⟨(congrArg Prod.fst heq).symm, (congrArg Prod.snd heq).symm⟩
      · rw [if_neg hc] at heq
        subst heq
        exact Or.inr ⟨hc, he'⟩
    · rintro (⟨rfl, rfl⟩ | ⟨hne, hm⟩)
      · exact List.mem_map.mpr ⟨e, he, if_pos hek⟩
      · exact List.mem_map.mpr ⟨(k', v'), hm, if_neg hne⟩
  · simp only [List.mem_append, List.mem_singleton, Prod.mk.injEq]
    constructor
    · rintro (hm | h)
      · exact Or.inr ⟨fun he => hk (he ▸ List.mem_map_of_mem (f := Prod.fst) hm), hm⟩
      · exact Or.inl h
    · rintro (h | ⟨-, hm⟩)
      · exact Or.inr h
      · exact Or.inl hm

@[simp] theorem get_set_self (m : JsMap κ ν) (k : κ) (v : ν) : (m.set k v).get k = some v := by
  rw [← mem_entries_iff, mem_entries_set]
  exact Or.inl ⟨rfl, rfl⟩

theorem get_set_of_ne (m : JsMap κ ν) {k k' : κ} (h : k' ≠ k) (v : ν) :
    (m.set k v).get k' = m.get k' :=
  get_eq_of_mem_iff fun v' => by rw [mem_entries_set]; simp [h]

/-- Lookup after a `set`, in one equation.
Kind: L -/
theorem get_set (m : JsMap κ ν) (k k' : κ) (v : ν) :
    (m.set k v).get k' = if k' = k then some v else m.get k' := by
  split_ifs with h
  · rw [h, get_set_self]
  · exact get_set_of_ne m h v

theorem delete_eq_deleteWhere (m : JsMap κ ν) (k : κ) :
    m.delete k = m.deleteWhere fun k' _ => decide (k' = k) := by
  apply JsMap.ext
  apply List.filter_congr
  intro e _
  rw [decide_not]

omit [DecidableEq κ] in
theorem deleteWhere_of_false (m : JsMap κ ν) {p : κ → ν → Bool} (h : ∀ k v, p k v = false) :
    m.deleteWhere p = m := by
  apply JsMap.ext
  apply List.filter_eq_self.mpr
  intro e _
  rw [h, Bool.not_false]

omit [DecidableEq κ] in
theorem deleteWhere_deleteWhere (m : JsMap κ ν) (p q : κ → ν → Bool) :
    (m.deleteWhere p).deleteWhere q = m.deleteWhere fun k v => p k v || q k v := by
  apply JsMap.ext
  show (m.entries.filter _).filter _ = m.entries.filter _
  rw [List.filter_filter]
  apply List.filter_congr
  intro e _
  rw [Bool.not_or, Bool.and_comm]

/-! ### Keys -/

theorem mem_keys_set {m : JsMap κ ν} {k k' : κ} {v : ν} :
    k' ∈ (m.set k v).keys ↔ k' = k ∨ k' ∈ m.keys := by
  simp only [mem_keys_iff, get_set]
  by_cases h : k' = k
  · simp [h]
  · simp [h]

theorem mem_keys_delete {m : JsMap κ ν} {k k' : κ} :
    k' ∈ (m.delete k).keys ↔ k' ≠ k ∧ k' ∈ m.keys := by
  by_cases h : k' = k
  · simp [h, mem_keys_iff]
  · simp [h, mem_keys_iff, get_delete_of_ne m h]

theorem mem_keys_deleteWhere_key {m : JsMap κ ν} {p : κ → Bool} {k : κ} :
    k ∈ (m.deleteWhere fun k' _ => p k').keys ↔ p k = false ∧ k ∈ m.keys := by
  simp only [mem_keys_iff, get_deleteWhere_key]
  by_cases h : p k = true
  · simp [h]
  · simp [h]

/-- A new key goes to the end.
Kind: L -/
theorem entries_set_of_not_mem {m : JsMap κ ν} {k : κ} (h : k ∉ m.keys) (v : ν) :
    (m.set k v).entries = m.entries ++ [(k, v)] := if_neg h

/-- A deleted entry and what is left are all that was there.
Kind: L -/
theorem entries_perm {m : JsMap κ ν} {k : κ} {v : ν} (h : m.get k = some v) :
    m.entries.Perm ((k, v) :: (m.delete k).entries) := by
  have hrest : ((k, v) :: (m.delete k).entries).Nodup := by
    apply List.nodup_cons.mpr
    refine ⟨fun hin => ?_, (m.delete k).nodup.of_map⟩
    simp [delete] at hin
  apply (List.perm_ext_iff_of_nodup m.nodup.of_map hrest).mpr
  intro e
  have hmem := mem_entries_iff.mpr h
  by_cases he : e.1 = k
  · constructor
    · intro hin
      have hget : m.get e.1 = some e.2 := mem_entries_iff.mp hin
      rw [he, h] at hget
      exact List.mem_cons.mpr (Or.inl (Prod.ext he (Option.some.inj hget).symm))
    · intro hin
      rcases List.mem_cons.mp hin with rfl | hin
      · exact hmem
      · exact (List.mem_filter.mp hin).1
  · have hne : e ≠ (k, v) := fun heq => he (congrArg Prod.fst heq)
    simp [delete, he, hne]

/-- Overwriting a value, where what is asked of the entries does not depend on it.
Kind: L -/
theorem map_entries_set {α : Type*} {m : JsMap κ ν} {k : κ} {v v' : ν} (h : m.get k = some v)
    {f : κ × ν → α} (hf : f (k, v') = f (k, v)) : (m.set k v').entries.map f = m.entries.map f := by
  have hk : k ∈ m.entries.map Prod.fst := mem_keys_iff.mpr ⟨v, h⟩
  simp only [set, setEntries]
  rw [if_pos hk, List.map_map]
  apply List.map_congr_left
  intro e he
  by_cases hek : e.1 = k
  · have hget : m.get e.1 = some e.2 := mem_entries_iff.mp he
    rw [hek, h] at hget
    have heq : e = (k, v) := Prod.ext hek (Option.some.inj hget).symm
    rw [Function.comp_apply, if_pos hek, hf, heq]
  · rw [Function.comp_apply, if_neg hek]

/-- Deleting the oldest key.
Kind: L -/
theorem entries_delete_head {m : JsMap κ ν} {k : κ} {v : ν} {l : List (κ × ν)}
    (h : m.entries = (k, v) :: l) : (m.delete k).entries = l := by
  have hnodup := m.nodup
  rw [h, List.map_cons, List.nodup_cons] at hnodup
  show m.entries.filter (fun e => e.1 ≠ k) = l
  rw [h, List.filter_cons_of_neg (by simp), List.filter_eq_self]
  intro e he
  apply decide_eq_true
  rintro rfl
  exact hnodup.1 (List.mem_map.mpr ⟨e, he, rfl⟩)

omit [DecidableEq κ] in
/-- Maps with the same keys have the same size.
Kind: L -/
theorem size_eq_of_keys {ν' : Type*} {m : JsMap κ ν} {m' : JsMap κ ν'}
    (h : ∀ k, k ∈ m.keys ↔ k ∈ m'.keys) : m.size = m'.size := by
  have hperm : m.keys.Perm m'.keys := (List.perm_ext_iff_of_nodup m.nodup m'.nodup).mpr h
  have hlength := hperm.length_eq
  rwa [keys, keys, List.length_map, List.length_map] at hlength

/-! ### Sizes -/

theorem size_delete_le (m : JsMap κ ν) (k : κ) : (m.delete k).size ≤ m.size :=
  List.length_filter_le _ _

theorem size_delete_lt {m : JsMap κ ν} {k : κ} (h : k ∈ m.keys) : (m.delete k).size < m.size := by
  obtain ⟨e, he, rfl⟩ := List.mem_map.mp h
  exact List.length_filter_lt_length_iff_exists.mpr ⟨e, he, by simp⟩

/-- A `set` adds at most one entry.
Kind: L -/
theorem size_set_le (m : JsMap κ ν) (k : κ) (v : ν) : (m.set k v).size ≤ m.size + 1 := by
  simp only [size, set, setEntries]
  split_ifs with h
  · rw [List.length_map]
    exact Nat.le_succ _
  · exact Nat.le_of_eq (List.length_append ..)

/-- Lookup after the values have been changed.
Kind: L -/
theorem get_filterMapValues {ν' : Type*} (m : JsMap κ ν) (f : ν → Option ν') (k : κ) :
    (m.filterMapValues f).get k = (m.get k).bind f := by
  apply Option.ext
  intro v'
  rw [← mem_entries_iff, Option.bind_eq_some_iff]
  simp only [filterMapValues, List.mem_filterMap, Option.map_eq_some_iff, Prod.exists, Prod.mk.injEq]
  constructor
  · rintro ⟨k', v, hmem, w, hf, rfl, rfl⟩
    exact ⟨v, mem_entries_iff.mp hmem, hf⟩
  · rintro ⟨v, hget, hf⟩
    exact ⟨k, v, mem_entries_iff.mpr hget, v', hf, rfl, rfl⟩

end JsMap

end TyoMq.Lib
