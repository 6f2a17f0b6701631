import Mathlib.Data.List.Sort
import Mathlib.Tactic.Common

/-!
# SQL tables with row numbers

A table of SQLite whose primary key is not its row number: a scan goes through the rows in the order
of their numbers, and a new row gets the number after the largest one in use, so that the numbers of
rows deleted at the end are used again.

* The numbers increase along the table; that is part of the structure.
* `scan_insert`, `scan_deleteWhere`, `scan_replaceWhere`: as far as a scan can tell, a new row comes
  last, whatever has been deleted before.
-/

namespace TyoMq.Lib

/-- A table of rows `ρ`.
Kind: D -/
structure RowTable (ρ : Type*) where
  /-- The rows with their numbers. -/
  rows : List (ℕ × ρ)
  /-- The numbers increase. -/
  sorted : (rows.map Prod.fst).Pairwise (· < ·)

namespace RowTable

variable {ρ : Type*}

/-- The table just created.
Kind: D -/
def empty : RowTable ρ := ⟨[], List.Pairwise.nil⟩

/-- `SELECT * FROM t`.
Kind: D -/
def scan (t : RowTable ρ) : List ρ := t.rows.map Prod.snd

/-- The number of the next row: one more than the largest.
Kind: D -/
def nextRowid (t : RowTable ρ) : ℕ := (t.rows.getLast?.map Prod.fst).getD 0 + 1

/-- Every number is smaller than the next.
Kind: L -/
theorem lt_nextRowid (t : RowTable ρ) {e : ℕ × ρ} (he : e ∈ t.rows) : e.1 < t.nextRowid := by
  obtain ⟨rows, hsorted⟩ := t
  simp only [nextRowid]
  rcases List.eq_nil_or_concat rows with rfl | ⟨init, last, rfl⟩
  · exact absurd he List.not_mem_nil
  · simp only [List.concat_eq_append] at he hsorted ⊢
    rw [List.map_append, List.pairwise_append] at hsorted
    simp only [List.getLast?_append, List.getLast?_singleton, Option.some_or, Option.map_some,
      Option.getD_some]
    rcases List.mem_append.mp he with hin | hlast
    · have := hsorted.2.2 e.1 (List.mem_map_of_mem hin) last.1 (by simp)
      omega
    · rw [List.mem_singleton.mp hlast]
      omega

/-- Deleting rows keeps the numbers in order.
Kind: L -/
theorem sorted_filter (t : RowTable ρ) (p : ℕ × ρ → Bool) :
    ((t.rows.filter p).map Prod.fst).Pairwise (· < ·) :=
  t.sorted.sublist (List.filter_sublist.map _)

/-- `DELETE FROM t WHERE p`.
Kind: D -/
def deleteWhere (t : RowTable ρ) (p : ρ → Bool) : RowTable ρ :=
  ⟨t.rows.filter fun e => !p e.2, t.sorted_filter _⟩

/-- `INSERT OR REPLACE INTO t`, where the rows `p` are in conflict with the new one: it takes its
number first, then they are deleted.
Kind: D -/
def replaceWhere (t : RowTable ρ) (p : ρ → Bool) (r : ρ) : RowTable ρ where
  rows := (t.rows.filter fun e => !p e.2) ++ [(t.nextRowid, r)]
  sorted := by
    rw [List.map_append, List.pairwise_append]
    refine ⟨t.sorted_filter _, List.pairwise_singleton _ _, fun a ha b hb => ?_⟩
    obtain ⟨e, he, rfl⟩ := List.mem_map.mp ha
    rw [List.map_singleton, List.mem_singleton] at hb
    rw [hb]
    exact t.lt_nextRowid (List.mem_of_mem_filter he)

/-- `INSERT INTO t`.
Kind: D -/
def insert (t : RowTable ρ) (r : ρ) : RowTable ρ := t.replaceWhere (fun _ => false) r

@[simp] theorem scan_empty : (empty : RowTable ρ).scan = [] := rfl

theorem scan_deleteWhere (t : RowTable ρ) (p : ρ → Bool) :
    (t.deleteWhere p).scan = t.scan.filter fun r => !p r := by
  simp only [scan, deleteWhere, List.filter_map]
  rfl

theorem scan_replaceWhere (t : RowTable ρ) (p : ρ → Bool) (r : ρ) :
    (t.replaceWhere p r).scan = (t.scan.filter fun r => !p r) ++ [r] := by
  simp only [scan, replaceWhere, List.filter_map, List.map_append, List.map_singleton]
  rfl

/-- A row that takes the place of no other is one more.
Kind: L -/
theorem scan_replaceWhere_of_new (t : RowTable ρ) {p : ρ → Bool} (h : ∀ r ∈ t.scan, p r = false) (r : ρ) :
    (t.replaceWhere p r).scan = t.scan ++ [r] := by
  have hkeep : (t.scan.filter fun r => !p r) = t.scan :=
    List.filter_eq_self.mpr fun r hr => by rw [h r hr]; rfl
  rw [scan_replaceWhere, hkeep]

theorem scan_insert (t : RowTable ρ) (r : ρ) : (t.insert r).scan = t.scan ++ [r] :=
  t.scan_replaceWhere_of_new (fun _ _ => rfl) r

/-- Deleting some rows leaves the others where they are.
Kind: L -/
theorem filter_scan_deleteWhere (t : RowTable ρ) {p q : ρ → Bool} (h : ∀ r, q r = true → p r = false) :
    (t.deleteWhere p).scan.filter q = t.scan.filter q := by
  rw [scan_deleteWhere, List.filter_filter]
  apply List.filter_congr
  intro r _
  cases hq : q r with
  | false => rfl
  | true => rw [h r hq]; rfl

/-- So does replacing some by a row that is not one of the others.
Kind: L -/
theorem filter_scan_replaceWhere (t : RowTable ρ) {p q : ρ → Bool} {r : ρ}
    (h : ∀ r, q r = true → p r = false) (hr : q r = false) :
    (t.replaceWhere p r).scan.filter q = t.scan.filter q := by
  rw [scan_replaceWhere, List.filter_append, ← scan_deleteWhere, filter_scan_deleteWhere t h,
    List.filter_singleton, hr]
  exact List.append_nil _

end RowTable

end TyoMq.Lib
