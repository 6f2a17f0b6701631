import Mathlib.Data.List.Basic
import Mathlib.Tactic.Common

/-!
# A cell that is read over time

The content of the cell changes at once, while a read takes time: it returns what the cell held at some
moment between its start and its end, and reads end in any order.

* The contents are counted. A read remembers the number of the content it was begun under, and, once it has
  ended, the number of the content it has returned.
* A read begun under the current content returns it (`ReadCell.eq_content_of_complete`). Once one has ended, the
  content has been read since it was written (`ReadCell.Refreshed`).
* **Reads that end in turn** (`ReadCell.InTurn`): a read that is still outstanding was begun under the current
  content when another of which that is true has ended (`ReadCell.InTurn.since_eq`).
-/

namespace TyoMq.Lib

/-- A read.
Kind: D -/
structure CellRead where
  /-- The number of the content under which it was begun. -/
  since : ℕ
  /-- The number of the content that it has returned, if it has ended. -/
  returned : Option ℕ
  deriving DecidableEq

/-- A cell with all that it has held, and the reads of it in the order in which they were begun.
Kind: D -/
structure ReadCell (τ : Type*) where
  /-- The first content. -/
  first : τ
  /-- What has been written. -/
  writes : List τ
  /-- The reads. -/
  reads : List CellRead

namespace ReadCell

variable {τ : Type*}

/-- The number of the current content.
Kind: D -/
def version (c : ReadCell τ) : ℕ := c.writes.length

/-- The content with a number.
Kind: D -/
def contentAt (c : ReadCell τ) (v : ℕ) : Option τ := (c.first :: c.writes)[v]?

/-- The current content.
Kind: D -/
def content (c : ReadCell τ) : τ := c.writes.getLastD c.first

/-- Write a content.
Kind: D -/
def write (c : ReadCell τ) (x : τ) : ReadCell τ := { c with writes := c.writes ++ [x] }

/-- Begin a read.
Kind: D -/
def start (c : ReadCell τ) : ReadCell τ := { c with reads := c.reads ++ [⟨c.version, none⟩] }

/-- End a read with one of the contents since its start, `none` where there is no such read or content.
Kind: D -/
def complete (c : ReadCell τ) (k v : ℕ) : Option (ReadCell τ × τ) :=
  match c.reads[k]? with
  | some ⟨since, none⟩ =>
      if since ≤ v then
        (c.contentAt v).map fun x => ({ c with reads := c.reads.set k ⟨since, some v⟩ }, x)
      else none
  | _ => none

variable {c c' : ReadCell τ} {k v : ℕ} {x : τ}

/-- The current content is the one with the current number.
Kind: L -/
theorem contentAt_version (c : ReadCell τ) : c.contentAt c.version = some c.content := by
  unfold contentAt version content
  rw [List.getLastD_eq_getLast?, ← List.getLast?_cons, List.getLast?_eq_getElem?, List.length_cons,
    Nat.add_sub_cancel]

theorem version_write (c : ReadCell τ) (x : τ) : (c.write x).version = c.version + 1 := by
  unfold write version
  rw [List.length_append, List.length_singleton]

/-- A content has a number up to the current one.
Kind: L -/
theorem le_version_of_contentAt (h : c.contentAt v = some x) : v ≤ c.version := by
  obtain ⟨hlt, -⟩ := List.getElem?_eq_some_iff.mp h
  rw [List.length_cons] at hlt
  exact Nat.lt_succ_iff.mp hlt

/-- What the end of a read does.
Kind: L -/
theorem complete_eq_some_iff :
    c.complete k v = some (c', x) ↔
      ∃ since, c.reads[k]? = some ⟨since, none⟩ ∧ since ≤ v ∧ c.contentAt v = some x ∧
        c' = { c with reads := c.reads.set k ⟨since, some v⟩ } := by
  unfold complete
  constructor
  · intro h
    split at h
    · rename_i since hk
      split_ifs at h with hle
      obtain ⟨y, hy, heq⟩ := Option.map_eq_some_iff.mp h
      obtain ⟨rfl, rfl⟩ := Prod.mk.inj heq
      exact ⟨since, hk, hle, hy, rfl⟩
    · exact nomatch h
  · rintro ⟨since, hk, hle, hx, rfl⟩
    rw [hk]
    dsimp only
    rw [if_pos hle, hx, Option.map_some]

/-- A read begun under the current content returns it.
Kind: P -/
theorem eq_content_of_complete (h : c.complete k v = some (c', x))
    (hk : c.reads[k]? = some ⟨c.version, none⟩) : x = c.content := by
  obtain ⟨since, hk', hle, hx, -⟩ := complete_eq_some_iff.mp h
  rw [hk] at hk'
  obtain rfl : c.version = since := congrArg CellRead.since (Option.some.inj hk')
  obtain rfl : v = c.version := Nat.le_antisymm (le_version_of_contentAt hx) hle
  rw [contentAt_version] at hx
  exact (Option.some.inj hx).symm

/-- The other reads stay as they are.
Kind: L -/
theorem reads_of_complete (h : c.complete k v = some (c', x)) {j : ℕ} (hj : j ≠ k) :
    c'.reads[j]? = c.reads[j]? := by
  obtain ⟨since, -, -, -, rfl⟩ := complete_eq_some_iff.mp h
  exact List.getElem?_set_ne hj.symm

/-- The read that ends has returned something.
Kind: L -/
theorem reads_of_complete_self (h : c.complete k v = some (c', x)) :
    ∃ since, c.reads[k]? = some ⟨since, none⟩ ∧ c'.reads[k]? = some ⟨since, some v⟩ := by
  obtain ⟨since, hk, -, -, rfl⟩ := complete_eq_some_iff.mp h
  refine ⟨since, hk, ?_⟩
  have hlt : k < c.reads.length := (List.getElem?_eq_some_iff.mp hk).1
  exact List.getElem?_set_self hlt

theorem version_of_complete (h : c.complete k v = some (c', x)) : c'.version = c.version := by
  obtain ⟨since, -, -, -, rfl⟩ := complete_eq_some_iff.mp h
  rfl

theorem content_of_complete (h : c.complete k v = some (c', x)) : c'.content = c.content := by
  obtain ⟨since, -, -, -, rfl⟩ := complete_eq_some_iff.mp h
  rfl

/-- Every read was begun under a content that the cell has had.
Kind: D -/
def Counted (c : ReadCell τ) : Prop := ∀ r ∈ c.reads, r.since ≤ c.version

theorem Counted.write (h : c.Counted) (x : τ) : (c.write x).Counted := by
  intro r hr
  rw [version_write]
  exact Nat.le_succ_of_le (h r hr)

theorem Counted.start (h : c.Counted) : c.start.Counted := by
  intro r hr
  rcases List.mem_append.mp hr with hold | hnew
  · exact h r hold
  · rw [List.mem_singleton.mp hnew]
    exact Nat.le_refl _

theorem Counted.complete (h : c.Counted) (hc : c.complete k v = some (c', x)) : c'.Counted := by
  obtain ⟨since, hk, -, -, rfl⟩ := complete_eq_some_iff.mp hc
  intro r hr
  rcases List.mem_or_eq_of_mem_set hr with hold | rfl
  · exact h r hold
  · exact h ⟨since, none⟩ (List.mem_of_getElem? hk)

/-- The content has been read since it was written.
Kind: D -/
def Refreshed (c : ReadCell τ) : Prop := ∃ r ∈ c.reads, r.since = c.version ∧ r.returned ≠ none

instance (c : ReadCell τ) : Decidable c.Refreshed :=
  inferInstanceAs (Decidable (∃ r ∈ c.reads, r.since = c.version ∧ r.returned ≠ none))

theorem Counted.not_refreshed_write (h : c.Counted) (x : τ) : ¬ (c.write x).Refreshed := by
  rintro ⟨r, hr, hsince, -⟩
  rw [version_write] at hsince
  exact absurd (h r hr) (by omega)

theorem refreshed_of_start (h : c.start.Refreshed) : c.Refreshed := by
  obtain ⟨r, hr, hsince, hended⟩ := h
  rcases List.mem_append.mp hr with hold | hnew
  · exact ⟨r, hold, hsince, hended⟩
  · rw [List.mem_singleton.mp hnew] at hended
    exact absurd rfl hended

/-- The end of a read leaves a cell that has been read since it was written: it was so, or the read gives the
content.
Kind: P -/
theorem refreshed_of_complete (hc : c.complete k v = some (c', x)) (h : c'.Refreshed) :
    c.Refreshed ∨ x = c.content := by
  obtain ⟨r, hr, hsince, hended⟩ := h
  rw [version_of_complete hc] at hsince
  obtain ⟨j, hj⟩ := List.mem_iff_getElem?.mp hr
  by_cases hjk : j = k
  · subst hjk
    obtain ⟨since, hold, hnew⟩ := reads_of_complete_self hc
    rw [hj] at hnew
    obtain rfl := Option.some.inj hnew
    obtain rfl : since = c.version := hsince
    exact Or.inr (eq_content_of_complete hc hold)
  · rw [reads_of_complete hc hjk] at hj
    exact Or.inl ⟨r, List.mem_of_getElem? hj, hsince, hended⟩

/-! ### Reads that end in turn -/

/-- The reads were begun one after the other, and those that have ended were begun before those that
have not.
Kind: D -/
structure InTurn (c : ReadCell τ) : Prop where
  /-- Every read was begun under a content that the cell has had. -/
  counted : c.Counted
  /-- A later read was begun under the same content or a later one, and ends later. -/
  pairwise : c.reads.Pairwise fun r r' => r.since ≤ r'.since ∧ (r.returned = none → r'.returned = none)

theorem InTurn.write (h : c.InTurn) (x : τ) : (c.write x).InTurn where
  counted := h.counted.write x
  pairwise := h.pairwise

theorem InTurn.start (h : c.InTurn) : c.start.InTurn where
  counted := h.counted.start
  pairwise := by
    refine List.pairwise_append.mpr ⟨h.pairwise, List.pairwise_singleton _ _, ?_⟩
    intro r hr r' hr'
    rw [List.mem_singleton.mp hr']
    exact ⟨h.counted r hr, fun _ => rfl⟩

/-- The first read that has not ended ends.
Kind: L -/
theorem InTurn.complete (h : c.InTurn) (hc : c.complete k v = some (c', x))
    (hfirst : ∀ j < k, ∀ r, c.reads[j]? = some r → r.returned ≠ none) : c'.InTurn := by
  have hcounted : c'.Counted := h.counted.complete hc
  obtain ⟨since, hk, -, -, rfl⟩ := complete_eq_some_iff.mp hc
  obtain ⟨hlt, hread⟩ := List.getElem?_eq_some_iff.mp hk
  refine ⟨hcounted, ?_⟩
  · rw [List.pairwise_iff_getElem]
    intro i j hi hj hij
    rw [List.length_set] at hi hj
    obtain ⟨hle, hnone⟩ := List.pairwise_iff_getElem.mp h.pairwise i j hi hj hij
    rw [List.getElem_set, List.getElem_set]
    by_cases hik : k = i
    · subst hik
      rw [hread] at hle
      rw [if_pos rfl, if_neg (Nat.ne_of_lt hij)]
      exact ⟨hle, fun hout => nomatch hout⟩
    · rw [if_neg hik]
      by_cases hjk : k = j
      · -- the read that ends has none that is outstanding before it
        subst hjk
        rw [hread] at hle
        rw [if_pos rfl]
        exact ⟨hle, fun hout => absurd hout (hfirst i hij _ (List.getElem?_eq_getElem hi))⟩
      · rw [if_neg hjk]
        exact ⟨hle, hnone⟩

/-- When a read begun under the current content has ended, so was every read that is outstanding.
Kind: P -/
theorem InTurn.since_eq (h : c.InTurn) {r r' : CellRead} (hr : r ∈ c.reads) (hr' : r' ∈ c.reads)
    (hsince : r.since = c.version) (hended : r.returned ≠ none) (hout : r'.returned = none) :
    r'.since = c.version := by
  obtain ⟨i, hi, rfl⟩ := List.mem_iff_getElem.mp hr
  obtain ⟨j, hj, rfl⟩ := List.mem_iff_getElem.mp hr'
  have hboth := List.pairwise_iff_getElem.mp h.pairwise
  rcases Nat.lt_trichotomy i j with hij | hij | hij
  · apply Nat.le_antisymm (h.counted _ hr')
    rw [← hsince]
    exact (hboth i j hi hj hij).1
  · subst hij
    exact absurd hout hended
  · exact absurd ((hboth j i hj hi hij).2 hout) hended

end ReadCell

end TyoMq.Lib
