import Mathlib.Data.List.Count
import TyoMq.Lib.JsMap

/-!
# Tallies

A map that keeps how often each element is in a list, and nothing of an element that is not in it.

* `Tallies.inc`, `Tallies.dec`: one element more, and one less.
* `Tallies.getD`: how often an element is there, and `Tallies.getD_le`: no more often in a part.
-/

namespace TyoMq.Lib

variable {κ : Type*} [DecidableEq κ]

/-- The map keeps how often each element is in the list.
Kind: D -/
def Tallies (m : JsMap κ ℕ) (l : List κ) : Prop :=
  ∀ k, m.get k = if l.count k = 0 then none else some (l.count k)

namespace Tallies

variable {m : JsMap κ ℕ} {l l' : List κ} {k : κ}

theorem empty : Tallies (JsMap.empty : JsMap κ ℕ) [] := fun _ => rfl

/-- The order does not matter.
Kind: L -/
theorem perm (h : Tallies m l) (hl : l.Perm l') : Tallies m l' := fun k => by
  rw [h k, hl.count_eq]

/-- How often an element is there.
Kind: L -/
theorem getD (h : Tallies m l) (k : κ) : (m.get k).getD 0 = l.count k := by
  rw [h k]
  split_ifs with hcount
  · exact hcount.symm
  · rfl

/-- A part has no more of anything.
Kind: L -/
theorem getD_le {m' : JsMap κ ℕ} (h : Tallies m l) (h' : Tallies m' l') (hl : l.Sublist l') (k : κ) :
    (m.get k).getD 0 ≤ (m'.get k).getD 0 := by
  rw [h.getD, h'.getD]
  exact hl.count_le k

/-- One element more.
Kind: L -/
theorem inc (h : Tallies m l) (k : κ) : Tallies (m.set k ((m.get k).getD 0 + 1)) (k :: l) := by
  intro x
  rw [JsMap.get_set, h.getD]
  by_cases hx : x = k
  · rw [if_pos hx, hx, List.count_cons_self, if_neg (Nat.succ_ne_zero _)]
  · rw [if_neg hx, h x, List.count_cons_of_ne (Ne.symm hx)]

/-- One element less.
Kind: L -/
theorem dec (h : Tallies m (k :: l)) :
    Tallies (if (m.get k).getD 0 - 1 = 0 then m.delete k else m.set k ((m.get k).getD 0 - 1)) l := by
  have hcount : (m.get k).getD 0 - 1 = l.count k := by
    rw [h.getD, List.count_cons_self, Nat.add_sub_cancel]
  rw [hcount]
  intro x
  have hx := h x
  by_cases hxk : x = k
  · rw [hxk]
    split_ifs with hzero
    · exact JsMap.get_delete_self m k
    · exact JsMap.get_set_self m k _
  · rw [List.count_cons_of_ne (Ne.symm hxk)] at hx
    rw [← hx]
    split_ifs with hzero
    · exact JsMap.get_delete_of_ne m hxk
    · exact JsMap.get_set_of_ne m hxk _

end Tallies

end TyoMq.Lib
