import Mathlib.Data.List.Rotate

/-!
# Taking turns

A counter that goes up by one each time, and the member of a list that it stands for.

* `map_turn_range`: a whole round is the list from some member on.
* `perm_turns`: each member has one turn in a round.
-/

namespace TyoMq.Lib

variable {α : Type*}

/-- The member whose turn it is at a count.
Kind: D -/
def turn (l : List α) (count : ℕ) : Option α := l[count % l.length]?

/-- A round is the list, from some member on.
Kind: L -/
theorem map_turn_range (l : List α) (count : ℕ) :
    (List.range l.length).map (fun i => turn l (count + i)) = (l.rotate count).map some := by
  apply List.ext_getElem
  · simp
  · intro i hi hi'
    have hpos : 0 < l.length := by
      rw [List.length_map, List.length_range] at hi
      omega
    simp only [List.getElem_map, List.getElem_range, List.getElem_rotate, turn, Nat.add_comm count i]
    exact List.getElem?_eq_getElem (Nat.mod_lt _ hpos)

/-- Each member has one turn in a round.
Kind: L -/
theorem perm_turns (l : List α) (count : ℕ) :
    ((List.range l.length).map fun i => turn l (count + i)).Perm (l.map some) := by
  rw [map_turn_range]
  exact (l.rotate_perm count).map some

end TyoMq.Lib
