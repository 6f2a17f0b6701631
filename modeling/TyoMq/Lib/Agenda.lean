import TyoMq.Lib.JsMap

/-!
# Work that is put off

What a program with one thread has put off: timers that it has set, and what it will do when a call that it
has made returns. Each piece of work has a number, which is never used again, and may be called off.

* `get_post`, `get_cancel`, `get_cancelAll`: what is on the agenda after each operation.
* `works_post`, `works_cancel`, `works_cancel_of_none`: the same of all the work together.
-/

namespace TyoMq.Lib

/-- Work that is put off, by its number.
Kind: D -/
structure Agenda (τ : Type*) where
  /-- The work. -/
  tasks : JsMap ℕ τ
  /-- The next number. -/
  next : ℕ
  /-- The numbers are used in turn. -/
  lt_next : ∀ i ∈ tasks.keys, i < next

namespace Agenda

variable {τ : Type*}

/-- Nothing is put off.
Kind: D -/
def empty : Agenda τ := ⟨JsMap.empty, 0, by simp [JsMap.keys, JsMap.empty]⟩

/-- The work with a number.
Kind: D -/
def get (a : Agenda τ) (i : ℕ) : Option τ := a.tasks.get i

/-- Put some work off. Its number is `a.next`.
Kind: D -/
def post (a : Agenda τ) (t : τ) : Agenda τ where
  tasks := a.tasks.set a.next t
  next := a.next + 1
  lt_next i hi := by
    rcases JsMap.mem_keys_set.mp hi with rfl | hi
    · exact Nat.lt_succ_self _
    · exact Nat.lt_succ_of_lt (a.lt_next i hi)

/-- Call some work off, or take it up.
Kind: D -/
def cancel (a : Agenda τ) (i : ℕ) : Agenda τ where
  tasks := a.tasks.delete i
  next := a.next
  lt_next j hj := a.lt_next j (JsMap.mem_keys_delete.mp hj).2

/-- Call all the work with some numbers off.
Kind: D -/
def cancelAll (a : Agenda τ) (l : List ℕ) : Agenda τ where
  tasks := a.tasks.deleteWhere fun i _ => l.contains i
  next := a.next
  lt_next j hj := a.lt_next j (JsMap.mem_keys_deleteWhere_key.mp hj).2

variable {a : Agenda τ} {t : τ} {i j : ℕ} {l : List ℕ}

@[simp] theorem get_empty : (empty : Agenda τ).get i = none := rfl

theorem lt_next_of_get (h : a.get i = some t) : i < a.next :=
  a.lt_next i (JsMap.mem_keys_iff.mpr ⟨t, h⟩)

@[simp] theorem get_next : a.get a.next = none := by
  rcases h : a.get a.next with _ | t
  · rfl
  · exact absurd (lt_next_of_get h) (Nat.lt_irrefl _)

theorem get_post : (a.post t).get i = if i = a.next then some t else a.get i :=
  JsMap.get_set _ _ _ _

theorem get_cancel : (a.cancel j).get i = if i = j then none else a.get i := by
  by_cases h : i = j
  · rw [h, if_pos rfl]
    exact JsMap.get_delete_self _ _
  · rw [if_neg h]
    exact JsMap.get_delete_of_ne _ h

theorem get_cancelAll : (a.cancelAll l).get i = if i ∈ l then none else a.get i := by
  have h := JsMap.get_deleteWhere_key a.tasks (fun i => l.contains i) i
  simpa [get, cancelAll] using h

/-- What is on the agenda after something has been called off was there before.
Kind: L -/
theorem get_of_get_cancel (h : (a.cancel j).get i = some t) : i ≠ j ∧ a.get i = some t := by
  rw [get_cancel] at h
  by_cases hij : i = j
  · rw [if_pos hij] at h
    exact absurd h (by simp)
  · exact ⟨hij, by rwa [if_neg hij] at h⟩

theorem get_of_get_cancelAll (h : (a.cancelAll l).get i = some t) : i ∉ l ∧ a.get i = some t := by
  rw [get_cancelAll] at h
  by_cases hi : i ∈ l
  · rw [if_pos hi] at h
    exact absurd h (by simp)
  · exact ⟨hi, by rwa [if_neg hi] at h⟩

/-! ### All the work -/

/-- The work that is put off, in the order in which it was.
Kind: D -/
def works (a : Agenda τ) : List τ := a.tasks.entries.map Prod.snd

@[simp] theorem works_empty : (empty : Agenda τ).works = [] := rfl

@[simp] theorem works_post (a : Agenda τ) (t : τ) : (a.post t).works = a.works ++ [t] := by
  have hnew : a.next ∉ a.tasks.keys := fun h => Nat.lt_irrefl _ (a.lt_next _ h)
  unfold works post
  dsimp only
  rw [JsMap.entries_set_of_not_mem hnew, List.map_append]
  rfl

/-- Where there is no such work, nothing is called off.
Kind: L -/
theorem works_cancel_of_none (h : a.get i = none) : (a.cancel i).works = a.works := by
  unfold works cancel JsMap.delete
  dsimp only
  rw [List.filter_eq_self.mpr]
  intro e he
  apply decide_eq_true
  rintro rfl
  have hget : a.get e.1 = some e.2 := JsMap.mem_entries_iff.mp he
  exact absurd (h.symm.trans hget) (by simp)

/-- What is called off, and what is left.
Kind: L -/
theorem works_cancel (h : a.get i = some t) : a.works.Perm (t :: (a.cancel i).works) :=
  (JsMap.entries_perm h).map Prod.snd

end Agenda

end TyoMq.Lib
