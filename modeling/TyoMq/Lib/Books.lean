import Mathlib.Data.List.Count
import TyoMq.Lib.Journal

/-!
# Books that balance

A machine that keeps things: it is given some and gives some away, and reports both. Its books balance where
what it had and was given is what it has and has given away.

* `Balances`: of a step or of several, which may start with something that is owed.
* `balances_scan`: of a loop, from its rounds.
-/

namespace TyoMq.Lib

variable {σ ε α β γ : Type*}

/-- How the books of a machine are kept.
Kind: D -/
structure Book (σ α β : Type*) where
  /-- What it has. -/
  held : σ → List β
  /-- What it is given, by a report. -/
  given : α → Option β
  /-- What it gives away, by a report. -/
  taken : α → Option β

namespace Book

variable {b : Book σ α β} {owed owed' : List β} {s s' s'' : σ} {new new' : List α}

/-- What is owed, what was held and what is given comes to what is held then and what is taken.
Kind: D -/
def Balances (b : Book σ α β) (owed : List β) (s s' : σ) (new : List α) : Prop :=
  (owed ++ (b.held s ++ new.filterMap b.given)).Perm (b.held s' ++ new.filterMap b.taken)

theorem Balances.refl (b : Book σ α β) (s : σ) : b.Balances [] s s [] := List.Perm.refl _

/-- Nothing changes hands.
Kind: L -/
theorem Balances.quiet (hheld : b.held s' = b.held s) (hgiven : new.filterMap b.given = [])
    (htaken : new.filterMap b.taken = []) : b.Balances [] s s' new := by
  unfold Balances
  rw [hheld, hgiven, htaken]
  exact List.Perm.refl _

/-- Some of what is held is kept, and the rest is taken.
Kind: L -/
theorem Balances.filter (p : β → Bool) (hheld : b.held s' = (b.held s).filter p)
    (hgiven : new.filterMap b.given = [])
    (htaken : new.filterMap b.taken = (b.held s).filter fun x => !p x) : b.Balances [] s s' new := by
  unfold Balances
  rw [hheld, hgiven, htaken, List.append_nil, List.nil_append]
  exact (List.filter_append_perm p (b.held s)).symm

/-- What is given is held.
Kind: L -/
theorem Balances.receive (hheld : b.held s' = b.held s ++ new.filterMap b.given)
    (htaken : new.filterMap b.taken = []) : b.Balances [] s s' new := by
  unfold Balances
  rw [hheld, htaken, List.append_nil]
  exact List.Perm.refl _

/-- What is owed is held.
Kind: L -/
theorem Balances.deposit (hheld : b.held s' = b.held s ++ owed) (hgiven : new.filterMap b.given = [])
    (htaken : new.filterMap b.taken = []) : b.Balances owed s s' new := by
  unfold Balances
  rw [hheld, hgiven, htaken, List.append_nil, List.append_nil]
  exact List.perm_append_comm

/-- What is owed is taken.
Kind: L -/
theorem Balances.pay (hheld : b.held s' = b.held s) (hgiven : new.filterMap b.given = [])
    (htaken : new.filterMap b.taken = owed) : b.Balances owed s s' new := by
  unfold Balances
  rw [hheld, hgiven, htaken, List.append_nil]
  exact List.perm_append_comm

/-- One step and then another.
Kind: L -/
theorem Balances.trans (h : b.Balances owed s s' new) (h' : b.Balances owed' s' s'' new') :
    b.Balances (owed ++ owed') s s'' (new ++ new') := by
  classical
  unfold Balances at h h' ⊢
  rw [List.perm_iff_count] at h h' ⊢
  intro x
  have hx := h x
  have hx' := h' x
  simp only [List.filterMap_append, List.count_append] at hx hx' ⊢
  omega

/-- What is owed may be given by the first report.
Kind: L -/
theorem Balances.accept {a : α} {x : β} (h : b.Balances [x] s s' new) (hgiven : b.given a = some x)
    (htaken : b.taken a = none) : b.Balances [] s s' (a :: new) := by
  unfold Balances at h ⊢
  rw [List.filterMap_cons_some hgiven, List.filterMap_cons_none htaken]
  exact (List.perm_middle).trans h

/-- What is owed may have been held.
Kind: L -/
theorem Balances.release {s₀ : σ} (h : b.Balances owed s s' new)
    (hheld : (b.held s₀).Perm (owed ++ b.held s)) : b.Balances [] s₀ s' new := by
  unfold Balances at h ⊢
  rw [← List.append_assoc] at h
  exact (hheld.append_right _).trans h

/-- The books of a loop.
Kind: L -/
theorem balances_scan {f : σ → γ → σ × List α} (hf : ∀ s x, b.Balances [] s (f s x).1 (f s x).2) (s : σ)
    (l : List γ) : b.Balances [] s (scan f s l).1 (scan f s l).2 := by
  induction l generalizing s with
  | nil => exact Balances.refl b s
  | cons x l ih => exact (hf s x).trans (ih _)

end Book

end TyoMq.Lib
