import Mathlib.Data.List.Induction
import Mathlib.Tactic.Common

/-!
# Runs of a state machine

A machine is a function from a state and an event to the next state. Its runs are the event lists,
and a run may be held to a condition on each event in the state where it happens (`EachStep`).

* `invariant_run`: what holds at the start, and what every step under the condition keeps, holds
  after every run under the condition.
* `everyState_iff_of`, `everyState_iff`: where the condition is exact for a step, it is exact for a run.
* `invariant_history`: the same as `invariant_run`, for what is said of the events that led to a state.
  `latest` is the last value that they gave.
-/

namespace TyoMq.Lib

variable {σ ε : Type*}

/-- The state after a run.
Kind: D -/
def runFrom (step : σ → ε → σ) (s : σ) (l : List ε) : σ := l.foldl step s

@[simp] theorem runFrom_nil (step : σ → ε → σ) (s : σ) : runFrom step s [] = s := rfl

@[simp] theorem runFrom_cons (step : σ → ε → σ) (s : σ) (e : ε) (l : List ε) :
    runFrom step s (e :: l) = runFrom step (step s e) l := rfl

theorem runFrom_append (step : σ → ε → σ) (s : σ) (l₁ l₂ : List ε) :
    runFrom step s (l₁ ++ l₂) = runFrom step (runFrom step s l₁) l₂ := List.foldl_append

/-- Every event of the run meets the condition in the state where it happens.
Kind: D -/
def EachStep (step : σ → ε → σ) (P : σ → ε → Prop) : σ → List ε → Prop
  | _, [] => True
  | s, e :: l => P s e ∧ EachStep step P (step s e) l

instance EachStep.decidable (step : σ → ε → σ) (P : σ → ε → Prop) [∀ s e, Decidable (P s e)] :
    ∀ s l, Decidable (EachStep step P s l)
  | _, [] => isTrue trivial
  | s, e :: l =>
      have := EachStep.decidable step P (step s e) l
      inferInstanceAs (Decidable (P s e ∧ EachStep step P (step s e) l))

theorem eachStep_append {step : σ → ε → σ} {P : σ → ε → Prop} {s : σ} {l₁ l₂ : List ε} :
    EachStep step P s (l₁ ++ l₂) ↔ EachStep step P s l₁ ∧ EachStep step P (runFrom step s l₁) l₂ := by
  induction l₁ generalizing s with
  | nil => exact (and_iff_right trivial).symm
  | cons e l₁ ih => exact (and_congr_right fun _ => ih).trans and_assoc.symm

/-- A condition that every event of the run meets, whatever the state.
Kind: L -/
theorem eachStep_of_forall {step : σ → ε → σ} {P : σ → ε → Prop} {s : σ} {l : List ε}
    (h : ∀ e ∈ l, ∀ s, P s e) : EachStep step P s l := by
  induction l generalizing s with
  | nil => exact trivial
  | cons e l ih =>
      have hhead := h e (List.mem_cons_self ..) s
      exact ⟨hhead, ih fun e' he' => h e' (List.mem_cons_of_mem _ he')⟩

/-- Two conditions that are the same where something holds that every step keeps.
Kind: L -/
theorem eachStep_congr {step : σ → ε → σ} {P Q : σ → ε → Prop} {J : σ → Prop}
    (hkeep : ∀ s e, J s → J (step s e)) (h : ∀ s e, J s → (P s e ↔ Q s e)) {s : σ} {l : List ε}
    (hJ : J s) : EachStep step P s l ↔ EachStep step Q s l := by
  induction l generalizing s with
  | nil => exact Iff.rfl
  | cons e l ih => exact and_congr (h s e hJ) (ih (hkeep s e hJ))

/-- What every step keeps, a run keeps.
Kind: L -/
theorem invariant_run {step : σ → ε → σ} {P : σ → ε → Prop} {I : σ → Prop}
    (hstep : ∀ s e, I s → P s e → I (step s e)) {s : σ} {l : List ε} (h : I s)
    (hl : EachStep step P s l) : I (runFrom step s l) := by
  induction l generalizing s with
  | nil => exact h
  | cons e l ih => exact ih (hstep s e h hl.1) hl.2

/-- Something holds in every state of a run exactly when every step meets the condition that is exact
for a step, where that takes something that such steps keep.
Kind: L -/
theorem everyState_iff_of {step : σ → ε → σ} {P : σ → ε → Prop} {I J : σ → Prop}
    (hstep : ∀ s e, J s → I s → (I (step s e) ↔ P s e)) (hkeep : ∀ s e, J s → P s e → J (step s e))
    {s : σ} {l : List ε} (hJ : J s) (h : I s) :
    (∀ l₁ l₂, l₁ ++ l₂ = l → I (runFrom step s l₁)) ↔ EachStep step P s l := by
  constructor
  · intro hall
    induction l generalizing s with
    | nil => exact trivial
    | cons e l ih =>
        have hnext : I (step s e) := hall [e] l rfl
        have hP : P s e := (hstep s e hJ h).mp hnext
        refine ⟨hP, ih (hkeep s e hJ hP) hnext fun l₁ l₂ hl => ?_⟩
        exact hall (e :: l₁) l₂ (congrArg (e :: ·) hl)
  · rintro hl l₁ l₂ rfl
    have hboth : J (runFrom step s l₁) ∧ I (runFrom step s l₁) :=
      invariant_run (I := fun s => J s ∧ I s)
        (fun s e hs hP => ⟨hkeep s e hs.1 hP, (hstep s e hs.1 hs.2).mpr hP⟩) ⟨hJ, h⟩
        (eachStep_append.mp hl).1
    exact hboth.2

/-- The same, where it takes nothing.
Kind: L -/
theorem everyState_iff {step : σ → ε → σ} {P : σ → ε → Prop} {I : σ → Prop}
    (hstep : ∀ s e, I s → (I (step s e) ↔ P s e)) {s : σ} {l : List ε} (h : I s) :
    (∀ l₁ l₂, l₁ ++ l₂ = l → I (runFrom step s l₁)) ↔ EachStep step P s l :=
  everyState_iff_of (J := fun _ => True) (fun s e _ => hstep s e) (fun _ _ _ _ => trivial) trivial h

/-! ### Histories -/

/-- What every step keeps, with the events so far.
Kind: L -/
theorem invariant_history {step : σ → ε → σ} {P : σ → ε → Prop} {I : List ε → σ → Prop}
    (hstep : ∀ l s e, I l s → P s e → I (l ++ [e]) (step s e)) {s : σ} {l : List ε} (h : I [] s)
    (hl : EachStep step P s l) : I l (runFrom step s l) := by
  induction l using List.reverseRecOn with
  | nil => exact h
  | append_singleton l e ih =>
      obtain ⟨hl, he, -⟩ := eachStep_append.mp hl
      rw [runFrom_append]
      exact hstep l _ e (ih hl) he

/-- The last value that the events give, `none` when none of them gives any.
Kind: D -/
def latest {α : Type*} (f : ε → Option α) (l : List ε) : Option α :=
  l.foldl (fun value e => (f e).or value) none

@[simp] theorem latest_nil {α : Type*} (f : ε → Option α) : latest f [] = none := rfl

theorem latest_append_singleton {α : Type*} (f : ε → Option α) (l : List ε) (e : ε) :
    latest f (l ++ [e]) = (f e).or (latest f l) := List.foldl_append

theorem latest_append_of_none {α : Type*} {f : ε → Option α} {e : ε} (h : f e = none) (l : List ε) :
    latest f (l ++ [e]) = latest f l := by
  rw [latest_append_singleton, h, Option.none_or]

theorem latest_append_of_some {α : Type*} {f : ε → Option α} {e : ε} {a : α} (h : f e = some a)
    (l : List ε) : latest f (l ++ [e]) = some a := by
  rw [latest_append_singleton, h, Option.some_or]

end TyoMq.Lib
