import Mathlib.Algebra.BigOperators.Group.List.Basic
import Mathlib.Algebra.Order.Field.Basic
import Mathlib.Tactic.Linarith
import Mathlib.Tactic.Ring

/-!
# Envelopes: what a token bucket guarantees

A ledger is the list of amounts admitted, each at a time. It *conforms* to a rate and a burst when
over every interval the admitted amount is at most `burst + rate * length`. A bucket that refills at
`rate` up to `burst`, and admits an amount only out of its level, keeps its ledger conforming: the
level is what is left of the envelope of every interval that ends now (`Funded`).

* `Funded.nil`, `Funded.advance`, `Funded.spend`: a full bucket, the passing of time, an admission.
* `Funded.conforms`: the guarantee.
* `refill` is the level of a bucket that was last touched a while ago; `refill_add` is its growth.
-/

set_option linter.unusedSectionVars false

namespace TyoMq.Lib

variable {K : Type*} [Field K] [LinearOrder K] [IsStrictOrderedRing K]

/-- The amount the ledger holds between the times `s` and `e`, both included.
Kind: D -/
def spent (l : List (K × K)) (s e : K) : K :=
  ((l.filter fun x => s ≤ x.1 ∧ x.1 ≤ e).map Prod.snd).sum

@[simp] theorem spent_nil (s e : K) : spent ([] : List (K × K)) s e = 0 := rfl

theorem spent_cons (x : K × K) (l : List (K × K)) (s e : K) :
    spent (x :: l) s e = (if s ≤ x.1 ∧ x.1 ≤ e then x.2 else 0) + spent l s e := by
  unfold spent
  rw [List.filter_cons]
  by_cases h : s ≤ x.1 ∧ x.1 ≤ e
  · simp [h]
  · simp [h]

/-- Over every interval the ledger holds at most `burst + rate * length`.
Kind: D -/
def Conforms (rate burst : K) (l : List (K × K)) : Prop :=
  ∀ s e, s ≤ e → spent l s e ≤ burst + rate * (e - s)

/-- At time `t`, the level `L` of a bucket is covered by the envelope of every interval that ends at
`t`, and the ledger conforms.
Kind: D -/
structure Funded (rate burst : K) (l : List (K × K)) (t L : K) : Prop where
  /-- Everything was admitted by now. -/
  past : ∀ x ∈ l, x.1 ≤ t
  /-- The level is not negative. -/
  nonneg : 0 ≤ L
  /-- The level is at most the burst. -/
  le_burst : L ≤ burst
  /-- The level is left over in every interval that ends now. -/
  left : ∀ s, s ≤ t → spent l s t + L ≤ burst + rate * (t - s)
  /-- The ledger conforms. -/
  conforms : Conforms rate burst l

namespace Funded

variable {rate burst t t' L L' c : K} {l : List (K × K)}

/-- An empty ledger funds any level of a bucket.
Kind: L -/
theorem nil (hrate : 0 ≤ rate) (t : K) (h₀ : 0 ≤ L) (hL : L ≤ burst) :
    Funded rate burst [] t L where
  past x hx := absurd hx List.not_mem_nil
  nonneg := h₀
  le_burst := hL
  left s hs := by
    have := mul_nonneg hrate (sub_nonneg.mpr hs)
    simp only [spent_nil]
    linarith
  conforms s e hse := by
    have := mul_nonneg hrate (sub_nonneg.mpr hse)
    simp only [spent_nil]
    linarith

/-- After the last admission an interval holds what it held when it ended at that time.
Kind: L -/
theorem spent_eq_of_past (h : ∀ x ∈ l, x.1 ≤ t) (ht : t ≤ t') (s : K) :
    spent l s t' = spent l s t := by
  unfold spent
  congr 2
  apply List.filter_congr
  intro x hx
  have hxt : x.1 ≤ t := h x hx
  simp [hxt, hxt.trans ht]

/-- Beyond the last admission there is nothing.
Kind: L -/
theorem spent_eq_zero (h : ∀ x ∈ l, x.1 ≤ t) {s e : K} (hs : t < s) : spent l s e = 0 := by
  unfold spent
  rw [List.filter_eq_nil_iff.mpr, List.map_nil, List.sum_nil]
  intro x hx
  have : ¬ s ≤ x.1 := not_le.mpr (lt_of_le_of_lt (h x hx) hs)
  simp [this]

/-- Time passes: the level may grow by `rate` for each unit of time, up to the burst.
Kind: L -/
theorem advance (h : Funded rate burst l t L) (hrate : 0 ≤ rate) (ht : t ≤ t') (h₀ : 0 ≤ L')
    (hburst : L' ≤ burst) (hgrow : L' ≤ L + rate * (t' - t)) : Funded rate burst l t' L' where
  past x hx := (h.past x hx).trans ht
  nonneg := h₀
  le_burst := hburst
  left s hs := by
    by_cases hst : s ≤ t
    · rw [spent_eq_of_past h.past ht]
      have := h.left s hst
      linarith
    · rw [spent_eq_zero h.past (lt_of_not_ge hst)]
      have := mul_nonneg hrate (sub_nonneg.mpr hs)
      linarith
  conforms := h.conforms

/-- An amount is admitted out of the level.
Kind: L -/
theorem spend (h : Funded rate burst l t L) (hrate : 0 ≤ rate) (hc : 0 ≤ c) (hL : c ≤ L) :
    Funded rate burst ((t, c) :: l) t (L - c) where
  past x hx := by
    rcases List.mem_cons.mp hx with rfl | hx'
    · exact le_rfl
    · exact h.past x hx'
  nonneg := sub_nonneg.mpr hL
  le_burst := (sub_le_self L hc).trans h.le_burst
  left s hs := by
    rw [spent_cons, if_pos ⟨hs, le_rfl⟩]
    have := h.left s hs
    linarith
  conforms s e hse := by
    rw [spent_cons]
    by_cases hin : s ≤ t ∧ t ≤ e
    · -- an interval that contains `t` gains nothing after it
      rw [if_pos hin, spent_eq_of_past h.past hin.2]
      have hleft := h.left s hin.1
      have hgrow := mul_nonneg hrate (sub_nonneg.mpr hin.2)
      linarith
    · rw [if_neg hin, zero_add]
      exact h.conforms s e hse

end Funded

/-! ### Refilling -/

/-- The level, `elapsed` after it was `tokens`.
Kind: D -/
def refill (rate burst tokens elapsed : K) : K := min burst (tokens + elapsed * rate)

variable {rate burst tokens elapsed more : K}

theorem refill_nonneg (hrate : 0 ≤ rate) (hburst : 0 ≤ burst) (htok : 0 ≤ tokens)
    (hel : 0 ≤ elapsed) : 0 ≤ refill rate burst tokens elapsed :=
  le_min hburst (add_nonneg htok (mul_nonneg hel hrate))

theorem refill_zero (h : tokens ≤ burst) : refill rate burst tokens 0 = tokens := by
  simp [refill, h]

/-- The level grows by at most `rate` for each unit of time.
Kind: L -/
theorem refill_add_le (hrate : 0 ≤ rate) (hmore : 0 ≤ more) :
    refill rate burst tokens (elapsed + more) ≤ refill rate burst tokens elapsed + rate * more := by
  have hgain : 0 ≤ rate * more := mul_nonneg hrate hmore
  unfold refill
  rw [← min_add_add_right]
  refine le_min ?_ ?_
  · exact (min_le_left _ _).trans (by linarith)
  · refine (min_le_right _ _).trans (le_of_eq ?_)
    ring

/-- A bucket left alone long enough to refill from empty is full.
Kind: L -/
theorem refill_eq_burst (htok : 0 ≤ tokens) (hfull : burst ≤ elapsed * rate) :
    refill rate burst tokens elapsed = burst := by
  unfold refill
  exact min_eq_left (by linarith)

end TyoMq.Lib
