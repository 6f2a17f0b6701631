import TyoMq.Limits.Conformance

/-!
# Rate limits and quotas: is `retry_after` long enough?

A refusal says after how many seconds to try again. The client waits that long, or longer, while other
keys are charged and idle buckets are pruned. The numbers are doubles, as in the code.

* What others do leaves the bucket of the key as it is, or takes it away: whether it may still be there
  after a time is decided by the prunes (`Left.get_prune_of_not_mayStay`, `exists_stays`).
* **A wait that is long enough** (`admitted_after_retry_iff`): the call is then admitted, whenever it
  comes, exactly when its cost is within the burst and the rounding of the refill loses nothing that
  is needed, where the bucket may still be there.
* A message that is larger than the byte burst is told to try again, for ever
  (`refused_for_ever_large_message`).
* At fifteen realms an hour a client that waits as long as it was told is refused again, for the last
  digit of its bucket (`refused_again_hourly`).
-/

set_option linter.unusedSectionVars false

namespace TyoMq

open TyoMq.Lib

namespace Limits

/-- A call of `_take`.
Kind: D -/
structure Take (N : Type) where
  /-- The bucket. -/
  key : JsString
  /-- The rate per second. -/
  ratePerSec : N
  /-- The burst. -/
  burst : N
  /-- The cost. -/
  cost : N
  /-- The time, in whole milliseconds. -/
  now : ℕ

section Takes

variable {N : Type} [Add N] [Sub N] [Mul N] [Div N] [Min N] [Max N] [NatCast N] [LE N] [LT N]
  [DecidableLE N] [DecidableLT N] [Numeric N] {s : Limits N} {key : JsString} {rate burst cost now : N}

/-- The limiter after some calls of `_take`.
Kind: D -/
def takes (s : Limits N) (l : List (Take N)) : Limits N :=
  l.foldl (fun s c => (s.take c.key c.ratePerSec c.burst c.cost c.now).1) s

@[simp] theorem takes_nil (s : Limits N) : s.takes [] = s := rfl

@[simp] theorem takes_cons (s : Limits N) (c : Take N) (l : List (Take N)) :
    s.takes (c :: l) = (s.take c.key c.ratePerSec c.burst c.cost c.now).1.takes l := rfl

/-- For the bucket of another key a call is a prune.
Kind: L -/
theorem take_other (s : Limits N) {c : Take N} (hne : c.key ≠ key)
    (hrate : Numeric.isFinite c.ratePerSec = true) :
    (s.take c.key c.ratePerSec c.burst c.cost c.now).1.buckets.get key =
        (s.prune (c.now : N)).buckets.get key ∧
      (s.take c.key c.ratePerSec c.burst c.cost c.now).1.lastPruneAt =
        (s.prune (c.now : N)).lastPruneAt := by
  by_cases hle : c.cost ≤ tokensAt ((s.prune (c.now : N)).buckets.get c.key) c.ratePerSec c.burst c.now
  · rw [take_of_le hrate hle]
    exact ⟨JsMap.get_set_of_ne _ (Ne.symm hne) _, rfl⟩
  · rw [take_of_not_le hrate hle]
    exact ⟨JsMap.get_set_of_ne _ (Ne.symm hne) _, rfl⟩

/-- When a call is refused, and for how long.
Kind: L -/
theorem take_refused_iff (hrate : Numeric.isFinite rate = true) {retryAfter : N} :
    (s.take key rate burst cost now).2 = .refused none retryAfter ↔
      ¬ cost ≤ tokensAt ((s.prune now).buckets.get key) rate burst now ∧
        retryAfter = max ((1 : ℕ) : N) (Numeric.ceil
          ((cost - tokensAt ((s.prune now).buckets.get key) rate burst now) / rate)) := by
  by_cases hle : cost ≤ tokensAt ((s.prune now).buckets.get key) rate burst now
  · rw [take_of_le hrate hle]
    simp [hle]
  · rw [take_of_not_le hrate hle, and_iff_right hle, Verdict.refused.injEq, and_iff_right rfl, eq_comm]

theorem take_ok_iff (hrate : Numeric.isFinite rate = true) :
    (s.take key rate burst cost now).2 = .ok ↔
      cost ≤ tokensAt ((s.prune now).buckets.get key) rate burst now := by
  by_cases hle : cost ≤ tokensAt ((s.prune now).buckets.get key) rate burst now
  · rw [take_of_le hrate hle]
    exact iff_of_true rfl hle
  · rw [take_of_not_le hrate hle]
    exact iff_of_false (by simp) hle

end Takes

section Retry

variable {rate burst cost tokens : Double} {now : ℕ}

/-- The bucket of a call that was refused at `now` may still be there `n` seconds later: it does not
count as idle yet, or no prune is due, or a prune has been made when it did not count as idle yet.
`last` is when idle buckets were pruned before.
Kind: D -/
def MayStay (last : Double) (now n : ℕ) : Prop :=
  1000 * n ≤ BUCKET_IDLE_MS ∨
    ((now + 1000 * n : ℕ) : Double) - last < (PRUNE_INTERVAL_MS : Double) ∨
      1000 * n < BUCKET_IDLE_MS + PRUNE_INTERVAL_MS ∧
        ¬ ((now + BUCKET_IDLE_MS : ℕ) : Double) - last < (PRUNE_INTERVAL_MS : Double)

/-- For every whole number of seconds that is at least what is lacking, divided by the rate, and after
which the bucket may still be there, the refill of that time is enough. Exact arithmetic always has it
so; doubles are rounded at each operation.
Kind: D -/
def RefillSuffices (rate cost tokens last : Double) (now : ℕ) : Prop :=
  ∀ n : ℕ, 1 ≤ n → ((cost - tokens) / rate).AtMost n → MayStay last now n →
    cost ≤ tokens + (((now + 1000 * n : ℕ) : Double) - now) / (1000 : ℕ) * rate

/-! ### Does the bucket stay? -/

/-- When the bucket of a refused call counts as idle.
Kind: L -/
theorem idle_natCast (hnow : now + BUCKET_IDLE_MS < 2 ^ 53) {k : ℕ} :
    idle (k : Double) ⟨tokens, now⟩ = true ↔ now + BUCKET_IDLE_MS < k := by
  unfold idle
  rw [decide_eq_true_iff]
  constructor
  · intro hlt
    by_contra hle
    exact Double.not_lt_of_le (Double.natCast_sub_le (not_lt.mp hle) (by omega)) hlt
  · intro hlt
    have hsub : ((BUCKET_IDLE_MS + 1 : ℕ) : Double) ≤ (k : Double) - now :=
      Double.le_natCast_sub (by omega) (by omega)
    exact Double.lt_of_lt_of_le
      (Double.natCast_lt_natCast (Nat.lt_succ_self _) (by unfold BUCKET_IDLE_MS; norm_num)) hsub

/-- What a prune that is due does, and one that is not.
Kind: L -/
theorem prune_of_not_due {s : Limits Double} {t : Double}
    (h : t - s.lastPruneAt < (PRUNE_INTERVAL_MS : Double)) : s.prune t = s := if_pos h

theorem prune_of_due {s : Limits Double} {t : Double}
    (h : ¬ t - s.lastPruneAt < (PRUNE_INTERVAL_MS : Double)) (key : JsString) :
    (s.prune t).lastPruneAt = t ∧
      (s.prune t).buckets.get key = (s.buckets.get key).filter fun b => !idle t b := by
  unfold prune
  rw [if_neg h]
  exact ⟨rfl, JsMap.get_deleteWhere ..⟩

/-- While other keys are charged: the bucket is gone, or it is as it was left, and idle buckets were last
pruned when they had been before the refusal, or at a time when it did not count as idle.
Kind: D -/
def Left (key : JsString) (tokens last : Double) (now : ℕ) (u : Limits Double) : Prop :=
  u.buckets.get key = none ∨
    u.buckets.get key = some ⟨tokens, now⟩ ∧
      (u.lastPruneAt = last ∨
        (∃ k : ℕ, k ≤ now + BUCKET_IDLE_MS ∧ u.lastPruneAt = k) ∧
          ¬ ((now + BUCKET_IDLE_MS : ℕ) : Double) - last < (PRUNE_INTERVAL_MS : Double))

section Left

variable {key : JsString} {last : Double} {u : Limits Double}

theorem Left.prune (h : Left key tokens last now u) (hnow : now + BUCKET_IDLE_MS < 2 ^ 53) (k : ℕ) :
    Left key tokens last now (u.prune k) := by
  by_cases hdue : (k : Double) - u.lastPruneAt < (PRUNE_INTERVAL_MS : Double)
  · rwa [prune_of_not_due hdue]
  · obtain ⟨hlast, hget⟩ := prune_of_due hdue key
    rcases h with hnone | ⟨hsome, hwhen⟩
    · refine Or.inl ?_
      rw [hget, hnone]
      rfl
    · by_cases hidle : idle (k : Double) ⟨tokens, now⟩ = true
      · refine Or.inl ?_
        rw [hget, hsome]
        exact Option.filter_some_neg (by simpa using hidle)
      · have hk : k ≤ now + BUCKET_IDLE_MS := not_lt.mp ((idle_natCast hnow).not.mp hidle)
        refine Or.inr ⟨?_, Or.inr ⟨⟨k, hk, hlast⟩, ?_⟩⟩
        · rw [hget, hsome]
          exact Option.filter_some_pos (by simpa using hidle)
        · rcases hwhen with rfl | ⟨-, hlate⟩
          · exact fun hlt => hdue (Double.sub_lt_of_le (Double.natCast_le_natCast hk) hlt)
          · exact hlate

theorem Left.take (h : Left key tokens last now u) (hnow : now + BUCKET_IDLE_MS < 2 ^ 53)
    {c : Take Double} (hne : c.key ≠ key) :
    Left key tokens last now (u.take c.key c.ratePerSec c.burst c.cost c.now).1 := by
  have hprune := h.prune hnow c.now
  cases hrate : Numeric.isFinite c.ratePerSec with
  | false => rwa [take_of_not_finite hrate]
  | true =>
      obtain ⟨hget, hlast⟩ := take_other u hne hrate
      unfold Left
      rw [hget, hlast]
      exact hprune

theorem Left.takes (h : Left key tokens last now u) (hnow : now + BUCKET_IDLE_MS < 2 ^ 53)
    {l : List (Take Double)} (hl : ∀ c ∈ l, c.key ≠ key) : Left key tokens last now (u.takes l) := by
  induction l generalizing u with
  | nil => exact h
  | cons c l ih =>
      exact ih (h.take hnow (hl c List.mem_cons_self)) fun c' hc' => hl c' (List.mem_cons_of_mem _ hc')

/-- A bucket that cannot stay is pruned by the time of the next call.
Kind: L -/
theorem Left.get_prune_of_not_mayStay (h : Left key tokens last now u)
    (hnow : now + BUCKET_IDLE_MS + PRUNE_INTERVAL_MS < 2 ^ 53) {n later : ℕ}
    (hlater : now + 1000 * n ≤ later) (hgone : ¬ MayStay last now n) :
    (u.prune later).buckets.get key = none := by
  obtain ⟨hlong, hdue⟩ := not_or.mp hgone
  obtain ⟨hdue, hlate⟩ := not_or.mp hdue
  have hle := Double.natCast_le_natCast hlater
  have hdue' : u.buckets.get key = some ⟨tokens, now⟩ →
      ¬ (later : Double) - u.lastPruneAt < (PRUNE_INTERVAL_MS : Double) := by
    intro hsome
    rcases h with hnone | ⟨-, rfl | ⟨⟨k, hk, hlast⟩, hnot⟩⟩
    · exact absurd (hnone.symm.trans hsome) (by simp)
    · exact fun hlt => hdue (Double.sub_lt_of_le hle hlt)
    · rw [hlast]
      have hfar : k + PRUNE_INTERVAL_MS ≤ later := by
        by_contra hnear
        exact hlate ⟨by omega, hnot⟩
      exact Double.not_lt_of_le (Double.le_natCast_sub hfar (by omega))
  by_cases hsome : u.buckets.get key = some ⟨tokens, now⟩
  · rw [(prune_of_due (hdue' hsome) key).2, hsome]
    have hidle : idle (later : Double) ⟨tokens, now⟩ = true := (idle_natCast (by omega)).mpr (by omega)
    exact Option.filter_some_neg (by simpa using hidle)
  · have hnone := h.resolve_right fun hleft => hsome hleft.1
    rcases (prune_cases u (later : Double) key).2.2 with hsame | hdropped
    · exact hsame.trans hnone
    · exact hdropped.1

/-- A bucket that may stay does, when others do no more than to have idle buckets pruned in time.
Kind: L -/
theorem exists_stays (hget : u.buckets.get key = some ⟨tokens, now⟩) (hlast : u.lastPruneAt = last)
    (hnow : now + BUCKET_IDLE_MS + PRUNE_INTERVAL_MS < 2 ^ 53) {n : ℕ} (h : MayStay last now n) :
    ∃ others : List (Take Double), (∀ c ∈ others, c.key ≠ key) ∧
      ((u.takes others).prune ((now + 1000 * n : ℕ) : Double)).buckets.get key = some ⟨tokens, now⟩ := by
  have hstays : ∀ {u : Limits Double} {k : ℕ}, u.buckets.get key = some ⟨tokens, now⟩ →
      k ≤ now + BUCKET_IDLE_MS → (u.prune (k : Double)).buckets.get key = some ⟨tokens, now⟩ := by
    intro u k hget hk
    have hbusy : ¬ idle (k : Double) ⟨tokens, now⟩ = true :=
      (idle_natCast (by omega)).not.mpr (not_lt.mpr hk)
    by_cases hdue : (k : Double) - u.lastPruneAt < (PRUNE_INTERVAL_MS : Double)
    · rwa [prune_of_not_due hdue]
    · rw [(prune_of_due hdue key).2, hget]
      exact Option.filter_some_pos (by simpa using hbusy)
  rcases h with hshort | hundue | ⟨hnear, hdue⟩
  · exact ⟨[], by simp, hstays hget (by omega)⟩
  · refine ⟨[], by simp, ?_⟩
    rw [takes_nil, prune_of_not_due (hlast.symm ▸ hundue)]
    exact hget
  · -- another key is charged just before the bucket counts as idle
    have hone : Numeric.isFinite ((1 : ℕ) : Double) = true := by
      rw [Double.natCast_eq_finite (by norm_num)]
      rfl
    have hother : key ++ [0] ≠ key := by simp
    have hinterval : 0 < PRUNE_INTERVAL_MS := by
      unfold PRUNE_INTERVAL_MS
      norm_num
    have hprune := hstays hget (le_refl (now + BUCKET_IDLE_MS))
    have hlast' := (prune_of_due (hlast.symm ▸ hdue) key).1
    have hundue : ((now + 1000 * n : ℕ) : Double) - ((now + BUCKET_IDLE_MS : ℕ) : Double) <
        (PRUNE_INTERVAL_MS : Double) :=
      Double.lt_of_le_of_lt
        (Double.natCast_sub_le (d := PRUNE_INTERVAL_MS - 1) (by omega) (by omega))
        (Double.natCast_lt_natCast (Nat.sub_lt hinterval Nat.one_pos) (by omega))
    refine ⟨[⟨key ++ [0], (1 : ℕ), (1 : ℕ), (1 : ℕ), now + BUCKET_IDLE_MS⟩], by simp, ?_⟩
    obtain ⟨hget', hlast''⟩ := take_other u
      (c := ⟨key ++ [0], (1 : ℕ), (1 : ℕ), (1 : ℕ), now + BUCKET_IDLE_MS⟩) hother hone
    rw [takes_cons, takes_nil, prune_of_not_due, hget']
    · exact hprune
    · rw [hlast'', hlast']
      exact hundue

end Left

/-! ### The wait -/

/-- The wait is not finite when the quotient is not.
Kind: L -/
theorem max_one_ne_finite {seconds : ℚ} {double : IsDouble seconds} :
    Double.finite seconds double ≠ max ((1 : ℕ) : Double) .nan ∧
      Double.finite seconds double ≠ max ((1 : ℕ) : Double) .infinity := by
  rw [Double.natCast_eq_finite (by norm_num)]
  exact ⟨fun h => Double.noConfusion h, fun h => Double.noConfusion h⟩

/-- The wait for a quotient that is finite.
Kind: L -/
theorem max_one_ceil {q : ℚ} (hq : IsDouble q) (hnonneg : 0 ≤ q) {seconds : ℚ} {double : IsDouble seconds}
    (h : Double.finite seconds double = max ((1 : ℕ) : Double) (Numeric.ceil (Double.finite q hq))) :
    seconds = (max 1 ⌈q⌉ : ℤ) := by
  have hceil : Numeric.ceil (Double.finite q hq) = .finite ⌈q⌉ (Double.isDouble_ceil hnonneg hq) :=
    Double.ofRat_eq_finite _
  rw [hceil, Double.natCast_eq_finite (by norm_num),
    Double.max_eq (fun h => Double.noConfusion h) (fun h => Double.noConfusion h)] at h
  by_cases hle : 1 ≤ ⌈q⌉
  · rw [if_pos (Double.finite_le_finite.mpr (by exact_mod_cast hle)), Double.finite.injEq] at h
    rw [h, max_eq_right hle]
  · rw [if_neg (Double.finite_le_finite.not.mpr (by exact_mod_cast hle)), Double.finite.injEq] at h
    rw [h, max_eq_left (not_le.mp hle).le]
    norm_num

/-- A finite wait comes from a positive rate and a finite level, and is the quotient rounded up, or one
second.
Kind: L -/
theorem exists_wait (hrate : Numeric.isFinite rate = true) (hnonneg : ((0 : ℕ) : Double) ≤ rate)
    (hcost : Numeric.isFinite cost = true) (hlack : ¬ cost ≤ tokens) {seconds : ℚ}
    {double : IsDouble seconds} (hwait : Double.finite seconds double =
      max ((1 : ℕ) : Double) (Numeric.ceil ((cost - tokens) / rate))) :
    (∃ r hr, rate = .finite r hr ∧ 0 < r) ∧ (∃ t ht, tokens = .finite t ht) ∧
      ∃ q hq, (cost - tokens) / rate = .finite q hq ∧ seconds = (max 1 ⌈q⌉ : ℤ) := by
  obtain ⟨c, hc, rfl⟩ : ∃ c hc, cost = .finite c hc := by
    cases cost with
    | finite c hc => exact ⟨c, hc, rfl⟩
    | nan | infinity | negInfinity => exact absurd hcost Bool.false_ne_true
  obtain ⟨r, hr, rfl⟩ : ∃ r hr, rate = .finite r hr := by
    cases rate with
    | finite r hr => exact ⟨r, hr, rfl⟩
    | nan | infinity | negInfinity => exact absurd hrate Bool.false_ne_true
  rw [Double.natCast_eq_finite (by norm_num), Double.finite_le_finite, Nat.cast_zero] at hnonneg
  have hinf : Double.infinity / Double.finite r hr = .infinity := if_neg (not_lt.mpr hnonneg)
  cases tokens with
  | nan => exact absurd hwait max_one_ne_finite.1
  | infinity => exact absurd (Double.le_infinity Double.noConfusion) hlack
  | negInfinity =>
      have hquot : (Double.finite c hc - .negInfinity) / Double.finite r hr = .infinity := hinf
      rw [hquot] at hwait
      exact absurd hwait max_one_ne_finite.2
  | finite t ht =>
      have hpos : 0 ≤ c - t := (sub_pos.mpr (not_le.mp (Double.finite_le_finite.not.mp hlack))).le
      have hdiff : Double.finite c hc - Double.finite t ht = Double.ofRat (c - t) := rfl
      rw [hdiff] at hwait ⊢
      rcases Double.ofRat_nonneg hpos with htop | ⟨d, hd, heq, hd0⟩
      · rw [htop, hinf] at hwait
        exact absurd hwait max_one_ne_finite.2
      · rw [heq] at hwait ⊢
        rcases hnonneg.eq_or_lt with rfl | hr0
        · -- a rate that has underflowed to zero
          have hzero : Double.finite d hd / Double.finite 0 hr = Double.infinityOf d := by
            show (if (0 : ℚ) = 0 then Double.infinityOf d else Double.ofRat (d / 0)) = _
            exact if_pos rfl
          rw [hzero, Double.infinityOf] at hwait
          split_ifs at hwait with h₁ h₂
          · exact absurd hwait max_one_ne_finite.2
          · exact absurd h₂ (not_lt.mpr hd0)
          · exact absurd hwait max_one_ne_finite.1
        · have hquot : Double.finite d hd / Double.finite r hr = Double.ofRat (d / r) := if_neg hr0.ne'
          rw [hquot] at hwait ⊢
          refine ⟨⟨r, hr, rfl, hr0⟩, ⟨t, ht, rfl⟩, ?_⟩
          rcases Double.ofRat_nonneg (div_nonneg hd0 hr0.le) with htop | ⟨q, hq, heq, hq0⟩
          · rw [htop] at hwait
            exact absurd hwait max_one_ne_finite.2
          · rw [heq] at hwait ⊢
            exact ⟨q, hq, rfl, max_one_ceil hq hq0 hwait⟩

/-- The level of a bucket grows with the time.
Kind: L -/
theorem level_mono {r t : ℚ} {hr : IsDouble r} {ht : IsDouble t} (hr0 : 0 < r) (hnow : now ≤ 2 ^ 53)
    {later later' : ℕ} (h : later ≤ later') :
    Double.finite t ht + ((later : Double) - now) / (1000 : ℕ) * Double.finite r hr ≤
      Double.finite t ht + ((later' : Double) - now) / (1000 : ℕ) * Double.finite r hr := by
  have hcast : (later : Double) ≤ later' := Double.ofRat_mono (by exact_mod_cast h)
  rw [Double.natCast_eq_finite hnow, Double.natCast_eq_finite (n := 1000) (by norm_num)]
  exact Double.add_le_add_left (Double.mul_le_mul_right hr0
    (Double.div_le_div_right (by norm_num) (Double.sub_le_sub_right hcast)))

/-- What may stay for a time may stay for a shorter one.
Kind: L -/
theorem MayStay.of_le {last : Double} {n n' : ℕ} (h : MayStay last now n') (hle : n ≤ n') :
    MayStay last now n := by
  rcases h with hshort | hundue | ⟨hnear, hdue⟩
  · exact Or.inl (by omega)
  · exact Or.inr (Or.inl (Double.sub_lt_of_le (Double.natCast_le_natCast (by omega)) hundue))
  · exact Or.inr (Or.inr ⟨by omega, hdue⟩)

/-- The wait is the least number of seconds, from one on, that the quotient does not exceed.
Kind: L -/
theorem atMost_iff_wait_le {x : Double} {q : ℚ} {hq : IsDouble q} (hquot : x = .finite q hq) {m : ℕ}
    (hm : (m : ℤ) = max 1 ⌈q⌉) {n : ℕ} (hone : 1 ≤ n) : x.AtMost n ↔ m ≤ n := by
  have hceil : q ≤ n ↔ ⌈q⌉ ≤ (n : ℤ) := by
    rw [Int.ceil_le]
    push_cast
    rfl
  constructor
  · rintro ⟨q', hq', hquot', hle⟩
    obtain rfl : q = q' := (Double.finite.injEq .. ▸ hquot.symm.trans hquot' :)
    have hwait := hceil.mp hle
    omega
  · intro hle
    exact ⟨q, hq, hquot, hceil.mpr (by omega)⟩

/-- **A wait that is long enough.** A call that is refused with a finite wait is admitted, at any time not
earlier than it was told and whatever other keys are charged meanwhile, exactly when its cost is within
the burst and the refill suffices as the doubles compute it.
Source: `lib/limits.js`, `Limits.prototype._take`, `Limits.prototype._prune`
Kind: P -/
theorem admitted_after_retry_iff (s : Limits Double) (key : JsString) (rate burst cost : Double)
    (hrate : Numeric.isFinite rate = true) (hnonneg : ((0 : ℕ) : Double) ≤ rate)
    (hcost : Numeric.isFinite cost = true) (now : ℕ)
    (hnow : now + BUCKET_IDLE_MS + PRUNE_INTERVAL_MS < 2 ^ 53) {retryAfter : ℚ}
    {double : IsDouble retryAfter}
    (hrefused : (s.take key rate burst cost now).2 = .refused none (.finite retryAfter double)) :
    (∀ (others : List (Take Double)) (later : ℕ), (∀ c ∈ others, c.key ≠ key) →
      now + 1000 * retryAfter ≤ later →
        (((s.take key rate burst cost now).1.takes others).take key rate burst cost later).2 = .ok) ↔
      cost ≤ burst ∧
        RefillSuffices rate cost (tokensAt ((s.prune now).buckets.get key) rate burst now)
          (s.prune now).lastPruneAt now := by
  obtain ⟨hlack, hwait⟩ := (take_refused_iff hrate).mp hrefused
  have hleft : (s.take key rate burst cost now).1.buckets.get key =
      some ⟨tokensAt ((s.prune now).buckets.get key) rate burst now, now⟩ := by
    rw [take_of_not_le hrate hlack]
    exact JsMap.get_set_self ..
  have hlast : (s.take key rate burst cost now).1.lastPruneAt = (s.prune now).lastPruneAt := by
    rw [take_of_not_le hrate hlack]
  generalize hs' : (s.take key rate burst cost now).1 = s' at hleft hlast ⊢
  generalize tokensAt ((s.prune now).buckets.get key) rate burst now = tokens at hlack hwait hleft ⊢
  generalize (s.prune now).lastPruneAt = last at hlast ⊢
  obtain ⟨⟨r, hr, rfl, hr0⟩, ⟨t, ht, rfl⟩, q, hq, hquot, hseconds⟩ :=
    exists_wait hrate hnonneg hcost hlack hwait
  -- the wait is a whole number of seconds
  obtain ⟨m, hm⟩ : ∃ m : ℕ, (m : ℤ) = max 1 ⌈q⌉ :=
    ⟨(max 1 ⌈q⌉).toNat, Int.toNat_of_nonneg (le_max_of_le_left zero_le_one)⟩
  have hretry : retryAfter = m := by
    rw [hseconds, ← hm]
    exact Int.cast_natCast m
  have hfound : ∀ (u : Limits Double) (later : ℕ),
      (u.take key (.finite r hr) burst cost later).2 = .ok ↔
        cost ≤ tokensAt ((u.prune later).buckets.get key) (.finite r hr) burst later :=
    fun u later => take_ok_iff hrate
  constructor
  · intro h
    have hnext : ∀ others : List (Take Double), (∀ c ∈ others, c.key ≠ key) →
        cost ≤ tokensAt (((s'.takes others).prune ((now + 1000 * m : ℕ) : Double)).buckets.get key)
          (.finite r hr) burst ((now + 1000 * m : ℕ) : Double) := by
      intro others hothers
      refine (hfound _ _).mp (h others _ hothers ?_)
      rw [hretry]
      push_cast
      exact le_rfl
    refine ⟨?_, fun n hone hmost hstay => ?_⟩
    · have hok := hnext [] (by simp)
      cases hget : ((s'.takes []).prune ((now + 1000 * m : ℕ) : Double)).buckets.get key with
      | none => rwa [hget] at hok
      | some b =>
          rw [hget] at hok
          exact (Double.le_min_iff.mp hok).1
    · have hle : m ≤ n := (atMost_iff_wait_le hquot hm hone).mp hmost
      obtain ⟨others, hothers, hget⟩ := exists_stays hleft hlast hnow (hstay.of_le hle)
      have hok := hnext others hothers
      rw [hget] at hok
      exact Double.le_trans (Double.le_min_iff.mp hok).2 (level_mono hr0 (by omega) (by omega))
  · rintro ⟨hburst, hrefill⟩ others later hothers hwhen
    have hle : now + 1000 * m ≤ later := by
      rw [hretry] at hwhen
      exact_mod_cast hwhen
    have hleftOver := Left.takes (Or.inr ⟨hleft, Or.inl hlast⟩) (by omega) hothers
    apply (hfound _ _).mpr
    by_cases hstay : MayStay last now m
    · have hmost : ((cost - Double.finite t ht) / Double.finite r hr).AtMost m :=
        (atMost_iff_wait_le hquot hm (by omega)).mpr (le_refl m)
      have hlevel := Double.le_trans (hrefill m (by omega) hmost hstay)
        (level_mono hr0 (by omega) hle)
      rcases hleftOver.prune (by omega) later with hnone | ⟨hsome, -⟩
      · rw [hnone]
        exact hburst
      · rw [hsome]
        exact Double.le_min_iff.mpr ⟨hburst, hlevel⟩
    · rw [hleftOver.get_prune_of_not_mayStay hnow hle hstay]
      exact hburst

/-- A refill that suffices after one second does so for every wait.
Kind: L -/
theorem refillSuffices_of_one {r t : ℚ} {hr : IsDouble r} {ht : IsDouble t} {last : Double} (hr0 : 0 < r)
    (hnow : now ≤ 2 ^ 53)
    (h : cost ≤ Double.finite t ht +
      (((now + 1000 * 1 : ℕ) : Double) - now) / (1000 : ℕ) * Double.finite r hr) :
    RefillSuffices (.finite r hr) cost (.finite t ht) last now :=
  fun n hone _ _ => Double.le_trans h (level_mono hr0 hnow (by omega))

/-- One of something.
Kind: D -/
def one : Double := (1 : ℕ)

/-- A limiter of one message a second, after one message.
Kind: D -/
def oneMessageASecond : Limits Double := ((new ((0 : ℕ) : Double)).take (js "msg:s1") one one one (0 : ℕ)).1

/-- A second message half a second later is told to wait a second.
Kind: L -/
theorem refused_oneMessageASecond :
    (oneMessageASecond.take (js "msg:s1") one one one (500 : ℕ)).2 =
      .refused none (.finite (1 : ℕ) (Double.isDouble_natCast (by decide))) := by
  decide +kernel

theorem isDouble_half : IsDouble (1 / 2) := ⟨by decide +kernel, by decide +kernel⟩

/-- It is refused, and admitted a second later or whenever it comes after that.
Kind: C -/
theorem admitted_after_retry_oneMessageASecond :
    (oneMessageASecond.take (js "msg:s1") one one one (500 : ℕ)).2 ≠ .ok ∧
      ∀ (others : List (Take Double)) (later : ℕ), (∀ c ∈ others, c.key ≠ js "msg:s1") →
        ((500 : ℕ) : ℚ) + 1000 * ((1 : ℕ) : ℚ) ≤ later →
          (((oneMessageASecond.take (js "msg:s1") one one one (500 : ℕ)).1.takes others).take
            (js "msg:s1") one one one later).2 = .ok := by
  refine ⟨by decide +kernel, ?_⟩
  apply (admitted_after_retry_iff oneMessageASecond (js "msg:s1") one one one (by decide +kernel)
    (by decide +kernel) (by decide +kernel) 500 (by unfold BUCKET_IDLE_MS PRUNE_INTERVAL_MS; norm_num)
    refused_oneMessageASecond).mpr
  have htokens : tokensAt ((oneMessageASecond.prune ((500 : ℕ) : Double)).buckets.get (js "msg:s1")) one
      one ((500 : ℕ) : Double) = .ofRat (1 / 2) := by decide +kernel
  have hone : one = .finite (1 : ℕ) (Double.isDouble_natCast (by norm_num)) :=
    Double.natCast_eq_finite (by norm_num)
  rw [htokens, Double.ofRat_eq_finite isDouble_half, hone]
  refine ⟨by decide +kernel, refillSuffices_of_one (by norm_num) (by norm_num) (by decide +kernel)⟩

/-! ### Two refusals -/

/-- At most ten bytes a second, in bursts of twenty.
Kind: D -/
def tenBytes : Option (Config Double) := some (oneLimit .bytes_per_second (10 : ℕ))

/-- A message of 21 bytes costs more than the burst.
Kind: L -/
theorem produceAllowed_tenBytes {s : Limits Double} (h : Cached tenBytes s) (now : ℕ → Double) :
    (produceAllowed tenBytes s (js "s1") none (21 : ℕ) now).2 ≠ .ok := by
  obtain ⟨hon, -, hcached⟩ := enabled_of_cached h (now 0)
  obtain ⟨s₁, -, -, hmsg⟩ := messageCheck_eq hcached (js "s1") none now
  obtain ⟨s₂, -, -, hbyte⟩ := byteCheck_eq
    (messageCheck_fixed hcached (js "s1") none now).1 (js "s1") none ((21 : ℕ) : Double) now
  have hnone : (Meter.msg (js "s1")).terms (effective tenBytes) none = none := by decide +kernel
  have hterms : (Meter.bytes (js "s1")).terms (effective tenBytes) none =
      some (((10 : ℕ) : Double), ((20 : ℕ) : Double)) := by decide +kernel
  have hcost : max ((1 : ℕ) : Double) (21 : ℕ) = (21 : ℕ) := by decide +kernel
  have hlarge : ∀ bucket t,
      ¬ ((21 : ℕ) : Double) ≤ tokensAt bucket ((10 : ℕ) : Double) ((20 : ℕ) : Double) t := by
    have hless : ¬ ((21 : ℕ) : Double) ≤ (20 : ℕ) := by decide +kernel
    intro bucket t
    cases bucket with
    | none => exact hless
    | some b => exact fun hle => hless (Double.le_min_iff.mp hle).1
  rw [hnone] at hmsg
  rw [hterms, hcost] at hbyte
  have hok : (((s.enabled tenBytes (now 0)).1.messageCheck tenBytes (js "s1") none now).2).isOk = true := by
    rw [hmsg]
    rfl
  have hsome : (s.enabled tenBytes (now 0)).2 = true := hon
  unfold produceAllowed
  dsimp only
  rw [hsome, if_neg (by simp), if_pos hok, hbyte]
  intro hrefused
  have hrate : Numeric.isFinite ((10 : ℕ) : Double) = true := by decide +kernel
  simp only [takeFor, take_of_not_le hrate (hlarge _ _), Verdict.because] at hrefused
  cases hrefused

/-- **A message for ever too large.** It is told to try again in a second, and however long it waits it
is refused.
Kind: P -/
theorem refused_for_ever_large_message :
    let first := produceAllowed tenBytes (new ((0 : ℕ) : Double)) (js "s1") none (21 : ℕ) fun _ => (0 : ℕ)
    first.2 = .refused (some .bytes_per_second) one ∧
      ∀ later : ℕ → ℕ, (∀ i, 1000 ≤ later i) →
        (produceAllowed tenBytes first.1 (js "s1") none (21 : ℕ) fun i => (later i : Double)).2 ≠ .ok := by
  refine ⟨by decide +kernel, fun later _ => produceAllowed_tenBytes ?_ _⟩
  exact (produceAllowed_fixed (Or.inl rfl) _ _ _ _).1

/-- **The last digit.** Fifteen realms at once use up an hour's worth. Three seconds later the client is
told to wait 237 seconds; after exactly that it is refused again, since the bucket holds
0.9999999999999999 of a token.
Kind: P -/
theorem refused_again_hourly :
    let raw : Option (Config Double) := some (oneLimit .realms_per_hour_per_ip (15 : ℕ))
    let create := fun (s : Limits Double) (t : ℕ) =>
      realmCreationAllowed raw s (js "10.0.0.1") fun _ => (t : Double)
    let used := (List.replicate 15 0).foldl (fun s t => (create s t).1) (new ((0 : ℕ) : Double))
    let refused := create used 3000
    refused.2 = .refused (some .realms_per_hour_per_ip) (237 : ℕ) ∧
      (create refused.1 (3000 + 1000 * 237)).2 ≠ .ok := by
  decide +kernel

end Retry

end Limits

end TyoMq
