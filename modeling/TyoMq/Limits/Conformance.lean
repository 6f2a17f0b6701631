import TyoMq.Lib.Runs
import TyoMq.Limits.Basic

/-!
# Rate limits and quotas: what the buckets guarantee

Over whole runs of limiter calls, under a constant configuration and in exact arithmetic. A *meter* is
a kind of limit together with whom it counts; its key names its bucket.

* **What one take does** (`Limits.Backed.take`): the level of a bucket stays covered by the envelope
  of its ledger, whichever key is charged.
* **Conformance** (`Limits.conforms_of_notDroppedEarly`): a meter none of whose buckets is dropped
  before it is full again admits, over every interval, at most `burst + rate * length`.
* A meter whose bucket refills within `BUCKET_IDLE_MS` is such a one
  (`Limits.conforms_of_refillsBeforePrune`).
* **The idle prune** (`Limits.exceeds_hourlyRate`): an hourly bucket takes an hour to refill and is
  thrown away, to be made anew and full, after ten minutes.
-/

set_option linter.unusedSectionVars false

namespace TyoMq

open TyoMq.Lib

namespace Limits

/-! ### Meters and runs -/

/-- A call of the limiter, with the clock readings it makes.
Kind: D -/
inductive Call where
  | connectionAllowed (ip : JsString) (now : ℕ → ℚ)
  | releaseConnection (ip : JsString)
  | produceAllowed (socketId : JsString) (realm : Option JsString) (bytes : ℚ) (now : ℕ → ℚ)
  | realmCreationAllowed (ip : JsString) (now : ℕ → ℚ)
  | forgetSocket (socketId : JsString)

namespace Call

/-- The clock readings, in order.
Kind: D -/
def readings : Call → List ℚ
  | connectionAllowed _ now => (List.range 4).map now
  | releaseConnection _ => []
  | produceAllowed _ _ _ now => (List.range 7).map now
  | realmCreationAllowed _ now => (List.range 3).map now
  | forgetSocket _ => []

/-- The realm whose overrides apply.
Kind: D -/
def realm : Call → Option JsString
  | produceAllowed _ realm _ _ => realm
  | _ => none

/-- The meters the call may charge.
Kind: D -/
def meters : Call → List Meter
  | connectionAllowed ip _ => [.connrate ip]
  | releaseConnection _ => []
  | produceAllowed socketId _ _ _ => [.msg socketId, .bytes socketId]
  | realmCreationAllowed ip _ => [.realmrate ip]
  | forgetSocket _ => []

/-- Does the call forget the bucket of this key?
Kind: D -/
def Forgets (key : JsString) : Call → Prop
  | forgetSocket socketId => key = js "msg:" ++ socketId ∨ key = js "bytes:" ++ socketId
  | _ => False

end Call

/-- The limiter after a call.
Kind: D -/
def step (raw : Option (Config ℚ)) (s : Limits ℚ) : Call → Limits ℚ
  | .connectionAllowed ip now => (connectionAllowed raw s ip now).1
  | .releaseConnection ip => s.releaseConnection ip
  | .produceAllowed socketId realm bytes now => (produceAllowed raw s socketId realm bytes now).1
  | .realmCreationAllowed ip now => (realmCreationAllowed raw s ip now).1
  | .forgetSocket socketId => s.forgetSocket socketId

/-- The limiter after a run.
Kind: D -/
def run (raw : Option (Config ℚ)) (s : Limits ℚ) (l : List Call) : Limits ℚ := runFrom (step raw) s l

/-- The clock, read `t` before the run, never goes back.
Kind: D -/
def Chronological (t : ℚ) (l : List Call) : Prop :=
  (t :: l.flatMap Call.readings).Pairwise (· ≤ ·)

/-- Every call that charges the key does so at these terms.
Kind: D -/
def UsedAt (raw : Option (Config ℚ)) (key : JsString) (terms : Option (ℚ × ℚ)) (c : Call) : Prop :=
  ∀ m ∈ c.meters, m.key = key → m.terms (effective raw) c.realm = terms

/-- What was admitted for a key: the times, and the costs.
Kind: D -/
def ledger (s : Limits ℚ) (key : JsString) : List (ℚ × ℚ) :=
  (s.admitted.filter fun a => a.key = key).map fun a => (a.now, a.cost)

/-- Over every interval, given in milliseconds, at most the burst and what the rate adds during the
interval was admitted for the key.
Kind: D -/
def RateConformance (s : Limits ℚ) (key : JsString) (rate burst : ℚ) : Prop :=
  ∀ t₁ t₂, t₁ ≤ t₂ → spent (s.ledger key) t₁ t₂ ≤ burst + rate * ((t₂ - t₁) / 1000)

/-- The bucket was dropped as idle before it was full again. A bucket too small for any cost does not
count.
Kind: D -/
def Early (rate burst : ℚ) (d : Drop ℚ) : Prop :=
  0 ≤ d.bucket.tokens ∧ idle d.now d.bucket = true ∧ tokensAt (some d.bucket) rate burst d.now < burst ∧
    1 ≤ burst

instance Early.decidable (rate burst : ℚ) (d : Drop ℚ) : Decidable (Early rate burst d) :=
  inferInstanceAs (Decidable (_ ∧ _ ∧ _ ∧ _))

/-- No bucket of the key was dropped early.
Kind: D -/
def NotDroppedEarly (key : JsString) (rate burst : ℚ) (s : Limits ℚ) : Prop :=
  ∀ d ∈ s.dropped, d.key = key → ¬ Early rate burst d

instance NotDroppedEarly.decidable (key : JsString) (rate burst : ℚ) (s : Limits ℚ) :
    Decidable (NotDroppedEarly key rate burst s) :=
  inferInstanceAs (Decidable (∀ d ∈ s.dropped, d.key = key → ¬ Early rate burst d))

/-- The bucket refills from empty before it counts as idle, or it never admits anything.
Kind: D -/
def RefillsBeforePrune (rate burst : ℚ) : Prop :=
  burst ≤ rate * (BUCKET_IDLE_MS / 1000) ∨ burst < 1

/-- A limit that is not `Infinity` is positive.
Kind: L -/
theorem pos_of_valueOf {config : Option (Config ℚ)} {realm : Option JsString} {name : LimitName}
    {n : ℚ} (h : valueOf config realm name = some n) : 0 < n := by
  unfold valueOf at h
  split at h
  · exact absurd h (by simp)
  · split at h
    · exact absurd h (by simp)
    · split_ifs at h with hpos
      have hlt := of_decide_eq_true ((Bool.and_eq_true _ _).mp hpos).2
      rw [Nat.cast_zero] at hlt
      exact Option.some.inj h ▸ hlt

/-- The terms of a meter are a positive rate and a positive burst.
Kind: L -/
theorem Meter.pos_of_terms {config : Option (Config ℚ)} {realm : Option JsString} {m : Meter}
    {rate burst : ℚ} (h : m.terms config realm = some (rate, burst)) : 0 < rate ∧ 0 < burst := by
  have hgetD : ∀ {name : LimitName} {d : ℚ}, 0 < d → 0 < (valueOf config realm name).getD d := by
    intro name d hd
    rcases hv : valueOf config realm name with _ | n
    · exact hd
    · exact pos_of_valueOf hv
  cases m with
  | msg id | bytes id =>
      obtain ⟨n, hn, heq⟩ := Option.map_eq_some_iff.mp h
      obtain ⟨rfl, rfl⟩ := Prod.mk.injEq .. ▸ heq
      have hpos := pos_of_valueOf hn
      exact ⟨hpos, hgetD (by positivity)⟩
  | connrate ip | realmrate ip =>
      obtain ⟨n, hn, heq⟩ := Option.map_eq_some_iff.mp h
      obtain ⟨rfl, rfl⟩ := Prod.mk.injEq .. ▸ heq
      have hpos := pos_of_valueOf hn
      exact ⟨by positivity, hpos⟩

/-! ### The level of a bucket -/

section Level

variable {bucket : Option (Bucket ℚ)} {rate burst t t' : ℚ}

theorem tokensAt_some (b : Bucket ℚ) (rate burst t : ℚ) :
    tokensAt (some b) rate burst t = refill rate burst b.tokens ((t - b.updatedAt) / 1000) := by
  simp [tokensAt, refill]

theorem tokensAt_le_burst : tokensAt bucket rate burst t ≤ burst := by
  cases bucket with
  | none => exact le_rfl
  | some b => exact min_le_left _ _

theorem tokensAt_nonneg (hrate : 0 ≤ rate) (hburst : 0 ≤ burst)
    (hb : ∀ b, bucket = some b → 0 ≤ b.tokens ∧ b.updatedAt ≤ t) :
    0 ≤ tokensAt bucket rate burst t := by
  cases bucket with
  | none => exact hburst
  | some b =>
      obtain ⟨htok, hup⟩ := hb b rfl
      rw [tokensAt_some]
      exact refill_nonneg hrate hburst htok (by linarith)

/-- The level rises by at most the rate.
Kind: L -/
theorem tokensAt_later (hrate : 0 ≤ rate) (ht : t ≤ t') :
    tokensAt bucket rate burst t' ≤ tokensAt bucket rate burst t + rate / 1000 * (t' - t) := by
  cases bucket with
  | none =>
      have hgain : 0 ≤ rate / 1000 * (t' - t) :=
        mul_nonneg (by linarith) (sub_nonneg.mpr ht)
      simp only [tokensAt]
      linarith
  | some b =>
      have hsplit : (t' - b.updatedAt) / 1000 = (t - b.updatedAt) / 1000 + (t' - t) / 1000 := by ring
      have hgrow : refill rate burst b.tokens ((t - b.updatedAt) / 1000 + (t' - t) / 1000) ≤
          refill rate burst b.tokens ((t - b.updatedAt) / 1000) + rate * ((t' - t) / 1000) :=
        refill_add_le hrate (by linarith)
      have hmul : rate * ((t' - t) / 1000) = rate / 1000 * (t' - t) := by ring
      rw [tokensAt_some, tokensAt_some, hsplit, ← hmul]
      exact hgrow

/-- A bucket just written has the level written.
Kind: L -/
theorem tokensAt_now (rate t : ℚ) {tokens burst : ℚ} (h : tokens ≤ burst) :
    tokensAt (some ⟨tokens, t⟩) rate burst t = tokens := by
  rw [tokensAt_some, sub_self, zero_div]
  exact refill_zero h

/-- A bucket that refills before it counts as idle is full when it does.
Kind: L -/
theorem RefillsBeforePrune.not_early (hrate : 0 ≤ rate) (h : RefillsBeforePrune rate burst)
    (d : Drop ℚ) : ¬ Early rate burst d := by
  rintro ⟨htok, hidle, hlevel, hone⟩
  have hfull := h.resolve_right (not_lt.mpr hone)
  have hlong : (BUCKET_IDLE_MS : ℚ) / 1000 * rate ≤ (d.now - d.bucket.updatedAt) / 1000 * rate := by
    have hlt : (BUCKET_IDLE_MS : ℚ) < d.now - d.bucket.updatedAt := of_decide_eq_true hidle
    exact mul_le_mul_of_nonneg_right (by linarith) hrate
  rw [tokensAt_some, refill_eq_burst htok (by linarith)] at hlevel
  exact lt_irrefl _ hlevel

end Level

theorem NotDroppedEarly.of_suffix {key : JsString} {rate burst : ℚ} {s s' : Limits ℚ}
    (h : NotDroppedEarly key rate burst s') (hsuffix : s.dropped <:+ s'.dropped) :
    NotDroppedEarly key rate burst s :=
  fun d hd => h d (hsuffix.mem hd)

/-! ### The level covers the envelope -/

/-- At time `t` the bucket of the key covers the envelope of what was admitted for it.
Kind: D -/
structure Backed (key : JsString) (rate burst : ℚ) (s : Limits ℚ) (t : ℚ) : Prop where
  /-- The level is left over in every interval that ends now. -/
  funded : Funded (rate / 1000) burst (s.ledger key) t (tokensAt (s.buckets.get key) rate burst t)
  /-- The bucket was refilled in the past, and holds no debt. -/
  bucket : ∀ b, s.buckets.get key = some b → 0 ≤ b.tokens ∧ b.updatedAt ≤ t
  /-- A bucket too small for any cost admits nothing. -/
  small : burst < 1 → s.ledger key = []

namespace Backed

variable {key key' : JsString} {rate burst : ℚ} {s s' : Limits ℚ} {t t' : ℚ}

/-- The limiter starts with nothing admitted.
Kind: L -/
theorem new (hrate : 0 < rate) (hburst : 0 < burst) : Backed key rate burst (Limits.new t) t where
  funded := Funded.nil (by linarith) t hburst.le le_rfl
  bucket b hb := absurd hb (by simp [Limits.new])
  small _ := rfl

/-- Only the buckets and the admissions count.
Kind: L -/
theorem congr (h : Backed key rate burst s t) (hget : s'.buckets.get key = s.buckets.get key)
    (hadm : s'.admitted = s.admitted) : Backed key rate burst s' t where
  funded := by
    simp only [ledger, hadm, hget]
    exact h.funded
  bucket b hb := h.bucket b (hget ▸ hb)
  small hb := by
    simp only [ledger, hadm]
    exact h.small hb

/-- The settings that were read do not.
Kind: L -/
theorem reread (h : Backed key rate burst s t) (hreread : Reread s s') : Backed key rate burst s' t := by
  obtain ⟨cache, readAt, rfl⟩ := hreread
  exact h.congr rfl rfl

/-- Time passes.
Kind: L -/
theorem later (h : Backed key rate burst s t) (hrate : 0 < rate) (ht : t ≤ t') :
    Backed key rate burst s t' where
  funded := by
    have hburst : 0 ≤ burst := h.funded.nonneg.trans h.funded.le_burst
    have hb : ∀ b, s.buckets.get key = some b → 0 ≤ b.tokens ∧ b.updatedAt ≤ t' :=
      fun b hb => ⟨(h.bucket b hb).1, (h.bucket b hb).2.trans ht⟩
    exact h.funded.advance (by linarith) ht (tokensAt_nonneg hrate.le hburst hb) tokensAt_le_burst
      (tokensAt_later hrate.le ht)
  bucket b hb := ⟨(h.bucket b hb).1, (h.bucket b hb).2.trans ht⟩
  small := h.small

/-- A prune that drops the bucket only once it is full again does not change its level.
Kind: P -/
theorem prune (h : Backed key rate burst s t) (hrate : 0 < rate)
    (hdrops : NotDroppedEarly key rate burst (s.prune t)) : Backed key rate burst (s.prune t) t := by
  obtain ⟨hadm, -, hkept | ⟨hnone, b, hb, hidle, hdropped⟩⟩ := prune_cases s t key
  · exact h.congr hkept hadm
  · have hburst : 0 ≤ burst := h.funded.nonneg.trans h.funded.le_burst
    have hledger : (s.prune t).ledger key = s.ledger key := by simp only [ledger, hadm]
    refine ⟨?_, fun b' hb' => absurd (hnone ▸ hb') (by simp), ?_⟩
    · rw [hnone, hledger]
      by_cases hsmall : burst < 1
      · rw [h.small hsmall]
        exact Funded.nil (by linarith) t hburst le_rfl
      · -- the bucket that was dropped had the level of the one that is made anew
        have hfull : burst ≤ tokensAt (some b) rate burst t := by
          by_contra hless
          exact hdrops _ hdropped rfl ⟨(h.bucket b hb).1, hidle, not_le.mp hless, not_lt.mp hsmall⟩
        have hlevel : tokensAt (s.buckets.get key) rate burst t = burst := by
          rw [hb]
          exact le_antisymm tokensAt_le_burst hfull
        have hfunded := h.funded
        rw [hlevel] at hfunded
        exact hfunded
    · intro hsmall
      rw [hledger]
      exact h.small hsmall

/-- A take on another key leaves this one alone.
Kind: L -/
theorem take_other (h : Backed key rate burst s t) (hrate : 0 < rate) (hne : key' ≠ key)
    {rate' burst' cost : ℚ} (hdrops : NotDroppedEarly key rate burst (s.take key' rate' burst' cost t).1) :
    Backed key rate burst (s.take key' rate' burst' cost t).1 t := by
  by_cases hpaid : cost ≤ tokensAt ((s.prune t).buckets.get key') rate' burst' t
  · rw [take_of_le rfl hpaid] at hdrops ⊢
    have hp := h.prune hrate hdrops
    refine ⟨?_, fun b hb => hp.bucket b ?_, fun hsmall => ?_⟩
    · simpa [ledger, JsMap.get_set_of_ne _ hne.symm, hne] using hp.funded
    · simpa [JsMap.get_set_of_ne _ hne.symm] using hb
    · simpa [ledger, hne] using hp.small hsmall
  · rw [take_of_not_le rfl hpaid] at hdrops ⊢
    exact (h.prune hrate hdrops).congr (JsMap.get_set_of_ne _ hne.symm _) rfl

/-- A take on this key, at its terms, is paid out of the level.
Kind: P -/
theorem take_self (h : Backed key rate burst s t) (hrate : 0 < rate) {cost : ℚ} (hcost : 1 ≤ cost)
    (hdrops : NotDroppedEarly key rate burst (s.take key rate burst cost t).1) :
    Backed key rate burst (s.take key rate burst cost t).1 t := by
  by_cases hpaid : cost ≤ tokensAt ((s.prune t).buckets.get key) rate burst t
  · rw [take_of_le rfl hpaid] at hdrops ⊢
    have hp := h.prune hrate hdrops
    have hspend := hp.funded.spend (by linarith) (by linarith) hpaid
    have hle := hp.funded.le_burst
    rw [← tokensAt_now rate t hspend.le_burst] at hspend
    refine ⟨?_, ?_, fun hsmall => absurd hpaid (by linarith)⟩
    · simpa [ledger] using hspend
    · intro b hb
      rw [JsMap.get_set_self, Option.some.injEq] at hb
      subst hb
      exact ⟨sub_nonneg.mpr hpaid, le_rfl⟩
  · rw [take_of_not_le rfl hpaid] at hdrops ⊢
    have hp := h.prune hrate hdrops
    refine ⟨?_, ?_, hp.small⟩
    · simp only [JsMap.get_set_self]
      rw [tokensAt_now rate t hp.funded.le_burst]
      exact hp.funded
    · intro b hb
      rw [JsMap.get_set_self, Option.some.injEq] at hb
      subst hb
      exact ⟨hp.funded.nonneg, le_rfl⟩

/-- A take of at least one token, whichever key it charges.
Kind: P -/
theorem take (h : Backed key rate burst s t) (hrate : 0 < rate) {rate' burst' cost : ℚ}
    (hcost : 1 ≤ cost) (ht : t ≤ t') (hterms : key' = key → some (rate', burst') = some (rate, burst))
    (hdrops : NotDroppedEarly key rate burst (s.take key' rate' burst' cost t').1) :
    Backed key rate burst (s.take key' rate' burst' cost t').1 t' := by
  have h' := h.later hrate ht
  by_cases hkey : key' = key
  · obtain ⟨rfl, rfl⟩ := Prod.mk.injEq .. ▸ Option.some.inj (hterms hkey)
    subst hkey
    exact h'.take_self hrate hcost hdrops
  · exact h'.take_other hrate hkey hdrops

/-- A check of one limit, at the terms of whichever key it charges.
Kind: L -/
theorem takeFor (h : Backed key rate burst s t) (hrate : 0 < rate) {terms : Option (ℚ × ℚ)} {cost : ℚ}
    (hcost : 1 ≤ cost) (ht : t ≤ t') (hterms : key' = key → terms = some (rate, burst))
    {reason : LimitName}
    (hdrops : NotDroppedEarly key rate burst (s.takeFor reason key' terms cost t').1) :
    Backed key rate burst (s.takeFor reason key' terms cost t').1 t' := by
  cases terms with
  | none => exact h.later hrate ht
  | some terms => exact h.take hrate hcost ht hterms hdrops

/-! ### Calls and runs -/

variable {raw : Option (Config ℚ)}

/-- A connection takes one token, and counts the connection.
Kind: L -/
theorem connectionAllowed {ip : JsString} {now : ℕ → ℚ} (h : Backed key rate burst s t)
    (hcached : Cached raw s) (hrate : 0 < rate) (ht : t ≤ now 3)
    (hused : UsedAt raw key (some (rate, burst)) (.connectionAllowed ip now))
    (hdrops : NotDroppedEarly key rate burst (connectionAllowed raw s ip now).1) :
    Backed key rate burst (connectionAllowed raw s ip now).1 (now 3) ∧
      Cached raw (connectionAllowed raw s ip now).1 ∧
        s.dropped <:+ (connectionAllowed raw s ip now).1.dropped := by
  obtain ⟨-, hreread₁, hcached₁⟩ := enabled_of_cached hcached (now 0)
  obtain ⟨-, hreread₂, hcached₂⟩ :=
    value_of_cached hcached₁ none .max_connections_per_ip (now 1)
  obtain ⟨hper, hreread₃, hcached₃⟩ :=
    value_of_cached hcached₂ none .connections_per_minute_per_ip (now 2)
  have hquiet : ∀ {s'}, Reread s s' → Cached raw s' →
      Backed key rate burst s' (now 3) ∧ Cached raw s' ∧ s.dropped <:+ s'.dropped :=
    fun hr hc => ⟨(h.reread hr).later hrate ht, hc, hr.suffix⟩
  unfold Limits.connectionAllowed at hdrops ⊢
  simp only [hper] at hdrops ⊢
  split_ifs at hdrops ⊢ with hoff hfull hok
  · exact hquiet hreread₁ hcached₁
  · exact hquiet (hreread₁.trans hreread₂) hcached₂
  all_goals
    have hreread := (hreread₁.trans hreread₂).trans hreread₃
    have hfixed := takeFor_fixed ((((s.enabled raw (now 0)).1.value raw none .max_connections_per_ip
      (now 1)).1.value raw none .connections_per_minute_per_ip (now 2)).1)
      .connections_per_minute_per_ip (js "connrate:" ++ ipName ip)
      (connectionTerms (valueOf (effective raw) none .connections_per_minute_per_ip)) (1 : ℕ) (now 3)
    have htake := (h.reread hreread).takeFor hrate (by norm_num) ht
      (hused (.connrate ip) (List.mem_singleton_self _)) hdrops
    exact ⟨htake.congr rfl rfl, hcached₃.congr hfixed.1, hreread.suffix.trans hfixed.2.2⟩

/-- A realm creation takes one token.
Kind: L -/
theorem realmCreationAllowed {ip : JsString} {now : ℕ → ℚ} (h : Backed key rate burst s t)
    (hcached : Cached raw s) (hrate : 0 < rate) (ht : t ≤ now 2)
    (hused : UsedAt raw key (some (rate, burst)) (.realmCreationAllowed ip now))
    (hdrops : NotDroppedEarly key rate burst (realmCreationAllowed raw s ip now).1) :
    Backed key rate burst (realmCreationAllowed raw s ip now).1 (now 2) ∧
      Cached raw (realmCreationAllowed raw s ip now).1 ∧
        s.dropped <:+ (realmCreationAllowed raw s ip now).1.dropped := by
  obtain ⟨-, hreread₁, hcached₁⟩ := enabled_of_cached hcached (now 0)
  obtain ⟨hper, hreread₂, hcached₂⟩ :=
    value_of_cached hcached₁ none .realms_per_hour_per_ip (now 1)
  unfold Limits.realmCreationAllowed at hdrops ⊢
  simp only [hper] at hdrops ⊢
  split_ifs at hdrops ⊢ with hoff
  · exact ⟨(h.reread hreread₁).later hrate ht, hcached₁, hreread₁.suffix⟩
  · have hreread := hreread₁.trans hreread₂
    have hfixed := takeFor_fixed (((s.enabled raw (now 0)).1.value raw none .realms_per_hour_per_ip
      (now 1)).1) .realms_per_hour_per_ip (js "realmrate:" ++ ipName ip)
      (realmTerms (valueOf (effective raw) none .realms_per_hour_per_ip)) (1 : ℕ) (now 2)
    have htake := (h.reread hreread).takeFor hrate (by norm_num) ht
      (hused (.realmrate ip) (List.mem_singleton_self _)) hdrops
    exact ⟨htake, hcached₂.congr hfixed.1, hreread.suffix.trans hfixed.2.2⟩

/-- The message check takes one token.
Kind: L -/
theorem messageCheck {socketId : JsString} {realm : Option JsString} {now : ℕ → ℚ}
    (h : Backed key rate burst s t) (hcached : Cached raw s) (hrate : 0 < rate) (ht : t ≤ now 3)
    (hterms : (Meter.msg socketId).key = key →
      (Meter.msg socketId).terms (effective raw) realm = some (rate, burst))
    (hdrops : NotDroppedEarly key rate burst (s.messageCheck raw socketId realm now).1) :
    Backed key rate burst (s.messageCheck raw socketId realm now).1 (now 3) := by
  obtain ⟨s₁, hreread, -, heq⟩ := messageCheck_eq hcached socketId realm now
  rw [heq] at hdrops ⊢
  exact (h.reread hreread).takeFor hrate (by norm_num) ht hterms hdrops

/-- The byte check takes the bytes, and one token at least.
Kind: L -/
theorem byteCheck {socketId : JsString} {realm : Option JsString} {bytes : ℚ} {now : ℕ → ℚ}
    (h : Backed key rate burst s t) (hcached : Cached raw s) (hrate : 0 < rate) (ht : t ≤ now 6)
    (hterms : (Meter.bytes socketId).key = key →
      (Meter.bytes socketId).terms (effective raw) realm = some (rate, burst))
    (hdrops : NotDroppedEarly key rate burst (s.byteCheck raw socketId realm bytes now).1) :
    Backed key rate burst (s.byteCheck raw socketId realm bytes now).1 (now 6) := by
  obtain ⟨s₁, hreread, -, heq⟩ := byteCheck_eq hcached socketId realm bytes now
  rw [heq] at hdrops ⊢
  have hcost : (1 : ℚ) ≤ max ((1 : ℕ) : ℚ) bytes := by simp
  exact (h.reread hreread).takeFor hrate hcost ht hterms hdrops

/-- A produce takes one token from the message bucket, and then its bytes from the other.
Kind: L -/
theorem produceAllowed {socketId : JsString} {realm : Option JsString} {bytes : ℚ} {now : ℕ → ℚ}
    (h : Backed key rate burst s t) (hcached : Cached raw s) (hrate : 0 < rate) (ht : t ≤ now 3)
    (ht' : now 3 ≤ now 6)
    (hused : UsedAt raw key (some (rate, burst)) (.produceAllowed socketId realm bytes now))
    (hdrops : NotDroppedEarly key rate burst (produceAllowed raw s socketId realm bytes now).1) :
    Backed key rate burst (produceAllowed raw s socketId realm bytes now).1 (now 6) := by
  obtain ⟨-, hreread, hcached₁⟩ := enabled_of_cached hcached (now 0)
  have hmsg := hused (.msg socketId) List.mem_cons_self
  have hbytes := hused (.bytes socketId) (List.mem_cons_of_mem _ List.mem_cons_self)
  have hfixed := messageCheck_fixed hcached₁ socketId realm now
  unfold Limits.produceAllowed at hdrops ⊢
  dsimp only at hdrops ⊢
  split_ifs at hdrops ⊢ with hoff hok
  · exact (h.reread hreread).later hrate (ht.trans ht')
  · -- what the byte check drops comes after what the message check dropped
    have hback := (h.reread hreread).messageCheck hcached₁ hrate ht hmsg
      (hdrops.of_suffix (byteCheck_fixed hfixed.1 socketId realm bytes now).2)
    exact hback.byteCheck hfixed.1 hrate ht' hbytes hdrops
  · exact ((h.reread hreread).messageCheck hcached₁ hrate ht hmsg hdrops).later hrate ht'

/-- Whatever is called, at the last clock reading it makes.
Kind: P -/
theorem step {c : Call} (h : Backed key rate burst s t) (hcached : Cached raw s) (hrate : 0 < rate)
    (hclock : (t :: c.readings).Pairwise (· ≤ ·)) (hused : UsedAt raw key (some (rate, burst)) c)
    (hkept : ¬ c.Forgets key) (hdrops : NotDroppedEarly key rate burst (Limits.step raw s c)) :
    Backed key rate burst (Limits.step raw s c) (c.readings.getLastD t) ∧
      Cached raw (Limits.step raw s c) ∧ s.dropped <:+ (Limits.step raw s c).dropped := by
  have hfirst : ∀ x ∈ c.readings, t ≤ x := fun x hx => List.rel_of_pairwise_cons hclock hx
  cases c with
  | connectionAllowed ip now =>
      exact h.connectionAllowed hcached hrate (hfirst _ (List.mem_map_of_mem (by simp))) hused hdrops
  | releaseConnection ip =>
      show Backed key rate burst (s.releaseConnection ip) t ∧ _
      simp only [Limits.step, releaseConnection]
      split_ifs <;> exact ⟨h.congr rfl rfl, hcached, List.suffix_refl _⟩
  | produceAllowed socketId realm bytes now =>
      have hlater : now 3 ≤ now 6 := by
        have hpair := (List.pairwise_cons.mp hclock).2
        simp only [Call.readings, List.range_succ, List.range_zero, List.nil_append, List.cons_append,
          List.map_cons, List.map_nil, List.pairwise_cons, List.mem_cons, List.not_mem_nil] at hpair
        exact hpair.2.2.2.1 _ (by simp)
      exact ⟨h.produceAllowed hcached hrate (hfirst _ (List.mem_map_of_mem (by simp))) hlater hused
        hdrops, produceAllowed_fixed hcached socketId realm bytes now⟩
  | realmCreationAllowed ip now =>
      exact h.realmCreationAllowed hcached hrate (hfirst _ (List.mem_map_of_mem (by simp))) hused
        hdrops
  | forgetSocket socketId =>
      obtain ⟨hmsg, hbytes⟩ := not_or.mp hkept
      refine ⟨h.congr ?_ rfl, hcached, List.suffix_refl _⟩
      show ((s.buckets.delete _).delete _).get key = _
      rw [JsMap.get_delete_of_ne _ hbytes, JsMap.get_delete_of_ne _ hmsg]

/-- A run, by its calls.
Kind: P -/
theorem run (hrate : 0 < rate) {l : List Call} (h : Backed key rate burst s t)
    (hcached : Cached raw s) (hclock : Chronological t l)
    (hused : ∀ c ∈ l, UsedAt raw key (some (rate, burst)) c) (hkept : ∀ c ∈ l, ¬ c.Forgets key)
    (hdrops : EachStep (Limits.step raw)
      (fun s c => NotDroppedEarly key rate burst (Limits.step raw s c)) s l) :
    ∃ t', Backed key rate burst (Limits.run raw s l) t' := by
  induction l generalizing s t with
  | nil => exact ⟨t, h⟩
  | cons c l ih =>
      have hclock' : ((t :: c.readings) ++ l.flatMap Call.readings).Pairwise (· ≤ ·) := hclock
      obtain ⟨hhead, htail, hacross⟩ := List.pairwise_append.mp hclock'
      obtain ⟨hstep, hcached', -⟩ := h.step hcached hrate hhead (hused c List.mem_cons_self)
        (hkept c List.mem_cons_self) hdrops.1
      refine ih hstep hcached' ?_ (fun c' hc' => hused c' (List.mem_cons_of_mem _ hc'))
        (fun c' hc' => hkept c' (List.mem_cons_of_mem _ hc')) hdrops.2
      exact List.pairwise_cons.mpr
        ⟨fun x hx => hacross _ List.getLastD_mem_cons x hx, htail⟩

/-- What it means for the ledger.
Kind: L -/
theorem rateConformance (h : Backed key rate burst s t) : RateConformance s key rate burst := by
  intro t₁ t₂ ht
  have hconf := h.funded.conforms t₁ t₂ ht
  have hmul : rate / 1000 * (t₂ - t₁) = rate * ((t₂ - t₁) / 1000) := by ring
  rwa [hmul] at hconf

end Backed

/-- No call of the run drops a bucket of the key early: every bucket of the key that a prune has taken
away by the end of the call was full again.
Kind: D -/
def DropsNoneEarly (raw : Option (Config ℚ)) (key : JsString) (rate burst : ℚ) (s : Limits ℚ)
    (c : Call) : Prop :=
  NotDroppedEarly key rate burst (step raw s c)

instance DropsNoneEarly.decidable (raw : Option (Config ℚ)) (key : JsString) (rate burst : ℚ)
    (s : Limits ℚ) (c : Call) : Decidable (DropsNoneEarly raw key rate burst s c) :=
  inferInstanceAs (Decidable (NotDroppedEarly key rate burst (step raw s c)))

/-- **Conformance.** Under a constant configuration, a meter none of whose buckets is dropped before it
is full again admits over every interval at most its burst and what its rate adds, whatever calls are
made on whatever keys and whenever idle buckets are pruned.
Source: `lib/limits.js`, `Limits.prototype._take`, `Limits.prototype._prune`
Kind: P -/
theorem conforms_of_notDroppedEarly (raw : Option (Config ℚ)) (m : Meter) (realm : Option JsString)
    (rate burst : ℚ) (hterms : m.terms (effective raw) realm = some (rate, burst)) (t₀ : ℚ)
    (l : List Call) (hclock : Chronological t₀ l)
    (hused : ∀ c ∈ l, UsedAt raw m.key (m.terms (effective raw) realm) c)
    (hkept : ∀ c ∈ l, ¬ c.Forgets m.key)
    (hdrops : EachStep (step raw) (DropsNoneEarly raw m.key rate burst) (new t₀) l) :
    RateConformance (run raw (new t₀) l) m.key rate burst := by
  obtain ⟨hrate, hburst⟩ := Meter.pos_of_terms hterms
  rw [hterms] at hused
  have hnew : Backed m.key rate burst (new t₀) t₀ := Backed.new hrate hburst
  obtain ⟨t, h⟩ := hnew.run hrate (Or.inl rfl) hclock hused hkept hdrops
  exact h.rateConformance

/-- A meter whose bucket refills within `BUCKET_IDLE_MS` conforms in every run.
Kind: C -/
theorem conforms_of_refillsBeforePrune (raw : Option (Config ℚ)) (m : Meter) (realm : Option JsString)
    (rate burst : ℚ) (hterms : m.terms (effective raw) realm = some (rate, burst))
    (hrefill : RefillsBeforePrune rate burst) (t₀ : ℚ) (l : List Call) (hclock : Chronological t₀ l)
    (hused : ∀ c ∈ l, UsedAt raw m.key (m.terms (effective raw) realm) c)
    (hkept : ∀ c ∈ l, ¬ c.Forgets m.key) :
    RateConformance (run raw (new t₀) l) m.key rate burst := by
  obtain ⟨hrate, hburst⟩ := Meter.pos_of_terms hterms
  rw [hterms] at hused
  have hnew : Backed m.key rate burst (new t₀) t₀ := Backed.new hrate hburst
  obtain ⟨t, h⟩ := hnew.run hrate (Or.inl rfl) hclock hused hkept
    (eachStep_of_forall fun c _ s d _ _ => hrefill.not_early hrate.le d)
  exact h.rateConformance

/-! ### Two realms an hour -/

/-- A configuration of one global limit.
Kind: D -/
def oneLimit {N : Type} (name : LimitName) (n : N) : Config N where
  enabled := true
  limit name' := if name' = name then some n else none
  realms _ := none

/-- One ip makes a realm, with one reading of the clock.
Kind: D -/
def createAt (t : ℚ) : Call := .realmCreationAllowed (js "10.0.0.1") fun _ => t

/-- The calls of one ip are all charged at the terms of its meter.
Kind: L -/
theorem usedAt_createAt (raw : Option (Config ℚ)) (t : ℚ) :
    UsedAt raw (Meter.realmrate (js "10.0.0.1")).key
      ((Meter.realmrate (js "10.0.0.1")).terms (effective raw) none) (createAt t) := by
  intro m hm _
  rw [List.mem_singleton.mp hm]
  rfl

/-- Two realms at once and, an hour and a moment later, two more: the bucket is dropped between them,
and is full again.
Kind: C -/
theorem conforms_afterAnHour :
    RateConformance
      (run (some (oneLimit .realms_per_hour_per_ip 2)) (new 0)
        [createAt 0, createAt 0, createAt 3600001, createAt 3600001])
      (Meter.realmrate (js "10.0.0.1")).key (2 / 3600) 2 := by
  refine conforms_of_notDroppedEarly (some (oneLimit .realms_per_hour_per_ip 2))
    (.realmrate (js "10.0.0.1")) none (2 / 3600) 2 (by decide +kernel) 0 _
    (by unfold Chronological; decide +kernel) ?_ ?_ (by decide +kernel)
  · intro c hc
    simp only [List.mem_cons, List.not_mem_nil, or_false] at hc
    rcases hc with rfl | rfl | rfl | rfl <;> exact usedAt_createAt _ _
  · intro c hc
    simp only [List.mem_cons, List.not_mem_nil, or_false] at hc
    rcases hc with rfl | rfl | rfl | rfl <;> exact not_false

/-- Two realms at once, ten minutes and a moment of silence, and two more.
Kind: D -/
def createAfterIdle : List Call := [createAt 0, createAt 0, createAt 600001, createAt 600001]

/-- **The idle prune.** At two realms an hour for each ip, one ip makes four in ten minutes: its
bucket, which takes an hour to refill, counts as idle after `BUCKET_IDLE_MS` and is made anew.
Kind: P -/
theorem exceeds_hourlyRate :
    let raw := some (oneLimit .realms_per_hour_per_ip 2)
    let m := Meter.realmrate (js "10.0.0.1")
    m.terms (effective raw) none = some (2 / 3600, 2) ∧ Chronological 0 createAfterIdle ∧
      (∀ c ∈ createAfterIdle, UsedAt raw m.key (m.terms (effective raw) none) c ∧ ¬ c.Forgets m.key) ∧
      ¬ RateConformance (run raw (new 0) createAfterIdle) m.key (2 / 3600) 2 := by
  refine ⟨by decide +kernel, by unfold Chronological; decide +kernel, fun c hc => ?_, fun h => ?_⟩
  · simp only [createAfterIdle, List.mem_cons, List.not_mem_nil, or_false] at hc
    rcases hc with rfl | rfl | rfl | rfl <;> exact ⟨usedAt_createAt _ _, not_false⟩
  · exact absurd (h 0 600001 (by decide +kernel)) (by decide +kernel)

end Limits

end TyoMq
