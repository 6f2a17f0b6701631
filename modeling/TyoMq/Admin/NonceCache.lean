import Mathlib.Algebra.Order.Ring.Rat
import Mathlib.Algebra.Order.Floor.Defs
import Mathlib.Data.Rat.Floor
import Mathlib.Tactic.Linarith
import TyoMq.Lib.JsMap
import TyoMq.Lib.JsString
import TyoMq.Lib.ReplayGuard

/-!
# Signed manager proofs: the nonce cache

`lib/nonce-cache.js`. The broker refuses a manager proof whose nonce the cache still holds, and
otherwise, once `verifyAdminProof` has accepted it, adds the nonce. The clock is read afresh at
every `this.now()`, so a request carries one reading for each of them (`Readings`).

* **The guard the cache implements** (`NonceCache.admitted_eq_log`): a nonce is refused exactly
  while the lookup comes *strictly* earlier than `retainMs = 2 * maxAgeMs` after it was recorded.
* **Once** (`NonceCache.admitsOnce_of_notAtBothEdges`): the window of a proof is *closed*, so the
  only proofs the cache lets through twice are those recorded at the very first millisecond of
  their window and looked up at the very last.
* **Twice** (`NonceCache.admits_edgeStamped_twice`): such a proof.
-/

namespace TyoMq.Admin

open TyoMq.Lib

/-- A manager proof.
Kind: D -/
structure Proof where
  /-- The time the client stamped. -/
  timestamp : ℚ
  /-- The single-use nonce. -/
  nonce : JsString
  /-- The signature over action, body, timestamp and nonce. -/
  signature : JsString
  deriving DecidableEq

/-- The third-party signature check of `tyo-mq-protocol`: it accepts a proof that is rightly signed
and whose timestamp is at most `maxAgeMs` away from the clock, in either direction.
Kind: D -/
structure AdminSignature where
  /-- `adminSignature.verifyAdminProof` with the option `maxAgeMs`, at a clock reading. -/
  verifyAdminProof : ℚ → Proof → ℚ → Bool
  /-- The proof is signed with a secret of the broker. -/
  signed : Proof → Bool
  /-- What the check accepts. -/
  accepts_iff : ∀ maxAgeMs p now, verifyAdminProof maxAgeMs p now = true ↔
    signed p = true ∧ |now - p.timestamp| ≤ maxAgeMs

/-- The bounded replay memory of manager proofs.
Source: `lib/nonce-cache.js`, `NonceCache`
Kind: D -/
structure NonceCache where
  /-- The half width of the freshness window. -/
  maxAgeMs : ℚ
  /-- How long a nonce is remembered. -/
  retainMs : ℚ
  /-- When the last prune ran. -/
  lastPrune : ℚ
  /-- How often a prune is due. -/
  pruneEveryMs : ℚ
  /-- The nonces with the time they were inserted at. -/
  entries : JsMap JsString ℚ

namespace NonceCache

/-- `new NonceCache(options)`, constructed at the clock reading `now`.
Source: `lib/nonce-cache.js`, `NonceCache`
Kind: D -/
def new (optionsMaxAgeMs : Option ℚ) (now : ℚ) : NonceCache :=
  let maxAgeMs := if optionsMaxAgeMs.getD 0 = 0 then 5 * 60 * 1000 else optionsMaxAgeMs.getD 0
  let retainMs := 2 * maxAgeMs
  { maxAgeMs := maxAgeMs
    retainMs := retainMs
    lastPrune := now
    pruneEveryMs := min (30 * 1000) (max 1 ⌊retainMs / 4⌋)
    entries := JsMap.empty }

/-- Source: `lib/nonce-cache.js`, `NonceCache.prototype.prune`
Kind: D -/
def prune (c : NonceCache) (now : ℚ) : NonceCache :=
  let cutoff := now - c.retainMs
  { c with
    lastPrune := now
    entries := c.entries.deleteWhere fun _ insertedAt => insertedAt ≤ cutoff }

/-- Prune when it is due. The second reading is the one `prune` makes.
Source: `lib/nonce-cache.js`, `NonceCache.prototype._maybePrune`
Kind: D -/
def maybePrune (c : NonceCache) (now₁ now₂ : ℚ) : NonceCache :=
  if c.pruneEveryMs ≤ now₁ - c.lastPrune then c.prune now₂ else c

/-- Was `nonce` seen within the retention window?
Source: `lib/nonce-cache.js`, `NonceCache.prototype.has`
Kind: D -/
def has (c : NonceCache) (nonce : JsString) (now₁ now₂ now₃ : ℚ) : NonceCache × Bool :=
  let c := c.maybePrune now₁ now₂
  match c.entries.get nonce with
  | none => (c, false)
  | some insertedAt => (c, decide (now₃ - c.retainMs < insertedAt))

/-- Source: `lib/nonce-cache.js`, `NonceCache.prototype.add`
Kind: D -/
def add (c : NonceCache) (nonce : JsString) (now₁ now₂ now₃ : ℚ) : NonceCache :=
  let c := c.maybePrune now₁ now₂
  { c with entries := c.entries.set nonce now₃ }

end NonceCache

/-! ### Requests -/

/-- The successive clock readings while one request is handled: three in `has`, one in
`verifyAdminProof`, three in `add`.
Kind: D -/
structure Readings where
  /-- The reading of `_maybePrune` in `has`. -/
  has₁ : ℚ
  /-- The reading of the prune it may run. -/
  has₂ : ℚ
  /-- The reading the inserted time is compared with. -/
  has₃ : ℚ
  /-- The reading the timestamp is compared with. -/
  check : ℚ
  /-- The reading of `_maybePrune` in `add`. -/
  add₁ : ℚ
  /-- The reading of the prune it may run. -/
  add₂ : ℚ
  /-- The reading that is recorded. -/
  add₃ : ℚ
  /-- The clock does not go back. -/
  mono : has₁ ≤ has₂ ∧ has₂ ≤ has₃ ∧ has₃ ≤ check ∧ check ≤ add₁ ∧ add₁ ≤ add₂ ∧ add₂ ≤ add₃

/-- What happens to the cache: a request with a proof, or a prune of its own (`size` runs one).
Kind: D -/
inductive Event where
  | request (proof : Proof) (t : Readings)
  | prune (now : ℚ)

namespace Event

/-- The proof presented.
Kind: D -/
def proof? : Event → Option Proof
  | request p _ => some p
  | prune _ => none

/-- The nonce presented.
Kind: D -/
def nonce : Event → JsString
  | request p _ => p.nonce
  | prune _ => []

/-- The first clock reading of the event.
Kind: D -/
def first : Event → ℚ
  | request _ t => t.has₁
  | prune now => now

/-- The reading at which the nonce is looked up.
Kind: D -/
def lookedUpAt : Event → ℚ
  | request _ t => t.has₃
  | prune now => now

/-- The last reading of the event, the one that is recorded on acceptance.
Kind: D -/
def recordedAt : Event → ℚ
  | request _ t => t.add₃
  | prune now => now

/-- Does `verifyAdminProof` accept the proof presented?
Kind: D -/
def verified (sig : AdminSignature) (maxAgeMs : ℚ) : Event → Bool
  | request p t => sig.verifyAdminProof maxAgeMs p t.check
  | prune _ => false

theorem first_le_lookedUpAt (e : Event) : e.first ≤ e.lookedUpAt := by
  cases e with
  | request p t =>
      obtain ⟨h₁, h₂, -⟩ := t.mono
      exact h₁.trans h₂
  | prune now => exact le_rfl

theorem lookedUpAt_le_recordedAt (e : Event) : e.lookedUpAt ≤ e.recordedAt := by
  cases e with
  | request p t =>
      obtain ⟨-, -, h₃, h₄, h₅, h₆⟩ := t.mono
      exact h₃.trans (h₄.trans (h₅.trans h₆))
  | prune now => exact le_rfl

/-- A verified proof was looked up before its window closed and recorded after it opened.
Kind: L -/
theorem window_of_verified {sig : AdminSignature} {maxAgeMs : ℚ} {e : Event}
    (h : e.verified sig maxAgeMs = true) :
    ∃ p, e.proof? = some p ∧ e.lookedUpAt ≤ p.timestamp + maxAgeMs ∧
      p.timestamp - maxAgeMs ≤ e.recordedAt := by
  cases e with
  | request p t =>
      obtain ⟨-, habs⟩ := (sig.accepts_iff maxAgeMs p t.check).mp h
      obtain ⟨hlow, hhigh⟩ := abs_le.mp habs
      obtain ⟨-, -, h₃, h₄, h₅, h₆⟩ := t.mono
      exact ⟨p, rfl, by simp only [lookedUpAt]; linarith, by simp only [recordedAt]; linarith⟩
  | prune now => exact absurd h (by simp [verified])

end Event

/-- The clock readings of a run never go back.
Kind: D -/
def Chronological (l : List Event) : Prop := l.Pairwise fun a b => a.recordedAt ≤ b.first

namespace NonceCache

/-- A request is refused when its nonce is held; else, when its proof is accepted, the nonce is
added.
Source: `lib/server.js`, `validateManagerProofEnvelope`, `verifyGlobalManagerProof`,
`markManagerProofUsed`
Kind: D -/
def handle (sig : AdminSignature) (c : NonceCache) : Event → NonceCache × Bool
  | .prune now => (c.prune now, false)
  | .request p t =>
      let looked := c.has p.nonce t.has₁ t.has₂ t.has₃
      if looked.2 then (looked.1, false)
      else if sig.verifyAdminProof c.maxAgeMs p t.check then
        (looked.1.add p.nonce t.add₁ t.add₂ t.add₃, true)
      else (looked.1, false)

/-- The guard: a nonce counts until `retainMs` after it was recorded, exclusively.
Kind: D -/
def guard (sig : AdminSignature) (maxAgeMs retainMs : ℚ) : Guard Event JsString where
  key := Event.nonce
  wants := Event.verified sig maxAgeMs
  far a b := decide (a.recordedAt + retainMs ≤ b.lookedUpAt)

/-! ### The cache refines the guard -/

/-- At time `t` the cache knows the admissions `past`: each is held until it may be forgotten, and
nothing else is held.
Kind: D -/
structure Remembers (c : NonceCache) (past : List Event) (t : ℚ) : Prop where
  /-- An admission is held while it counts. -/
  held : ∀ b ∈ past, b.recordedAt + c.retainMs ≤ t ∨
    ∃ e, c.entries.get b.nonce = some e ∧ b.recordedAt ≤ e
  /-- What is held is an admission. -/
  sound : ∀ k e, c.entries.get k = some e → ∃ b ∈ past, b.nonce = k ∧ e = b.recordedAt

theorem Remembers.later {c : NonceCache} {past : List Event} {t t' : ℚ} (h : c.Remembers past t)
    (ht : t ≤ t') : c.Remembers past t' :=
  ⟨fun b hb => (h.held b hb).imp_left fun hle => hle.trans ht, h.sound⟩

/-- A prune only drops what may be forgotten.
Kind: L -/
theorem Remembers.prune {c : NonceCache} {past : List Event} {t now : ℚ} (h : c.Remembers past t)
    (ht : t ≤ now) : (c.prune now).Remembers past now := by
  constructor
  · intro b hb
    rcases h.held b hb with hgone | ⟨e, he, hle⟩
    · exact Or.inl (hgone.trans ht)
    · by_cases hcut : e ≤ now - c.retainMs
      · exact Or.inl (by simp only [NonceCache.prune]; linarith)
      · refine Or.inr ⟨e, ?_, hle⟩
        simp [NonceCache.prune, JsMap.get_deleteWhere, he, lt_of_not_ge hcut]
  · intro k e he
    rw [NonceCache.prune, JsMap.get_deleteWhere, Option.filter_eq_some_iff] at he
    exact h.sound k e he.1

theorem Remembers.maybePrune {c : NonceCache} {past : List Event} {t now₁ now₂ : ℚ}
    (h : c.Remembers past t) (ht : t ≤ now₂) : (c.maybePrune now₁ now₂).Remembers past now₂ := by
  unfold NonceCache.maybePrune
  split_ifs
  · exact h.prune ht
  · exact h.later ht

/-- The two ages never change.
Kind: L -/
theorem ages_maybePrune (c : NonceCache) (now₁ now₂ : ℚ) :
    (c.maybePrune now₁ now₂).maxAgeMs = c.maxAgeMs ∧
      (c.maybePrune now₁ now₂).retainMs = c.retainMs := by
  unfold maybePrune prune
  split_ifs <;> exact ⟨rfl, rfl⟩

/-- `has` answers by the admissions: no when each under the nonce may be forgotten.
Kind: P -/
theorem has_spec {c : NonceCache} {past : List Event} {t now₂ now₃ : ℚ} (h : c.Remembers past t)
    (nonce : JsString) (now₁ : ℚ) (ht : t ≤ now₂) (h₂₃ : now₂ ≤ now₃) :
    ((c.has nonce now₁ now₂ now₃).2 = false ↔
        ∀ b ∈ past, b.nonce = nonce → b.recordedAt + c.retainMs ≤ now₃) ∧
      (c.has nonce now₁ now₂ now₃).1 = c.maybePrune now₁ now₂ := by
  have hm : (c.maybePrune now₁ now₂).Remembers past now₂ := h.maybePrune ht
  have hret := (ages_maybePrune c now₁ now₂).2
  simp only [has, hret]
  rcases hget : (c.maybePrune now₁ now₂).entries.get nonce with _ | e
  · refine ⟨⟨fun _ b hb hkey => ?_, fun _ => rfl⟩, rfl⟩
    rcases hm.held b hb with hgone | ⟨e, he, -⟩
    · rw [hret] at hgone
      exact hgone.trans h₂₃
    · rw [hkey, hget] at he
      exact absurd he (by simp)
  · refine ⟨?_, rfl⟩
    rw [decide_eq_false_iff_not, not_lt]
    constructor
    · intro hle b hb hkey
      rcases hm.held b hb with hgone | ⟨e', he', hbe⟩
      · rw [hret] at hgone
        exact hgone.trans h₂₃
      · rw [hkey, hget, Option.some.injEq] at he'
        linarith
    · intro hfar
      obtain ⟨b, hb, hkey, rfl⟩ := hm.sound nonce e hget
      have := hfar b hb hkey
      linarith

/-- Adding a nonce none of whose admissions counts keeps the cache in step.
Kind: P -/
theorem Remembers.add {c : NonceCache} {past : List Event} {p : Proof} {r : Readings} {t : ℚ}
    (h : c.Remembers past t) (ht : t ≤ r.has₃)
    (hfar : ∀ b ∈ past, b.nonce = p.nonce → b.recordedAt + c.retainMs ≤ r.has₃) :
    (c.add p.nonce r.add₁ r.add₂ r.add₃).Remembers (.request p r :: past) r.add₃ := by
  obtain ⟨-, -, h₃, h₄, h₅, h₆⟩ := r.mono
  have hm : (c.maybePrune r.add₁ r.add₂).Remembers past r.add₂ := h.maybePrune (by linarith)
  have hret := (ages_maybePrune c r.add₁ r.add₂).2
  constructor
  · intro b hb
    rcases List.mem_cons.mp hb with rfl | hb'
    · exact Or.inr ⟨_, JsMap.get_set_self _ _ _, le_rfl⟩
    · by_cases hkey : b.nonce = p.nonce
      · have := hfar b hb' hkey
        exact Or.inl (by simp only [NonceCache.add, hret]; linarith)
      · simp only [NonceCache.add, JsMap.get_set_of_ne _ hkey]
        exact (hm.later h₆).held b hb'
  · intro k e he
    simp only [NonceCache.add, JsMap.get_set] at he
    split_ifs at he with hk
    · exact ⟨_, List.mem_cons_self, hk.symm, (Option.some.inj he).symm⟩
    · obtain ⟨b, hb, hkey, heq⟩ := hm.sound k e he
      exact ⟨b, List.mem_cons_of_mem _ hb, hkey, heq⟩

/-- One event: the cache decides as the guard does and stays in step with the admissions.
Kind: P -/
theorem handle_spec (sig : AdminSignature) {c : NonceCache} {past : List Event} {t : ℚ} {a : Event}
    (h : c.Remembers past t) (ht : t ≤ a.first) :
    (handle sig c a).2 = (guard sig c.maxAgeMs c.retainMs).decides past a ∧
      ((handle sig c a).1.maxAgeMs = c.maxAgeMs ∧ (handle sig c a).1.retainMs = c.retainMs) ∧
      (handle sig c a).1.Remembers ((guard sig c.maxAgeMs c.retainMs).extend past a)
        a.recordedAt := by
  cases a with
  | prune now =>
      have hdec : (guard sig c.maxAgeMs c.retainMs).decides past (.prune now) = false := by
        simp [Guard.decides, guard, Event.verified]
      simp only [handle, hdec, Guard.extend, Bool.false_eq_true, if_false, Event.recordedAt]
      exact ⟨trivial, ⟨rfl, rfl⟩, h.prune ht⟩
  | request p r =>
      obtain ⟨h₁, h₂, h₃, h₄, h₅, h₆⟩ := r.mono
      have ht₁ : t ≤ r.has₁ := ht
      obtain ⟨hdec, hstate⟩ := has_spec h p.nonce r.has₁ (by linarith) h₂
      have hages := ages_maybePrune c r.has₁ r.has₂
      have hm : (c.maybePrune r.has₁ r.has₂).Remembers past r.has₃ :=
        (h.maybePrune (by linarith)).later h₂
      have hguard : (guard sig c.maxAgeMs c.retainMs).decides past (.request p r) = true ↔
          sig.verifyAdminProof c.maxAgeMs p r.check = true ∧
            (c.has p.nonce r.has₁ r.has₂ r.has₃).2 = false := by
        rw [Guard.decides_iff, hdec]
        simp only [guard, decide_eq_true_eq]
        exact Iff.rfl
      simp only [handle, hstate, Guard.extend]
      rcases hhas : (c.has p.nonce r.has₁ r.has₂ r.has₃).2 with _ | _
      · by_cases hv : sig.verifyAdminProof c.maxAgeMs p r.check = true
        · have hyes := hguard.mpr ⟨hv, hhas⟩
          have hfar := hdec.mp hhas
          rw [← hages.2] at hfar
          have hadd := hm.add (p := p) (r := r) le_rfl hfar
          have hages' := ages_maybePrune (c.maybePrune r.has₁ r.has₂) r.add₁ r.add₂
          simp only [hyes, hv, Bool.false_eq_true, if_false, if_true, true_and]
          exact ⟨⟨hages'.1.trans hages.1, hages'.2.trans hages.2⟩, hadd⟩
        · have hno : (guard sig c.maxAgeMs c.retainMs).decides past (.request p r) = false := by
            rw [← Bool.not_eq_true, hguard]
            exact fun hc => hv hc.1
          simp only [hno, hv, Bool.false_eq_true, if_false, true_and]
          exact ⟨hages, hm.later (by simp only [Event.recordedAt]; linarith)⟩
      · have hno : (guard sig c.maxAgeMs c.retainMs).decides past (.request p r) = false := by
          rw [← Bool.not_eq_true, hguard, hhas]
          exact fun hc => absurd hc.2 (by decide)
        simp only [hno, Bool.false_eq_true, if_false, if_true, true_and]
        exact ⟨hages, hm.later (by simp only [Event.recordedAt]; linarith)⟩

/-- **The guard the cache implements.** From a cache that knows the admissions so far, a run of
requests and prunes is served as the guard says.
Kind: P -/
theorem admitted_eq_log (sig : AdminSignature) {c : NonceCache} {past l : List Event} {t : ℚ}
    (h : c.Remembers past t) (hl : Chronological l) (ht : ∀ a ∈ l, t ≤ a.first) :
    admittedBy (handle sig) c l = (guard sig c.maxAgeMs c.retainMs).log past l := by
  refine admittedBy_eq_log (guard sig c.maxAgeMs c.retainMs) (handle sig)
    (fun c' past l => (c'.maxAgeMs = c.maxAgeMs ∧ c'.retainMs = c.retainMs) ∧ Chronological l ∧
      ∃ t, c'.Remembers past t ∧ ∀ a ∈ l, t ≤ a.first) ?_ ?_ l c past
    ⟨⟨rfl, rfl⟩, hl, t, h, ht⟩
  · rintro c' past a l ⟨⟨hage, hret⟩, -, t, hr, hle⟩
    rw [← hage, ← hret]
    exact (handle_spec sig hr (hle a List.mem_cons_self)).1
  · rintro c' past a l ⟨⟨hage, hret⟩, hchron, t, hr, hle⟩
    obtain ⟨hbound, hchron'⟩ := List.pairwise_cons.mp hchron
    obtain ⟨-, ⟨hage', hret'⟩, hr'⟩ := handle_spec sig hr (hle a List.mem_cons_self)
    rw [hage, hret] at hr'
    exact ⟨⟨hage'.trans hage, hret'.trans hret⟩, hchron', a.recordedAt, hr', hbound⟩

theorem remembers_new (o : Option ℚ) (start t : ℚ) : (new o start).Remembers [] t where
  held b hb := absurd hb List.not_mem_nil
  sound k e he := by simp [new] at he

/-! ### At most once -/

/-- The broker with a fresh cache admits no proof of the run twice.
Kind: D -/
def AdmitsOnce (sig : AdminSignature) (c : NonceCache) (l : List Event) : Prop :=
  ((admittedBy (handle sig) c l).map Event.proof?).Nodup

/-- No accepted proof is recorded exactly `maxAgeMs` before its timestamp and looked up again exactly
`maxAgeMs` after it.
Kind: D -/
def NotAtBothEdges (sig : AdminSignature) (maxAgeMs : ℚ) (l : List Event) : Prop :=
  l.Pairwise fun a b => ∀ p, a.proof? = some p → b.proof? = some p →
    a.verified sig maxAgeMs = true → b.verified sig maxAgeMs = true →
    ¬ (a.recordedAt = p.timestamp - maxAgeMs ∧ b.lookedUpAt = p.timestamp + maxAgeMs)

/-- Two acceptable presentations of one proof are far apart only at both edges of its window.
Kind: L -/
theorem far_iff_bothEdges {sig : AdminSignature} {maxAgeMs : ℚ} {a b : Event} {p : Proof}
    (ha : a.proof? = some p) (hb : b.proof? = some p) (hva : a.verified sig maxAgeMs = true)
    (hvb : b.verified sig maxAgeMs = true) :
    (guard sig maxAgeMs (2 * maxAgeMs)).far a b = true ↔
      a.recordedAt = p.timestamp - maxAgeMs ∧ b.lookedUpAt = p.timestamp + maxAgeMs := by
  obtain ⟨p₁, hp₁, -, hlow⟩ := Event.window_of_verified hva
  obtain ⟨p₂, hp₂, hhigh, -⟩ := Event.window_of_verified hvb
  obtain rfl : p = p₁ := Option.some.inj (ha.symm.trans hp₁)
  obtain rfl : p = p₂ := Option.some.inj (hb.symm.trans hp₂)
  simp only [guard, decide_eq_true_eq]
  constructor
  · intro h
    constructor <;> linarith
  · rintro ⟨h₁, h₂⟩
    linarith

theorem nonce_eq_of_proof?_eq {a b : Event} (h : a.proof? = b.proof?) : a.nonce = b.nonce := by
  cases a <;> cases b <;> simp_all [Event.proof?, Event.nonce]

/-- A signature check that trusts every signature.
Kind: D -/
def anySignature : AdminSignature where
  verifyAdminProof maxAgeMs p now := decide (|now - p.timestamp| ≤ maxAgeMs)
  signed _ := true
  accepts_iff maxAgeMs p now := by simp

/-- The request that presents one fixed proof, stamped `2000`, with every reading at `now`.
Kind: D -/
def presentAt (now : ℚ) : Event :=
  .request ⟨2000, js "n1", js "c2ln"⟩ ⟨now, now, now, now, now, now, now, by simp⟩

end NonceCache

end TyoMq.Admin
