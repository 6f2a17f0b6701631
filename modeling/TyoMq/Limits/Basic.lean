import Mathlib.Algebra.Order.Ring.Rat
import Mathlib.Data.Rat.Floor
import TyoMq.Lib.Double
import TyoMq.Lib.Envelope
import TyoMq.Lib.JsMap
import TyoMq.Lib.JsString

/-!
# Rate limits and quotas: the limiter

`lib/limits.js` as the code computes it: the settings block behind its one-second cache, the token
buckets with their lazy prune, and the admission checks built on them. Times are milliseconds, rates
are per second. The numbers are a parameter `N`: with `Double` for `N` this is what the code computes,
with `ℚ` it is the same in exact arithmetic.

A limit is `none` when it is `Infinity`, that is, unlimited. A check reads the clock several times;
`now i` is its reading number `i`. The fields `admitted` and `dropped` of the limiter are not in the
source: they record what `_take` let through and what `_prune` took away, and no function reads them.
-/

set_option linter.unusedSectionVars false

namespace TyoMq

open TyoMq.Lib

namespace Limits

/-! ### Configuration -/

/-- The numeric settings that the limiter reads.
Source: `lib/limits.js`, lines 10–32
Kind: D -/
inductive LimitName where
  | messages_per_second
  | message_burst
  | bytes_per_second
  | bytes_burst
  | max_connections_per_ip
  | connections_per_minute_per_ip
  | realms_per_hour_per_ip
  | max_queued_per_recipient
  deriving DecidableEq

/-- A `limits` settings block: `Number` of each value, `none` when the value is absent.
Kind: D -/
structure Config (N : Type) where
  /-- `enabled !== false`. -/
  enabled : Bool
  /-- The global values. -/
  limit : LimitName → Option N
  /-- The per-realm overrides. -/
  realms : JsString → Option (LimitName → Option N)

/-- `CONFIG_CACHE_MS = 1000`.
Source: `lib/limits.js`, line 41
Kind: D -/
def CONFIG_CACHE_MS : ℕ := 1000

/-- `BUCKET_IDLE_MS = 10 * 60 * 1000`.
Source: `lib/limits.js`, line 48
Kind: D -/
def BUCKET_IDLE_MS : ℕ := 10 * 60 * 1000

/-- `PRUNE_INTERVAL_MS = 60 * 1000`.
Source: `lib/limits.js`, line 49
Kind: D -/
def PRUNE_INTERVAL_MS : ℕ := 60 * 1000

/-- A token bucket.
Kind: D -/
structure Bucket (N : Type) where
  /-- What is left in it. -/
  tokens : N
  /-- When it was last refilled. -/
  updatedAt : N

/-- What `_take` let through.
Kind: D -/
structure Admission (N : Type) where
  /-- The bucket. -/
  key : JsString
  /-- The time. -/
  now : N
  /-- The cost. -/
  cost : N

/-- What `_prune` took away.
Kind: D -/
structure Drop (N : Type) where
  /-- The key. -/
  key : JsString
  /-- The bucket. -/
  bucket : Bucket N
  /-- The time. -/
  now : N

/-- The answer of a check: admitted, or refused with a time in seconds after which to retry.
Kind: D -/
inductive Verdict (N : Type) where
  | ok
  | refused (reason : Option LimitName) (retryAfter : N)
  deriving DecidableEq

/-- `verdict.ok`.
Kind: D -/
def Verdict.isOk {N : Type} : Verdict N → Bool
  | ok => true
  | refused _ _ => false

/-- The verdict of a caller of `_take`, which puts its own reason on a refusal.
Kind: D -/
def Verdict.because {N : Type} (reason : LimitName) : Verdict N → Verdict N
  | ok => ok
  | refused _ retryAfter => refused (some reason) retryAfter

end Limits

/-- The limiter of one broker.
Source: `lib/limits.js`, `Limits`
Kind: D -/
structure Limits (N : Type) where
  /-- The settings block last read: `none` before the first read, `some none` for `false`. -/
  configCache : Option (Option (Limits.Config N))
  /-- When it was read. -/
  configCacheAt : N
  /-- The token buckets, shared across the kinds of limit. -/
  buckets : JsMap JsString (Limits.Bucket N)
  /-- When idle buckets were last pruned. -/
  lastPruneAt : N
  /-- The current connections of each ip. -/
  connections : JsMap JsString ℕ
  /-- What was let through, newest first. -/
  admitted : List (Limits.Admission N)
  /-- What was pruned, newest first. -/
  dropped : List (Limits.Drop N)

namespace Limits

variable {N : Type} [Add N] [Sub N] [Mul N] [Div N] [Min N] [Max N] [NatCast N] [LE N] [LT N]
  [DecidableLE N] [DecidableLT N] [Numeric N]

/-- Source: `lib/limits.js`, `DEFAULTS`
Kind: D -/
def DEFAULTS : LimitName → Option N
  | .max_queued_per_recipient => some (1000 : ℕ)
  | _ => none

/-- `new Limits(getConfig)` at the clock reading `now`.
Kind: D -/
def new (now : N) : Limits N := ⟨none, (0 : ℕ), JsMap.empty, now, JsMap.empty, [], []⟩

/-- The block that counts: none when there is none, or when it is switched off.
Kind: D -/
def effective (raw : Option (Config N)) : Option (Config N) := raw.filter fun c => c.enabled

/-- The settings block in force. `raw` is what `getConfig` returns; it is asked at most once a second.
Source: `lib/limits.js`, `Limits.prototype._config`
Kind: D -/
def config (raw : Option (Config N)) (s : Limits N) (now : N) : Limits N × Option (Config N) :=
  let reread := ({ s with configCache := some (effective raw), configCacheAt := now }, effective raw)
  match s.configCache with
  | none => reread
  | some cached => if now - s.configCacheAt < (CONFIG_CACHE_MS : N) then (s, cached) else reread

/-- Source: `lib/limits.js`, `Limits.prototype.enabled`
Kind: D -/
def enabled (raw : Option (Config N)) (s : Limits N) (now : N) : Limits N × Bool :=
  ((s.config raw now).1, (s.config raw now).2.isSome)

/-- The raw value of a limit: a realm's override, else the global value, else the default.
Kind: D -/
def rawValue (config : Config N) (realm : Option JsString) (name : LimitName) : Option N :=
  let override := do
    let r ← realm
    if r = [] then none
    else
      let block ← config.realms r
      block name
  (override <|> config.limit name) <|> DEFAULTS name

/-- The numeric limit that a block in force gives; absent, non-finite, zero and negative values are
`Infinity`.
Kind: D -/
def valueOf (config : Option (Config N)) (realm : Option JsString) (name : LimitName) : Option N :=
  match config with
  | none => none
  | some config =>
      match rawValue config realm name with
      | none => none
      | some n => if Numeric.isFinite n && decide (((0 : ℕ) : N) < n) then some n else none

/-- The effective numeric limit.
Source: `lib/limits.js`, `Limits.prototype.value`
Kind: D -/
def value (raw : Option (Config N)) (s : Limits N) (realm : Option JsString) (name : LimitName)
    (now : N) : Limits N × Option N :=
  ((s.config raw now).1, valueOf (s.config raw now).2 realm name)

/-! ### Token buckets -/

/-- Has nobody touched the bucket for `BUCKET_IDLE_MS`?
Kind: D -/
def idle (now : N) (bucket : Bucket N) : Bool := (BUCKET_IDLE_MS : N) < now - bucket.updatedAt

/-- Drop the idle buckets, once a minute.
Source: `lib/limits.js`, `Limits.prototype._prune`
Kind: D -/
def prune (s : Limits N) (now : N) : Limits N :=
  if now - s.lastPruneAt < (PRUNE_INTERVAL_MS : N) then s
  else
    { s with
      lastPruneAt := now
      buckets := s.buckets.deleteWhere fun _ bucket => idle now bucket
      dropped := (s.buckets.entries.filter fun e => idle now e.2).map (fun e => ⟨e.1, e.2, now⟩)
        ++ s.dropped }

/-- The tokens of a bucket at the time `now`: a new bucket is full, an old one is refilled.
Kind: D -/
def tokensAt (bucket : Option (Bucket N)) (ratePerSec burst now : N) : N :=
  match bucket with
  | none => burst
  | some b => min burst (b.tokens + (now - b.updatedAt) / (1000 : ℕ) * ratePerSec)

/-- Take `cost` from the bucket refilling at `ratePerSec` up to `burst`.
Source: `lib/limits.js`, `Limits.prototype._take`
Kind: D -/
def take (s : Limits N) (key : JsString) (ratePerSec burst cost now : N) : Limits N × Verdict N :=
  if !Numeric.isFinite ratePerSec then (s, .ok)
  else
    let s := s.prune now
    let tokens := tokensAt (s.buckets.get key) ratePerSec burst now
    if cost ≤ tokens then
      ({ s with
          buckets := s.buckets.set key ⟨tokens - cost, now⟩
          admitted := ⟨key, now, cost⟩ :: s.admitted }, .ok)
    else
      ({ s with buckets := s.buckets.set key ⟨tokens, now⟩ },
        .refused none (max (1 : ℕ) (Numeric.ceil ((cost - tokens) / ratePerSec))))

/-! ### Checks -/

/-- `String(ip || 'unknown')`.
Kind: D -/
def ipName (ip : JsString) : JsString := if ip = [] then js "unknown" else ip

/-- The check of one limit: nothing when it is unlimited, else a take at its rate and burst, with
the limit as the reason of a refusal.
Kind: D -/
def takeFor (s : Limits N) (reason : LimitName) (key : JsString) (terms : Option (N × N))
    (cost now : N) : Limits N × Verdict N :=
  match terms with
  | none => (s, .ok)
  | some (ratePerSec, burst) =>
      let taken := s.take key ratePerSec burst cost now
      (taken.1, taken.2.because reason)

/-- Connections per minute: the rate per second, and a minute's worth of burst.
Kind: D -/
def connectionTerms (perMinute : Option N) : Option (N × N) :=
  perMinute.map fun perMinute => (perMinute / (60 : ℕ), perMinute)

/-- Messages per second: the burst defaults to three seconds' worth.
Kind: D -/
def messageTerms (msgRate burst : Option N) : Option (N × N) :=
  msgRate.map fun msgRate => (msgRate, burst.getD (msgRate * (3 : ℕ)))

/-- Bytes per second: the burst defaults to two seconds' worth.
Kind: D -/
def byteTerms (byteRate byteBurst : Option N) : Option (N × N) :=
  byteRate.map fun byteRate => (byteRate, byteBurst.getD (byteRate * (2 : ℕ)))

/-- Realms per hour: the rate per second, and an hour's worth of burst.
Kind: D -/
def realmTerms (perHour : Option N) : Option (N × N) :=
  perHour.map fun perHour => (perHour / (3600 : ℕ), perHour)

/-- Admission of a new socket. A connection is registered only when admitted. The settings block is
read for each of the three values.
Source: `lib/limits.js`, `Limits.prototype.connectionAllowed`
Kind: D -/
def connectionAllowed (raw : Option (Config N)) (s : Limits N) (ip : JsString) (now : ℕ → N) :
    Limits N × Verdict N :=
  let on := s.enabled raw (now 0)
  if !on.2 then (on.1, .ok)
  else
    let ip := ipName ip
    let maxConcurrent := on.1.value raw none .max_connections_per_ip (now 1)
    let current := (maxConcurrent.1.connections.get ip).getD 0
    let full := match maxConcurrent.2 with
      | none => false
      | some maxConcurrent => decide (maxConcurrent ≤ (current : N))
    if full then (maxConcurrent.1, .refused (some .max_connections_per_ip) (30 : ℕ))
    else
      let perMinute := maxConcurrent.1.value raw none .connections_per_minute_per_ip (now 2)
      let rated := perMinute.1.takeFor .connections_per_minute_per_ip (js "connrate:" ++ ip)
        (connectionTerms perMinute.2) (1 : ℕ) (now 3)
      if rated.2.isOk then
        ({ rated.1 with connections := rated.1.connections.set ip (current + 1) }, .ok)
      else rated

/-- Source: `lib/limits.js`, `Limits.prototype.releaseConnection`
Kind: D -/
def releaseConnection (s : Limits N) (ip : JsString) : Limits N :=
  let ip := ipName ip
  let current := (s.connections.get ip).getD 0
  if current ≤ 1 then { s with connections := s.connections.delete ip }
  else { s with connections := s.connections.set ip (current - 1) }

/-- The message rate: its value and, when it is limited, its burst, and the take.
Kind: D -/
def messageCheck (raw : Option (Config N)) (s : Limits N) (socketId : JsString)
    (realm : Option JsString) (now : ℕ → N) : Limits N × Verdict N :=
  let msgRate := s.value raw realm .messages_per_second (now 1)
  if msgRate.2.isNone then (msgRate.1, .ok)
  else
    let burst := msgRate.1.value raw realm .message_burst (now 2)
    burst.1.takeFor .messages_per_second (js "msg:" ++ socketId) (messageTerms msgRate.2 burst.2)
      (1 : ℕ) (now 3)

/-- The byte rate, in the same way. `bytes` is `bytes || 0`.
Kind: D -/
def byteCheck (raw : Option (Config N)) (s : Limits N) (socketId : JsString)
    (realm : Option JsString) (bytes : N) (now : ℕ → N) : Limits N × Verdict N :=
  let byteRate := s.value raw realm .bytes_per_second (now 4)
  if byteRate.2.isNone then (byteRate.1, .ok)
  else
    let byteBurst := byteRate.1.value raw realm .bytes_burst (now 5)
    byteBurst.1.takeFor .bytes_per_second (js "bytes:" ++ socketId)
      (byteTerms byteRate.2 byteBurst.2) (max (1 : ℕ) bytes) (now 6)

/-- Per-socket produce check: message rate, then byte rate.
Source: `lib/limits.js`, `Limits.prototype.produceAllowed`
Kind: D -/
def produceAllowed (raw : Option (Config N)) (s : Limits N) (socketId : JsString)
    (realm : Option JsString) (bytes : N) (now : ℕ → N) : Limits N × Verdict N :=
  let on := s.enabled raw (now 0)
  if !on.2 then (on.1, .ok)
  else
    let msg := on.1.messageCheck raw socketId realm now
    if msg.2.isOk then msg.1.byteCheck raw socketId realm bytes now
    else msg

/-- Source: `lib/limits.js`, `Limits.prototype.realmCreationAllowed`
Kind: D -/
def realmCreationAllowed (raw : Option (Config N)) (s : Limits N) (ip : JsString) (now : ℕ → N) :
    Limits N × Verdict N :=
  let on := s.enabled raw (now 0)
  if !on.2 then (on.1, .ok)
  else
    let perHour := on.1.value raw none .realms_per_hour_per_ip (now 1)
    perHour.1.takeFor .realms_per_hour_per_ip (js "realmrate:" ++ ipName ip) (realmTerms perHour.2)
      (1 : ℕ) (now 2)

/-- Source: `lib/limits.js`, `Limits.prototype.forgetSocket`
Kind: D -/
def forgetSocket (s : Limits N) (socketId : JsString) : Limits N :=
  { s with
    buckets := (s.buckets.delete (js "msg:" ++ socketId)).delete (js "bytes:" ++ socketId) }

/-! ### What the parts do -/

section Parts

variable {raw : Option (Config N)} {s s₁ s₂ : Limits N} {now : N}

/-- The second limiter is the first one, but for the cache of the settings.
Kind: D -/
def Reread (s s₁ : Limits N) : Prop :=
  ∃ cache readAt, s₁ = { s with configCache := cache, configCacheAt := readAt }

theorem Reread.refl (s : Limits N) : Reread s s := ⟨s.configCache, s.configCacheAt, rfl⟩

theorem Reread.trans (h : Reread s s₁) (h' : Reread s₁ s₂) : Reread s s₂ := by
  obtain ⟨cache, readAt, rfl⟩ := h
  obtain ⟨cache', readAt', rfl⟩ := h'
  exact ⟨cache', readAt', rfl⟩

theorem Reread.suffix (h : Reread s s₁) : s.dropped <:+ s₁.dropped := by
  obtain ⟨cache, readAt, rfl⟩ := h
  exact List.suffix_refl _

/-- Reading the settings changes nothing but their cache.
Kind: L -/
theorem reread_config (raw : Option (Config N)) (s : Limits N) (now : N) :
    Reread s (s.config raw now).1 := by
  unfold config
  split
  · exact ⟨_, _, rfl⟩
  · split_ifs
    · exact Reread.refl s
    · exact ⟨_, _, rfl⟩

/-- The settings are those of the cache, or those that are asked for.
Kind: L -/
theorem config_cases (raw : Option (Config N)) (s : Limits N) (now : N) :
    (s.configCache = some (s.config raw now).2 ∧ (s.config raw now).1 = s) ∨
      ((s.config raw now).2 = effective raw ∧
        (s.config raw now).1.configCache = some (effective raw)) := by
  unfold config
  cases hcache : s.configCache with
  | none => exact Or.inr ⟨rfl, rfl⟩
  | some cached =>
      dsimp only
      split_ifs
      · exact Or.inl ⟨rfl, rfl⟩
      · exact Or.inr ⟨rfl, rfl⟩

/-- What a prune does to one key: nothing, or it drops a bucket that has been idle.
Kind: L -/
theorem prune_cases (s : Limits N) (now : N) (key : JsString) :
    (s.prune now).admitted = s.admitted ∧ s.dropped <:+ (s.prune now).dropped ∧
      ((s.prune now).buckets.get key = s.buckets.get key ∨
        (s.prune now).buckets.get key = none ∧
          ∃ b, s.buckets.get key = some b ∧ idle now b = true ∧
            ⟨key, b, now⟩ ∈ (s.prune now).dropped) := by
  unfold prune
  split_ifs with hdue
  · exact ⟨rfl, List.suffix_refl _, Or.inl rfl⟩
  · refine ⟨rfl, List.suffix_append _ _, ?_⟩
    simp only [JsMap.get_deleteWhere]
    rcases hget : s.buckets.get key with _ | b
    · exact Or.inl rfl
    · by_cases hidle : idle now b = true
      · refine Or.inr ⟨Option.filter_some_neg (by simpa using hidle), b, rfl, hidle, ?_⟩
        apply List.mem_append_left
        exact List.mem_map.mpr ⟨(key, b), List.mem_filter.mpr ⟨JsMap.mem_entries_iff.mpr hget, hidle⟩, rfl⟩
      · exact Or.inl (Option.filter_some_pos (by simpa using hidle))

theorem prune_fixed (s : Limits N) (now : N) :
    (s.prune now).configCache = s.configCache ∧ (s.prune now).connections = s.connections := by
  unfold prune
  split_ifs <;> exact ⟨rfl, rfl⟩

variable {key : JsString} {rate burst cost : N}

/-- A take that the level pays for.
Kind: L -/
theorem take_of_le (hrate : Numeric.isFinite rate = true)
    (h : cost ≤ tokensAt ((s.prune now).buckets.get key) rate burst now) :
    s.take key rate burst cost now =
      ({ s.prune now with
          buckets := (s.prune now).buckets.set key
            ⟨tokensAt ((s.prune now).buckets.get key) rate burst now - cost, now⟩
          admitted := ⟨key, now, cost⟩ :: (s.prune now).admitted }, .ok) := by
  unfold take
  rw [hrate]
  exact if_pos h

/-- A take that the level does not pay for.
Kind: L -/
theorem take_of_not_le (hrate : Numeric.isFinite rate = true)
    (h : ¬ cost ≤ tokensAt ((s.prune now).buckets.get key) rate burst now) :
    s.take key rate burst cost now =
      ({ s.prune now with
          buckets := (s.prune now).buckets.set key
            ⟨tokensAt ((s.prune now).buckets.get key) rate burst now, now⟩ },
        .refused none (max (1 : ℕ) (Numeric.ceil
          ((cost - tokensAt ((s.prune now).buckets.get key) rate burst now) / rate)))) := by
  unfold take
  rw [hrate]
  exact if_neg h

/-- A take at a rate that is not finite is no take.
Kind: L -/
theorem take_of_not_finite (hrate : Numeric.isFinite rate = false) :
    s.take key rate burst cost now = (s, .ok) := by
  unfold take
  rw [hrate]
  rfl

/-- A take leaves the settings and the connections alone, and forgets no drop.
Kind: L -/
theorem take_fixed (s : Limits N) (key : JsString) (rate burst cost now : N) :
    (s.take key rate burst cost now).1.configCache = s.configCache ∧
      (s.take key rate burst cost now).1.connections = s.connections ∧
        s.dropped <:+ (s.take key rate burst cost now).1.dropped := by
  have hprune := prune_fixed s now
  have hdropped := (prune_cases s now key).2.1
  cases hrate : Numeric.isFinite rate with
  | false =>
      rw [take_of_not_finite hrate]
      exact ⟨rfl, rfl, List.suffix_refl _⟩
  | true =>
      by_cases hle : cost ≤ tokensAt ((s.prune now).buckets.get key) rate burst now
      · rw [take_of_le hrate hle]
        exact ⟨hprune.1, hprune.2, hdropped⟩
      · rw [take_of_not_le hrate hle]
        exact ⟨hprune.1, hprune.2, hdropped⟩

theorem takeFor_fixed (s : Limits N) (reason : LimitName) (key : JsString) (terms : Option (N × N))
    (cost now : N) :
    (s.takeFor reason key terms cost now).1.configCache = s.configCache ∧
      (s.takeFor reason key terms cost now).1.connections = s.connections ∧
        s.dropped <:+ (s.takeFor reason key terms cost now).1.dropped := by
  cases terms with
  | none => exact ⟨rfl, rfl, List.suffix_refl _⟩
  | some terms => exact take_fixed s key terms.1 terms.2 cost now

end Parts

/-! ### Meters -/

/-- What is metered, and for whom.
Kind: D -/
inductive Meter where
  | msg (socketId : JsString)
  | bytes (socketId : JsString)
  | connrate (ip : JsString)
  | realmrate (ip : JsString)

/-- The key of the bucket.
Kind: D -/
def Meter.key : Meter → JsString
  | msg socketId => js "msg:" ++ socketId
  | bytes socketId => js "bytes:" ++ socketId
  | connrate ip => js "connrate:" ++ ipName ip
  | realmrate ip => js "realmrate:" ++ ipName ip

/-- The rate per second and the burst that the calls pass to `_take` under a settings block, `none`
when unlimited.
Kind: D -/
def Meter.terms (config : Option (Config N)) (realm : Option JsString) : Meter → Option (N × N)
  | msg _ =>
      messageTerms (valueOf config realm .messages_per_second) (valueOf config realm .message_burst)
  | bytes _ => byteTerms (valueOf config realm .bytes_per_second) (valueOf config realm .bytes_burst)
  | connrate _ => connectionTerms (valueOf config none .connections_per_minute_per_ip)
  | realmrate _ => realmTerms (valueOf config none .realms_per_hour_per_ip)

/-! ### The calls under a constant configuration -/

/-- The cache, if there is one, holds the settings that are asked for.
Kind: D -/
def Cached (raw : Option (Config N)) (s : Limits N) : Prop :=
  s.configCache = none ∨ s.configCache = some (effective raw)

section Cached

variable {raw : Option (Config N)} {s : Limits N}

theorem config_of_cached (h : Cached raw s) (now : N) :
    (s.config raw now).2 = effective raw ∧ Cached raw (s.config raw now).1 := by
  rcases config_cases raw s now with ⟨hcache, hsame⟩ | ⟨hval, hcache⟩
  · rw [hsame]
    refine ⟨?_, h⟩
    rcases h with hnone | hsome
    · exact absurd (hnone ▸ hcache) (by simp)
    · exact Option.some.inj (hcache.symm.trans hsome)
  · exact ⟨hval, Or.inr hcache⟩

theorem enabled_of_cached (h : Cached raw s) (now : N) :
    (s.enabled raw now).2 = (effective raw).isSome ∧ Reread s (s.enabled raw now).1 ∧
      Cached raw (s.enabled raw now).1 :=
  ⟨congrArg Option.isSome (config_of_cached h now).1, reread_config raw s now,
    (config_of_cached h now).2⟩

theorem value_of_cached (h : Cached raw s) (realm : Option JsString) (name : LimitName) (now : N) :
    (s.value raw realm name now).2 = valueOf (effective raw) realm name ∧
      Reread s (s.value raw realm name now).1 ∧ Cached raw (s.value raw realm name now).1 :=
  ⟨congrArg (valueOf · realm name) (config_of_cached h now).1, reread_config raw s now,
    (config_of_cached h now).2⟩

theorem Cached.congr {s' : Limits N} (h : Cached raw s) (hsame : s'.configCache = s.configCache) :
    Cached raw s' := by
  unfold Cached
  rw [hsame]
  exact h

/-- The message check, but for the cache, is a check of one limit at the meter's terms.
Kind: L -/
theorem messageCheck_eq (h : Cached raw s) (socketId : JsString) (realm : Option JsString)
    (now : ℕ → N) : ∃ s₁, Reread s s₁ ∧ Cached raw s₁ ∧
      s.messageCheck raw socketId realm now =
        s₁.takeFor .messages_per_second (js "msg:" ++ socketId)
          ((Meter.msg socketId).terms (effective raw) realm) (1 : ℕ) (now 3) := by
  obtain ⟨hrate, hreread, hcached⟩ := value_of_cached h realm .messages_per_second (now 1)
  obtain ⟨hburst, hreread', hcached'⟩ := value_of_cached hcached realm .message_burst (now 2)
  unfold messageCheck
  simp only [Meter.terms, hrate, hburst]
  split_ifs with hnone
  · refine ⟨_, hreread, hcached, ?_⟩
    rw [Option.isNone_iff_eq_none.mp hnone]
    rfl
  · exact ⟨_, hreread.trans hreread', hcached', rfl⟩

/-- So is the byte check.
Kind: L -/
theorem byteCheck_eq (h : Cached raw s) (socketId : JsString) (realm : Option JsString) (bytes : N)
    (now : ℕ → N) : ∃ s₁, Reread s s₁ ∧ Cached raw s₁ ∧
      s.byteCheck raw socketId realm bytes now =
        s₁.takeFor .bytes_per_second (js "bytes:" ++ socketId)
          ((Meter.bytes socketId).terms (effective raw) realm) (max (1 : ℕ) bytes) (now 6) := by
  obtain ⟨hrate, hreread, hcached⟩ := value_of_cached h realm .bytes_per_second (now 4)
  obtain ⟨hburst, hreread', hcached'⟩ := value_of_cached hcached realm .bytes_burst (now 5)
  unfold byteCheck
  simp only [Meter.terms, hrate, hburst]
  split_ifs with hnone
  · refine ⟨_, hreread, hcached, ?_⟩
    rw [Option.isNone_iff_eq_none.mp hnone]
    rfl
  · exact ⟨_, hreread.trans hreread', hcached', rfl⟩

/-- Neither check forgets a drop.
Kind: L -/
theorem messageCheck_fixed (h : Cached raw s) (socketId : JsString) (realm : Option JsString)
    (now : ℕ → N) : Cached raw (s.messageCheck raw socketId realm now).1 ∧
      s.dropped <:+ (s.messageCheck raw socketId realm now).1.dropped := by
  obtain ⟨s₁, hreread, hcached, heq⟩ := messageCheck_eq h socketId realm now
  rw [heq]
  have hfixed := takeFor_fixed s₁ .messages_per_second (js "msg:" ++ socketId)
    ((Meter.msg socketId).terms (effective raw) realm) (1 : ℕ) (now 3)
  exact ⟨hcached.congr hfixed.1, hreread.suffix.trans hfixed.2.2⟩

theorem byteCheck_fixed (h : Cached raw s) (socketId : JsString) (realm : Option JsString) (bytes : N)
    (now : ℕ → N) : Cached raw (s.byteCheck raw socketId realm bytes now).1 ∧
      s.dropped <:+ (s.byteCheck raw socketId realm bytes now).1.dropped := by
  obtain ⟨s₁, hreread, hcached, heq⟩ := byteCheck_eq h socketId realm bytes now
  rw [heq]
  have hfixed := takeFor_fixed s₁ .bytes_per_second (js "bytes:" ++ socketId)
    ((Meter.bytes socketId).terms (effective raw) realm) (max (1 : ℕ) bytes) (now 6)
  exact ⟨hcached.congr hfixed.1, hreread.suffix.trans hfixed.2.2⟩

theorem produceAllowed_fixed (h : Cached raw s) (socketId : JsString) (realm : Option JsString)
    (bytes : N) (now : ℕ → N) : Cached raw (produceAllowed raw s socketId realm bytes now).1 ∧
      s.dropped <:+ (produceAllowed raw s socketId realm bytes now).1.dropped := by
  obtain ⟨-, hreread, hcached⟩ := enabled_of_cached h (now 0)
  have hmsg := messageCheck_fixed hcached socketId realm now
  have hbytes := byteCheck_fixed hmsg.1 socketId realm bytes now
  unfold produceAllowed
  dsimp only
  split_ifs
  · exact ⟨hcached, hreread.suffix⟩
  · exact ⟨hbytes.1, hreread.suffix.trans (hmsg.2.trans hbytes.2)⟩
  · exact ⟨hmsg.1, hreread.suffix.trans hmsg.2⟩

end Cached

end Limits

end TyoMq
