import TyoMq.Lib.JsString
import TyoMq.Push.RegistrySteps

/-!
# The registry that wakes go by

The `TokenRegistry` of `lib/push.js` with what `fireWake` and `deliverNotifyPush` keep in it beside the
endpoints: when each identity was last woken, and what has been logged lately.

* In every list a device occurs once, and no list is too long: that is part of the structure, and every
  operation keeps it.
* The gate (`coalesceOk`): what it answers and what it records is read off `Woken`, the time of the last
  wake of an identity.
* `logWakeFailure`: a line for a transport and a reason at most once in a while.
-/

namespace TyoMq.Push

open TyoMq.Lib RealmMaps

/-- `PUSH_COALESCE_WINDOW_MS`.
Kind: D -/
def PUSH_COALESCE_WINDOW_MS : ℤ := 10 * 1000

/-- `PUSH_FAIL_LOG_WINDOW_MS`.
Kind: D -/
def PUSH_FAIL_LOG_WINDOW_MS : ℤ := 60 * 1000

/-! ### The registry -/

/-- A `TokenRegistry`. The maps of `_lastWake` are only looked up: a realm that is absent is one whose map
is empty.
Source: `lib/push.js`, `TokenRegistry`
Kind: D -/
structure WakeRegistry where
  /-- The caps. -/
  bounds : Bounds
  /-- The endpoints, and the table behind them. -/
  registry : Registry JsString
  /-- A device is in a list once. -/
  distinct : ∀ r i, (devices (registry.list r i)).Nodup
  /-- Lists are not too long. -/
  capped : ∀ r i, (registry.list r i).length ≤ bounds.maxPerIdentity
  /-- The window within which an identity is woken once. -/
  coalesceWindowMs : ℤ
  /-- `_lastWake`. -/
  lastWake : JsString → JsMap JsString ℤ
  /-- `_failLog`. -/
  failLog : JsMap JsString ℤ

/-- The levels of a logger that are used.
Kind: D -/
inductive LogLevel where
  | debug
  | warn
  deriving DecidableEq

/-- A line of the log.
Kind: D -/
structure LogLine where
  /-- The level. -/
  level : LogLevel
  /-- The line. -/
  text : JsString
  deriving DecidableEq

/-- Which methods the logger of a call has. A call without one has neither.
Kind: D -/
structure Logger where
  /-- `logger.debug`. -/
  debug : Bool
  /-- `logger.warn`. -/
  warn : Bool

namespace WakeRegistry

/-- `new TokenRegistry(opts)` on a store that has been read. `coalesceWindowMs` is zero where it is not
set.
Source: `lib/push.js`, `TokenRegistry`
Kind: D -/
def new (bounds : Bounds) (registry : Registry JsString)
    (distinct : ∀ r i, (devices (registry.list r i)).Nodup)
    (capped : ∀ r i, (registry.list r i).length ≤ bounds.maxPerIdentity) (coalesceWindowMs : ℤ) :
    WakeRegistry where
  bounds := bounds
  registry := registry
  distinct := distinct
  capped := capped
  coalesceWindowMs := if coalesceWindowMs = 0 then PUSH_COALESCE_WINDOW_MS else coalesceWindowMs
  lastWake := fun _ => JsMap.empty
  failLog := JsMap.empty

/-- A new one with nothing in its store.
Kind: D -/
def blank (bounds : Bounds) (coalesceWindowMs : ℤ) : WakeRegistry :=
  new bounds ⟨fun _ => RealmMaps.empty, RowTable.empty⟩ (fun _ _ => List.nodup_nil)
    (fun _ _ => Nat.zero_le _) coalesceWindowMs

/-- `TokenRegistry.prototype.list`.
Kind: D -/
def list (s : WakeRegistry) (realm identity : JsString) : List (Endpoint JsString) :=
  s.registry.list realm identity

/-- `TokenRegistry.prototype.register`.
Kind: D -/
def register (s : WakeRegistry) (realm identity : JsString) (ep : Registration JsString) (now : ℤ) :
    WakeRegistry :=
  { s with
    registry := s.registry.register s.bounds realm identity ep now
    distinct := (Registry.register_entering s.distinct s.capped realm identity ep now).nodup
    capped := (Registry.register_entering s.distinct s.capped realm identity ep now).length_le }

/-- `TokenRegistry.prototype.unregister`.
Kind: D -/
def unregister (s : WakeRegistry) (place : Place JsString) : WakeRegistry :=
  { s with
    registry := s.registry.unregister place
    distinct := fun r i =>
      (s.distinct r i).sublist ((Registry.list_unregister_sublist s.registry place r i).map _)
    capped := fun r i =>
      (Registry.list_unregister_sublist s.registry place r i).length_le.trans (s.capped r i) }

/-- `TokenRegistry.prototype.prune`.
Kind: D -/
def prune (s : WakeRegistry) (place : Place JsString) : WakeRegistry := s.unregister place

/-- Marking keeps what a list says of devices.
Kind: L -/
theorem map_device_markOk (s : Registry JsString) (place : Place JsString) (now : ℤ)
    (r i : JsString) : devices ((s.markOk place now).list r i) = devices (s.list r i) := by
  have hrows := congrArg (List.map fun row : Row JsString => (row.transport, row.token))
    (Registry.map_row_list_markOk s place now r i)
  rw [List.map_map, List.map_map] at hrows
  exact hrows

/-- `TokenRegistry.prototype.markOk`.
Kind: D -/
def markOk (s : WakeRegistry) (place : Place JsString) (now : ℤ) : WakeRegistry :=
  { s with
    registry := s.registry.markOk place now
    distinct := fun r i => (map_device_markOk s.registry place now r i).symm ▸ s.distinct r i
    capped := fun r i => by
      have hlen := congrArg List.length (map_device_markOk s.registry place now r i)
      rw [devices, devices, List.length_map, List.length_map] at hlen
      exact hlen ▸ s.capped r i }

/-! ### The gate -/

/-- When the identity was last woken.
Kind: D -/
def woken (s : WakeRegistry) (realm identity : JsString) : Option ℤ := (s.lastWake realm).get identity

/-- Record that an identity has been woken.
Kind: D -/
def setWoken (s : WakeRegistry) (realm identity : JsString) (now : ℤ) : WakeRegistry :=
  { s with
    lastWake := fun r => if r = realm then (s.lastWake r).set identity now else s.lastWake r }

/-- The answer, and the registry in which a wake that is let through is recorded.
Source: `lib/push.js`, `TokenRegistry.prototype.coalesceOk`
Kind: D -/
def coalesceOk (s : WakeRegistry) (realm identity : JsString) (now windowMs : ℤ) :
    Bool × WakeRegistry :=
  let windowMs := if windowMs = 0 then s.coalesceWindowMs else windowMs
  match s.woken realm identity with
  | some last =>
      if now - last < windowMs then (false, s) else (true, s.setWoken realm identity now)
  | none => (true, s.setWoken realm identity now)

/-- Source: `lib/push.js`, `TokenRegistry.prototype.resetCoalesce`
Kind: D -/
def resetCoalesce (s : WakeRegistry) (realm identity : JsString) : WakeRegistry :=
  { s with
    lastWake := fun r => if r = realm then (s.lastWake r).delete identity else s.lastWake r }

/-! ### The log -/

/-- A failure is logged unless there is a line of the same transport and reason that is not old.
Source: `lib/push.js`, `logWakeFailure`
Kind: D -/
def logWakeFailure (s : WakeRegistry) (logger : Logger) (transport reason : JsString) (now : ℤ) :
    WakeRegistry × List LogLine :=
  if logger.warn = false then (s, [])
  else
    let key := transport ++ js ":" ++ reason
    let logged : WakeRegistry × List LogLine :=
      ({ s with failLog := s.failLog.set key now },
        [⟨.warn, js "push wake failed: transport=" ++ transport ++ js " reason=" ++ reason⟩])
    match s.failLog.get key with
    | some last => if now - last < PUSH_FAIL_LOG_WINDOW_MS then (s, []) else logged
    | none => logged

/-- Source: `lib/push.js`, `logWakeSkip`
Kind: D -/
def logWakeSkip (logger : Logger) (realm identity reason : JsString) : List LogLine :=
  if logger.debug = false then []
  else
    [⟨.debug, js "push wake skipped: realm=" ++ realm ++ js " identity=" ++ identity ++
      js " reason=" ++ reason⟩]

/-! ### What the operations leave alone -/

section Frames

variable {s : WakeRegistry} {realm identity r i : JsString} {now : ℤ}

@[simp] theorem woken_register (ep : Registration JsString) :
    (s.register realm identity ep now).woken r i = s.woken r i := rfl

@[simp] theorem woken_unregister (place : Place JsString) :
    (s.unregister place).woken r i = s.woken r i := rfl

@[simp] theorem woken_prune (place : Place JsString) : (s.prune place).woken r i = s.woken r i := rfl

@[simp] theorem woken_markOk (place : Place JsString) :
    (s.markOk place now).woken r i = s.woken r i := rfl

/-- Whether or not a failure is logged, only the log of failures changes.
Kind: L -/
theorem logWakeFailure_cases (s : WakeRegistry) (logger : Logger) (transport reason : JsString)
    (now : ℤ) : ∃ failLog, (s.logWakeFailure logger transport reason now).1 =
      { s with failLog := failLog } := by
  unfold logWakeFailure
  split_ifs
  · exact ⟨s.failLog, rfl⟩
  dsimp only
  rcases s.failLog.get (transport ++ js ":" ++ reason) with _ | last
  · exact ⟨_, rfl⟩
  · dsimp only
    split_ifs
    · exact ⟨s.failLog, rfl⟩
    · exact ⟨_, rfl⟩

@[simp] theorem woken_logWakeFailure (logger : Logger) (transport reason : JsString) :
    (s.logWakeFailure logger transport reason now).1.woken r i = s.woken r i := by
  obtain ⟨failLog, h⟩ := logWakeFailure_cases s logger transport reason now
  rw [h]
  rfl

@[simp] theorem list_logWakeFailure (logger : Logger) (transport reason : JsString) :
    (s.logWakeFailure logger transport reason now).1.list r i = s.list r i := by
  obtain ⟨failLog, h⟩ := logWakeFailure_cases s logger transport reason now
  rw [h]
  rfl

/-- The last wakes after one is recorded.
Kind: L -/
theorem woken_setWoken : (s.setWoken realm identity now).woken r i =
    if r = realm ∧ i = identity then some now else s.woken r i := by
  unfold woken setWoken
  by_cases hr : r = realm
  · dsimp only
    rw [if_pos hr, JsMap.get_set]
    simp only [hr, true_and]
  · dsimp only
    rw [if_neg hr, if_neg fun h => hr h.1]

/-- The last wakes after one is forgotten.
Kind: L -/
theorem woken_resetCoalesce : (s.resetCoalesce realm identity).woken r i =
    if r = realm ∧ i = identity then none else s.woken r i := by
  unfold woken resetCoalesce
  by_cases hr : r = realm
  · dsimp only
    rw [if_pos hr]
    by_cases hi : i = identity
    · rw [if_pos ⟨hr, hi⟩, hi, JsMap.get_delete_self]
    · rw [if_neg fun h => hi h.2, JsMap.get_delete_of_ne _ hi]
  · dsimp only
    rw [if_neg hr, if_neg fun h => hr h.1]

/-- What the gate lets through.
Kind: L -/
theorem coalesceOk_spec (s : WakeRegistry) (realm identity : JsString) (now windowMs : ℤ) :
    (∃ last, s.woken realm identity = some last ∧
        now - last < (if windowMs = 0 then s.coalesceWindowMs else windowMs) ∧
        s.coalesceOk realm identity now windowMs = (false, s)) ∨
      (∀ last, s.woken realm identity = some last →
          (if windowMs = 0 then s.coalesceWindowMs else windowMs) ≤ now - last) ∧
        s.coalesceOk realm identity now windowMs = (true, s.setWoken realm identity now) := by
  unfold coalesceOk
  dsimp only
  rcases hlast : s.woken realm identity with _ | last
  · exact Or.inr ⟨fun last h => absurd h.symm (Option.some_ne_none last), rfl⟩
  · dsimp only
    by_cases hin : now - last < (if windowMs = 0 then s.coalesceWindowMs else windowMs)
    · exact Or.inl ⟨last, rfl, hin, if_pos hin⟩
    · refine Or.inr ⟨?_, if_neg hin⟩
      intro last' h
      obtain rfl := Option.some.inj h
      exact Int.not_lt.mp hin

end Frames

end WakeRegistry

end TyoMq.Push
