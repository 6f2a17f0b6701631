import TyoMq.Push.PayloadSize
import TyoMq.Push.SafeUrl
import TyoMq.Push.WakeRegistry

/-!
# Reaching the phones of an identity

`fireWake` and `deliverNotifyPush` of `lib/push.js`. Both go through the endpoints of an identity, hand a
request to the transport of each, and see to the registry when the send has settled.

* A call is what its synchronous part does (`Call`): the requests handed out, the attempts under way, and
  what the promise will resolve with. Attempts settle later, in any order.
* A `send` that throws ends the loop: no later endpoint is handed to its transport, though the attempts
  already under way settle.
* **What comes of a call** (`fireWake_cases`, `deliverNotifyPush_cases`): it is skipped, held back by the
  gate, or goes through the endpoints.
-/

namespace TyoMq.Push

open TyoMq.Lib TyoMq.Notify RealmMaps

variable {N : Type*}

/-! ### Transports -/

/-- A payload.
Kind: D -/
inductive PushPayload where
  | wake (fields : List (JsString × JsonValue ℕ))
  | notification (payload : NotifyPayload)

/-- The argument of `transport.send`.
Source: `lib/push.js`, `fireWake`
Kind: D -/
structure SendRequest where
  /-- The name of the transport. -/
  transport : JsString
  /-- The device token. -/
  token : JsString
  /-- The app. -/
  app_id : Option JsString
  /-- The APNs environment. -/
  env : Option JsString
  /-- The payload. -/
  payload : PushPayload
  /-- The alert copy of a wake. -/
  alert : Option WakeAlert

/-- How the promise of a send settles. It may resolve with `undefined`.
Kind: D -/
inductive Settlement where
  | resolved (res : Option SendResult)
  | rejected
  deriving DecidableEq

/-- What comes of calling `send`.
Kind: D -/
inductive Outcome where
  | throws
  | settles (s : Settlement)
  deriving DecidableEq

/-- Has the transport said that the endpoint is gone?
Kind: D -/
def Settlement.isGone : Settlement → Bool
  | .resolved (some res) => res.gone
  | _ => false

/-- Has it said that the send went through, and nothing worse?
Kind: D -/
def Settlement.isOk : Settlement → Bool
  | .resolved (some res) => !res.gone && res.ok
  | _ => false

/-- A transport, as it behaves during one call.
Kind: D -/
abbrev Transport := SendRequest → Outcome

/-- The push configuration: the transports by name. It may be absent.
Source: `lib/push.js`, `loadConfig`
Kind: D -/
abbrev PushConfig := Option (JsMap JsString Transport)

/-- Source: `lib/push.js`, `isConfigured`
Kind: D -/
def isConfigured (cfg : PushConfig) : Bool :=
  match cfg with
  | none => false
  | some transports => 0 < transports.size

/-- Source: `lib/push.js`, `transportFor`
Kind: D -/
def transportFor (cfg : PushConfig) (name : JsString) : Option Transport :=
  match cfg with
  | none => none
  | some transports => if 0 < transports.size then transports.get name else none

/-! ### The loop -/

/-- A send under way: the endpoint, the call that it belongs to, and how it will settle.
Kind: D -/
structure Attempt where
  /-- The realm of the call. -/
  realm : JsString
  /-- The identity of the call. -/
  identity : JsString
  /-- The endpoint. -/
  ep : Endpoint JsString
  /-- The time of the call. -/
  now : ℤ
  /-- Its logger. -/
  logger : Logger
  /-- How the send settles. -/
  settlement : Settlement

/-- What the loop over the endpoints has done.
Kind: D -/
structure Sending where
  /-- The requests handed to transports, in order. -/
  handed : List SendRequest
  /-- The attempts under way. -/
  attempts : List Attempt
  /-- How many endpoints were not passed over. -/
  sent : ℕ
  /-- Has a `send` thrown? -/
  threw : Bool

/-- What the two callers of the loop do differently: which endpoints they want, and what they send.
Kind: D -/
structure Job where
  /-- The realm. -/
  realm : JsString
  /-- The identity. -/
  identity : JsString
  /-- The time. -/
  now : ℤ
  /-- The logger. -/
  logger : Logger
  /-- Is the endpoint to be reached? -/
  wanted : Endpoint JsString → Bool
  /-- The payload. -/
  payload : PushPayload
  /-- The alert copy. -/
  alert : Option WakeAlert

/-- The request for an endpoint.
Kind: D -/
def Job.request (job : Job) (ep : Endpoint JsString) : SendRequest :=
  ⟨ep.transport, ep.token, ep.app_id, ep.env, job.payload, job.alert⟩

/-- The attempt at an endpoint.
Kind: D -/
def Job.attempt (job : Job) (ep : Endpoint JsString) (settlement : Settlement) : Attempt :=
  ⟨job.realm, job.identity, ep, job.now, job.logger, settlement⟩

/-- `endpoints.map(function (ep) { … })`.
Source: `lib/push.js`, `fireWake` and `deliverNotifyPush`
Kind: D -/
def sendEach (cfg : PushConfig) (job : Job) : List (Endpoint JsString) → Sending
  | [] => ⟨[], [], 0, false⟩
  | ep :: eps =>
      let rest := sendEach cfg job eps
      if job.wanted ep = false then rest
      else
        match transportFor cfg ep.transport with
        | none => { rest with sent := rest.sent + 1 }
        | some transport =>
            match transport (job.request ep) with
            -- an exception leaves the loop
            | .throws => ⟨[job.request ep], [], 1, true⟩
            | .settles settlement =>
                ⟨job.request ep :: rest.handed, job.attempt ep settlement :: rest.attempts,
                  rest.sent + 1, rest.threw⟩

/-- What happens when the promise of a send settles.
Source: `lib/push.js`, `fireWake` and `deliverNotifyPush`
Kind: D -/
def settle (s : WakeRegistry) (a : Attempt) : WakeRegistry × List LogLine :=
  let place := a.ep.place a.realm a.identity
  match a.settlement with
  | .rejected => s.logWakeFailure a.logger a.ep.transport (js "error") a.now
  | .resolved res =>
      let res := res.getD ⟨false, false, false⟩
      if res.gone then
        (s.prune place).logWakeFailure a.logger a.ep.transport (js "gone") a.now
      else if res.ok then (s.markOk place a.now, [])
      else
        s.logWakeFailure a.logger a.ep.transport
          (if res.isUnsafe then js "unsafe" else js "transient") a.now

/-- Some attempts settle, one after the other.
Kind: D -/
def settleAll (s : WakeRegistry) (order : List Attempt) : WakeRegistry :=
  order.foldl (fun s a => (settle s a).1) s

/-! ### The calls -/

/-- What a call resolves with.
Kind: D -/
structure PushResult where
  /-- How many endpoints it says to have sent to. -/
  sent : ℕ
  /-- Why it has sent to none. -/
  skipped : Option JsString
  deriving DecidableEq

/-- What the synchronous part of a call does, and what its promise will resolve with.
Kind: D -/
structure Call where
  /-- The registry. -/
  registry : Option WakeRegistry
  /-- The requests handed to transports, in order. -/
  handed : List SendRequest
  /-- The attempts under way. -/
  attempts : List Attempt
  /-- What the promise resolves with. -/
  result : PushResult
  /-- What is logged. -/
  log : List LogLine

/-- A call that sends nothing.
Kind: D -/
def Call.skip (registry : Option WakeRegistry) (reason : JsString) (log : List LogLine) : Call :=
  ⟨registry, [], [], ⟨0, some reason⟩, log⟩

/-- A call that has gone through the endpoints. An exception is caught, and what has been handed out
stays under way.
Kind: D -/
def Call.ofSending (registry : WakeRegistry) (sending : Sending) (sent : ℕ) : Call :=
  ⟨some registry, sending.handed, sending.attempts,
    if sending.threw then ⟨0, some (js "error")⟩ else ⟨sent, none⟩, []⟩

/-- The options of `fireWake`, and the time, which is that of the options or of the clock.
`coalesceWindowMs` is zero where it is not set.
Source: `lib/push.js`, `fireWake`
Kind: D -/
structure WakeOptions where
  /-- The time. -/
  now : ℤ
  /-- The logger. -/
  logger : Logger
  /-- The window. -/
  coalesceWindowMs : ℤ
  /-- The kind. -/
  kind : WakeKind
  /-- The alert copy of the realm. -/
  alert : Option AlertCopy

/-- The window of a call.
Source: `lib/push.js`, `fireWake`
Kind: D -/
def windowOf (registry : Option WakeRegistry) (opts : WakeOptions) : ℤ :=
  if opts.coalesceWindowMs ≠ 0 then opts.coalesceWindowMs
  else
    match registry with
    | none => PUSH_COALESCE_WINDOW_MS
    | some s => if s.coalesceWindowMs ≠ 0 then s.coalesceWindowMs else PUSH_COALESCE_WINDOW_MS

/-- A wake goes to every endpoint.
Kind: D -/
def wakeJob (realm identity : JsString) (opts : WakeOptions)
    (payload : List (JsString × JsonValue ℕ)) : Job where
  realm := realm
  identity := identity
  now := opts.now
  logger := opts.logger
  wanted _ := true
  payload := .wake payload
  alert := if opts.kind = .alert then some (normalizeWakeAlert opts.alert (some realm)) else none

/-- Source: `lib/push.js`, `fireWake`
Kind: D -/
def fireWake (cfg : PushConfig) (registry : Option WakeRegistry) (realm identity : JsString)
    (opts : WakeOptions) : Call :=
  let windowMs := windowOf registry opts
  let skip := fun registry reason =>
    Call.skip registry reason (WakeRegistry.logWakeSkip opts.logger realm identity reason)
  if opts.kind = .suppressed then skip registry (js "suppressed")
  else if isConfigured cfg = false then skip registry (js "unconfigured")
  else
    match registry with
    | none => skip none (js "no-registry")
    | some s =>
        let endpoints := s.list realm identity
        if endpoints.length = 0 then skip (some s) (js "no-endpoints")
        else
          let gate := s.coalesceOk realm identity opts.now windowMs
          if gate.1 = false then skip (some gate.2) (js "coalesced")
          else
            match buildWakePayload opts.kind with
            | none => Call.skip (some gate.2) (js "error") []
            | some payload =>
                Call.ofSending gate.2 (sendEach cfg (wakeJob realm identity opts payload) endpoints)
                  endpoints.length

/-- `NOTIFY_DEFAULT_PRIORITY`.
Kind: D -/
def NOTIFY_DEFAULT_PRIORITY : ℕ := 3

/-- `Number(msg.priority) || NOTIFY_DEFAULT_PRIORITY`.
Source: `lib/push.js`, `deliverNotifyPush`
Kind: D -/
def msgPriority (msg : Message N) : ℕ :=
  if msg.priority.getD 0 = 0 then NOTIFY_DEFAULT_PRIORITY else msg.priority.getD 0

/-- Is the message below the endpoint's least priority?
Source: `lib/push.js`, `deliverNotifyPush`
Kind: D -/
def filtered (msg : Message N) (ep : Endpoint JsString) : Bool :=
  match ep.min_priority with
  | some (.finite least) => 0 < least && (msgPriority msg : ℚ) < least
  | some (.infinite negative) => !negative
  | some .negZero | some .nan | none => false

/-- A notification goes to the endpoints whose least priority it reaches.
Kind: D -/
def notifyJob (num : Numerals N) (realm topic : JsString) (msg : Message N) (mode : PushMode) (now : ℤ)
    (logger : Logger) : Job where
  realm := realm
  identity := topic
  now := now
  logger := logger
  wanted ep := !filtered msg ep
  payload := .notification (pushPayload num msg mode)
  alert := none

/-- Source: `lib/push.js`, `deliverNotifyPush`
Kind: D -/
def deliverNotifyPush (num : Numerals N) (cfg : PushConfig) (registry : Option WakeRegistry)
    (realm topic : JsString) (msg : Message N) (mode : PushMode) (now : ℤ) (logger : Logger) : Call :=
  if mode = .off then Call.skip registry (js "off") []
  else if isConfigured cfg = false then Call.skip registry (js "unconfigured") []
  else
    match registry with
    | none => Call.skip none (js "no-registry") []
    | some s =>
        let endpoints := s.list realm topic
        if endpoints.length = 0 then Call.skip (some s) (js "no-endpoints") []
        else
          let sending := sendEach cfg (notifyJob num realm topic msg mode now logger) endpoints
          Call.ofSending s sending sending.sent

/-! ### What comes of a call -/

/-- **What comes of a wake**: there is nothing to wake and it is skipped, or the gate holds it back, or it
goes through the endpoints.
Kind: L -/
theorem fireWake_cases (cfg : PushConfig) (s : WakeRegistry) (realm identity : JsString)
    (opts : WakeOptions) :
    (∃ reason log, reason ≠ js "coalesced" ∧
        fireWake cfg (some s) realm identity opts = Call.skip (some s) reason log ∧
        (opts.kind = .suppressed ∨ isConfigured cfg = false ∨ s.list realm identity = [])) ∨
      (opts.kind ≠ .suppressed ∧ isConfigured cfg = true ∧ s.list realm identity ≠ []) ∧
        ((s.coalesceOk realm identity opts.now (windowOf (some s) opts)).1 = false ∧
            (∃ log, fireWake cfg (some s) realm identity opts = Call.skip (some s) (js "coalesced") log) ∨
          (s.coalesceOk realm identity opts.now (windowOf (some s) opts)).1 = true ∧
            fireWake cfg (some s) realm identity opts =
              Call.ofSending (s.coalesceOk realm identity opts.now (windowOf (some s) opts)).2
                (sendEach cfg (wakeJob realm identity opts ((buildWakePayload opts.kind).getD []))
                  (s.list realm identity))
                (s.list realm identity).length) := by
  unfold fireWake
  dsimp only
  by_cases hkind : opts.kind = .suppressed
  · rw [if_pos hkind]
    exact Or.inl ⟨_, _, by decide, rfl, Or.inl hkind⟩
  rw [if_neg hkind]
  by_cases hcfg : isConfigured cfg = false
  · rw [if_pos hcfg]
    exact Or.inl ⟨_, _, by decide, rfl, Or.inr (Or.inl hcfg)⟩
  rw [if_neg hcfg]
  by_cases hnil : (s.list realm identity).length = 0
  · rw [if_pos hnil]
    exact Or.inl ⟨_, _, by decide, rfl, Or.inr (Or.inr (List.length_eq_zero_iff.mp hnil))⟩
  rw [if_neg hnil]
  refine Or.inr ⟨⟨hkind, Bool.eq_true_of_not_eq_false hcfg, fun h => hnil (List.length_eq_zero_iff.mpr h)⟩, ?_⟩
  rcases s.coalesceOk_spec realm identity opts.now (windowOf (some s) opts) with
    ⟨last, -, -, h⟩ | ⟨-, h⟩
  · -- a closed gate leaves the registry as it is
    rw [h, if_pos rfl]
    exact Or.inl ⟨rfl, _, rfl⟩
  · rw [h, if_neg Bool.true_eq_false.mp, buildWakePayload_eq]
    exact Or.inr ⟨rfl, rfl⟩

/-- **What comes of a notification**: it is skipped, or it goes through the endpoints.
Kind: L -/
theorem deliverNotifyPush_cases (num : Numerals N) (cfg : PushConfig) (s : WakeRegistry)
    (realm topic : JsString) (msg : Message N) (mode : PushMode) (now : ℤ) (logger : Logger) :
    (∃ reason, deliverNotifyPush num cfg (some s) realm topic msg mode now logger =
          Call.skip (some s) reason [] ∧
        (mode = .off ∨ isConfigured cfg = false ∨ s.list realm topic = [])) ∨
      (mode ≠ .off ∧ isConfigured cfg = true) ∧
        deliverNotifyPush num cfg (some s) realm topic msg mode now logger =
          Call.ofSending s
            (sendEach cfg (notifyJob num realm topic msg mode now logger) (s.list realm topic))
            (sendEach cfg (notifyJob num realm topic msg mode now logger) (s.list realm topic)).sent := by
  unfold deliverNotifyPush
  by_cases hmode : mode = .off
  · rw [if_pos hmode]
    exact Or.inl ⟨_, rfl, Or.inl hmode⟩
  rw [if_neg hmode]
  by_cases hcfg : isConfigured cfg = false
  · rw [if_pos hcfg]
    exact Or.inl ⟨_, rfl, Or.inr (Or.inl hcfg)⟩
  rw [if_neg hcfg]
  dsimp only
  by_cases hnil : (s.list realm topic).length = 0
  · rw [if_pos hnil]
    exact Or.inl ⟨_, rfl, Or.inr (Or.inr (List.length_eq_zero_iff.mp hnil))⟩
  rw [if_neg hnil]
  exact Or.inr ⟨⟨hmode, Bool.eq_true_of_not_eq_false hcfg⟩, rfl⟩

end TyoMq.Push
