import TyoMq.Lib.Runs
import TyoMq.Push.Delivery
import TyoMq.Push.Fcm
import TyoMq.Push.Renaming

/-!
# What is logged of a push

The lines that `fireWake`, `deliverNotifyPush` and the transports log, over runs: calls, registrations in
between, answers that come to the transports, and sends that settle, in any order.

* A transport is what it answers to each request. FCM and APNs warn of their own: before a send for an app
  that they have no project or topic for, and when an answer refuses their credentials. Each warning is
  given once in a while.
* **Device tokens are not in the log** (`logs_alike`): two runs over registries that differ in the tokens
  only, with transports that answer alike, log the same lines.
-/

namespace TyoMq.Push

open TyoMq.Lib TyoMq.Jwks TyoMq.Notify RealmMaps

variable {N : Type*}

/-! ### Transports that warn -/

/-- A transport, and how it answers to the requests of one call. `NullTransport` and
`UnifiedPushTransport` log nothing. An answer of FCM is `none` where signing throws, and one of APNs where
the request fails.
Kind: D -/
inductive LoudTransport where
  | quiet (send : Transport)
  | fcm (t : FcmTransport) (logger : Bool) (answer : SendRequest → Option PostReply)
  | apns (t : ApnsTransport) (logger : Bool) (answer : SendRequest → Option (Option ℕ × JsString))

/-- A configuration of such transports.
Kind: D -/
abbrev LoudConfig := Option (JsMap JsString LoudTransport)

/-- When a transport last warned.
Kind: D -/
structure Throttle where
  /-- `_lastAuthWarnMs`. -/
  lastAuthWarnMs : ℤ
  /-- `_lastNoProjectWarnMs` or `_lastNoTopicWarnMs`. -/
  lastNoTargetWarnMs : ℤ

/-- The result for a verdict.
Kind: D -/
def PushVerdict.settled (v : PushVerdict) : Outcome :=
  .settles (.resolved (some ⟨v.ok, v.gone, false⟩))

section Loud

variable (p : FcmPlatform)

/-- The reason in the body of an APNs error, as it is logged.
Source: `lib/push.js`, `parseApnsReason` and `ApnsTransport.prototype._warnAuth`
Kind: D -/
def apnsReasonText (body : JsString) : JsString :=
  match ((JsonValue.parse p.readNumber (orElse body (js "\x7b\x7d"))).bind fun v =>
      v.member (js "reason")).filter truthy with
  | none => []
  | some reason => js " apns-reason=" ++ p.text reason

namespace LoudTransport

/-- What comes of calling `send`.
Source: `lib/push.js`, `FcmTransport.prototype.send` and `ApnsTransport.prototype.send`
Kind: D -/
def send : LoudTransport → Transport
  | .quiet send, req => send req
  | .fcm t _ answer, req =>
      match t.projectFor req.app_id with
      | none => retained.settled
      | some _ =>
          match answer req with
          | none => .throws
          | some .failed => retained.settled
          | some (.response status body) => (classifyFcmResponse p status body).1.settled
  | .apns t _ answer, req =>
      if t.topicFor req.app_id = [] then retained.settled
      else
        match answer req with
        | none => retained.settled
        | some (status, body) =>
            let cls := classifyApnsResponse p.readNumber status body
            if cls.auth then retained.settled
            else if cls.gone then PushVerdict.settled ⟨false, true⟩
            else PushVerdict.settled ⟨cls.ok, false⟩

/-- What it warns of before it sends.
Source: `lib/push.js`, `FcmTransport.prototype._warnNoProject` and `ApnsTransport.prototype._warnNoTopic`
Kind: D -/
def noTarget : LoudTransport → SendRequest → Option JsString
  | .quiet _, _ => none
  | .fcm t logger _, req =>
      if logger = true ∧ (t.projectFor req.app_id).isNone then
        some (js "push wake skipped: transport=fcm reason=no-project app_id=" ++
          (match req.app_id with
            | none => js "null"
            | some appId => quote appId) ++
          js " (no FCM project mapped for this app_id and no default project — device token NOT pruned)")
      else none
  | .apns t logger _, req =>
      if logger = true ∧ t.topicFor req.app_id = [] then
        some (js "push wake failed: transport=apns reason=no-topic app_id=" ++
          (match req.app_id with
            | none => js "(none)"
            | some appId => appId) ++
          js " (no apns-topic/bundle id configured — device token NOT pruned)")
      else none

/-- What it warns of when the answer to a request has come.
Source: `lib/push.js`, `FcmTransport.prototype._warnAuth` and `ApnsTransport.prototype._warnAuth`
Kind: D -/
def auth : LoudTransport → SendRequest → Option JsString
  | .quiet _, _ => none
  | .fcm t logger answer, req =>
      if logger = false ∨ (t.projectFor req.app_id).isNone then none
      else
        match answer req with
        | none | some .failed => none
        | some (.response status body) =>
            if (classifyFcmResponse p status body).2 then
              some (js "push wake failed: transport=fcm reason=auth status=" ++ toRadix 10 status ++
                js " (FCM service-account credentials/permission rejected — device token NOT pruned)")
            else none
  | .apns t logger answer, req =>
      if logger = false ∨ t.topicFor req.app_id = [] then none
      else
        match answer req with
        | none => none
        | some (status, body) =>
            if (classifyApnsResponse p.readNumber status body).auth then
              some (js "push wake failed: transport=apns reason=auth status=" ++
                (match status with
                  | none => js "undefined"
                  | some status => toRadix 10 status) ++
                apnsReasonText p body ++
                js " (APNs provider token / env scope rejected — device token NOT pruned)")
            else none

end LoudTransport

/-- The transport of a name.
Source: `lib/push.js`, `transportFor`
Kind: D -/
def loudFor (cfg : LoudConfig) (name : JsString) : Option LoudTransport := cfg.bind fun m => m.get name

/-- What the calls go by.
Kind: D -/
def pushConfig (cfg : LoudConfig) : PushConfig :=
  cfg.map fun m =>
    ⟨m.entries.map fun e => (e.1, e.2.send p), by
      rw [List.map_map]
      exact m.nodup⟩

namespace Throttle

/-- A warning before a send.
Source: `lib/push.js`, `FcmTransport.prototype._warnNoProject` and `ApnsTransport.prototype._warnNoTopic`
Kind: D -/
def warnNoTarget (th : Throttle) (now : ℤ) : Option JsString → Throttle × List LogLine
  | none => (th, [])
  | some text =>
      if now - th.lastNoTargetWarnMs < PUSH_FAIL_LOG_WINDOW_MS then (th, [])
      else ({ th with lastNoTargetWarnMs := now }, [⟨.warn, text⟩])

/-- A warning of refused credentials.
Source: `lib/push.js`, `FcmTransport.prototype._warnAuth` and `ApnsTransport.prototype._warnAuth`
Kind: D -/
def warnAuth (th : Throttle) (now : ℤ) : Option JsString → Throttle × List LogLine
  | none => (th, [])
  | some text =>
      if now - th.lastAuthWarnMs < PUSH_FAIL_LOG_WINDOW_MS then (th, [])
      else ({ th with lastAuthWarnMs := now }, [⟨.warn, text⟩])

end Throttle

/-! ### Runs -/

/-- A send under way.
Kind: D -/
structure UnderWay where
  /-- The attempt. -/
  attempt : Attempt
  /-- What its transport warns of when the answer has come. -/
  auth : Option JsString
  /-- Has it come? -/
  answered : Bool

/-- The registry, what is under way, and what has been logged.
Kind: D -/
structure LoggedRun where
  /-- The registry. -/
  registry : Option WakeRegistry
  /-- The sends under way. -/
  underWay : List UnderWay
  /-- When the transports last warned. -/
  throttles : JsString → Throttle
  /-- The log. -/
  log : List LogLine

/-- What happens. A clock is what is read at each of the sends of a call.
Kind: D -/
inductive LogEvent (N : Type*) where
  | wake (cfg : LoudConfig) (realm identity : JsString) (opts : WakeOptions) (clock : ℕ → ℤ)
  | notify (cfg : LoudConfig) (realm topic : JsString) (msg : Message N) (mode : PushMode) (now : ℤ)
      (logger : Logger) (clock : ℕ → ℤ)
  | register (realm identity : JsString) (ep : Registration JsString) (now : ℤ)
  | unregister (place : Place JsString)
  | resetCoalesce (realm identity : JsString)
  /-- The transport has the answer to a send. -/
  | answered (i : ℕ) (now : ℤ)
  /-- A send settles. -/
  | settle (i : ℕ)

/-- The warnings before the sends of a call, from the `i`-th on.
Source: `lib/push.js`, `fireWake` and `deliverNotifyPush`
Kind: D -/
def warnEach (cfg : LoudConfig) (clock : ℕ → ℤ) :
    ℕ → List SendRequest → (JsString → Throttle) → (JsString → Throttle) × List LogLine
  | _, [], throttles => (throttles, [])
  | i, req :: reqs, throttles =>
      let text := (loudFor cfg req.transport).bind fun transport => transport.noTarget req
      let warned := (throttles req.transport).warnNoTarget (clock i) text
      let rest := warnEach cfg clock (i + 1) reqs (Function.update throttles req.transport warned.1)
      (rest.1, warned.2 ++ rest.2)

namespace LoggedRun

/-- A call. Its attempts are those of its requests, of which the last may have thrown.
Kind: D -/
def call (s : LoggedRun) (cfg : LoudConfig) (clock : ℕ → ℤ) (c : Call) : LoggedRun :=
  let warned := warnEach cfg clock 0 c.handed s.throttles
  { registry := c.registry
    underWay := s.underWay ++ (c.handed.zip c.attempts).map fun e =>
      ⟨e.2, (loudFor cfg e.1.transport).bind fun transport => transport.auth p e.1, false⟩
    throttles := warned.1
    log := s.log ++ c.log ++ warned.2 }

/-- The answer to a send comes.
Kind: D -/
def answer (s : LoggedRun) (i : ℕ) (now : ℤ) : LoggedRun :=
  match s.underWay[i]? with
  | none => s
  | some u =>
      if u.answered then s
      else
        let name := u.attempt.ep.transport
        let warned := (s.throttles name).warnAuth now u.auth
        { s with
          underWay := s.underWay.set i { u with answered := true }
          throttles := Function.update s.throttles name warned.1
          log := s.log ++ warned.2 }

/-- A send settles. One with an answer that its transport warns of does so behind the warning.
Kind: D -/
def settle (s : LoggedRun) (i : ℕ) : LoggedRun :=
  match s.registry, s.underWay[i]? with
  | some registry, some u =>
      if u.answered = false ∧ u.auth.isSome then s
      else
        let settled := Push.settle registry u.attempt
        { s with
          registry := some settled.1
          underWay := s.underWay.eraseIdx i
          log := s.log ++ settled.2 }
  | _, _ => s

/-- One event.
Kind: D -/
def step (num : Numerals N) (s : LoggedRun) : LogEvent N → LoggedRun
  | .wake cfg realm identity opts clock =>
      s.call p cfg clock (fireWake (pushConfig p cfg) s.registry realm identity opts)
  | .notify cfg realm topic msg mode now logger clock =>
      s.call p cfg clock
        (deliverNotifyPush num (pushConfig p cfg) s.registry realm topic msg mode now logger)
  | .register realm identity ep now =>
      { s with registry := s.registry.map fun registry => registry.register realm identity ep now }
  | .unregister place => { s with registry := s.registry.map fun registry => registry.unregister place }
  | .resetCoalesce realm identity =>
      { s with registry := s.registry.map fun registry => registry.resetCoalesce realm identity }
  | .answered i now => s.answer i now
  | .settle i => s.settle i

/-- Nothing has happened yet.
Kind: D -/
def init (registry : Option WakeRegistry) : LoggedRun := ⟨registry, [], fun _ => ⟨0, 0⟩, []⟩

end LoggedRun

/-- What a run logs.
Kind: D -/
def logOf (num : Numerals N) (registry : Option WakeRegistry) (events : List (LogEvent N)) :
    List LogLine :=
  (runFrom (LoggedRun.step p num) (LoggedRun.init registry) events).log

end Loud

/-! ### Alike -/

variable {p : FcmPlatform} {R : Spelling}

/-- The requests differ in the token only.
Kind: D -/
structure SendRequest.Like (R : Spelling) (req req' : SendRequest) : Prop where
  /-- The transport. -/
  transport : req.transport = req'.transport
  /-- The tokens. -/
  token : R req.token req'.token
  /-- The app. -/
  app_id : req.app_id = req'.app_id
  /-- The APNs environment. -/
  env : req.env = req'.env
  /-- The payload. -/
  payload : req.payload = req'.payload
  /-- The alert copy. -/
  alert : req.alert = req'.alert

/-- The attempts differ in the token only.
Kind: D -/
structure Attempt.Like (R : Spelling) (a a' : Attempt) : Prop where
  /-- The realm. -/
  realm : a.realm = a'.realm
  /-- The identity. -/
  identity : a.identity = a'.identity
  /-- The endpoints. -/
  ep : a.ep.Like R a'.ep
  /-- The time. -/
  now : a.now = a'.now
  /-- The logger. -/
  logger : a.logger = a'.logger
  /-- How the send settles. -/
  settlement : a.settlement = a'.settlement

/-- Two answers of FCM are to the same effect. The texts of their bodies may be different.
Kind: D -/
inductive PostReply.Like (p : FcmPlatform) : PostReply → PostReply → Prop
  | failed : Like p .failed .failed
  | response {status : ℕ} {body body' : JsString}
      (h : classifyFcmResponse p status body = classifyFcmResponse p status body') :
      Like p (.response status body) (.response status body')

/-- Two answers of APNs are to the same effect, and give the same reason.
Kind: D -/
structure ApnsReplyLike (p : FcmPlatform) (a a' : Option ℕ × JsString) : Prop where
  /-- The status. -/
  status : a.1 = a'.1
  /-- What the body comes to. -/
  classify : classifyApnsResponse p.readNumber a.1 a.2 = classifyApnsResponse p.readNumber a.1 a'.2
  /-- The reason. -/
  reason : apnsReasonText p a.2 = apnsReasonText p a'.2

/-- The transports answer alike to requests that differ in the token only.
Kind: D -/
inductive LoudTransport.Like (p : FcmPlatform) (R : Spelling) : LoudTransport → LoudTransport → Prop
  | quiet {send send' : Transport} (h : ∀ req req', SendRequest.Like R req req' → send req = send' req') :
      Like p R (.quiet send) (.quiet send')
  | fcm {t : FcmTransport} {logger : Bool} {answer answer' : SendRequest → Option PostReply}
      (h : ∀ req req', SendRequest.Like R req req' →
        Option.Rel (PostReply.Like p) (answer req) (answer' req')) :
      Like p R (.fcm t logger answer) (.fcm t logger answer')
  | apns {t : ApnsTransport} {logger : Bool} {answer answer' : SendRequest → Option (Option ℕ × JsString)}
      (h : ∀ req req', SendRequest.Like R req req' →
        Option.Rel (ApnsReplyLike p) (answer req) (answer' req')) :
      Like p R (.apns t logger answer) (.apns t logger answer')

/-- The configurations have the same names, for transports that answer alike.
Kind: D -/
def LoudConfig.Like (p : FcmPlatform) (R : Spelling) : LoudConfig → LoudConfig → Prop :=
  Option.Rel (JsMap.Related (LoudTransport.Like p R))

/-- The events differ in the tokens, and the transports of the calls answer alike.
Kind: D -/
inductive LogEvent.Like (p : FcmPlatform) (R : Spelling) : LogEvent N → LogEvent N → Prop
  | wake {cfg cfg' : LoudConfig} (h : LoudConfig.Like p R cfg cfg') (realm identity : JsString)
      (opts : WakeOptions) (clock : ℕ → ℤ) :
      Like p R (.wake cfg realm identity opts clock) (.wake cfg' realm identity opts clock)
  | notify {cfg cfg' : LoudConfig} (h : LoudConfig.Like p R cfg cfg') (realm topic : JsString)
      (msg : Message N) (mode : PushMode) (now : ℤ) (logger : Logger) (clock : ℕ → ℤ) :
      Like p R (.notify cfg realm topic msg mode now logger clock)
        (.notify cfg' realm topic msg mode now logger clock)
  | register {ep ep' : Registration JsString} (h : ep.Like R ep') (realm identity : JsString) (now : ℤ) :
      Like p R (.register realm identity ep now) (.register realm identity ep' now)
  | unregister {place place' : Place JsString} (h : place.Like R place') :
      Like p R (.unregister place) (.unregister place')
  | resetCoalesce (realm identity : JsString) :
      Like p R (.resetCoalesce realm identity) (.resetCoalesce realm identity)
  | answered (i : ℕ) (now : ℤ) : Like p R (.answered i now) (.answered i now)
  | settle (i : ℕ) : Like p R (.settle i) (.settle i)

/-! ### What transports do -/

section Transports

variable {transport transport' : LoudTransport} {req req' : SendRequest}

theorem LoudTransport.Like.send (h : transport.Like p R transport') (hreq : req.Like R req') :
    transport.send p req = transport'.send p req' := by
  cases h with
  | quiet h => exact h req req' hreq
  | @fcm t logger answer answer' h =>
      have hanswer := h req req' hreq
      unfold LoudTransport.send
      dsimp only
      rw [hreq.app_id]
      generalize answer req = a at hanswer ⊢
      generalize answer' req' = a' at hanswer ⊢
      split
      · rfl
      · cases hanswer with
        | none => rfl
        | some hreply =>
            cases hreply with
            | failed => rfl
            | response hclassify =>
                dsimp only
                rw [hclassify]
  | @apns t logger answer answer' h =>
      have hanswer := h req req' hreq
      unfold LoudTransport.send
      dsimp only
      rw [hreq.app_id]
      generalize answer req = a at hanswer ⊢
      generalize answer' req' = a' at hanswer ⊢
      split_ifs
      · rfl
      · cases hanswer with
        | none => rfl
        | @some a a' hreply =>
            obtain ⟨status, body⟩ := a
            obtain ⟨status', body'⟩ := a'
            obtain ⟨rfl, hclassify, -⟩ := hreply
            dsimp only at hclassify ⊢
            rw [hclassify]

theorem LoudTransport.Like.noTarget (h : transport.Like p R transport') (hreq : req.Like R req') :
    transport.noTarget req = transport'.noTarget req' := by
  cases h with
  | quiet => rfl
  | fcm =>
      unfold LoudTransport.noTarget
      dsimp only
      rw [hreq.app_id]
  | apns =>
      unfold LoudTransport.noTarget
      dsimp only
      rw [hreq.app_id]

theorem LoudTransport.Like.auth (h : transport.Like p R transport') (hreq : req.Like R req') :
    transport.auth p req = transport'.auth p req' := by
  cases h with
  | quiet => rfl
  | @fcm t logger answer answer' h =>
      have hanswer := h req req' hreq
      unfold LoudTransport.auth
      dsimp only
      rw [hreq.app_id]
      generalize answer req = a at hanswer ⊢
      generalize answer' req' = a' at hanswer ⊢
      split_ifs
      · rfl
      · cases hanswer with
        | none => rfl
        | some hreply =>
            cases hreply with
            | failed => rfl
            | response hclassify =>
                dsimp only
                rw [hclassify]
  | @apns t logger answer answer' h =>
      have hanswer := h req req' hreq
      unfold LoudTransport.auth
      dsimp only
      rw [hreq.app_id]
      generalize answer req = a at hanswer ⊢
      generalize answer' req' = a' at hanswer ⊢
      split_ifs
      · rfl
      · cases hanswer with
        | none => rfl
        | @some a a' hreply =>
            obtain ⟨status, body⟩ := a
            obtain ⟨status', body'⟩ := a'
            obtain ⟨rfl, hclassify, hreason⟩ := hreply
            dsimp only at hclassify hreason ⊢
            rw [hclassify, hreason]

variable {cfg cfg' : LoudConfig}

theorem LoudConfig.Like.loudFor (h : LoudConfig.Like p R cfg cfg') (name : JsString) :
    Option.Rel (LoudTransport.Like p R) (loudFor cfg name) (loudFor cfg' name) := by
  cases h with
  | none => exact Option.Rel.none
  | some hm => exact hm.get name

theorem pushConfig_get (m : JsMap JsString LoudTransport)
    (hnodup : ((m.entries.map fun e => (e.1, e.2.send p)).map Prod.fst).Nodup) (name : JsString) :
    (⟨m.entries.map fun e => (e.1, e.2.send p), hnodup⟩ : JsMap JsString Transport).get name =
      (m.get name).map fun transport => transport.send p := by
  unfold JsMap.get
  rw [List.find?_map]
  simp only [Function.comp_def, Option.map_map]

/-- The transports of the calls answer alike.
Kind: L -/
theorem LoudConfig.Like.transportFor (h : LoudConfig.Like p R cfg cfg') (name : JsString) :
    Option.Rel (fun f f' : Transport => ∀ req req', SendRequest.Like R req req' → f req = f' req')
      (transportFor (pushConfig p cfg) name) (transportFor (pushConfig p cfg') name) := by
  cases h with
  | none => exact Option.Rel.none
  | @some m m' hm =>
      have hsize := hm.size
      unfold Push.transportFor pushConfig
      simp only [Option.map_some, pushConfig_get]
      unfold JsMap.size at hsize ⊢
      dsimp only
      rw [List.length_map, List.length_map, hsize]
      split_ifs
      · exact rel_option_map (hm.get name) fun f f' hf req req' hreq => hf.send hreq
      · exact Option.Rel.none

theorem LoudConfig.Like.isConfigured (h : LoudConfig.Like p R cfg cfg') :
    isConfigured (pushConfig p cfg) = isConfigured (pushConfig p cfg') := by
  cases h with
  | none => rfl
  | @some m m' hm =>
      have hsize := hm.size
      unfold Push.isConfigured pushConfig
      unfold JsMap.size at hsize ⊢
      simp only [Option.map_some, List.length_map, hsize]

/-- The warnings before the sends are the same.
Kind: L -/
theorem LoudConfig.Like.warnEach (h : LoudConfig.Like p R cfg cfg') (clock : ℕ → ℤ)
    {reqs reqs' : List SendRequest} (hreqs : List.Forall₂ (SendRequest.Like R) reqs reqs') (i : ℕ)
    (throttles : JsString → Throttle) :
    warnEach cfg clock i reqs throttles = warnEach cfg' clock i reqs' throttles := by
  induction hreqs generalizing i throttles with
  | nil => rfl
  | @cons req req' reqs reqs' hreq _ ih =>
      have htext : ((Push.loudFor cfg req.transport).bind fun t => t.noTarget req) =
          (Push.loudFor cfg' req'.transport).bind fun t => t.noTarget req' := by
        rw [← hreq.transport]
        exact bind_eq_of_rel (h.loudFor req.transport) fun t t' ht => ht.noTarget hreq
      unfold Push.warnEach
      dsimp only
      rw [htext, hreq.transport, ih]

end Transports

/-! ### What calls do -/

section Calls

variable {cfg cfg' : LoudConfig} {job : Job}

/-- The loop over the endpoints does alike.
Kind: P -/
theorem sendEach_like (h : LoudConfig.Like p R cfg cfg')
    (hwanted : ∀ e e', Endpoint.Like R e e' → job.wanted e = job.wanted e')
    {eps eps' : List (Endpoint JsString)} (heps : EndpointsLike R eps eps') :
    List.Forall₂ (SendRequest.Like R) (sendEach (pushConfig p cfg) job eps).handed
        (sendEach (pushConfig p cfg') job eps').handed ∧
      List.Forall₂ (Attempt.Like R) (sendEach (pushConfig p cfg) job eps).attempts
        (sendEach (pushConfig p cfg') job eps').attempts ∧
      (sendEach (pushConfig p cfg) job eps).sent = (sendEach (pushConfig p cfg') job eps').sent ∧
      (sendEach (pushConfig p cfg) job eps).threw = (sendEach (pushConfig p cfg') job eps').threw := by
  induction heps with
  | nil => exact ⟨List.Forall₂.nil, List.Forall₂.nil, rfl, rfl⟩
  | @cons e e' eps eps' he _ ih =>
      obtain ⟨hhanded, hattempts, hsent, hthrew⟩ := ih
      have hreq : (job.request e).Like R (job.request e') :=
        ⟨he.transport, he.token, he.app_id, he.env, rfl, rfl⟩
      have hfor := h.transportFor e.transport
      unfold sendEach
      dsimp only
      rw [hwanted e e' he, ← he.transport]
      split_ifs
      · exact ⟨hhanded, hattempts, hsent, hthrew⟩
      · generalize transportFor (pushConfig p cfg) e.transport = f at hfor ⊢
        generalize transportFor (pushConfig p cfg') e.transport = f' at hfor ⊢
        cases hfor with
        | none =>
            dsimp only
            exact ⟨hhanded, hattempts, by rw [hsent], hthrew⟩
        | @some f f' hf =>
            dsimp only
            rw [hf _ _ hreq]
            cases f' (job.request e') with
            | throws => exact ⟨List.Forall₂.cons hreq List.Forall₂.nil, List.Forall₂.nil, rfl, rfl⟩
            | settles settlement =>
                have hattempt : (job.attempt e settlement).Like R (job.attempt e' settlement) :=
                  ⟨rfl, rfl, he, rfl, rfl, rfl⟩
                exact ⟨List.Forall₂.cons hreq hhanded, List.Forall₂.cons hattempt hattempts,
                  by rw [hsent], hthrew⟩

/-- What two calls have done differs in the tokens only.
Kind: D -/
structure Call.Like (R : Spelling) (c c' : Call) : Prop where
  /-- The registry. -/
  registry : Option.Rel (WakeRegistry.Like R) c.registry c'.registry
  /-- The requests. -/
  handed : List.Forall₂ (SendRequest.Like R) c.handed c'.handed
  /-- The attempts. -/
  attempts : List.Forall₂ (Attempt.Like R) c.attempts c'.attempts
  /-- The result. -/
  result : c.result = c'.result
  /-- The log. -/
  log : c.log = c'.log

variable {registry registry' : Option WakeRegistry}

theorem Call.Like.skip (h : Option.Rel (WakeRegistry.Like R) registry registry') (reason : JsString)
    (log : List LogLine) : (Call.skip registry reason log).Like R (Call.skip registry' reason log) :=
  ⟨h, List.Forall₂.nil, List.Forall₂.nil, rfl, rfl⟩

theorem Call.Like.sendEach {s s' : WakeRegistry} (hs : s.Like R s') (h : LoudConfig.Like p R cfg cfg')
    (hwanted : ∀ e e', Endpoint.Like R e e' → job.wanted e = job.wanted e')
    {eps eps' : List (Endpoint JsString)} (heps : EndpointsLike R eps eps') {sent sent' : ℕ}
    (hsent : sent = sent') :
    (Call.ofSending s (sendEach (pushConfig p cfg) job eps) sent).Like R
      (Call.ofSending s' (Push.sendEach (pushConfig p cfg') job eps') sent') := by
  obtain ⟨hhanded, hattempts, -, hthrew⟩ := sendEach_like h hwanted heps
  refine ⟨Option.Rel.some hs, hhanded, hattempts, ?_, rfl⟩
  unfold Call.ofSending
  dsimp only
  rw [hthrew, hsent]

/-- Two wakes do alike.
Kind: P -/
theorem fireWake_like (h : LoudConfig.Like p R cfg cfg')
    (hregistry : Option.Rel (WakeRegistry.Like R) registry registry') (realm identity : JsString)
    (opts : WakeOptions) :
    (fireWake (pushConfig p cfg) registry realm identity opts).Like R
      (fireWake (pushConfig p cfg') registry' realm identity opts) := by
  have hwindow : windowOf registry opts = windowOf registry' opts := by
    cases hregistry with
    | none => rfl
    | some hs =>
        unfold windowOf
        dsimp only
        rw [hs.coalesceWindowMs]
  unfold fireWake
  rw [hwindow, h.isConfigured]
  dsimp only
  split_ifs
  · exact Call.Like.skip hregistry _ _
  · exact Call.Like.skip hregistry _ _
  · cases hregistry with
    | none => exact Call.Like.skip Option.Rel.none _ _
    | @some s s' hs =>
        have hlist := hs.list realm identity
        obtain ⟨hopen, hgate⟩ := hs.coalesceOk realm identity opts.now (windowOf (some s') opts)
        dsimp only
        rw [hlist.length_eq, hopen]
        split_ifs
        · exact Call.Like.skip (Option.Rel.some hs) _ _
        · exact Call.Like.skip (Option.Rel.some hgate) _ _
        · split
          · exact Call.Like.skip (Option.Rel.some hgate) _ _
          · exact Call.Like.sendEach hgate h (fun _ _ _ => rfl) hlist rfl

/-- Two notifications do alike.
Kind: P -/
theorem deliverNotifyPush_like (num : Numerals N) (h : LoudConfig.Like p R cfg cfg')
    (hregistry : Option.Rel (WakeRegistry.Like R) registry registry') (realm topic : JsString)
    (msg : Message N) (mode : PushMode) (now : ℤ) (logger : Logger) :
    (deliverNotifyPush num (pushConfig p cfg) registry realm topic msg mode now logger).Like R
      (deliverNotifyPush num (pushConfig p cfg') registry' realm topic msg mode now logger) := by
  unfold deliverNotifyPush
  rw [h.isConfigured]
  split_ifs
  · exact Call.Like.skip hregistry _ _
  · exact Call.Like.skip hregistry _ _
  · cases hregistry with
    | none => exact Call.Like.skip Option.Rel.none _ _
    | @some s s' hs =>
        have hlist := hs.list realm topic
        have hwanted : ∀ e e', Endpoint.Like R e e' →
            (notifyJob num realm topic msg mode now logger).wanted e =
              (notifyJob num realm topic msg mode now logger).wanted e' := by
          intro e e' he
          unfold notifyJob filtered
          dsimp only
          rw [he.min_priority]
        obtain ⟨-, -, hsent, -⟩ := sendEach_like h hwanted hlist
        dsimp only
        rw [hlist.length_eq]
        split_ifs
        · exact Call.Like.skip (Option.Rel.some hs) _ _
        · exact Call.Like.sendEach hs h hwanted hlist hsent

end Calls

/-! ### Runs that differ in the tokens -/

/-- The sends under way differ in the token only.
Kind: D -/
structure UnderWay.Like (R : Spelling) (u u' : UnderWay) : Prop where
  /-- The attempts. -/
  attempt : u.attempt.Like R u'.attempt
  /-- What is warned of. -/
  auth : u.auth = u'.auth
  /-- Whether the answer has come. -/
  answered : u.answered = u'.answered

/-- The runs have come to states that differ in the tokens only, and have logged the same.
Kind: D -/
structure LoggedRun.Like (R : Spelling) (s s' : LoggedRun) : Prop where
  /-- The registries. -/
  registry : Option.Rel (WakeRegistry.Like R) s.registry s'.registry
  /-- What is under way. -/
  underWay : List.Forall₂ (UnderWay.Like R) s.underWay s'.underWay
  /-- When the transports last warned. -/
  throttles : s.throttles = s'.throttles
  /-- The log. -/
  log : s.log = s'.log

/-- What a settled send does to the registry, and what it logs.
Kind: P -/
theorem settle_like (hR : Relator.BiUnique R) {s s' : WakeRegistry} (hs : s.Like R s') {a a' : Attempt}
    (ha : a.Like R a') :
    (settle s a).1.Like R (settle s' a').1 ∧ (settle s a).2 = (settle s' a').2 := by
  have hplace : (a.ep.place a.realm a.identity).Like R (a'.ep.place a'.realm a'.identity) := by
    rw [ha.realm, ha.identity]
    exact ha.ep.place _ _
  unfold settle
  rw [ha.settlement, ha.logger, ha.now, ha.ep.transport]
  dsimp only
  split
  · exact hs.logWakeFailure _ _ _ _
  · split_ifs
    · exact (hs.unregister hR hplace).logWakeFailure _ _ _ _
    · exact ⟨hs.markOk hR hplace _, rfl⟩
    · exact hs.logWakeFailure _ _ _ _
    · exact hs.logWakeFailure _ _ _ _

namespace LoggedRun.Like

variable {s s' : LoggedRun}

theorem call (h : s.Like R s') {cfg cfg' : LoudConfig} (hcfg : LoudConfig.Like p R cfg cfg')
    (clock : ℕ → ℤ) {c c' : Call} (hc : c.Like R c') :
    (s.call p cfg clock c).Like R (s'.call p cfg' clock c') := by
  have hwarned := hcfg.warnEach clock hc.handed 0 s.throttles
  unfold LoggedRun.call
  dsimp only
  rw [hwarned, h.throttles, h.log, hc.log]
  refine ⟨hc.registry, List.rel_append h.underWay ?_, rfl, rfl⟩
  refine List.rel_map ?_ (rel_zip hc.handed hc.attempts)
  rintro ⟨req, a⟩ ⟨req', a'⟩ ⟨hreq, ha⟩
  refine ⟨ha, ?_, rfl⟩
  dsimp only
  rw [← hreq.transport]
  exact bind_eq_of_rel (hcfg.loudFor req.transport) fun t t' ht => ht.auth hreq

theorem answer (h : s.Like R s') (i : ℕ) (now : ℤ) : (s.answer i now).Like R (s'.answer i now) := by
  have hget := rel_getElem? h.underWay i
  unfold LoggedRun.answer
  generalize s.underWay[i]? = u at hget ⊢
  generalize s'.underWay[i]? = u' at hget ⊢
  cases hget with
  | none => exact h
  | @some u u' hu =>
      dsimp only
      rw [hu.answered]
      split_ifs
      · exact h
      · rw [h.throttles, hu.auth, hu.attempt.ep.transport, h.log]
        exact ⟨h.registry, rel_set h.underWay i ⟨hu.attempt, rfl, rfl⟩, rfl, rfl⟩

theorem settle (hR : Relator.BiUnique R) (h : s.Like R s') (i : ℕ) :
    (s.settle i).Like R (s'.settle i) := by
  have hregistry := h.registry
  have hget := rel_getElem? h.underWay i
  unfold LoggedRun.settle
  generalize s.registry = r at hregistry ⊢
  generalize s'.registry = r' at hregistry ⊢
  generalize s.underWay[i]? = u at hget ⊢
  generalize s'.underWay[i]? = u' at hget ⊢
  cases hregistry with
  | none => exact h
  | some hr =>
      cases hget with
      | none => exact h
      | @some u u' hu =>
          obtain ⟨hsettled, hlines⟩ := settle_like hR hr hu.attempt
          dsimp only
          rw [hu.answered, hu.auth]
          split_ifs
          · exact h
          · rw [hlines, h.log]
            exact ⟨Option.Rel.some hsettled, rel_eraseIdx h.underWay i, h.throttles, rfl⟩

/-- Registrations are done alike.
Kind: L -/
theorem update (h : s.Like R s') {f f' : WakeRegistry → WakeRegistry}
    (hf : ∀ r r', r.Like R r' → (f r).Like R (f' r')) :
    { s with registry := s.registry.map f }.Like R { s' with registry := s'.registry.map f' } :=
  ⟨rel_option_map h.registry hf, h.underWay, h.throttles, h.log⟩

/-- **One event** leaves the runs alike.
Kind: P -/
theorem step (hR : Relator.BiUnique R) (num : Numerals N) (h : s.Like R s') {e e' : LogEvent N}
    (he : e.Like p R e') : (s.step p num e).Like R (s'.step p num e') := by
  cases he with
  | wake hcfg realm identity opts clock =>
      exact h.call hcfg clock (fireWake_like hcfg h.registry realm identity opts)
  | notify hcfg realm topic msg mode now logger clock =>
      exact h.call hcfg clock (deliverNotifyPush_like num hcfg h.registry realm topic msg mode now logger)
  | register hep realm identity now => exact h.update fun r r' hr => hr.register hR realm identity hep now
  | unregister hplace => exact h.update fun r r' hr => hr.unregister hR hplace
  | resetCoalesce realm identity => exact h.update fun r r' hr => hr.resetCoalesce realm identity
  | answered i now => exact h.answer i now
  | settle i => exact h.settle hR i

end LoggedRun.Like

/-- **Device tokens are not in the log**: two runs of the same events over registries that differ in the
tokens only, equal tokens being equal in both, and with transports that answer alike, log the same lines.
Kind: C -/
theorem logs_alike (num : Numerals N) (hR : Relator.BiUnique R) {registry registry' : Option WakeRegistry}
    (hregistry : Option.Rel (WakeRegistry.Like R) registry registry') {events events' : List (LogEvent N)}
    (hevents : List.Forall₂ (LogEvent.Like p R) events events') :
    logOf p num registry events = logOf p num registry' events' := by
  have hrun : ∀ {s s' : LoggedRun}, s.Like R s' → ∀ {l l' : List (LogEvent N)},
      List.Forall₂ (LogEvent.Like p R) l l' →
      (runFrom (LoggedRun.step p num) s l).Like R (runFrom (LoggedRun.step p num) s' l') := by
    intro s s' h l l' hl
    induction hl generalizing s s' with
    | nil => exact h
    | cons he _ ih => exact ih (h.step hR num he)
  have hinit : (LoggedRun.init registry).Like R (LoggedRun.init registry') :=
    ⟨hregistry, List.Forall₂.nil, rfl, rfl⟩
  exact (hrun hinit hevents).log

/-! ### Two phones -/

/-- A platform.
Kind: D -/
def quietPlatform : FcmPlatform := ⟨fun _ _ => none, fun _ => none, fun _ => none, fun _ => []⟩

/-- FCM with one project, which refuses the credentials.
Kind: D -/
def refusing : LoudConfig :=
  some (JsMap.empty.set (js "fcm") (.fcm
    ⟨some ⟨⟨js "a@b", js "key", js "demo", []⟩, js "demo", js "https://token.example"⟩, JsObject.empty,
      js "https://fcm.example"⟩ true fun _ => some (.response 403 [])))

/-- A phone of `alice`.
Kind: D -/
def phoneOf (token : JsString) : WakeRegistry :=
  (WakeRegistry.blank ⟨0, 0, 0⟩ 0).register (js "app") (js "alice") ⟨js "fcm", token, none, none, none⟩ 1

/-- A wake whose send is refused, and one that is held back.
Kind: D -/
def refusedWake : List (LogEvent ℕ) :=
  [.wake refusing (js "app") (js "alice") ⟨100000, ⟨true, true⟩, 0, .silent, none⟩ fun _ => 100000,
    .answered 0 100001, .settle 0,
    .wake refusing (js "app") (js "alice") ⟨100002, ⟨true, true⟩, 0, .silent, none⟩ fun _ => 100002]

/-- Three lines are logged, the same for either phone.
Kind: C -/
theorem logs_alike_refused :
    (logOf quietPlatform Numerals.nat (some (phoneOf (js "one"))) refusedWake).map LogLine.level =
        [.warn, .warn, .debug] ∧
      logOf quietPlatform Numerals.nat (some (phoneOf (js "one"))) refusedWake =
        logOf quietPlatform Numerals.nat (some (phoneOf (js "another"))) refusedWake := by
  refine ⟨by decide +kernel, ?_⟩
  have hR : Relator.BiUnique fun a b => a = js "one" ∧ b = js "another" := by
    constructor
    · rintro a b c ⟨rfl, -⟩ ⟨rfl, -⟩
      rfl
    · rintro a b c ⟨-, rfl⟩ ⟨-, rfl⟩
      rfl
  have hblank : (WakeRegistry.blank ⟨0, 0, 0⟩ 0).Like (fun a b => a = js "one" ∧ b = js "another")
      (WakeRegistry.blank ⟨0, 0, 0⟩ 0) :=
    ⟨rfl, fun _ => ⟨JsMap.Related.empty, rfl⟩, rfl, rfl, rfl⟩
  have hphone : (⟨js "fcm", js "one", none, none, none⟩ : Registration JsString).Like
      (fun a b => a = js "one" ∧ b = js "another") ⟨js "fcm", js "another", none, none, none⟩ :=
    ⟨rfl, ⟨rfl, rfl⟩, rfl, rfl, rfl⟩
  have hphones : (phoneOf (js "one")).Like (fun a b => a = js "one" ∧ b = js "another")
      (phoneOf (js "another")) := hblank.register hR (js "app") (js "alice") hphone 1
  have hcfg : LoudConfig.Like quietPlatform (fun a b => a = js "one" ∧ b = js "another") refusing
      refusing :=
    Option.Rel.some (JsMap.Related.empty.set _ (.fcm fun _ _ _ => Option.Rel.some (.response rfl)))
  apply logs_alike Numerals.nat hR (Option.Rel.some hphones)
  exact .cons (.wake hcfg ..) (.cons (.answered 0 100001) (.cons (.settle 0) (.cons (.wake hcfg ..) .nil)))

end TyoMq.Push
