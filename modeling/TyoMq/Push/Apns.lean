import Mathlib.Data.List.Dedup
import TyoMq.Lib.Runs
import TyoMq.Push.Payload

/-!
# APNs: one provider token for all sends

`ApnsTransport` of `lib/push.js`. A provider token is signed, cached and carried by every request until
it is too old or APNs says that it has expired. Requests are answered in any order.

* **What a step does to the tokens** (`Tokens.step`): it leaves them alone, or a token is signed in place
  of one that is too old or missing, or an answer reports a token expired and empties the cache.
* **Reuse** (`reusesToken_iff`): over a run no report discards another token than the one it is about, and
  tokens are signed no more often than that takes, exactly when no report comes after another token has
  been signed and cached in place of the one that it is about.
* Two requests in flight with an expired token make for two new tokens (`not_reusesToken_late`): unlike
  `_dropSession` with sessions, `send` does not look at which token the request carried.
-/

namespace TyoMq.Push

open TyoMq.Lib

/-! ### The transport -/

/-- `APNS_ENV_PRODUCTION`.
Kind: D -/
def APNS_ENV_PRODUCTION : JsString := js "production"

/-- `APNS_ENV_SANDBOX`.
Kind: D -/
def APNS_ENV_SANDBOX : JsString := js "sandbox"

/-- Source: `lib/push.js`, `normalizeApnsEnv`
Kind: D -/
def normalizeApnsEnv (env : Option JsString) (dflt : JsString) : JsString :=
  match env with
  | none => dflt
  | some env => if env = APNS_ENV_SANDBOX ∨ env = APNS_ENV_PRODUCTION then env else dflt

/-- What the transport is constructed with.
Source: `lib/push.js`, `ApnsTransport`
Kind: D -/
structure ApnsTransport where
  /-- `topic`, empty for `null`. -/
  topic : JsString
  /-- `topics`. -/
  topics : JsMap JsString JsString
  /-- `defaultEnv`. -/
  defaultEnv : JsString
  /-- `refreshMs`. -/
  refreshMs : ℚ

/-- What is sent, and where. What `buildApnsFrame` makes of the payload and of the alert copy stands for
them.
Kind: D -/
structure ApnsEndpoint where
  /-- `env`. -/
  env : Option JsString
  /-- `app_id`. -/
  app_id : Option JsString
  /-- `token`. -/
  token : JsString
  /-- The frame. -/
  frame : ApnsFrame

/-- The arguments of `_request`.
Kind: D -/
structure ApnsRequest where
  /-- `env`. -/
  env : JsString
  /-- `token`: the device. -/
  token : JsString
  /-- `jwt`: the provider token. -/
  jwt : JsString
  /-- `apnsTopic`. -/
  apnsTopic : JsString
  /-- `frame`. -/
  frame : ApnsFrame

/-- `_jwt`.
Kind: D -/
structure Jwt where
  /-- `value`. -/
  value : JsString
  /-- `mintedAtMs`. -/
  mintedAtMs : ℚ
  deriving DecidableEq

/-- The tokens of a transport, with what has become of them.
Kind: D -/
structure Tokens where
  /-- `_jwt`. -/
  jwt : Option Jwt
  /-- `_signCount`. -/
  signCount : ℕ
  /-- The tokens signed, latest first. -/
  signed : List JsString
  /-- How often a token was signed in place of one that was too old. -/
  expiries : ℕ
  /-- The tokens that APNs has reported expired, as often as it has. -/
  reported : List JsString

/-- A transport at work.
Kind: D -/
structure ApnsState where
  /-- The tokens. -/
  tokens : Tokens
  /-- The requests in flight, by number. -/
  inFlight : JsMap ℕ ApnsRequest
  /-- How many there have been. -/
  requests : ℕ

/-- What a send comes to.
Kind: D -/
structure PushVerdict where
  /-- `ok`. -/
  ok : Bool
  /-- `gone`: the device is to be forgotten. -/
  gone : Bool
  deriving DecidableEq

/-- `{ ok: false }`.
Kind: D -/
def retained : PushVerdict := ⟨false, false⟩

/-- The bundle id for an app, empty when there is none.
Source: `lib/push.js`, `ApnsTransport.prototype._topicFor`
Kind: D -/
def ApnsTransport.topicFor (t : ApnsTransport) (appId : Option JsString) : JsString :=
  (appId.bind t.topics.get).getD t.topic

/-! ### Answers -/

section Classify

variable {N : Type*} (read : JsString → Option N)

/-- The reason in the body of an error, `none` where it is not a string: nothing is compared with any
other.
Source: `lib/push.js`, `parseApnsReason`
Kind: D -/
def parseApnsReason (body : JsString) : Option JsString :=
  ((JsonValue.parse read (orElse body (js "\x7b\x7d"))).bind fun p =>
    (p.member (js "reason")).bind JsonValue.text?).filter fun reason => reason ≠ []

/-- What `classifyApnsResponse` gives. What is not set is `false`.
Kind: D -/
structure ApnsClass where
  /-- `ok`. -/
  ok : Bool
  /-- `auth`. -/
  auth : Bool
  /-- `expired`. -/
  expired : Bool
  /-- `gone`. -/
  gone : Bool
  /-- `reason`. -/
  reason : Option JsString

/-- The status is `none` where the stream is closed without one.
Source: `lib/push.js`, `classifyApnsResponse`
Kind: D -/
def classifyApnsResponse (status : Option ℕ) (body : JsString) : ApnsClass :=
  if status.any fun n => 200 ≤ n ∧ n < 300 then ⟨true, false, false, false, none⟩
  else
    let reason := parseApnsReason read body
    if status = some 403 then
      ⟨false, true, reason = some (js "ExpiredProviderToken"), false, reason⟩
    else if status = some 410 then ⟨false, false, false, true, reason⟩
    else if status = some 400 ∧
        (reason = some (js "BadDeviceToken") ∨ reason = some (js "DeviceTokenNotForTopic")) then
      ⟨false, false, false, true, reason⟩
    else ⟨false, false, false, false, reason⟩

end Classify

/-! ### Steps -/

/-- What happens: a send, with what `_signProviderToken` gives should it be called (`none` when it
throws), the answer to a request, or the end of a request in an error.
Kind: D -/
inductive ApnsEvent where
  | send (endpoint : ApnsEndpoint) (nowMs : ℚ) (sign : Option JsString)
  | answer (request : ℕ) (status : Option ℕ) (body : JsString)
  | rejected (request : ℕ)

/-- When a send comes.
Kind: D -/
def ApnsEvent.time : ApnsEvent → Option ℚ
  | send _ nowMs _ => some nowMs
  | answer _ _ _ | rejected _ => none

namespace Tokens

/-- The tokens after another one has been signed.
Source: `lib/push.js`, `ApnsTransport.prototype._getProviderToken`, lines 1035-1036
Kind: D -/
def renew (s : Tokens) (value : JsString) (nowMs : ℚ) : Tokens :=
  { jwt := some ⟨value, nowMs⟩
    signCount := s.signCount + 1
    signed := value :: s.signed
    expiries := if s.jwt.isSome then s.expiries + 1 else s.expiries
    reported := s.reported }

/-- The provider token of a send, `none` when it throws.
Source: `lib/push.js`, `ApnsTransport.prototype._getProviderToken`
Kind: D -/
def getProviderToken (refreshMs : ℚ) (s : Tokens) (nowMs : ℚ) (sign : Option JsString) :
    Tokens × Option JsString :=
  match s.jwt.filter fun jwt => nowMs - jwt.mintedAtMs < refreshMs with
  | some jwt => (s, some jwt.value)
  | none =>
      match sign with
      | none => (s, none)
      | some value => (s.renew value nowMs, some value)

/-- The tokens after the report that one of them has expired.
Source: `lib/push.js`, `ApnsTransport.prototype.send`, line 1205
Kind: D -/
def expire (s : Tokens) (value : JsString) : Tokens :=
  { s with jwt := none, reported := value :: s.reported }

end Tokens

section Step

variable {N : Type*} (read : JsString → Option N) (t : ApnsTransport)

namespace ApnsState

/-- No tokens, no requests.
Kind: D -/
def init : ApnsState := ⟨⟨none, 0, [], 0, []⟩, JsMap.empty, 0⟩

/-- A send up to its request.
Source: `lib/push.js`, `ApnsTransport.prototype.send`
Kind: D -/
def send (s : ApnsState) (endpoint : ApnsEndpoint) (nowMs : ℚ) (sign : Option JsString) :
    ApnsState × Option PushVerdict :=
  let env := normalizeApnsEnv endpoint.env t.defaultEnv
  let apnsTopic := t.topicFor endpoint.app_id
  if apnsTopic = [] then (s, some retained)
  else
    match s.tokens.getProviderToken t.refreshMs nowMs sign with
    | (tokens, none) => ({ s with tokens := tokens }, some retained)
    | (tokens, some jwt) =>
        ({ tokens := tokens
           inFlight := s.inFlight.set s.requests ⟨env, endpoint.token, jwt, apnsTopic, endpoint.frame⟩
           requests := s.requests + 1 }, none)

/-- The end of a send, with an answer to its request.
Source: `lib/push.js`, `ApnsTransport.prototype.send`
Kind: D -/
def answer (s : ApnsState) (id : ℕ) (request : ApnsRequest) (status : Option ℕ) (body : JsString) :
    ApnsState × Option PushVerdict :=
  let s := { s with inFlight := s.inFlight.delete id }
  let cls := classifyApnsResponse read status body
  if cls.auth then
    (if cls.expired then { s with tokens := s.tokens.expire request.jwt } else s, some retained)
  else if cls.gone then (s, some ⟨false, true⟩)
  else (s, some ⟨cls.ok, false⟩)

/-- One event, and the verdict on the send that it ends. What cannot happen changes nothing.
Kind: D -/
def step (s : ApnsState) : ApnsEvent → ApnsState × Option PushVerdict
  | .send endpoint nowMs sign => s.send t endpoint nowMs sign
  | .answer id status body =>
      match s.inFlight.get id with
      | none => (s, none)
      | some request => s.answer read id request status body
  | .rejected id =>
      match s.inFlight.get id with
      | none => (s, none)
      | some _ => ({ s with inFlight := s.inFlight.delete id }, some retained)

end ApnsState

/-- One event.
Kind: D -/
def apnsStep (s : ApnsState) (e : ApnsEvent) : ApnsState := (s.step read t e).1

/-- The state after a run.
Kind: D -/
def apnsAfter (l : List ApnsEvent) : ApnsState := runFrom (apnsStep read t) ApnsState.init l

/-- The provider token that an answer reports expired: the one that its request carried.
Kind: D -/
def reports (s : ApnsState) : ApnsEvent → Option JsString
  | .answer id status body =>
      if (classifyApnsResponse read status body).expired then (s.inFlight.get id).map ApnsRequest.jwt
      else none
  | .send _ _ _ | .rejected _ => none

/-- The event does not discard a token other than the one that it reports expired.
Kind: D -/
def KeepsOthers (s : ApnsState) (e : ApnsEvent) : Prop :=
  ∀ value ∈ reports read s e, ∀ jwt ∈ s.tokens.jwt, jwt.value ≠ value →
    (apnsStep read t s e).tokens.jwt = some jwt

/-- No more tokens have been signed than the first, one for each that was too old, and one for each that
was reported expired.
Kind: D -/
def Tokens.Thrifty (s : Tokens) : Prop := s.signCount ≤ 1 + s.expiries + s.reported.dedup.length

/-- In a run no report discards another token, and no state has more tokens signed than it takes.
Kind: D -/
def ReusesToken (l : List ApnsEvent) : Prop :=
  EachStep (apnsStep read t) (KeepsOthers read t) ApnsState.init l ∧
    ∀ l₁ l₂, l₁ ++ l₂ = l → (apnsAfter read t l₁).tokens.Thrifty

/-- The event reports no token expired after another token has been signed and cached in its place.
Kind: D -/
def InTime (s : ApnsState) (e : ApnsEvent) : Prop :=
  ∀ value ∈ reports read s e, s.tokens.signed.head? = some value ∨ s.tokens.jwt = none

instance InTime.decidable (s : ApnsState) (e : ApnsEvent) : Decidable (InTime read s e) :=
  inferInstanceAs (Decidable (∀ value ∈ reports read s e,
    s.tokens.signed.head? = some value ∨ s.tokens.jwt = none))

end Step

/-! ### The tokens over a run -/

section Run

variable {N : Type*} {read : JsString → Option N} {t : ApnsTransport} {s : ApnsState} {e : ApnsEvent}
  {l : List ApnsEvent}

/-- The token that a send gets is the cached one, or one that is signed for it.
Kind: L -/
theorem Tokens.getProviderToken_spec (refreshMs : ℚ) (s : Tokens) (nowMs : ℚ) (sign : Option JsString) :
    (∃ jwt ∈ s.jwt, s.getProviderToken refreshMs nowMs sign = (s, some jwt.value)) ∨
      s.getProviderToken refreshMs nowMs sign = (s, none) ∨
      ∃ value, s.getProviderToken refreshMs nowMs sign = (s.renew value nowMs, some value) := by
  unfold getProviderToken
  generalize hfresh : s.jwt.filter _ = fresh
  rcases fresh with _ | jwt
  · rcases sign with _ | value
    · exact Or.inr (Or.inl rfl)
    · exact Or.inr (Or.inr ⟨value, rfl⟩)
  · exact Or.inl ⟨jwt, (Option.filter_eq_some_iff.mp hfresh).1, rfl⟩

/-- **What a step does to the tokens.**
Kind: L -/
theorem tokens_step (read : JsString → Option N) (t : ApnsTransport) (s : ApnsState) (e : ApnsEvent) :
    (reports read s e = none ∧ ((apnsStep read t s e).tokens = s.tokens ∨
      ∃ value nowMs, (apnsStep read t s e).tokens = s.tokens.renew value nowMs)) ∨
    ∃ value, reports read s e = some value ∧ (apnsStep read t s e).tokens = s.tokens.expire value := by
  cases e with
  | send endpoint nowMs sign =>
      refine Or.inl ⟨rfl, ?_⟩
      unfold apnsStep ApnsState.step ApnsState.send
      dsimp only
      split_ifs
      · exact Or.inl rfl
      · rcases Tokens.getProviderToken_spec t.refreshMs s.tokens nowMs sign with
          ⟨jwt, -, heq⟩ | heq | ⟨value, heq⟩
        · rw [heq]
          exact Or.inl rfl
        · rw [heq]
          exact Or.inl rfl
        · rw [heq]
          exact Or.inr ⟨value, nowMs, rfl⟩
  | answer id status body =>
      unfold apnsStep ApnsState.step reports
      dsimp only
      rcases s.inFlight.get id with _ | request
      · exact Or.inl ⟨ite_self none, Or.inl rfl⟩
      · have hauth : (classifyApnsResponse read status body).expired = true →
            (classifyApnsResponse read status body).auth = true := by
          unfold classifyApnsResponse
          dsimp only
          split_ifs <;> simp
        unfold ApnsState.answer
        dsimp only
        by_cases hexpired : (classifyApnsResponse read status body).expired = true
        · rw [if_pos hexpired, if_pos (hauth hexpired), if_pos hexpired]
          exact Or.inr ⟨request.jwt, rfl, rfl⟩
        · rw [if_neg hexpired, if_neg hexpired]
          refine Or.inl ⟨rfl, Or.inl ?_⟩
          split_ifs <;> rfl
  | rejected id =>
      refine Or.inl ⟨rfl, Or.inl ?_⟩
      unfold apnsStep ApnsState.step
      dsimp only
      rcases s.inFlight.get id with _ | request <;> rfl

/-- What the tokens and the requests in flight have to do with each other.
Kind: D -/
structure Carried (s : ApnsState) : Prop where
  /-- The signings are counted. -/
  signCount_eq : s.tokens.signCount = s.tokens.signed.length
  /-- The cached token is the last one signed. -/
  cached : ∀ jwt ∈ s.tokens.jwt, s.tokens.signed.head? = some jwt.value
  /-- The requests in flight carry tokens that were signed. -/
  inFlight : ∀ id request, s.inFlight.get id = some request → request.jwt ∈ s.tokens.signed

theorem carried_init : Carried ApnsState.init := by
  refine ⟨rfl, ?_, ?_⟩
  · rintro jwt ⟨⟩
  · rintro id request ⟨⟩

/-- A report is about a token that was signed.
Kind: L -/
theorem Carried.mem_of_reports (h : Carried s) {value : JsString} (hv : reports read s e = some value) :
    value ∈ s.tokens.signed := by
  cases e with
  | send endpoint nowMs sign => cases hv
  | answer id status body =>
      unfold reports at hv
      dsimp only at hv
      split_ifs at hv
      obtain ⟨request, hrequest, rfl⟩ := Option.map_eq_some_iff.mp hv
      exact h.inFlight id request hrequest
  | rejected id => cases hv

/-- Tokens that were signed stay signed.
Kind: L -/
theorem signed_step (read : JsString → Option N) (t : ApnsTransport) (s : ApnsState) (e : ApnsEvent) :
    s.tokens.signed <:+ (apnsStep read t s e).tokens.signed := by
  rcases tokens_step read t s e with ⟨-, heq | ⟨value, nowMs, heq⟩⟩ | ⟨value, -, heq⟩
  · rw [heq]
  · rw [heq]
    exact List.suffix_cons value s.tokens.signed
  · rw [heq]
    exact List.suffix_rfl

theorem get_delete {id id' : ℕ} {request : ApnsRequest}
    (h : (s.inFlight.delete id).get id' = some request) : s.inFlight.get id' = some request := by
  by_cases hid : id' = id
  · rw [hid, JsMap.get_delete_self] at h
    cases h
  · rwa [JsMap.get_delete_of_ne _ hid] at h

/-- A send makes at most one request, with the token that it gets.
Kind: L -/
theorem Carried.send (h : Carried s) (endpoint : ApnsEndpoint) (nowMs : ℚ) (sign : Option JsString)
    {id : ℕ} {request : ApnsRequest}
    (hget : (s.send t endpoint nowMs sign).1.inFlight.get id = some request) :
    request.jwt ∈ (s.send t endpoint nowMs sign).1.tokens.signed := by
  have hset : ∀ (jwt : JsString) (signed : List JsString), jwt ∈ signed → s.tokens.signed ⊆ signed →
      (s.inFlight.set s.requests ⟨normalizeApnsEnv endpoint.env t.defaultEnv, endpoint.token, jwt,
        t.topicFor endpoint.app_id, endpoint.frame⟩).get id = some request → request.jwt ∈ signed := by
    intro jwt signed hjwt hsigned hget
    rw [JsMap.get_set] at hget
    split_ifs at hget
    · obtain rfl := Option.some.inj hget
      exact hjwt
    · exact hsigned (h.inFlight id request hget)
  unfold ApnsState.send at hget ⊢
  dsimp only at hget ⊢
  by_cases htopic : t.topicFor endpoint.app_id = []
  · rw [if_pos htopic] at hget ⊢
    exact h.inFlight id request hget
  · rw [if_neg htopic] at hget ⊢
    rcases Tokens.getProviderToken_spec t.refreshMs s.tokens nowMs sign with
      ⟨jwt, hjwt, heq⟩ | heq | ⟨value, heq⟩
    · rw [heq] at hget ⊢
      exact hset jwt.value _ (List.mem_of_mem_head? (h.cached jwt hjwt)) (List.Subset.refl _) hget
    · rw [heq] at hget ⊢
      exact h.inFlight id request hget
    · rw [heq] at hget ⊢
      exact hset value _ List.mem_cons_self (List.subset_cons_self ..) hget

theorem Carried.step (h : Carried s) (e : ApnsEvent) : Carried (apnsStep read t s e) := by
  refine ⟨?_, ?_, ?_⟩
  · rcases tokens_step read t s e with ⟨-, heq | ⟨value, nowMs, heq⟩⟩ | ⟨value, -, heq⟩
    · rw [heq]
      exact h.signCount_eq
    · rw [heq]
      exact congrArg (· + 1) h.signCount_eq
    · rw [heq]
      exact h.signCount_eq
  · rcases tokens_step read t s e with ⟨-, heq | ⟨value, nowMs, heq⟩⟩ | ⟨value, -, heq⟩
    · rw [heq]
      exact h.cached
    · rw [heq]
      rintro jwt ⟨⟩
      rfl
    · rw [heq]
      rintro jwt ⟨⟩
  · intro id request hget
    cases e with
    | send endpoint nowMs sign => exact h.send endpoint nowMs sign hget
    | answer id' status body =>
        apply (signed_step read t s _).subset
        unfold apnsStep ApnsState.step at hget
        dsimp only at hget
        rcases hfound : s.inFlight.get id' with _ | answered
        · rw [hfound] at hget
          exact h.inFlight id request hget
        · rw [hfound] at hget
          apply h.inFlight id request
          unfold ApnsState.answer at hget
          dsimp only at hget
          split_ifs at hget <;> exact get_delete hget
    | rejected id' =>
        apply (signed_step read t s _).subset
        unfold apnsStep ApnsState.step at hget
        dsimp only at hget
        rcases hfound : s.inFlight.get id' with _ | answered
        · rw [hfound] at hget
          exact h.inFlight id request hget
        · rw [hfound] at hget
          exact h.inFlight id request (get_delete hget)

/-- One step discards no other token exactly when its report is in time.
Kind: L -/
theorem Carried.keepsOthers_iff (h : Carried s) : KeepsOthers read t s e ↔ InTime read s e := by
  unfold KeepsOthers InTime
  rcases tokens_step read t s e with ⟨hnone, -⟩ | ⟨value, hvalue, heq⟩
  · rw [hnone]
    simp only [Option.not_mem_none, false_implies, implies_true]
  · rw [hvalue, heq]
    simp only [Option.mem_some_iff, forall_eq']
    rcases hjwt : s.tokens.jwt with _ | jwt
    · simp
    · have hhead := h.cached jwt hjwt
      rw [hhead]
      simp only [Option.mem_some_iff, forall_eq', Option.some.injEq, reduceCtorEq, or_false]
      constructor
      · intro hkeeps
        by_contra hne
        exact absurd (hkeeps hne) (Option.some_ne_none jwt).symm
      · exact fun heq hne => absurd heq hne

/-- What bounds the signings while reports come in time.
Kind: D -/
structure Accounted (s : Tokens) : Prop where
  /-- What was reported was signed. -/
  reported : s.reported ⊆ s.signed
  /-- The cached token has not been reported. -/
  cached : ∀ jwt ∈ s.jwt, jwt.value ∉ s.reported
  /-- With a token cached, there is one more than have been given up. -/
  length_le : s.signed.length ≤ 1 + s.expiries + s.reported.dedup.length
  /-- With none, all have been given up. -/
  length_le_of_none : s.jwt = none → s.signed.length ≤ s.expiries + s.reported.dedup.length

theorem length_dedup_cons {α : Type*} [DecidableEq α] (a : α) (l : List α) :
    (a :: l).dedup.length = if a ∈ l then l.dedup.length else l.dedup.length + 1 := by
  split_ifs with h
  · rw [List.dedup_cons_of_mem h]
  · rw [List.dedup_cons_of_notMem h, List.length_cons]

theorem Accounted.renew {s : Tokens} (h : Accounted s) {value : JsString} (hvalue : value ∉ s.signed)
    (nowMs : ℚ) : Accounted (s.renew value nowMs) := by
  refine ⟨fun v hv => List.mem_cons_of_mem _ (h.reported hv), ?_, ?_, ?_⟩
  · rintro jwt ⟨⟩ hmem
    exact hvalue (h.reported hmem)
  · unfold Tokens.renew
    rw [List.length_cons]
    rcases hjwt : s.jwt with _ | jwt
    · have hle := h.length_le_of_none hjwt
      simp only [Option.isSome_none, Bool.false_eq_true, if_false]
      omega
    · have hle := h.length_le
      simp only [Option.isSome_some, if_true]
      omega
  · intro hnone
    cases hnone

theorem Accounted.expire {s : Tokens} (h : Accounted s) {value : JsString} (hmem : value ∈ s.signed)
    (hvalue : s.jwt = none ∨ ∃ jwt, s.jwt = some jwt ∧ jwt.value = value) :
    Accounted (s.expire value) := by
  have hle : s.signed.length ≤ s.expiries + (value :: s.reported).dedup.length := by
    rw [length_dedup_cons]
    rcases hvalue with hnone | ⟨jwt, hjwt, rfl⟩
    · have hle := h.length_le_of_none hnone
      split_ifs <;> omega
    · have hle := h.length_le
      rw [if_neg (h.cached jwt hjwt)]
      omega
  refine ⟨List.cons_subset.mpr ⟨hmem, h.reported⟩, ?_, ?_, fun _ => hle⟩
  · rintro jwt ⟨⟩
  · unfold Tokens.expire
    dsimp only
    omega

/-- The signings stay accounted for when a report is in time and a token that is signed is another one.
Kind: L -/
theorem Accounted.step (h : Accounted s.tokens) (hcarried : Carried s) (htime : InTime read s e)
    (hnodup : (apnsStep read t s e).tokens.signed.Nodup) : Accounted (apnsStep read t s e).tokens := by
  rcases tokens_step read t s e with ⟨-, heq | ⟨value, nowMs, heq⟩⟩ | ⟨value, hvalue, heq⟩
  · rwa [heq]
  · rw [heq] at hnodup ⊢
    exact h.renew (List.nodup_cons.mp hnodup).1 nowMs
  · rw [heq]
    refine h.expire (hcarried.mem_of_reports hvalue) ?_
    rcases hjwt : s.tokens.jwt with _ | jwt
    · exact Or.inl rfl
    · refine Or.inr ⟨jwt, rfl, ?_⟩
      rcases htime value hvalue with hhead | hnone
      · exact Option.some.inj ((hcarried.cached jwt hjwt).symm.trans hhead)
      · rw [hjwt] at hnone
        cases hnone

theorem carried_run (l : List ApnsEvent) : Carried (apnsAfter read t l) :=
  invariant_run (P := fun _ _ => True) (fun _ e h _ => h.step e) carried_init
    (eachStep_of_forall fun _ _ _ => trivial)

theorem apnsAfter_append (l₁ l₂ : List ApnsEvent) :
    apnsAfter read t (l₁ ++ l₂) = runFrom (apnsStep read t) (apnsAfter read t l₁) l₂ :=
  runFrom_append ..

theorem signed_append (l₁ l₂ : List ApnsEvent) :
    (apnsAfter read t l₁).tokens.signed <:+ (apnsAfter read t (l₁ ++ l₂)).tokens.signed := by
  induction l₂ generalizing l₁ with
  | nil => rw [List.append_nil]
  | cons e l₂ ih =>
      have hstep := signed_step read t (apnsAfter read t l₁) e
      have hrest := ih (l₁ ++ [e])
      rw [List.append_assoc, List.singleton_append, apnsAfter_append l₁ [e]] at hrest
      exact hstep.trans hrest

/-- The signings of a run whose reports come in time.
Kind: L -/
theorem accounted_run (hnodup : (apnsAfter read t l).tokens.signed.Nodup)
    (hl : EachStep (apnsStep read t) (InTime read) ApnsState.init l) :
    Accounted (apnsAfter read t l).tokens := by
  induction l using List.reverseRecOn with
  | nil =>
      refine ⟨List.Subset.refl _, ?_, Nat.zero_le _, fun _ => Nat.zero_le _⟩
      rintro jwt ⟨⟩
  | append_singleton l e ih =>
      obtain ⟨hbefore, htime, -⟩ := eachStep_append.mp hl
      have hprevious := ih (hnodup.sublist (signed_append l [e]).sublist) hbefore
      rw [apnsAfter_append] at hnodup ⊢
      exact hprevious.step (carried_run l) htime hnodup

/-- **The provider token is reused** as long as possible exactly when reports come in time, if no token is
signed twice.
Source: `lib/push.js`, `ApnsTransport.prototype.send`, `ApnsTransport.prototype._getProviderToken`
Kind: P -/
theorem reusesToken_iff (hnodup : (apnsAfter read t l).tokens.signed.Nodup) :
    ReusesToken read t l ↔ EachStep (apnsStep read t) (InTime read) ApnsState.init l := by
  have hsteps : EachStep (apnsStep read t) (KeepsOthers read t) ApnsState.init l ↔
      EachStep (apnsStep read t) (InTime read) ApnsState.init l :=
    eachStep_congr (J := Carried) (fun _ e h => h.step e) (fun _ _ h => h.keepsOthers_iff) carried_init
  unfold ReusesToken
  rw [hsteps]
  refine ⟨And.left, fun hl => ⟨hl, ?_⟩⟩
  rintro l₁ l₂ rfl
  have haccounted := accounted_run (hnodup.sublist (signed_append l₁ l₂).sublist) (eachStep_append.mp hl).1
  unfold Tokens.Thrifty
  rw [(carried_run l₁).signCount_eq]
  exact haccounted.length_le

end Run

/-! ### A late report -/

/-- A transport with one bundle id.
Kind: D -/
def oneTopic : ApnsTransport := ⟨js "app", JsMap.empty, APNS_ENV_PRODUCTION, 40 * 60 * 1000⟩

/-- A phone.
Kind: D -/
def phone : ApnsEndpoint :=
  ⟨none, none, js "phone", ⟨[], js "background", js "5", js "0"⟩⟩

/-- The body of a report.
Kind: D -/
def expiredBody : JsString := js "\x7b\"reason\":\"ExpiredProviderToken\"\x7d"

/-- Two requests carry a token when it expires. Another is sent between their answers, and one after
them.
Kind: D -/
def lateReport : List ApnsEvent :=
  [.send phone 0 (some (js "J1")), .send phone 0 (some (js "J1")), .answer 0 (some 403) expiredBody,
    .send phone 1 (some (js "J2")), .answer 1 (some 403) expiredBody, .send phone 2 (some (js "J3"))]

/-- The same with both answers before the next send.
Kind: D -/
def promptReport : List ApnsEvent :=
  [.send phone 0 (some (js "J1")), .send phone 0 (some (js "J1")), .answer 0 (some 403) expiredBody,
    .answer 1 (some 403) expiredBody, .send phone 1 (some (js "J2")), .send phone 2 (some (js "J3"))]

/-- The second report finds no token to discard.
Kind: C -/
theorem reusesToken_iff_promptReport : ReusesToken (fun _ => (none : Option ℕ)) oneTopic promptReport :=
  (reusesToken_iff (by decide +kernel)).mpr (by decide +kernel)

/-- The second report discards the second token, and a third is signed though only one has expired.
Kind: C -/
theorem not_reusesToken_late :
    ¬ ∀ (t : ApnsTransport) (l : List ApnsEvent),
      (l.filterMap ApnsEvent.time).Pairwise (· ≤ ·) →
        (apnsAfter (fun _ => (none : Option ℕ)) t l).tokens.signed.Nodup →
          ReusesToken (fun _ => (none : Option ℕ)) t l := by
  intro h
  have hreuses := h oneTopic lateReport (by decide +kernel) (by decide +kernel)
  have hthrifty := hreuses.2 lateReport [] (List.append_nil _)
  unfold Tokens.Thrifty at hthrifty
  revert hthrifty
  decide +kernel

end TyoMq.Push
