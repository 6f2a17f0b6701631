import Mathlib.Data.List.Pairwise
import TyoMq.Jwks.Token
import TyoMq.Lib.Runs

/-!
# Offline tokens: the key cache

A validator of `lib/jwks.js` over runs: verifications that arrive, wait and resume, and fetches that
succeed or fail, in any order. A fetch is under way from its start to its `finally`, and a verification
that waits for it resumes at some time after that.

* **What a step does to the keys** (`step_store`) and **what it answers** (`request_of_step`).
* `Orderly`: the fetches under way are the one that `inflightFetch` refers to, and the starts are spaced.
* `byKid_run`: the cached keys are those of the latest fetch that succeeded.
* **The cache** (`cache_sound`): all of it, in every state of every run.
-/

namespace TyoMq.Jwks

open TyoMq.Lib

/-- `JWKS_REFETCH_COOLDOWN_MS`.
Kind: D -/
def JWKS_REFETCH_COOLDOWN_MS : ℚ := 60 * 1000

/-- `JWKS_CACHE_TTL_MS`.
Kind: D -/
def JWKS_CACHE_TTL_MS : ℚ := 60 * 60 * 1000

/-- `JWKS_MAX_RESPONSE_BYTES`.
Kind: D -/
def JWKS_MAX_RESPONSE_BYTES : ℕ := 64 * 1024

/-! ### Requests -/

/-- How a request ends.
Kind: D -/
inductive Reply where
  /-- In an error or a time-out, with its message. -/
  | failed (message : JsString)
  /-- With a response. -/
  | response (statusCode : ℕ) (body : List (Fin 256))

/-- Is the value true in a condition?
Kind: D -/
def truthy : Value → Bool
  | .null => false
  | .bool b => b
  | .num (.finite q) => q ≠ 0
  | .num (.infinite _) => true
  | .str s => s ≠ []
  | .arr _ => true
  | .obj _ => true

/-- Is the host a loopback host?
Source: `lib/jwks.js`, `isLoopbackHost`
Kind: D -/
def isLoopbackHost (hostname : JsString) : Bool :=
  hostname = js "127.0.0.1" ∨ hostname = js "localhost" ∨ hostname = js "::1" ∨ hostname = js "[::1]"

section Request

variable {Key : Type*} (p : Platform Key) (v : Validator)

/-- The entry that an item of `keys` makes. A malformed item is skipped.
Source: `lib/jwks.js`, `requestJwks`
Kind: D -/
def keyEntry (jwk : Value) : Option (JsString × Key) :=
  match (jwk.member (js "kid")).bind JsonValue.text? with
  | none => none
  | some kid =>
      let use := jwk.member (js "use")
      if kid = [] then none
      else if (jwk.member (js "kty")).bind JsonValue.text? ≠ some (js "RSA") then none
      else if use.any truthy ∧ use.bind JsonValue.text? ≠ some (js "sig") then none
      else (p.createPublicKey jwk).map fun key => (kid, key)

/-- The keys in a response. Only a property of `null` cannot be read.
Source: `lib/jwks.js`, `requestJwks`
Kind: D -/
def readKeys : Value → Option (JsMap JsString Key)
  | .null => none
  | data =>
      let items :=
        match data.member (js "keys") with
        | some (.arr items) => items
        | _ => []
      some (items.foldl
        (fun byKid jwk =>
          match keyEntry p jwk with
          | none => byKid
          | some (kid, key) => byKid.set kid key)
        JsMap.empty)

/-- What a fetch resolves to, or the message of its error.
Source: `lib/jwks.js`, `requestJwks`
Kind: D -/
def requestJwks (reply : Reply) : Except JsString (JsMap JsString Key) :=
  match p.parseUrl v.jwksUrl with
  | none => .error (js "invalid jwks_url")
  | some parsed =>
      if parsed.protocol ≠ js "https:" ∧
          ¬(parsed.protocol = js "http:" ∧ isLoopbackHost parsed.hostname) then
        .error (js "jwks_url must use https (http allowed for loopback only)")
      else
        match reply with
        | .failed message => .error message
        | .response statusCode body =>
            if statusCode < 200 ∨ 300 ≤ statusCode then
              .error (js "JWKS fetch returned HTTP " ++ toRadix 10 statusCode)
            else if JWKS_MAX_RESPONSE_BYTES < body.length then
              .error (js "JWKS response exceeds " ++ toRadix 10 JWKS_MAX_RESPONSE_BYTES ++ js " bytes")
            else
              match (JsonValue.parse p.readNumber (p.toUtf8 body)).bind (readKeys p) with
              | some byKid => .ok byKid
              | none => .error (js "JWKS response is not valid JSON")

end Request

/-! ### The state -/

/-- The cached keys.
Kind: D -/
structure Cache (Key : Type*) where
  /-- `byKid`. -/
  byKid : JsMap JsString Key
  /-- `fetchedAtMs`. -/
  fetchedAtMs : ℚ

/-- A fetch under way.
Kind: D -/
structure Fetch where
  /-- Which one. -/
  id : ℕ
  /-- When it was started. -/
  nowMs : ℚ
  /-- Has its request ended? -/
  ended : Bool

/-- What a validator knows of keys, and the fetches.
Kind: D -/
structure KeyStore (Key : Type*) where
  /-- `cache`. -/
  cache : Option (Cache Key)
  /-- `lastFetchAttemptMs`, `none` for `-Infinity`. -/
  lastFetchAttemptMs : Option ℚ
  /-- `inflightFetch`. -/
  inflightFetch : Option ℕ
  /-- The fetches that have been started and have not run their `finally`. -/
  fetches : List Fetch
  /-- The times at which fetches were started, latest first. -/
  started : List ℚ

/-- What a validator knows of its log.
Kind: D -/
structure Log where
  /-- `lastWarnMs`, `none` for `-Infinity`. -/
  lastWarnMs : Option ℚ
  /-- `rejectWarnAt`. -/
  rejectWarnAt : JsMap JsString ℚ
  /-- The warnings, latest first. -/
  lines : List JsString

/-- A verification that awaits a fetch.
Kind: D -/
structure Waiting where
  /-- The token. -/
  token : Signed
  /-- `nowMs`. -/
  nowMs : ℚ
  /-- The fetch. -/
  fetch : ℕ

/-- A validator at work.
Kind: D -/
structure State (Key : Type*) where
  /-- The keys. -/
  store : KeyStore Key
  /-- The log. -/
  log : Log
  /-- The verifications that await a fetch. -/
  waiting : List Waiting

/-- Is the cooldown over?
Kind: D -/
def cooledDown (last : Option ℚ) (nowMs : ℚ) : Bool :=
  match last with
  | none => true
  | some last => JWKS_REFETCH_COOLDOWN_MS ≤ nowMs - last

/-- A new validator.
Kind: D -/
def init (Key : Type*) : State Key :=
  ⟨⟨none, none, none, [], []⟩, ⟨none, JsMap.empty, []⟩, []⟩

/-- A warning, at most one in a cooldown.
Source: `lib/jwks.js`, `warn`
Kind: D -/
def Log.warn (log : Log) (message : JsString) (nowMs : ℚ) : Log :=
  if cooledDown log.lastWarnMs nowMs then
    { log with lastWarnMs := some nowMs, lines := message :: log.lines }
  else log

/-- A rejection, at most one line for a reason in a cooldown.
Source: `lib/jwks.js`, `reject`
Kind: D -/
def Log.reject (v : Validator) (log : Log) (reason : JsString) (nowMs : ℚ) : Log :=
  if cooledDown (log.rejectWarnAt.get reason) nowMs then
    { log with
      rejectWarnAt := log.rejectWarnAt.set reason nowMs
      lines := (js "JWKS: token rejected (" ++ reason ++ js ") for " ++ v.jwksUrl) :: log.lines }
  else log

namespace KeyStore

variable {Key : Type*}

/-- `cache.byKid`.
Kind: D -/
def byKid (s : KeyStore Key) : Option (JsMap JsString Key) := s.cache.map Cache.byKid

/-- Are the keys old?
Kind: D -/
def stale (s : KeyStore Key) (nowMs : ℚ) : Bool :=
  s.cache.any fun c => JWKS_CACHE_TTL_MS ≤ nowMs - c.fetchedAtMs

/-- Start a fetch, unless one is under way, and say which one it is.
Source: `lib/jwks.js`, `fetchJwks`
Kind: D -/
def fetchJwks (s : KeyStore Key) (nowMs : ℚ) : KeyStore Key × ℕ :=
  match s.inflightFetch with
  | some id => (s, id)
  | none =>
      let id := s.started.length
      ({ s with
          lastFetchAttemptMs := some nowMs
          inflightFetch := some id
          fetches := ⟨id, nowMs, false⟩ :: s.fetches
          started := nowMs :: s.started }, id)

/-- The request of a fetch ends, and its `then` runs or its `catch`.
Source: `lib/jwks.js`, `fetchJwks`
Kind: D -/
def ending (s : KeyStore Key) (f : Fetch) (keys : Option (JsMap JsString Key)) : KeyStore Key :=
  { s with
    cache := (keys.map fun byKid => ⟨byKid, f.nowMs⟩).or s.cache
    fetches := s.fetches.map fun g => if g.id = f.id then { g with ended := true } else g }

/-- The `finally` of a fetch.
Source: `lib/jwks.js`, `fetchJwks`
Kind: D -/
def finishing (s : KeyStore Key) (f : Fetch) : KeyStore Key :=
  { s with inflightFetch := none, fetches := s.fetches.filter fun g => g.id ≠ f.id }

/-- The fetch of a number that is under way and whose request has ended or not.
Kind: D -/
def find (s : KeyStore Key) (id : ℕ) (ended : Bool) : Option Fetch :=
  s.fetches.find? fun f => f.id = id ∧ f.ended = ended

end KeyStore

/-! ### Steps -/

/-- What happens: a verification arrives, the request of a fetch ends, a fetch runs its `finally`, or a
verification resumes.
Kind: D -/
inductive Event where
  | verify (token : Option JsString) (nowMs : ℚ)
  | ended (id : ℕ) (reply : Reply)
  | finished (id : ℕ)
  | resume (i : ℕ)

section Step

variable {Key : Type*} (p : Platform Key) (v : Validator)

namespace State

/-- The end of a verification.
Kind: D -/
def answer (s : State Key) (nowMs : ℚ) (a : Except JsString Verified) :
    State Key × Option (Except JsString Verified) :=
  match a with
  | .ok r => (s, some (.ok r))
  | .error reason => ({ s with log := s.log.reject v reason nowMs }, some (.error reason))

/-- A verification awaits a fetch.
Kind: D -/
def await (s : State Key) (token : Signed) (nowMs : ℚ) (fetch : ℕ) :
    State Key × Option (Except JsString Verified) :=
  ({ s with waiting := s.waiting ++ [⟨token, nowMs, fetch⟩] }, none)

/-- From the key lookup on.
Source: `lib/jwks.js`, `verify`
Kind: D -/
def lookup (s : State Key) (token : Signed) (nowMs : ℚ) :
    State Key × Option (Except JsString Verified) :=
  let judged (store : KeyStore Key) :=
    answer v { s with store := store } nowMs (judge p v store.byKid token nowMs)
  match s.store.byKid.bind fun keys => keys.get token.kid with
  | none =>
      if cooledDown s.store.lastFetchAttemptMs nowMs then
        let (store, fetch) := s.store.fetchJwks nowMs
        await { s with store := store } token nowMs fetch
      else
        match s.store.inflightFetch with
        | some fetch => s.await token nowMs fetch
        | none => judged s.store
  | some _ =>
      if s.store.stale nowMs ∧ cooledDown s.store.lastFetchAttemptMs nowMs then
        -- in the background: this verification keeps the old keys
        judged (s.store.fetchJwks nowMs).1
      else judged s.store

/-- One event, and the answer of the verification that it ends. What cannot happen in the state changes
nothing.
Kind: D -/
def step (s : State Key) : Event → State Key × Option (Except JsString Verified)
  | .verify token nowMs =>
      match readHeader p token with
      | .error reason => s.answer v nowMs (.error reason)
      | .ok signed => s.lookup p v signed nowMs
  | .ended id reply =>
      match s.store.find id false with
      | none => (s, none)
      | some f =>
          match requestJwks p v reply with
          | .ok byKid => ({ s with store := s.store.ending f (some byKid) }, none)
          | .error message =>
              let line := js "JWKS fetch failed for " ++ v.jwksUrl ++ js ": " ++ message
              ({ s with store := s.store.ending f none, log := s.log.warn line f.nowMs }, none)
  | .finished id =>
      match s.store.find id true with
      | none => (s, none)
      | some f => ({ s with store := s.store.finishing f }, none)
  | .resume i =>
      match s.waiting[i]? with
      | none => (s, none)
      | some w =>
          if s.store.fetches.any fun f => f.id = w.fetch then (s, none)
          else
            answer v { s with waiting := s.waiting.eraseIdx i } w.nowMs
              (judge p v s.store.byKid w.token w.nowMs)

end State

/-- The state after a run.
Kind: D -/
def after (l : List Event) : State Key := runFrom (fun s e => (s.step p v e).1) (init Key) l

/-- The keys that an event brings, when it ends a fetch that succeeds.
Kind: D -/
def delivers (s : State Key) : Event → Option (JsMap JsString Key)
  | .ended id reply => (s.store.find id false).bind fun _ => (requestJwks p v reply).toOption
  | _ => none

/-- The keys of the latest fetch that succeeds in a run from a state.
Kind: D -/
def latestKeys : State Key → List Event → Option (JsMap JsString Key)
  | _, [] => none
  | s, e :: l => (latestKeys (s.step p v e).1 l).or (delivers p v s e)

/-- The verification that an event may end: its token and its time.
Kind: D -/
def request (s : State Key) : Event → Option (Signed × ℚ)
  | .verify token nowMs => (readHeader p token).toOption.map fun signed => (signed, nowMs)
  | .resume i => s.waiting[i]?.map fun w => (w.token, w.nowMs)
  | _ => none

end Step

section Steps

variable {Key : Type*} {p : Platform Key} {v : Validator} {s : State Key}

/-! ### What a step does to the keys -/

@[simp] theorem KeyStore.byKid_fetchJwks (s : KeyStore Key) (nowMs : ℚ) :
    (s.fetchJwks nowMs).1.byKid = s.byKid := by
  unfold fetchJwks
  cases s.inflightFetch <;> rfl

@[simp] theorem KeyStore.byKid_ending (s : KeyStore Key) (f : Fetch)
    (keys : Option (JsMap JsString Key)) : (s.ending f keys).byKid = keys.or s.byKid := by
  cases keys <;> rfl

@[simp] theorem State.store_answer (s : State Key) (nowMs : ℚ) (a : Except JsString Verified) :
    (s.answer v nowMs a).1.store = s.store := by
  cases a <;> rfl

@[simp] theorem State.snd_answer (s : State Key) (nowMs : ℚ) (a : Except JsString Verified) :
    (s.answer v nowMs a).2 = some a := by
  cases a <;> rfl

/-- A key lookup starts a fetch or leaves the keys alone.
Kind: L -/
theorem State.store_lookup (token : Signed) (nowMs : ℚ) :
    (s.lookup p v token nowMs).1.store = s.store ∨
      cooledDown s.store.lastFetchAttemptMs nowMs = true ∧
        (s.lookup p v token nowMs).1.store = (s.store.fetchJwks nowMs).1 := by
  unfold lookup
  cases hkey : s.store.byKid.bind fun keys => keys.get token.kid with
  | none =>
      by_cases hcool : cooledDown s.store.lastFetchAttemptMs nowMs = true
      · simp only [hcool, if_true]
        exact Or.inr ⟨trivial, rfl⟩
      · simp only [hcool]
        apply Or.inl
        cases s.store.inflightFetch with
        | none => exact State.store_answer ..
        | some fetch => rfl
  | some key =>
      by_cases hold : s.store.stale nowMs ∧ cooledDown s.store.lastFetchAttemptMs nowMs
      · simp only [hold, and_self, if_true]
        exact Or.inr ⟨trivial, State.store_answer ..⟩
      · simp only [hold, if_false]
        exact Or.inl (State.store_answer ..)

/-- **What a step does to the keys**: nothing, or it starts a fetch after the cooldown, or it ends one, or
it finishes one.
Kind: L -/
theorem State.store_step (s : State Key) (e : Event) :
    (delivers p v s e = none ∧
      ((s.step p v e).1.store = s.store ∨
        (∃ nowMs, cooledDown s.store.lastFetchAttemptMs nowMs = true ∧
          (s.step p v e).1.store = (s.store.fetchJwks nowMs).1) ∨
        ∃ id f, s.store.find id true = some f ∧ (s.step p v e).1.store = s.store.finishing f)) ∨
      ∃ id f, s.store.find id false = some f ∧
        (s.step p v e).1.store = s.store.ending f (delivers p v s e) := by
  cases e with
  | verify token nowMs =>
      refine Or.inl ⟨rfl, ?_⟩
      simp only [step]
      cases readHeader p token with
      | error reason => exact Or.inl rfl
      | ok signed =>
          rcases State.store_lookup signed nowMs with h | ⟨hcool, h⟩
          · exact Or.inl h
          · exact Or.inr (Or.inl ⟨nowMs, hcool, h⟩)
  | ended id reply =>
      simp only [step, delivers]
      cases hf : s.store.find id false with
      | none => exact Or.inl ⟨rfl, Or.inl rfl⟩
      | some f =>
          refine Or.inr ⟨id, f, hf, ?_⟩
          simp only [Option.bind_some]
          cases requestJwks p v reply <;> rfl
  | finished id =>
      refine Or.inl ⟨rfl, ?_⟩
      simp only [step]
      cases hf : s.store.find id true with
      | none => exact Or.inl rfl
      | some f => exact Or.inr (Or.inr ⟨id, f, hf, rfl⟩)
  | resume i =>
      refine Or.inl ⟨rfl, Or.inl ?_⟩
      simp only [step]
      cases s.waiting[i]? with
      | none => rfl
      | some w =>
          simp only
          split_ifs with hunder
          · rfl
          · exact State.store_answer ..

theorem delivers_eq_none {e : Event}
    (h : ∀ id reply keys, e = .ended id reply → requestJwks p v reply ≠ .ok keys) :
    delivers p v s e = none := by
  cases e with
  | ended id reply =>
      cases hreply : requestJwks p v reply with
      | ok keys => exact absurd hreply (h id reply keys rfl)
      | error message =>
          simp only [delivers, hreply, Except.toOption]
          exact Option.bind_fun_none _
  | _ => rfl

/-- The cached keys change only to those of a fetch that succeeds.
Kind: L -/
theorem State.byKid_step (s : State Key) (e : Event) :
    (s.step p v e).1.store.byKid = (delivers p v s e).or s.store.byKid := by
  rcases s.store_step (p := p) (v := v) e with ⟨hnone, h | ⟨nowMs, _, h⟩ | ⟨id, f, _, h⟩⟩ | ⟨id, f, _, h⟩
  · rw [h, hnone]
    rfl
  · rw [h, hnone, KeyStore.byKid_fetchJwks]
    rfl
  · rw [h, hnone]
    rfl
  · rw [h, KeyStore.byKid_ending]

/-- **The cached keys** after a run are those of the latest fetch that succeeds in it.
Kind: L -/
theorem byKid_run (s : State Key) (l : List Event) :
    (runFrom (fun s e => (s.step p v e).1) s l).store.byKid =
      (latestKeys p v s l).or s.store.byKid := by
  induction l generalizing s with
  | nil => rfl
  | cons e l ih =>
      rw [runFrom_cons, ih, State.byKid_step, ← Option.or_assoc]
      rfl

/-! ### What a step answers -/

/-- A key lookup ends a verification, if it does, with the judgement under the keys that are cached.
Kind: L -/
theorem State.eq_of_snd_lookup {token : Signed} {nowMs : ℚ} {a : Except JsString Verified}
    (h : (s.lookup p v token nowMs).2 = some a) : a = judge p v s.store.byKid token nowMs := by
  unfold lookup at h
  cases hkey : s.store.byKid.bind fun keys => keys.get token.kid with
  | none =>
      rw [hkey] at h
      by_cases hcool : cooledDown s.store.lastFetchAttemptMs nowMs = true
      · simp only [hcool, if_true] at h
        cases h
      · simp only [hcool] at h
        cases hfetch : s.store.inflightFetch with
        | none =>
            rw [hfetch] at h
            exact (Option.some.inj ((State.snd_answer ..).symm.trans h)).symm
        | some fetch =>
            rw [hfetch] at h
            cases h
  | some key =>
      rw [hkey] at h
      simp only at h
      split_ifs at h
      · rw [State.snd_answer, KeyStore.byKid_fetchJwks] at h
        exact (Option.some.inj h).symm
      · rw [State.snd_answer] at h
        exact (Option.some.inj h).symm

/-- With a cached key there is no waiting, and nothing else has a say.
Kind: L -/
theorem State.snd_lookup_of_get {token : Signed} {nowMs : ℚ} {key : Key}
    (h : (s.store.byKid.bind fun keys => keys.get token.kid) = some key) :
    (s.lookup p v token nowMs).2 = some (judgeUnder p v key token nowMs) := by
  have hjudge : judge p v s.store.byKid token nowMs = judgeUnder p v key token nowMs := by
    unfold judge
    rw [h]
  unfold lookup
  rw [h]
  simp only
  split_ifs
  · rw [State.snd_answer, KeyStore.byKid_fetchJwks, hjudge]
  · rw [State.snd_answer, hjudge]

/-- The end of a request answers no verification.
Kind: L -/
theorem State.snd_step_ended (s : State Key) (id : ℕ) (reply : Reply) :
    (s.step p v (.ended id reply)).2 = none := by
  simp only [step]
  cases s.store.find id false with
  | none => rfl
  | some f => cases requestJwks p v reply <;> rfl

theorem State.snd_step_finished (s : State Key) (id : ℕ) : (s.step p v (.finished id)).2 = none := by
  simp only [step]
  cases s.store.find id true <;> rfl

/-- **What a step accepts** it accepts under the keys that are cached.
Kind: L -/
theorem State.request_of_step {e : Event} {r : Verified} (h : (s.step p v e).2 = some (.ok r)) :
    ∃ token nowMs, request p s e = some (token, nowMs) ∧
      judge p v s.store.byKid token nowMs = .ok r := by
  cases e with
  | verify token nowMs =>
      simp only [step] at h
      cases hsigned : readHeader p token with
      | error reason =>
          rw [hsigned] at h
          cases h
      | ok signed =>
          rw [hsigned] at h
          refine ⟨signed, nowMs, ?_, (State.eq_of_snd_lookup h).symm⟩
          simp only [request, hsigned]
          rfl
  | ended id reply =>
      rw [State.snd_step_ended] at h
      cases h
  | finished id =>
      rw [State.snd_step_finished] at h
      cases h
  | resume i =>
      simp only [step] at h
      cases hw : s.waiting[i]? with
      | none =>
          rw [hw] at h
          cases h
      | some w =>
          rw [hw] at h
          refine ⟨w.token, w.nowMs, ?_, ?_⟩
          · simp only [request, hw]
            rfl
          · simp only at h
            split_ifs at h
            rw [State.snd_answer] at h
            exact Option.some.inj h

/-! ### Fetches one at a time -/

/-- The fetches under way are the one that `inflightFetch` refers to, and the starts are spaced.
Kind: D -/
structure Orderly (s : KeyStore Key) : Prop where
  /-- There is no other fetch under way. -/
  one : s.fetches.map Fetch.id = s.inflightFetch.toList
  /-- The latest start is remembered. -/
  last : s.lastFetchAttemptMs = s.started.head?
  /-- Between two starts there is the cooldown. -/
  apart : s.started.Pairwise fun later earlier => JWKS_REFETCH_COOLDOWN_MS ≤ later - earlier

theorem Orderly.fetchJwks {s : KeyStore Key} (h : Orderly s) {nowMs : ℚ}
    (hcool : cooledDown s.lastFetchAttemptMs nowMs = true) : Orderly (s.fetchJwks nowMs).1 := by
  unfold KeyStore.fetchJwks
  cases hfetch : s.inflightFetch with
  | some id => exact h
  | none =>
      have hnone : s.fetches = [] := by simpa [hfetch] using h.one
      refine ⟨?_, rfl, List.pairwise_cons.mpr ⟨fun earlier hearlier => ?_, h.apart⟩⟩
      · simp only [hnone]
        rfl
      · have hlast := h.last
        have hapart := h.apart
        cases hstarted : s.started with
        | nil =>
            rw [hstarted] at hearlier
            exact absurd hearlier List.not_mem_nil
        | cons last l =>
            rw [hstarted] at hearlier hlast hapart
            rw [hlast] at hcool
            have hcool : JWKS_REFETCH_COOLDOWN_MS ≤ nowMs - last := of_decide_eq_true hcool
            rcases List.mem_cons.mp hearlier with rfl | hearlier
            · exact hcool
            · -- the latest start is already the cooldown after the earlier ones
              have hbefore := (List.pairwise_cons.mp hapart).1 earlier hearlier
              have hpos : (0 : ℚ) ≤ JWKS_REFETCH_COOLDOWN_MS := by decide +kernel
              linarith

theorem Orderly.ending {s : KeyStore Key} (h : Orderly s) (f : Fetch)
    (keys : Option (JsMap JsString Key)) : Orderly (s.ending f keys) := by
  refine ⟨Eq.trans ?_ h.one, h.last, h.apart⟩
  unfold KeyStore.ending
  rw [List.map_map]
  apply List.map_congr_left
  intro g _
  simp only [Function.comp_apply]
  split_ifs <;> rfl

theorem Orderly.finishing {s : KeyStore Key} (h : Orderly s) {id : ℕ} {f : Fetch}
    (hf : s.find id true = some f) : Orderly (s.finishing f) := by
  refine ⟨?_, h.last, h.apart⟩
  have hmem : f ∈ s.fetches := List.mem_of_find?_eq_some hf
  -- it is the one fetch under way
  cases hfetch : s.inflightFetch with
  | none =>
      have hnone : s.fetches = [] := by simpa [hfetch] using h.one
      rw [hnone] at hmem
      exact absurd hmem List.not_mem_nil
  | some id =>
      have hone : s.fetches.map Fetch.id = [id] := by simpa [hfetch] using h.one
      obtain ⟨g, hg, -⟩ := List.map_eq_singleton_iff.mp hone
      rw [hg] at hmem
      obtain rfl := List.mem_singleton.mp hmem
      simp [KeyStore.finishing, hg]

theorem Orderly.step {s : State Key} (h : Orderly s.store) (e : Event) :
    Orderly (s.step p v e).1.store := by
  rcases s.store_step (p := p) (v := v) e with
    ⟨_, hstore | ⟨nowMs, hcool, hstore⟩ | ⟨id, f, hf, hstore⟩⟩ | ⟨id, f, hf, hstore⟩
  · exact hstore ▸ h
  · exact hstore ▸ h.fetchJwks hcool
  · exact hstore ▸ h.finishing hf
  · exact hstore ▸ h.ending f _

theorem orderly_after (l : List Event) : Orderly (after p v l).store := by
  refine invariant_run (P := fun _ _ => True) (I := fun s : State Key => Orderly s.store)
    (fun s e h _ => h.step e) ?_ (eachStep_of_forall fun _ _ _ => trivial)
  exact ⟨rfl, rfl, List.Pairwise.nil⟩

/-- **The cache**: in every state of every run one fetch is under way at most, fetches have started at
least the cooldown apart, only a fetch that succeeds changes the cached keys, a token is accepted only
under a key of the latest such fetch, and a token with such a key is judged at once under that key.
Source: `lib/jwks.js`, `createJwksValidator`
Kind: P -/
theorem cache_sound (p : Platform Key) (v : Validator) (l : List Event) :
    (after p v l).store.fetches.length ≤ 1 ∧
      ((after p v l).store.started.Pairwise fun later earlier =>
        JWKS_REFETCH_COOLDOWN_MS ≤ later - earlier) ∧
      (∀ e, (∀ id reply keys, e = .ended id reply → requestJwks p v reply ≠ .ok keys) →
        ((after p v l).step p v e).1.store.byKid = (after p v l).store.byKid) ∧
      (∀ e r, ((after p v l).step p v e).2 = some (.ok r) →
        ∃ token nowMs keys key, request p (after p v l) e = some (token, nowMs) ∧
          latestKeys p v (init Key) l = some keys ∧ keys.get token.kid = some key ∧
          p.verify (utf8 (token.header ++ unit '.' :: token.payload)) key
            (p.decodeBase64Url token.signature) = .ok true) ∧
      ∀ token signed nowMs keys key, readHeader p token = .ok signed →
        latestKeys p v (init Key) l = some keys → keys.get signed.kid = some key →
        ((after p v l).step p v (.verify token nowMs)).2 = some (judgeUnder p v key signed nowMs) := by
  have horderly := orderly_after (p := p) (v := v) l
  have hkeys : (after p v l).store.byKid = latestKeys p v (init Key) l := by
    refine (byKid_run (init Key) l).trans ?_
    exact Option.or_none
  refine ⟨?_, horderly.apart, ?_, ?_, ?_⟩
  · have hlength := congrArg List.length horderly.one
    rw [List.length_map] at hlength
    rw [hlength]
    cases (after p v l).store.inflightFetch <;> simp
  · intro e hfails
    rw [State.byKid_step, delivers_eq_none hfails]
    rfl
  · intro e r h
    obtain ⟨token, nowMs, hrequest, hjudge⟩ := State.request_of_step h
    obtain ⟨keys, key, hcached, hkey, hverify, _⟩ := judge_eq_ok hjudge
    exact ⟨token, nowMs, keys, key, hrequest, hkeys.symm.trans hcached, hkey, hverify⟩
  · intro token signed nowMs keys key hsigned hlatest hkey
    have hcached : ((after p v l).store.byKid.bind fun keys => keys.get signed.kid) = some key := by
      rw [hkeys, hlatest]
      exact hkey
    simp only [State.step, hsigned]
    exact State.snd_lookup_of_get hcached

end Steps

namespace Sample

/-- A run in which a token waits for the keys.
Kind: D -/
def run : List Event :=
  [.verify (some token) 50000,
    .ended 0 (.response 200
      (utf8 (js "\x7b\"keys\":[\x7b\"kid\":\"k1\",\"kty\":\"RSA\"\x7d]\x7d"))),
    .finished 0]

end Sample

/-- The token is then accepted under the key that has come.
Kind: C -/
theorem cache_sound_refreshed :
    ((after Sample.platform Sample.validator Sample.run).step Sample.platform Sample.validator
        (.resume 0)).2 = some (.ok ⟨js "r", js "both", js "u", none⟩) ∧
      ∃ keys, latestKeys Sample.platform Sample.validator (init Unit) Sample.run = some keys ∧
        ∃ kid, keys.get kid = some () := by
  have haccepted : ((after Sample.platform Sample.validator Sample.run).step Sample.platform
      Sample.validator (.resume 0)).2 = some (.ok ⟨js "r", js "both", js "u", none⟩) := by
    decide +kernel
  obtain ⟨token, _, keys, _, _, hlatest, hkey, _⟩ :=
    (cache_sound Sample.platform Sample.validator Sample.run).2.2.2.1 _ _ haccepted
  exact ⟨haccepted, keys, hlatest, token.kid, hkey⟩

end TyoMq.Jwks
