import TyoMq.Lib.Runs

/-!
# Durable messages: the connection of the Redis store

`_ensureConnected` and `_send` of `lib/storage/redis.js`: the promise of the one call of `connect()` is
kept, and every operation that finds the client closed waits for it.

* The store calls `connect()` once at most (`Memoised`).
* **A rejected call is never followed by another** (`recovers_iff`): an operation that is issued after it,
  while the client is closed, is rejected with the same error, whether Redis can be reached or not.
* The client is not part of the store. When it opens and closes and how its promises settle is left open.
-/

namespace TyoMq.Storage

open TyoMq.Lib

/-! ### The connection -/

/-- A promise that gives nothing.
Kind: D -/
inductive Promise (ε : Type*)
  /-- Not settled. -/
  | pending
  /-- Fulfilled. -/
  | fulfilled
  /-- Rejected with an error. -/
  | rejected (e : ε)
  deriving DecidableEq

/-- How far a command has come.
Source: `lib/storage/redis.js`, `RedisStore.prototype._send`
Kind: D -/
inductive Sending (ε : Type*)
  /-- It waits for a call of `connect()`. -/
  | waiting (call : ℕ)
  /-- It has been handed to the client. -/
  | sent
  /-- It has been rejected. -/
  | failed (e : ε)
  deriving DecidableEq

/-- The connection of a store, and the commands of the operations that were issued.
Source: `lib/storage/redis.js`, `RedisStore`
Kind: D -/
structure RedisConnection (ε : Type*) where
  /-- Did the store make its client? -/
  ownsClient : Bool
  /-- Does the client have `connect`? -/
  hasConnect : Bool
  /-- `client.isOpen` -/
  isOpen : Bool
  /-- `client.isReady` -/
  isReady : Bool
  /-- What the calls of `client.connect()` have returned. -/
  calls : List (Promise ε)
  /-- Which of them is kept. -/
  connectPromise : Option ℕ
  /-- The commands. -/
  sends : List (Sending ε)

/-- What happens.
Kind: D -/
inductive ConnectEvent (ε : Type*)
  /-- An operation sends a command, the first that it sends or one more. -/
  | send
  /-- The promise of a call of `connect()` is settled, with an error when it is rejected. -/
  | settle (call : ℕ) (error : Option ε)
  /-- The client opens or closes. -/
  | client (isOpen isReady : Bool)
  deriving DecidableEq

namespace Sending

variable {ε : Type*}

/-- What comes of waiting for a call.
Source: `lib/storage/redis.js`, `RedisStore.prototype._send`
Kind: D -/
def after (call : ℕ) : Promise ε → Sending ε
  | .pending => .waiting call
  | .fulfilled => .sent
  | .rejected e => .failed e

/-- A call is settled.
Kind: D -/
def settled (call : ℕ) (p : Promise ε) : Sending ε → Sending ε
  | .waiting k => if k = call then after call p else .waiting k
  | s => s

end Sending

namespace RedisConnection

variable {ε : Type*}

/-- A store that makes its own client, before anything is sent.
Source: `lib/storage/redis.js`, `RedisStore`
Kind: D -/
def owned : RedisConnection ε := ⟨true, true, false, false, [], none, []⟩

/-- Is the client open?
Source: `lib/storage/redis.js`, `RedisStore.prototype._ensureConnected`
Kind: D -/
def Open (s : RedisConnection ε) : Prop := s.isOpen = true ∨ s.isReady = true

instance (s : RedisConnection ε) : Decidable s.Open := inferInstanceAs (Decidable (_ ∨ _))

/-- The call of `connect()` that has to be waited for, if there is one.
Source: `lib/storage/redis.js`, `RedisStore.prototype._ensureConnected`
Kind: D -/
def ensureConnected (s : RedisConnection ε) : RedisConnection ε × Option ℕ :=
  if s.ownsClient = false ∨ s.hasConnect = false then (s, none)
  else if s.Open then (s, none)
  else
    match s.connectPromise with
    | some call => (s, some call)
    | none =>
        ({ s with calls := s.calls ++ [.pending], connectPromise := some s.calls.length },
          some s.calls.length)

/-- A command is sent.
Source: `lib/storage/redis.js`, `RedisStore.prototype._send`
Kind: D -/
def send (s : RedisConnection ε) : RedisConnection ε :=
  let r := s.ensureConnected
  let sending :=
    match r.2 with
    | none => .sent
    | some call => Sending.after call (r.1.calls.getD call .pending)
  { r.1 with sends := r.1.sends ++ [sending] }

/-- A call of `connect()` is settled, once.
Kind: D -/
def settle (s : RedisConnection ε) (call : ℕ) (p : Promise ε) : RedisConnection ε :=
  match s.calls[call]? with
  | some .pending =>
      { s with calls := s.calls.set call p, sends := s.sends.map (Sending.settled call p) }
  | _ => s

/-- An event happens.
Kind: D -/
def step (s : RedisConnection ε) : ConnectEvent ε → RedisConnection ε
  | .send => s.send
  | .settle call none => s.settle call .fulfilled
  | .settle call (some e) => s.settle call (.rejected e)
  | .client isOpen isReady => { s with isOpen := isOpen, isReady := isReady }

/-- The state after these events.
Kind: D -/
def after (events : List (ConnectEvent ε)) : RedisConnection ε := runFrom step owned events

/-! ### Recovery -/

/-- A call of `connect()` has been rejected, and the client is not open.
Kind: D -/
def Down (s : RedisConnection ε) : Prop := (∃ e, Promise.rejected e ∈ s.calls) ∧ ¬ s.Open

/-- The operation that is issued after the one list of events, and before the other, recovers.
Kind: D -/
structure Recovers (before later : List (ConnectEvent ε)) : Prop where
  /-- It calls `connect()`, or waits for a call that has not been settled. -/
  tries :
    (after before).calls.length < (after (before ++ [.send])).calls.length ∨
      ∃ call : ℕ, (after (before ++ [.send])).sends[(after before).sends.length]? = some (.waiting call) ∧
        (after before).calls[call]? = some Promise.pending
  /-- It succeeds once Redis is reachable: when no call is rejected any more and none is left open. -/
  succeeds :
    (∀ call e, ConnectEvent.settle call (some e) ∉ later) →
      Promise.pending ∉ (after (before ++ .send :: later)).calls →
      (after (before ++ .send :: later)).sends[(after before).sends.length]? =
        some Sending.sent
  /-- When it fails, it fails with the error of a call that had not been rejected before. -/
  newError :
    ∀ e, (after (before ++ .send :: later)).sends[(after before).sends.length]? =
        some (Sending.failed e) →
      ∃ call : ℕ, (after (before ++ .send :: later)).calls[call]? =
          some (Promise.rejected e) ∧
        (after before).calls[call]? ≠ some (Promise.rejected e)

/-- In this run, whatever is issued while the store is down recovers.
Kind: D -/
def AllRecover (events : List (ConnectEvent ε)) : Prop :=
  ∀ before later, before ++ .send :: later = events → (after before).Down → Recovers before later

/-! ### The one call -/

/-- There has been no call of `connect()`, or just the one that is kept.
Kind: D -/
structure Memoised (s : RedisConnection ε) : Prop where
  /-- The store made its client. -/
  owns : s.ownsClient = true
  /-- It can connect. -/
  has : s.hasConnect = true
  /-- The call. -/
  call : s.calls = [] ∧ s.connectPromise = none ∨ ∃ p, s.calls = [p] ∧ s.connectPromise = some 0

/-- The one call has been rejected.
Kind: D -/
structure Rejected (s : RedisConnection ε) (e : ε) : Prop extends Memoised s where
  /-- With this error. -/
  calls : s.calls = [.rejected e]
  /-- And it is kept. -/
  kept : s.connectPromise = some 0

variable {s : RedisConnection ε} {e : ε}

theorem Memoised.owned : Memoised (owned : RedisConnection ε) := ⟨rfl, rfl, Or.inl ⟨rfl, rfl⟩⟩

/-- What `_ensureConnected` does, case by case.
Kind: L -/
theorem Memoised.ensureConnected_cases (h : Memoised s) :
    s.Open ∧ s.ensureConnected = (s, none) ∨
      ¬ s.Open ∧ s.calls = [] ∧
        s.ensureConnected = ({ s with calls := [.pending], connectPromise := some 0 }, some 0) ∨
      ¬ s.Open ∧ (∃ p, s.calls = [p] ∧ s.connectPromise = some 0) ∧ s.ensureConnected = (s, some 0) := by
  have hours : ¬ (s.ownsClient = false ∨ s.hasConnect = false) := by simp [h.owns, h.has]
  unfold ensureConnected
  rw [if_neg hours]
  by_cases hopen : s.Open
  · left
    rw [if_pos hopen]
    exact ⟨hopen, rfl⟩
  · right
    rw [if_neg hopen]
    rcases h.call with ⟨hcalls, hkept⟩ | ⟨p, hcalls, hkept⟩
    · left
      rw [hkept, hcalls]
      exact ⟨hopen, rfl, rfl⟩
    · right
      rw [hkept]
      exact ⟨hopen, ⟨p, hcalls, rfl⟩, rfl⟩

theorem Memoised.send (h : Memoised s) : Memoised s.send := by
  unfold RedisConnection.send
  rcases h.ensureConnected_cases with ⟨-, heq⟩ | ⟨-, hcalls, heq⟩ | ⟨-, -, heq⟩
  · rw [heq]
    exact ⟨h.owns, h.has, h.call⟩
  · rw [heq]
    exact ⟨h.owns, h.has, Or.inr ⟨.pending, rfl, rfl⟩⟩
  · rw [heq]
    exact ⟨h.owns, h.has, h.call⟩

theorem Memoised.settle (h : Memoised s) (call : ℕ) (p : Promise ε) : Memoised (s.settle call p) := by
  unfold RedisConnection.settle
  split
  · refine ⟨h.owns, h.has, ?_⟩
    rcases h.call with ⟨hcalls, hkept⟩ | ⟨q, hcalls, hkept⟩
    · left
      rw [hcalls]
      exact ⟨rfl, hkept⟩
    · right
      rw [hcalls]
      cases call with
      | zero => exact ⟨p, rfl, hkept⟩
      | succ n => exact ⟨q, rfl, hkept⟩
  · exact h

theorem Memoised.step (h : Memoised s) (event : ConnectEvent ε) : Memoised (s.step event) := by
  cases event with
  | send => exact h.send
  | settle call error => cases error <;> exact h.settle call _
  | client isOpen isReady => exact ⟨h.owns, h.has, h.call⟩

/-- **The store connects once at most.**
Kind: P -/
theorem Memoised.after (events : List (ConnectEvent ε)) : Memoised (RedisConnection.after events) :=
  invariant_run (P := fun _ _ => True) (fun _ event h _ => h.step event) Memoised.owned
    (eachStep_of_forall fun _ _ _ => trivial)

/-- Down means that the one call has been rejected.
Kind: L -/
theorem Memoised.rejected (h : Memoised s) (hmem : Promise.rejected e ∈ s.calls) : Rejected s e := by
  rcases h.call with ⟨hcalls, -⟩ | ⟨p, hcalls, hkept⟩
  · rw [hcalls] at hmem
    exact absurd hmem List.not_mem_nil
  · rw [hcalls, List.mem_singleton] at hmem
    exact ⟨h, by rw [hcalls, hmem], hkept⟩

namespace Rejected

/-- A command that finds the client closed is rejected with the old error.
Kind: P -/
theorem send_of_not_open (h : Rejected s e) (hopen : ¬ s.Open) :
    s.send = { s with sends := s.sends ++ [.failed e] } := by
  rcases h.ensureConnected_cases with ⟨hyes, -⟩ | ⟨-, hcalls, -⟩ | ⟨-, -, heq⟩
  · exact absurd hyes hopen
  · rw [h.calls] at hcalls
    exact absurd hcalls (by simp)
  · unfold RedisConnection.send
    rw [heq]
    simp only [h.calls, List.getD_cons_zero]
    rfl

/-- A settled promise stays as it is.
Kind: L -/
theorem settle (h : Rejected s e) (call : ℕ) (p : Promise ε) : s.settle call p = s := by
  unfold RedisConnection.settle
  rw [h.calls]
  cases call with
  | zero => rfl
  | succ n => rfl

/-- No event brings another call, or changes what has failed.
Kind: P -/
theorem step (h : Rejected s e) (event : ConnectEvent ε) :
    Rejected (s.step event) e ∧ ∃ more, (s.step event).sends = s.sends ++ more := by
  cases event with
  | send =>
      by_cases hopen : s.Open
      · rcases h.ensureConnected_cases with ⟨-, heq⟩ | ⟨hno, -⟩ | ⟨hno, -⟩
        · have hsend : s.send = { s with sends := s.sends ++ [.sent] } := by
            rw [RedisConnection.send, heq]
          show Rejected s.send e ∧ ∃ more, s.send.sends = s.sends ++ more
          rw [hsend]
          exact ⟨⟨⟨h.owns, h.has, h.call⟩, h.calls, h.kept⟩, _, rfl⟩
        · exact absurd hopen hno
        · exact absurd hopen hno
      · show Rejected s.send e ∧ ∃ more, s.send.sends = s.sends ++ more
        rw [h.send_of_not_open hopen]
        exact ⟨⟨⟨h.owns, h.has, h.call⟩, h.calls, h.kept⟩, _, rfl⟩
  | settle call error =>
      have hsame : s.step (.settle call error) = s := by cases error <;> exact h.settle call _
      rw [hsame]
      exact ⟨h, [], (List.append_nil _).symm⟩
  | client isOpen isReady =>
      exact ⟨⟨⟨h.owns, h.has, h.call⟩, h.calls, h.kept⟩, [], (List.append_nil _).symm⟩

/-- The same for every run from there.
Kind: P -/
theorem run (h : Rejected s e) (events : List (ConnectEvent ε)) :
    Rejected (runFrom RedisConnection.step s events) e ∧
      ∃ more, (runFrom RedisConnection.step s events).sends = s.sends ++ more := by
  induction events generalizing s with
  | nil => exact ⟨h, [], (List.append_nil _).symm⟩
  | cons event events ih =>
      obtain ⟨hnext, more, hmore⟩ := h.step event
      obtain ⟨hlast, more', hmore'⟩ := ih hnext
      refine ⟨hlast, more ++ more', ?_⟩
      rw [runFrom_cons, hmore', hmore, List.append_assoc]

end Rejected

/-! ### Main result -/

theorem after_append (before later : List (ConnectEvent ε)) :
    after (before ++ later) = runFrom step (after before) later := runFrom_append step owned before later

/-- What is issued while the store is down fails for good, with the error of the call that was rejected
before, and calls nothing.
Kind: P -/
theorem failed_of_down {before : List (ConnectEvent ε)} (hdown : (after before).Down)
    (later : List (ConnectEvent ε)) :
    ∃ e, (after before).calls = [.rejected e] ∧
      (after (before ++ .send :: later)).calls = [.rejected e] ∧
      (after (before ++ .send :: later)).sends[(after before).sends.length]? = some (.failed e) := by
  obtain ⟨⟨e, hmem⟩, hopen⟩ := hdown
  have hrejected : Rejected (after before) e := (Memoised.after before).rejected hmem
  have hsend : (after before).step .send =
      { after before with sends := (after before).sends ++ [.failed e] } :=
    hrejected.send_of_not_open hopen
  obtain ⟨hlast, more, hmore⟩ := (hrejected.step .send).1.run later
  rw [after_append, runFrom_cons]
  refine ⟨e, hrejected.calls, hlast.calls, ?_⟩
  rw [hmore, hsend, List.append_assoc, List.getElem?_append_right (Nat.le_refl _), Nat.sub_self]
  rfl

/-- It does not recover.
Kind: L -/
theorem not_recovers_of_down {before : List (ConnectEvent ε)} (hdown : (after before).Down)
    (later : List (ConnectEvent ε)) : ¬ Recovers before later := by
  intro h
  obtain ⟨e, hbefore, hcalls, hfailed⟩ := failed_of_down hdown later
  obtain ⟨call, hnow, hold⟩ := h.newError e hfailed
  apply hold
  rw [hbefore, ← hcalls]
  exact hnow

/-- **Nothing recovers from a failed connect**: a run meets the demand exactly when nothing is issued in it
while the store is down, and what is issued then is rejected with the old error, for good and without
another call of `connect()`.
Kind: C -/
theorem recovers_iff (events : List (ConnectEvent ε)) :
    (AllRecover events ↔ EachStep step (fun s event => event = .send → ¬ s.Down) owned events) ∧
      ∀ before later, before ++ .send :: later = events → (after before).Down →
        ∃ e, (after before).calls = [.rejected e] ∧ (after events).calls = [.rejected e] ∧
          (after events).sends[(after before).sends.length]? = some (.failed e) := by
  refine ⟨⟨?_, ?_⟩, ?_⟩
  · intro hall
    induction events using List.reverseRecOn with
    | nil => exact trivial
    | append_singleton events event ih =>
        refine eachStep_append.mpr ⟨ih ?_, ?_, trivial⟩
        · rintro before later rfl hdown
          exact absurd (hall before (later ++ [event]) (by simp) hdown) (not_recovers_of_down hdown _)
        · rintro rfl hdown
          exact not_recovers_of_down hdown [] (hall events [] rfl hdown)
  · rintro hsteps before later rfl hdown
    exact absurd hdown ((eachStep_append.mp hsteps).2.1 rfl)
  · rintro before later rfl hdown
    exact failed_of_down hdown later

/-- The first connect fails. Redis comes up, and another operation is issued.
Kind: D -/
def redisStartsLate : List (ConnectEvent String) :=
  [.send, .settle 0 (some "ECONNREFUSED"), .send]

theorem not_recovers_redisStartsLate :
    ¬ ∀ events : List (ConnectEvent String), AllRecover events := by
  intro h
  have hdown : (after [.send, .settle 0 (some "ECONNREFUSED")] : RedisConnection String).Down :=
    ⟨⟨"ECONNREFUSED", by decide⟩, by decide⟩
  have hrec := h redisStartsLate [.send, .settle 0 (some "ECONNREFUSED")] [] rfl hdown
  obtain ⟨call, hnow, hold⟩ := hrec.newError "ECONNREFUSED" (by decide)
  have hcalls : (after [.send, .settle 0 (some "ECONNREFUSED")] : RedisConnection String).calls =
      (after redisStartsLate).calls := by decide
  apply hold
  rw [hcalls]
  exact hnow

end RedisConnection

end TyoMq.Storage
