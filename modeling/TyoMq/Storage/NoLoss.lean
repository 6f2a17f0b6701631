import Mathlib.Data.List.Pairwise
import TyoMq.Storage.Interleaving

/-!
# Durable messages: Redis loses none

A message that has been queued, that nobody takes and that does not expire, followed through whatever
several nodes do at the same time: it stays under its key and in the sorted set of its queue, and every
`dequeue` of the queue returns it (`returned`).

* What the argument rests on, of one job (`Task.Respects`, `Fetch.Respects`): only the operation that
  queues the message writes its key, and an id is dropped from a queue only after a `GET` that finds
  nothing, which does not happen while the message is there.
* One lemma for the commands of each kind of job; a run is what they keep together (`Careful`).
-/

namespace TyoMq.Storage

open TyoMq.Lib

variable {π : Type*} {e : Entry π} {T now heard : ℤ} {db db' : RedisStore π}

/-! ### The message in the keyspace -/

/-- The message is under its key, and stays there until after `T`.
Kind: D -/
def Stored (e : Entry π) (T : ℤ) (db : RedisStore π) : Prop :=
  db.get T (.message e.id) = some ⟨e, none⟩

/-- A queue has the id only when the message is there.
Kind: D -/
def Listed (e : Entry π) (T : ℤ) (db : RedisStore π) : Prop :=
  ∀ r ev c, e.id ∈ db.zrange (.index r ev c) → Stored e T db

/-- What a command leaves of the message.
Kind: D -/
structure Kept (e : Entry π) (T : ℤ) (db db' : RedisStore π) : Prop where
  /-- The message stays. -/
  stored : Stored e T db → Stored e T db'
  /-- It stays in its queue. -/
  queued : e.id ∈ db.zrange (RedisStore.indexOf e) → e.id ∈ db'.zrange (RedisStore.indexOf e)
  /-- A queue that has the id has the message. -/
  listed : Listed e T db → Listed e T db'

namespace Kept

theorem refl (e : Entry π) (T : ℤ) (db : RedisStore π) : Kept e T db db := ⟨id, id, id⟩

/-- A command that does nothing to the message and puts its id nowhere.
Kind: L -/
theorem of_same (hget : db'.get T (.message e.id) = db.get T (.message e.id))
    (hqueued : ∀ r ev c, e.id ∈ db'.zrange (.index r ev c) ↔ e.id ∈ db.zrange (.index r ev c)) :
    Kept e T db db' where
  stored h := hget.trans h
  queued h := (hqueued _ _ _).mpr h
  listed h r ev c hin := hget.trans (h r ev c ((hqueued r ev c).mp hin))

/-- A command on the message's key that leaves the message there.
Kind: L -/
theorem of_stored (hsame : ∀ k ≠ Key.message e.id, Redis.SameAt db db' k) (hstored : Stored e T db') :
    Kept e T db db' where
  stored _ := hstored
  queued hin := by
    rwa [Redis.zrange, (hsame (RedisStore.indexOf e) (by simp [RedisStore.indexOf])).zset]
  listed _ _ _ _ _ := hstored

/-- A command on a key that is neither a queue nor the message's.
Kind: L -/
theorem of_key {k : Key} (hsame : ∀ k' ≠ k, Redis.SameAt db db' k') (hmessage : k ≠ .message e.id)
    (hindex : ∀ r ev c, k ≠ .index r ev c) : Kept e T db db' := by
  refine of_same ((hsame _ hmessage.symm).get T) fun r ev c => ?_
  rw [Redis.zrange, (hsame _ (hindex r ev c).symm).zset, ← Redis.zrange]

theorem zrem (k : Key) {msgId : Text} (h : msgId ≠ e.id) : Kept e T db (db.zrem k msgId) :=
  of_same Redis.get_zrem fun _ _ _ =>
    Redis.mem_zrange_zrem.trans (and_iff_left fun hin => h hin.2.symm)

end Kept

/-! ### One job -/

/-- Does what is left of an operation leave the message alone?
Kind: D -/
def Task.Respects (e : Entry π) (T : ℤ) (db : RedisStore π) : Task π → Prop
  | .enqueueSet payload => payload.id = e.id → payload = e
  | .enqueueExpire payload expiresAt =>
      payload.id = e.id → payload = e ∧ T < expiresAt ∧ Stored e T db
  | .enqueueAdd payload => payload.id = e.id → payload = e ∧ Stored e T db
  | .ackGet msgId | .ackRem _ msgId | .ackDel msgId | .deadGet msgId _ | .deadSet _ msgId
  | .deadAdd _ _ msgId => msgId ≠ e.id
  | .done | .discardGet .. | .discardDel .. | .discardRem .. | .count _ => True

/-- The same, for a message that `dequeue` asks for.
Kind: D -/
def Fetch.Respects (e : Entry π) (T : ℤ) (db : RedisStore π) (id : Text) : Fetch π → Prop
  | .ask => id = e.id → Stored e T db
  | .forget => id ≠ e.id
  | .acking task => id ≠ e.id ∧ task.Respects e T db
  | .answered entry => id = e.id → entry = some e

/-- The same, for any job.
Kind: D -/
def Job.Respects (e : Entry π) (T : ℤ) (db : RedisStore π) : Job π → Prop
  | .single task => task.Respects e T db
  | .range indexKey => ∃ r ev c, indexKey = .index r ev c
  | .fetching _ fetches => ∀ f ∈ fetches, f.2.Respects e T db f.1

theorem Task.Respects.mono {task : Task π} (h : task.Respects e T db) (hkept : Kept e T db db') :
    task.Respects e T db' := by
  cases task with
  | enqueueExpire => exact fun hid => ⟨(h hid).1, (h hid).2.1, hkept.stored (h hid).2.2⟩
  | enqueueAdd => exact fun hid => ⟨(h hid).1, hkept.stored (h hid).2⟩
  | _ => exact h

theorem Fetch.Respects.mono {id : Text} {fetch : Fetch π} (h : fetch.Respects e T db id)
    (hkept : Kept e T db db') : fetch.Respects e T db' id := by
  cases fetch with
  | ask => exact fun hid => hkept.stored (h hid)
  | acking => exact ⟨h.1, h.2.mono hkept⟩
  | forget | answered => exact h

theorem Job.Respects.mono {job : Job π} (h : job.Respects e T db) (hkept : Kept e T db db') :
    job.Respects e T db' := by
  cases job with
  | single => exact Task.Respects.mono h hkept
  | range => exact h
  | fetching => exact fun f hf => (h f hf).mono hkept

/-- What is left of an `enqueue` once its text is set respects the message, if it is the message's own.
Kind: L -/
theorem respects_step_enqueueSet {payload : Entry π} (halive : e.alive T = true)
    (h : payload.id = e.id → payload = e ∧ Stored e T (db.set (.message payload.id) ⟨payload, none⟩)) :
    ((Task.enqueueSet payload).step now db).2.Respects e T
      (db.set (.message payload.id) ⟨payload, none⟩) := by
  rw [Task.step]
  dsimp only
  rcases hx : payload.expires_at with _ | x
  · exact h
  · dsimp only
    split_ifs
    · exact h
    · intro hid
      obtain ⟨rfl, hstored⟩ := h hid
      rw [Entry.alive, hx] at halive
      exact ⟨rfl, of_decide_eq_true halive, hstored⟩

/-- The text of an `enqueue` is set: of another message, or of the message itself.
Kind: L -/
theorem kept_step_enqueueSet {payload : Entry π} (h : (Task.enqueueSet payload).Respects e T db)
    (halive : e.alive T = true) :
    Kept e T db ((Task.enqueueSet payload).step now db).1 ∧
      ((Task.enqueueSet payload).step now db).2.Respects e T ((Task.enqueueSet payload).step now db).1 := by
  have hsame : ∀ k ≠ Key.message payload.id, Redis.SameAt db
      (db.set (.message payload.id) ⟨payload, none⟩) k := fun k hk => Redis.SameAt.set db hk _
  by_cases hid : payload.id = e.id
  · obtain rfl := h hid
    have hstored : Stored payload T (db.set (.message payload.id) ⟨payload, none⟩) :=
      Redis.get_set_self
    exact ⟨Kept.of_stored hsame hstored, respects_step_enqueueSet halive fun _ => ⟨rfl, hstored⟩⟩
  · exact ⟨Kept.of_key hsame (by simpa using hid) (by simp),
      respects_step_enqueueSet halive fun hid' => absurd hid' hid⟩

/-- The time at which a text ends is set: the message is alive until later.
Kind: L -/
theorem kept_step_enqueueExpire {payload : Entry π} {expiresAt : ℤ}
    (h : (Task.enqueueExpire payload expiresAt).Respects e T db) (hle : now ≤ T) :
    Kept e T db ((Task.enqueueExpire payload expiresAt).step now db).1 ∧
      ((Task.enqueueExpire payload expiresAt).step now db).2.Respects e T
        ((Task.enqueueExpire payload expiresAt).step now db).1 := by
  have hsame : ∀ k ≠ Key.message payload.id, Redis.SameAt db
      (db.pexpireat now (.message payload.id) expiresAt) k := fun k hk =>
    Redis.SameAt.pexpireat db hk now expiresAt
  by_cases hid : payload.id = e.id
  · obtain ⟨rfl, hlt, hstored⟩ := h hid
    have hstored' : Stored payload T (db.pexpireat now (.message payload.id) expiresAt) := by
      rw [Stored, Redis.get_pexpireat_self (Redis.get_mono hle hstored), if_neg]
      omega
    exact ⟨Kept.of_stored hsame hstored', fun _ => ⟨rfl, hstored'⟩⟩
  · exact ⟨Kept.of_key hsame (by simpa using hid) (by simp), fun hid' => absurd hid' hid⟩

/-- A command of an operation that respects the message.
Kind: L -/
theorem Task.Respects.step {task : Task π} (h : task.Respects e T db) (halive : e.alive T = true)
    (hle : now ≤ T) :
    Kept e T db (task.step now db).1 ∧ (task.step now db).2.Respects e T (task.step now db).1 := by
  cases task with
  | enqueueSet payload => exact kept_step_enqueueSet h halive
  | enqueueExpire payload expiresAt => exact kept_step_enqueueExpire h hle
  | enqueueAdd payload =>
      refine ⟨⟨fun hstored => hstored, fun hin => Redis.mem_zrange_zadd.mpr (Or.inr hin), ?_⟩, trivial⟩
      intro hlisted r ev c hin
      rcases Redis.mem_zrange_zadd.mp hin with ⟨-, hid⟩ | hin
      · exact (h hid.symm).2
      · exact hlisted r ev c hin
  | ackGet msgId =>
      refine ⟨Kept.refl e T db, ?_⟩
      rw [Task.step]
      dsimp only
      split
      · exact h
      · exact h
  | ackRem indexKey msgId => exact ⟨Kept.zrem indexKey h, h⟩
  | ackDel msgId =>
      have hid : msgId ≠ e.id := h
      exact ⟨Kept.of_key (fun k hk => Redis.SameAt.del db hk) (by simpa using hid) (by simp), trivial⟩
  | deadGet msgId reason =>
      refine ⟨Kept.refl e T db, ?_⟩
      rw [Task.step]
      dsimp only
      split
      · exact trivial
      · exact h
  | deadSet dlqEntry msgId =>
      exact ⟨Kept.of_key (fun k hk => Redis.SameAt.set db hk _) (by simp) (by simp), h⟩
  | deadAdd realm score msgId =>
      exact ⟨Kept.of_key (fun k hk => Redis.SameAt.zadd db hk _ _) (by simp) (by simp), h⟩
  | discardDel msgId entryRealm =>
      refine ⟨Kept.of_key (fun k hk => Redis.SameAt.del db hk) (by simp) (by simp), ?_⟩
      rcases entryRealm with _ | realm
      · exact trivial
      · exact trivial
  | discardRem realm msgId =>
      exact ⟨Kept.of_key (fun k hk => Redis.SameAt.zrem db hk _) (by simp) (by simp), trivial⟩
  | done | discardGet | count => exact ⟨Kept.refl e T db, trivial⟩

/-- A command of a `dequeue` that respects the message, for one id.
Kind: L -/
theorem Fetch.Respects.step {id : Text} {fetch : Fetch π} (h : fetch.Respects e T db id)
    (halive : e.alive T = true) (hle : now ≤ T) (hheard : heard ≤ T) (indexKey : Key) :
    Kept e T db (fetch.step now heard indexKey id db).1 ∧
      (fetch.step now heard indexKey id db).2.Respects e T (fetch.step now heard indexKey id db).1 id := by
  cases fetch with
  | ask =>
      refine ⟨Kept.refl e T db, ?_⟩
      rw [Fetch.step]
      dsimp only
      by_cases hid : id = e.id
      · have hexpired : RedisStore.isExpired heard e = false := by
          have halive' := Entry.alive_mono halive hheard
          rw [Entry.alive] at halive'
          rw [RedisStore.isExpired]
          rcases hx : e.expires_at with _ | x
          · rfl
          · rw [hx] at halive'
            have : heard < x := of_decide_eq_true halive'
            exact decide_eq_false (by omega)
        rw [hid, Redis.get_mono hle (h hid)]
        dsimp only
        rw [hexpired]
        exact fun _ => rfl
      · split
        · exact hid
        · split_ifs
          · exact ⟨hid, hid⟩
          · exact fun hid' => absurd hid' hid
  | forget => exact ⟨Kept.zrem indexKey h, fun hid => absurd hid h⟩
  | acking task =>
      obtain ⟨hid, htask⟩ := h
      obtain ⟨hkept, hnext⟩ := htask.step halive hle
      refine ⟨hkept, ?_⟩
      rw [Fetch.step]
      dsimp only
      split
      · exact fun hid' => absurd hid' hid
      · exact ⟨hid, hnext⟩
  | answered entry => exact ⟨Kept.refl e T db, h⟩

/-- A command of any job that respects the message.
Kind: P -/
theorem Job.Respects.step {job : Job π} (h : job.Respects e T db) (hlisted : Listed e T db)
    (halive : e.alive T = true) (hle : now ≤ T) (hheard : heard ≤ T) (i : ℕ) :
    Kept e T db (job.step now heard i db).1 ∧
      (job.step now heard i db).2.Respects e T (job.step now heard i db).1 := by
  cases job with
  | single task => exact Task.Respects.step h halive hle
  | range indexKey =>
      obtain ⟨r, ev, c, rfl⟩ := h
      refine ⟨Kept.refl e T db, ?_⟩
      intro f hf
      obtain ⟨id, hin, rfl⟩ := List.mem_map.mp hf
      exact fun hid => hlisted r ev c (hid ▸ hin)
  | fetching indexKey fetches =>
      rw [Job.step]
      rcases hf : fetches[i]? with _ | ⟨id, fetch⟩
      · exact ⟨Kept.refl e T db, h⟩
      · have hmem : (id, fetch) ∈ fetches := List.mem_of_getElem? hf
        obtain ⟨hkept, hnext⟩ := (h _ hmem).step halive hle hheard indexKey
        refine ⟨hkept, fun f hf' => ?_⟩
        rcases List.mem_or_eq_of_mem_set hf' with hold | rfl
        · exact (h f hold).mono hkept
        · exact hnext

/-- What is left of the operation that queues the message; when nothing is, the message is queued.
Kind: D -/
def Job.Queues (e : Entry π) (db : RedisStore π) : Job π → Prop
  | .single (.enqueueSet payload) | .single (.enqueueExpire payload _)
  | .single (.enqueueAdd payload) => payload = e
  | .single .done => e.id ∈ db.zrange (RedisStore.indexOf e)
  | _ => False

theorem Job.Queues.mono {job : Job π} (h : job.Queues e db) (hkept : Kept e T db db') :
    job.Queues e db' := by
  unfold Job.Queues at h ⊢
  split at h
  · exact h
  · exact h
  · exact h
  · exact hkept.queued h
  · exact h

theorem Job.Queues.step {job : Job π} (h : job.Queues e db) (now heard : ℤ) (i : ℕ) :
    (job.step now heard i db).2.Queues e (job.step now heard i db).1 := by
  unfold Job.Queues at h
  split at h
  · subst h
    rw [Job.step, Task.step]
    dsimp only
    split
    · rfl
    · split_ifs <;> rfl
  · exact h
  · subst h
    exact Redis.mem_zrange_zadd.mpr (Or.inl ⟨rfl, rfl⟩)
  · exact h
  · exact h.elim

/-- Does what is left of a `dequeue` ask for the message, or has it been asked for?
Kind: D -/
def Job.Sees (e : Entry π) : Job π → Prop
  | .single _ => False
  | .range indexKey => indexKey = RedisStore.indexOf e
  | .fetching _ fetches => ∃ f ∈ fetches, f.1 = e.id

theorem Job.Sees.step {job : Job π} (h : job.Sees e)
    (hqueued : e.id ∈ db.zrange (RedisStore.indexOf e)) (now heard : ℤ) (i : ℕ) :
    (job.step now heard i db).2.Sees e := by
  cases job with
  | single => exact h.elim
  | range =>
      obtain rfl := h
      exact ⟨(e.id, .ask), List.mem_map.mpr ⟨e.id, hqueued, rfl⟩, rfl⟩
  | fetching indexKey fetches =>
      rw [Job.step]
      rcases hi : fetches[i]? with _ | ⟨id, fetch⟩
      · exact h
      · obtain ⟨f, hf, hid⟩ := h
        obtain ⟨m, hm⟩ := List.mem_iff_getElem?.mp hf
        by_cases hmi : i = m
        · subst hmi
          obtain rfl := Option.some.inj (hm.symm.trans hi)
          obtain ⟨hlt, -⟩ := List.getElem?_eq_some_iff.mp hi
          exact ⟨_, List.mem_iff_getElem?.mpr ⟨i, List.getElem?_set_self hlt⟩, hid⟩
        · refine ⟨f, List.mem_iff_getElem?.mpr ⟨m, ?_⟩, hid⟩
          rwa [List.getElem?_set_ne hmi]

/-- What a `dequeue` that sees the message returns has it.
Kind: L -/
theorem Job.Sees.mem_answer {job : Job π} (h : job.Sees e) (hrespects : job.Respects e T db)
    {answer : List (Entry π)} (hanswer : job.answer = some answer) : e ∈ answer := by
  cases job with
  | single => exact h.elim
  | range => exact absurd hanswer (by simp [Job.answer])
  | fetching indexKey fetches =>
      obtain ⟨f, hf, hid⟩ := h
      rw [Job.answer] at hanswer
      split_ifs at hanswer with hall
      obtain rfl := Option.some.inj hanswer
      have hknown := List.all_eq_true.mp hall f hf
      have hf' := hrespects f hf
      obtain ⟨id, fetch⟩ := f
      refine List.mem_filterMap.mpr ⟨(id, fetch), hf, ?_⟩
      cases fetch with
      | answered entry =>
          have hentry : entry = some e := hf' hid
          rw [hentry]
          rfl
      | ask | forget | acking => exact absurd hknown (by simp [Fetch.answer])

/-! ### Runs -/

/-- An event that does not take the message, queues no other message with its id, and happens before the
message expires.
Kind: D -/
structure Event.Harmless (defaultTtl : Ttl) (e : Entry π) (T : ℤ) (ev : Event π) : Prop where
  /-- The clock is not past `T`. -/
  reading : ∀ t ∈ ev.readings, t ≤ T
  /-- The message is not taken. -/
  notTaken : ¬ ev.Takes e.id
  /-- A message with the id is the message. -/
  same : ∀ now request, ev = .call now request → ∀ payload, request.entry defaultTtl now = some payload →
    payload.id = e.id → payload = e

/-- What harmless events keep.
Kind: D -/
structure Careful (defaultTtl : Ttl) (e : Entry π) (T : ℤ) (s : Nodes π) : Prop where
  /-- A queue has the id only when the message is there. -/
  listed : Listed e T s.db
  /-- All operations respect the message. -/
  respects : ∀ c ∈ s.called, c.job.Respects e T s.db
  /-- The operation that queues it has queued it when it is done. -/
  queues : ∀ c ∈ s.called, c.request.entry defaultTtl c.since = some e → c.job.Queues e s.db

namespace Careful

variable {defaultTtl : Ttl} {s : Nodes π}

theorem init (defaultTtl : Ttl) (e : Entry π) (T : ℤ) : Careful defaultTtl e T (Nodes.init : Nodes π) :=
  ⟨fun _ _ _ h => absurd h (by simp [Nodes.init, Redis.zrange, Redis.zset, Redis.empty,
    SortedSet.empty, SortedSet.range]), by simp [Nodes.init], by simp [Nodes.init]⟩

/-- A job that has just been called.
Kind: L -/
theorem respects_job {request : Request π} (hharmless : (Event.call now request).Harmless defaultTtl e T) :
    (request.job defaultTtl now).Respects e T db := by
  have hnot := hharmless.notTaken
  cases request with
  | enqueue realm event message generated =>
      exact hharmless.same now _ rfl _ rfl
  | dequeue realm event consumer => exact ⟨_, _, _, rfl⟩
  | ack | deadLetter => exact hnot
  | discardDlq => exact trivial
  | countQueued realm event consumer =>
      rcases event with _ | event
      · exact trivial
      · rcases consumer with _ | consumer
        · exact trivial
        · exact trivial

/-- Every harmless event keeps it, and what there is of the message.
Kind: P -/
theorem step (h : Careful defaultTtl e T s) (halive : e.alive T = true) {ev : Event π}
    (hharmless : ev.Harmless defaultTtl e T) :
    Careful defaultTtl e T (s.step defaultTtl ev) ∧ Kept e T s.db (s.step defaultTtl ev).db := by
  cases ev with
  | call now request =>
      refine ⟨⟨h.listed, fun c hc => ?_, fun c hc hentry => ?_⟩, Kept.refl e T s.db⟩
      · rcases List.mem_append.mp hc with hc | hc
        · exact h.respects c hc
        · rw [List.mem_singleton.mp hc]
          exact respects_job hharmless
      · rcases List.mem_append.mp hc with hc | hc
        · exact h.queues c hc hentry
        · obtain rfl := List.mem_singleton.mp hc
          cases request with
          | enqueue => exact Option.some.inj hentry
          | dequeue | ack | deadLetter | discardDlq | countQueued => exact absurd hentry (by simp [Request.entry])
  | command now heard j i =>
      have hle : now ≤ T := hharmless.reading now (by simp [Event.readings])
      have hheard : heard ≤ T := hharmless.reading heard (by simp [Event.readings])
      rw [Nodes.step]
      rcases hj : s.called[j]? with _ | c
      · exact ⟨h, Kept.refl e T s.db⟩
      · have hmem : c ∈ s.called := List.mem_of_getElem? hj
        obtain ⟨hkept, hnext⟩ := (h.respects c hmem).step h.listed halive hle hheard i
        refine ⟨⟨hkept.listed h.listed, fun c' hc' => ?_, fun c' hc' hentry => ?_⟩, hkept⟩
        · rcases List.mem_or_eq_of_mem_set hc' with hc' | rfl
          · exact (h.respects c' hc').mono hkept
          · exact hnext
        · rcases List.mem_or_eq_of_mem_set hc' with hc' | rfl
          · exact (h.queues c' hc' hentry).mono hkept
          · exact (h.queues c hmem hentry).step now heard i

end Careful

/-- The message is queued, and every `dequeue` of its queue from the `n`th operation on sees it.
Kind: D -/
structure Seen (defaultTtl : Ttl) (e : Entry π) (T : ℤ) (n : ℕ) (s : Nodes π) : Prop where
  /-- The operations respect the message. -/
  careful : Careful defaultTtl e T s
  /-- It is queued. -/
  queued : e.id ∈ s.db.zrange (RedisStore.indexOf e)
  /-- There are that many operations. -/
  le : n ≤ s.called.length
  /-- The operations from there on see it. -/
  sees : ∀ j ≥ n, ∀ c, s.called[j]? = some c → c.request.IsDequeueOf e → c.job.Sees e

/-- Every harmless event keeps it.
Kind: P -/
theorem Seen.step {defaultTtl : Ttl} {n : ℕ} {s : Nodes π} (h : Seen defaultTtl e T n s)
    (halive : e.alive T = true) {ev : Event π} (hharmless : ev.Harmless defaultTtl e T) :
    Seen defaultTtl e T n (s.step defaultTtl ev) := by
  obtain ⟨hcareful, hkept⟩ := h.careful.step halive hharmless
  refine ⟨hcareful, hkept.queued h.queued, ?_, ?_⟩
  · cases ev with
    | call now request =>
        have hle := h.le
        simp only [Nodes.step, List.length_append]
        omega
    | command now heard j i =>
        rw [Nodes.step]
        split
        · exact h.le
        · rw [List.length_set]
          exact h.le
  · intro m hm c hc hdequeue
    cases ev with
    | call now request =>
        simp only [Nodes.step, List.getElem?_append] at hc
        split_ifs at hc
        · exact h.sees m hm c hc hdequeue
        · obtain rfl := List.mem_singleton.mp (List.mem_of_getElem? hc)
          cases request with
          | dequeue realm event consumer =>
              obtain ⟨hrealm, hevent, hconsumer⟩ := Entry.isIn_iff.mp hdequeue
              show Key.index (realmOr realm) event consumer = RedisStore.indexOf e
              rw [RedisStore.indexOf, hrealm, hevent, hconsumer]
          | enqueue | ack | deadLetter | discardDlq | countQueued => exact hdequeue.elim
    | command now heard j i =>
        rw [Nodes.step] at hc
        rcases hj : s.called[j]? with _ | c'
        · rw [hj] at hc
          exact h.sees m hm c hc hdequeue
        · rw [hj] at hc
          by_cases hjm : j = m
          · subst hjm
            obtain ⟨hlt, -⟩ := List.getElem?_eq_some_iff.mp hj
            dsimp only at hc
            rw [List.getElem?_set_self hlt] at hc
            obtain rfl := Option.some.inj hc
            exact (h.sees j hm c' hj hdequeue).step h.queued now heard i
          · dsimp only at hc
            rw [List.getElem?_set_ne hjm] at hc
            exact h.sees m hm c hc hdequeue

/-- Runs of harmless events.
Kind: P -/
theorem Careful.run {defaultTtl : Ttl} {s : Nodes π} (h : Careful defaultTtl e T s)
    (halive : e.alive T = true) {events : List (Event π)}
    (hevents : ∀ ev ∈ events, ev.Harmless defaultTtl e T) :
    Careful defaultTtl e T (runFrom (Nodes.step defaultTtl) s events) :=
  invariant_run (P := fun _ ev => ev.Harmless defaultTtl e T) (fun _ _ h hev => (h.step halive hev).1) h
    (eachStep_of_forall fun ev hev _ => hevents ev hev)

theorem Seen.run {defaultTtl : Ttl} {n : ℕ} {s : Nodes π} (h : Seen defaultTtl e T n s)
    (halive : e.alive T = true) {events : List (Event π)}
    (hevents : ∀ ev ∈ events, ev.Harmless defaultTtl e T) :
    Seen defaultTtl e T n (runFrom (Nodes.step defaultTtl) s events) :=
  invariant_run (P := fun _ ev => ev.Harmless defaultTtl e T) (fun _ _ h hev => h.step halive hev) h
    (eachStep_of_forall fun ev hev _ => hevents ev hev)

/-- The operations called are those of the events.
Kind: L -/
theorem Nodes.mem_events (defaultTtl : Ttl) {events : List (Event π)} {c : Called π}
    (hc : c ∈ (Nodes.run defaultTtl events).called) : .call c.since c.request ∈ events := by
  induction events using List.reverseRecOn generalizing c with
  | nil => exact absurd hc (by simp [Nodes.run, Nodes.init])
  | append_singleton events ev ih =>
      rw [Nodes.run, runFrom_append, runFrom_cons, runFrom_nil] at hc
      cases ev with
      | call now request =>
          rcases List.mem_append.mp hc with hc | hc
          · exact List.mem_append_left _ (ih hc)
          · rw [List.mem_singleton.mp hc]
            exact List.mem_append_right _ (List.mem_singleton_self _)
      | command now heard j i =>
          apply List.mem_append_left
          rw [Nodes.step] at hc
          split at hc
          · exact ih hc
          · rename_i c' hj
            rcases List.mem_or_eq_of_mem_set hc with hc | rfl
            · exact ih hc
            · have hmem : c' ∈ (Nodes.run defaultTtl events).called := List.mem_of_getElem? hj
              exact ih (c := c') hmem

/-- Where the ids are distinct, all that is needed of a run is that nobody takes the message.
Kind: L -/
theorem harmless_of_distinct {defaultTtl : Ttl} {events : List (Event π)}
    (hdistinct : (events.flatMap Event.newIds).Nodup) (hle : ∀ ev ∈ events, ∀ t ∈ ev.readings, t ≤ T)
    (hnone : ∀ ev ∈ events, ¬ ev.Takes e.id) {since : ℤ} {request : Request π}
    (hcall : .call since request ∈ events) (hentry : request.entry defaultTtl since = some e) :
    ∀ ev ∈ events, ev.Harmless defaultTtl e T := by
  intro ev hev
  refine ⟨hle ev hev, hnone ev hev, ?_⟩
  rintro now request' rfl payload hpayload hid
  have hnew : ∀ (now : ℤ) (request : Request π) payload, request.entry defaultTtl now = some payload →
      payload.id ∈ (Event.call now request).newIds := by
    intro now request payload h
    cases request with
    | enqueue =>
        obtain rfl := Option.some.inj h
        exact List.mem_singleton_self _
    | dequeue | ack | deadLetter | discardDlq | countQueued => exact absurd h (by simp [Request.entry])
  have hsame : Event.call now request' = Event.call since request := by
    by_contra hne
    have : Std.Symm (Function.onFun List.Disjoint (Event.newIds (π := π))) :=
      ⟨fun _ _ h _ hm hm' => h hm' hm⟩
    have hdisjoint := (List.nodup_flatMap.mp hdistinct).2.forall hev hcall hne
    exact hdisjoint (hnew now request' payload hpayload) (hid ▸ hnew since request e hentry)
  cases hsame
  exact Option.some.inj (hpayload.symm.trans hentry)

/-! ### Every `dequeue` returns -/

/-- A `dequeue` that has asked for its messages returns after some commands more, whatever has happened
in between.
Kind: L -/
theorem Nodes.exists_commands (defaultTtl : Ttl) (now : ℤ) (j : ℕ) {s : Nodes π} {c : Called π}
    (hc : s.called[j]? = some c) {indexKey : Key} {fetches : List (Text × Fetch π)}
    (hjob : c.job = .fetching indexKey fetches) :
    ∃ commands : List ℕ, ∃ c', (runFrom (Nodes.step defaultTtl) s
      (commands.map fun i => .command now now j i)).called[j]? = some c' ∧
        c'.request = c.request ∧ c'.job.answer ≠ none := by
  induction hleft : c.job.left using Nat.strong_induction_on generalizing s c fetches with
  | _ n ih =>
      by_cases hnone : c.job.answer = none
      · -- some message is not known about; a command for it is one less
        have hpos : ∃ (i : ℕ) (f : Text × Fetch π), fetches[i]? = some f ∧ f.2.left ≠ 0 := by
          by_contra hall
          simp only [not_exists, not_and, not_not] at hall
          rw [hjob, Job.answer_eq_none_iff] at hnone
          apply hnone
          rw [Job.left, List.sum_eq_zero_iff_forall_eq_nat]
          intro x hx
          obtain ⟨f, hf, rfl⟩ := List.mem_map.mp hx
          obtain ⟨i, hi⟩ := List.mem_iff_getElem?.mp hf
          exact hall i f hi
        obtain ⟨i, f, hi, hf⟩ := hpos
        have hstep : s.step defaultTtl (.command now now j i) =
            ⟨(c.job.step now now i s.db).1,
              s.called.set j { c with job := (c.job.step now now i s.db).2 }⟩ := by
          rw [Nodes.step, hc]
        have hnext : (s.step defaultTtl (.command now now j i)).called[j]? =
            some { c with job := (c.job.step now now i s.db).2 } := by
          rw [hstep]
          exact List.getElem?_set_self (List.getElem?_eq_some_iff.mp hc).1
        have hlt := Job.left_step_lt now now s.db indexKey hi hf
        rw [← hjob, hleft] at hlt
        have hfetching : ∃ fetches', (c.job.step now now i s.db).2 = .fetching indexKey fetches' := by
          rw [hjob, Job.step, hi]
          exact ⟨_, rfl⟩
        obtain ⟨fetches', hfetches'⟩ := hfetching
        obtain ⟨commands, c', hc', hrequest, hanswer⟩ := ih _ hlt hnext hfetches' rfl
        exact ⟨i :: commands, c', hc', hrequest, hanswer⟩
      · exact ⟨[], c, hc, rfl, hnone⟩

/-- So does one that sees a message.
Kind: L -/
theorem Nodes.exists_commands_of_sees (defaultTtl : Ttl) (now : ℤ) (j : ℕ) {s : Nodes π} {c : Called π}
    (hc : s.called[j]? = some c) (hsees : c.job.Sees e) :
    ∃ commands : List ℕ, ∃ c', (runFrom (Nodes.step defaultTtl) s
      (commands.map fun i => .command now now j i)).called[j]? = some c' ∧
        c'.request = c.request ∧ c'.job.answer ≠ none := by
  rcases hjob : c.job with task | indexKey | ⟨indexKey, fetches⟩
  · rw [hjob] at hsees
    exact hsees.elim
  · have hnext : (s.step defaultTtl (.command now now j 0)).called[j]? =
        some { c with job := (c.job.step now now 0 s.db).2 } := by
      rw [Nodes.step, hc]
      exact List.getElem?_set_self (List.getElem?_eq_some_iff.mp hc).1
    obtain ⟨commands, c', hc', hrequest, hanswer⟩ := Nodes.exists_commands defaultTtl now j hnext
      (show (c.job.step now now 0 s.db).2 = .fetching indexKey _ by rw [hjob]; rfl)
    exact ⟨0 :: commands, c', hc', hrequest, hanswer⟩
  · exact Nodes.exists_commands defaultTtl now j hc hjob

/-- **Redis loses no message.** Once a message is queued, and as long as it has not expired and nobody
takes it, it stays in the keyspace and in its queue, and every `dequeue` of the queue that is called
afterwards returns it.
Kind: P -/
theorem returned (defaultTtl : Ttl) {before after : List (Event π)} {T : ℤ} {c : Called π} {e : Entry π}
    (hdistinct : ((before ++ after).flatMap Event.newIds).Nodup)
    (hle : ∀ ev ∈ before ++ after, ∀ t ∈ ev.readings, t ≤ T)
    (hc : c ∈ (Nodes.run defaultTtl before).called)
    (hentry : c.request.entry defaultTtl c.since = some e) (hdone : c.job = .single .done)
    (halive : e.alive T = true) (hnone : ∀ ev ∈ before ++ after, ¬ ev.Takes e.id) :
    let s := Nodes.run defaultTtl (before ++ after)
    s.db.get T (.message e.id) = some ⟨e, none⟩ ∧ e.id ∈ s.db.zrange (RedisStore.indexOf e) ∧
      ∀ j ≥ (Nodes.run defaultTtl before).called.length, ∀ c', s.called[j]? = some c' →
        c'.request.IsDequeueOf e →
          (∀ answer, c'.job.answer = some answer → e ∈ answer) ∧
          ∃ commands : List ℕ, ∃ c'', (runFrom (Nodes.step defaultTtl) s
            (commands.map fun i => .command T T j i)).called[j]? = some c'' ∧
              ∃ answer, c''.job.answer = some answer ∧ e ∈ answer := by
  intro s
  have hharmless := harmless_of_distinct hdistinct hle hnone
    (List.mem_append_left after (Nodes.mem_events defaultTtl hc)) hentry
  have hbefore : Careful defaultTtl e T (Nodes.run defaultTtl before) :=
    (Careful.init defaultTtl e T).run halive fun ev hev => hharmless ev (List.mem_append_left after hev)
  have hqueued : e.id ∈ (Nodes.run defaultTtl before).db.zrange (RedisStore.indexOf e) := by
    have := hbefore.queues c hc hentry
    rwa [hdone] at this
  have hstart : Seen defaultTtl e T (Nodes.run defaultTtl before).called.length
      (Nodes.run defaultTtl before) := by
    refine ⟨hbefore, hqueued, le_refl _, fun j hj c' hc' _ => ?_⟩
    rw [List.getElem?_eq_none hj] at hc'
    exact absurd hc' (by simp)
  have hs : Seen defaultTtl e T (Nodes.run defaultTtl before).called.length s := by
    have := hstart.run halive fun ev hev => hharmless ev (List.mem_append_right before hev)
    rwa [Nodes.run, ← runFrom_append] at this
  have hstored : Stored e T s.db := hs.careful.listed _ _ _ hs.queued
  refine ⟨hstored, hs.queued, fun j hj c' hc' hdequeue => ⟨fun answer hanswer => ?_, ?_⟩⟩
  · have hrespects := hs.careful.respects c' (List.mem_of_getElem? hc')
    exact (hs.sees j hj c' hc' hdequeue).mem_answer hrespects hanswer
  · obtain ⟨commands, c'', hc'', hrequest, hanswer⟩ := Nodes.exists_commands_of_sees defaultTtl T j hc'
      (hs.sees j hj c' hc' hdequeue)
    obtain ⟨answer, hanswer⟩ := Option.ne_none_iff_exists'.mp hanswer
    have hcommands : ∀ ev ∈ commands.map fun i => (.command T T j i : Event π),
        ev.Harmless defaultTtl e T := by
      intro ev hev
      obtain ⟨i, -, rfl⟩ := List.mem_map.mp hev
      exact ⟨by simp [Event.readings], fun h => h, fun _ _ h => by cases h⟩
    have hlast := hs.run halive hcommands
    refine ⟨commands, c'', hc'', answer, hanswer, ?_⟩
    have hrespects := hlast.careful.respects c'' (List.mem_of_getElem? hc'')
    rw [← hrequest] at hdequeue
    exact (hlast.sees j hj c'' hc'' hdequeue).mem_answer hrespects hanswer

/-- A message is queued at one node while another asks for it, in vain, and after that once more.
Kind: D -/
def meanwhile : List (Event ℕ) × List (Event ℕ) :=
  ([.call 1 (.dequeue [] (ascii "tick") (ascii "w")), .call 2 (.enqueue [] (ascii "tick")
      ⟨ascii "a", ascii "w", [], 7, [], some (some 1000)⟩ []),
      .command 2 2 1 0, .command 3 3 0 0, .command 3 3 1 0, .command 4 4 1 0],
    [.call 5 (.dequeue [] (ascii "tick") (ascii "w")), .command 5 5 2 0, .command 6 7 2 0])

/-- The message.
Kind: D -/
def tick : Entry ℕ :=
  queued none 2 [] (ascii "tick") ⟨ascii "a", ascii "w", [], 7, [], some (some 1000)⟩ []

theorem returned_meanwhile :
    let s := Nodes.run none (meanwhile.1 ++ meanwhile.2)
    s.db.get 7 (.message tick.id) = some ⟨tick, none⟩ ∧
      tick.id ∈ s.db.zrange (RedisStore.indexOf tick) ∧
      ∀ j ≥ (Nodes.run none meanwhile.1).called.length, ∀ c', s.called[j]? = some c' →
        c'.request.IsDequeueOf tick →
          (∀ answer, c'.job.answer = some answer → tick ∈ answer) ∧
          ∃ commands : List ℕ, ∃ c'', (runFrom (Nodes.step none) s
            (commands.map fun i => .command 7 7 j i)).called[j]? = some c'' ∧
              ∃ answer, c''.job.answer = some answer ∧ tick ∈ answer := by
  have hc : ⟨.enqueue [] (ascii "tick") ⟨ascii "a", ascii "w", [], 7, [], some (some 1000)⟩ [], 2,
      .single .done⟩ ∈ (Nodes.run none meanwhile.1).called :=
    List.mem_of_getElem? (i := 1) rfl
  refine returned none (by decide) (by decide) hc rfl rfl rfl ?_
  simp [meanwhile, Event.Takes, Request.Takes]

end TyoMq.Storage
