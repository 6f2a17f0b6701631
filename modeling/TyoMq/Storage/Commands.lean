import TyoMq.Storage.Ledger
import TyoMq.Storage.Redis

/-!
# Durable messages: the commands of the Redis store

The operations of `lib/storage/redis.js` as the commands that they send one by one, each after the answer
to the one before (`Task`). What an operation does without interruption is what its commands do in a row
(`run_enqueue`, `run_ack`, `run_deadLetter`, `run_discardDlq`).

* Every operation ends (`run_eq_done`).
* A command is sent and carried out at one reading of the clock.
-/

namespace TyoMq.Storage

open TyoMq.Lib

variable {π : Type*}

/-- What is left of an operation: the command it sends next, and what it remembers.
Kind: D -/
inductive Task (π : Type*)
  /-- Nothing. -/
  | done
  /-- `enqueue` sends `SET`. -/
  | enqueueSet (payload : Entry π)
  /-- `enqueue` sends `PEXPIREAT`. -/
  | enqueueExpire (payload : Entry π) (expiresAt : ℤ)
  /-- `enqueue` sends `ZADD`. -/
  | enqueueAdd (payload : Entry π)
  /-- `ack` sends `GET`. -/
  | ackGet (msgId : Text)
  /-- `ack` sends `ZREM`. -/
  | ackRem (indexKey : Key) (msgId : Text)
  /-- `ack` sends `DEL`. -/
  | ackDel (msgId : Text)
  /-- `deadLetter` sends `GET`. -/
  | deadGet (msgId reason : Text)
  /-- `deadLetter` sends `SET`. -/
  | deadSet (dlqEntry : Written π) (msgId : Text)
  /-- `deadLetter` sends `ZADD`. -/
  | deadAdd (realm : Text) (score : ℤ) (msgId : Text)
  /-- `discardDlq` sends `GET`. -/
  | discardGet (msgId : Text) (realm : Option Text)
  /-- `discardDlq` sends `DEL`. -/
  | discardDel (msgId : Text) (entryRealm : Option Text)
  /-- `discardDlq` sends `ZREM`. -/
  | discardRem (entryRealm msgId : Text)
  /-- `countQueued` sends `ZCARD`. -/
  | count (indexKey : Key)

namespace Task

/-- A command is carried out, and its answer determines what is left.
Source: `lib/storage/redis.js`, `RedisStore.prototype.enqueue`, `ack`, `deadLetter`, `discardDlq`,
`countQueued`
Kind: D -/
def step (now : ℤ) (db : RedisStore π) : Task π → RedisStore π × Task π
  | .done => (db, .done)
  | .enqueueSet payload =>
      (db.set (.message payload.id) ⟨payload, none⟩,
        match payload.expires_at with
        | none => .enqueueAdd payload
        | some t => if t = 0 then .enqueueAdd payload else .enqueueExpire payload t)
  | .enqueueExpire payload expiresAt =>
      (db.pexpireat now (.message payload.id) expiresAt, .enqueueAdd payload)
  | .enqueueAdd payload =>
      (db.zadd (RedisStore.indexOf payload) payload.created_at payload.id, .done)
  | .ackGet msgId =>
      (db,
        match db.get now (.message msgId) with
        | none => .ackDel msgId
        | some raw => .ackRem (RedisStore.indexOf raw.entry) msgId)
  | .ackRem indexKey msgId => (db.zrem indexKey msgId, .ackDel msgId)
  | .ackDel msgId => (db.del (.message msgId), .done)
  | .deadGet msgId reason =>
      (db,
        match db.get now (.message msgId) with
        | none => .done
        | some raw => .deadSet ⟨raw.entry, some (orNull reason, now)⟩ msgId)
  | .deadSet dlqEntry msgId =>
      (db.set (.dlqMessage msgId) dlqEntry, .deadAdd dlqEntry.entry.realm now msgId)
  | .deadAdd realm score msgId => (db.zadd (.dlqIndex realm) score msgId, .ackGet msgId)
  | .discardGet msgId realm =>
      (db, .discardDel msgId
        (((db.get now (.dlqMessage msgId)).map fun raw => raw.entry.realm).or realm))
  | .discardDel msgId entryRealm =>
      (db.del (.dlqMessage msgId),
        match entryRealm with
        | none => .done
        | some realm => .discardRem realm msgId)
  | .discardRem realm msgId => (db.zrem (.dlqIndex realm) msgId, .done)
  | .count _ => (db, .done)

/-- The commands are carried out at these readings of the clock.
Kind: D -/
def run (s : RedisStore π × Task π) (times : List ℤ) : RedisStore π × Task π :=
  times.foldl (fun s now => s.2.step now s.1) s

@[simp] theorem run_nil (s : RedisStore π × Task π) : run s [] = s := rfl

@[simp] theorem run_cons (s : RedisStore π × Task π) (now : ℤ) (times : List ℤ) :
    run s (now :: times) = run (s.2.step now s.1) times := rfl

theorem run_append (s : RedisStore π × Task π) (times times' : List ℤ) :
    run s (times ++ times') = run (run s times) times' := List.foldl_append

@[simp] theorem run_done (db : RedisStore π) (times : List ℤ) :
    run (db, .done) times = (db, .done) := by
  induction times with
  | nil => rfl
  | cons now times ih => exact ih

/-- The commands that are left at most.
Kind: D -/
def left : Task π → ℕ
  | .done => 0
  | .enqueueAdd _ | .ackDel _ | .discardRem .. | .count _ => 1
  | .enqueueExpire .. | .ackRem .. | .discardDel .. => 2
  | .enqueueSet _ | .ackGet _ | .discardGet .. => 3
  | .deadAdd .. => 4
  | .deadSet .. => 5
  | .deadGet .. => 6

/-- A command is one less.
Kind: L -/
theorem left_step (now : ℤ) (db : RedisStore π) (task : Task π) :
    (task.step now db).2.left ≤ task.left - 1 := by
  cases task with
  | enqueueSet payload =>
      rw [step]
      dsimp only
      split
      · exact Nat.le_succ 1
      · split_ifs
        · exact Nat.le_succ 1
        · exact Nat.le_refl 2
  | ackGet | deadGet | discardDel =>
      simp only [step]
      split <;> simp [left]
  | _ => exact Nat.le_refl _

/-- Every operation is done after as many commands as it has at most.
Kind: P -/
theorem run_eq_done {db : RedisStore π} {task : Task π} {times : List ℤ}
    (h : task.left ≤ times.length) : (run (db, task) times).2 = .done := by
  have hleft : ∀ (times : List ℤ) (s : RedisStore π × Task π),
      (run s times).2.left ≤ s.2.left - times.length := by
    intro times
    induction times with
    | nil => exact fun s => Nat.le_refl _
    | cons now times ih =>
        intro s
        have hhead := left_step now s.1 s.2
        have htail := ih (s.2.step now s.1)
        rw [run_cons, List.length_cons]
        omega
  have hzero := hleft times (db, task)
  generalize (run (db, task) times).2 = task' at hzero
  have : task'.left = 0 := by
    dsimp only at hzero
    omega
  cases task' <;> first | rfl | exact absurd this (by simp [left])

end Task

/-! ### Whole operations -/

namespace RedisStore

variable (db : RedisStore π) (now : ℤ)

/-- A message is queued by the commands of `enqueue`.
Kind: L -/
theorem run_write (payload : Entry π) :
    Task.run (db, .enqueueSet payload) [now, now, now] =
      ((write db now payload).zadd (indexOf payload) payload.created_at payload.id, .done) := by
  obtain ⟨id, realm, event, consumer, message, producer, created_at, expires_at⟩ := payload
  rcases expires_at with _ | t
  · rfl
  · rw [write]
    by_cases ht : t = 0
    · simp only [Task.run_cons, Task.run_nil, Task.step, ht, if_true]
    · simp only [Task.run_cons, Task.run_nil, Task.step, ht, if_false]

/-- `enqueue` is its commands.
Kind: P -/
theorem run_enqueue (defaultTtl : Ttl) (realm event : Text) (message : Message π) (generated : Text) :
    Task.run (db, .enqueueSet (queued defaultTtl now realm event message generated)) [now, now, now] =
      ((enqueue defaultTtl db now realm event message generated).1, .done) :=
  run_write db now _

/-- `ack` is its commands.
Kind: P -/
theorem run_ack (msgId : Text) :
    Task.run (db, .ackGet msgId) [now, now, now] = (ack db now msgId, .done) := by
  rw [ack]
  simp only [Task.run_cons, Task.run_nil, Task.step]
  rcases db.get now (.message msgId) with _ | raw <;> rfl

/-- `deadLetter` is its commands.
Kind: P -/
theorem run_deadLetter (msgId reason : Text) :
    Task.run (db, .deadGet msgId reason) [now, now, now, now, now, now] =
      ((deadLetter db now msgId reason).1, .done) := by
  rw [deadLetter]
  rcases hget : db.get now (.message msgId) with _ | raw
  · simp only [Task.run_cons, Task.run_nil, Task.step, hget]
  · have hrest : ∀ db, Task.run (db, .deadSet ⟨raw.entry, some (orNull reason, now)⟩ msgId)
        ([now, now] ++ [now, now, now]) =
        (ack ((db.set (.dlqMessage msgId) ⟨raw.entry, some (orNull reason, now)⟩).zadd
          (.dlqIndex raw.entry.realm) now msgId) now msgId, .done) := by
      intro db
      rw [Task.run_append]
      exact run_ack _ now msgId
    have hfirst : Task.step now db (.deadGet msgId reason) =
        (db, .deadSet ⟨raw.entry, some (orNull reason, now)⟩ msgId) := by
      simp only [Task.step, hget]
    rw [Task.run_cons, hfirst]
    exact hrest db

/-- `discardDlq` is its commands.
Kind: P -/
theorem run_discardDlq (msgId : Text) (realm : Option Text) :
    Task.run (db, .discardGet msgId realm) [now, now, now] =
      (discardDlq db now msgId realm, .done) := by
  rw [discardDlq]
  simp only [Task.run_cons, Task.run_nil, Task.step]
  generalize ((db.get now (.dlqMessage msgId)).map fun raw => raw.entry.realm).or realm = entryRealm
  rcases entryRealm with _ | r
  · rfl
  · rfl

end RedisStore

end TyoMq.Storage
