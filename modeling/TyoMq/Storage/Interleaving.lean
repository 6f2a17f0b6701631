import Mathlib.Algebra.GroupWithZero.Nat
import TyoMq.Lib.Runs
import TyoMq.Storage.Commands

/-!
# Durable messages: several nodes on one Redis

The operations of all nodes that use one Redis, each a job of which one command after the other is
carried out, while those of the others go on in between (`Nodes`).

* `dequeue` asks for all messages of its queue at once, and acts on each answer by itself (`Fetch`).
* A command is carried out at one reading of the clock, and its answer heard at another.
* A `dequeue` that nothing comes in between of does what it does as a whole (`alone_dequeue`).
-/

namespace TyoMq.Storage

open TyoMq.Lib

variable {π : Type*}

/-! ### One message of a queue -/

/-- What is left of asking for a message, and acting on the answer.
Kind: D -/
inductive Fetch (π : Type*)
  /-- `dequeue` sends `GET`. -/
  | ask
  /-- `dequeue` sends `ZREM`. -/
  | forget
  /-- `dequeue` has called `ack`. -/
  | acking (task : Task π)
  /-- What is returned for the id. -/
  | answered (entry : Option (Entry π))

namespace Fetch

/-- A command is carried out, and its answer heard.
Source: `lib/storage/redis.js`, `RedisStore.prototype.dequeue`
Kind: D -/
def step (now heard : ℤ) (indexKey : Key) (id : Text) (db : RedisStore π) :
    Fetch π → RedisStore π × Fetch π
  | .ask =>
      (db,
        match db.get now (.message id) with
        | none => .forget
        | some raw =>
            if RedisStore.isExpired heard raw.entry then .acking (.ackGet id)
            else .answered (some raw.entry))
  | .forget => (db.zrem indexKey id, .answered none)
  | .acking task =>
      ((task.step now db).1,
        match (task.step now db).2 with
        | .done => .answered none
        | task => .acking task)
  | .answered entry => (db, .answered entry)

/-- What is returned, once it is known.
Kind: D -/
def answer : Fetch π → Option (Option (Entry π))
  | .answered entry => some entry
  | _ => none

/-- The commands that are left at most.
Kind: D -/
def left : Fetch π → ℕ
  | .ask => 5
  | .forget => 1
  | .acking task => task.left + 1
  | .answered _ => 0

/-- A command is one less.
Kind: L -/
theorem left_step (now heard : ℤ) (indexKey : Key) (id : Text) (db : RedisStore π) (fetch : Fetch π) :
    (fetch.step now heard indexKey id db).2.left ≤ fetch.left - 1 := by
  cases fetch with
  | ask =>
      simp only [step]
      split
      · exact Nat.le_add_left 1 3
      · split_ifs
        · exact Nat.le_refl 4
        · exact Nat.zero_le _
  | acking task =>
      have hleft := Task.left_step now db task
      simp only [step]
      generalize (task.step now db).2 = task' at hleft
      have hpos : task' = .done ∨ 0 < task'.left := by
        cases task' <;> simp [Task.left]
      split
      · exact Nat.zero_le _
      · rename_i hne
        have := hpos.resolve_left fun h => hne h
        simp only [left]
        omega
  | forget | answered => exact Nat.zero_le _

/-- When none are left, it is known what is returned.
Kind: L -/
theorem answer_eq_none_iff {fetch : Fetch π} : fetch.answer = none ↔ fetch.left ≠ 0 := by
  cases fetch <;> simp [answer, left]

end Fetch

/-! ### Jobs -/

/-- What is left of an operation.
Kind: D -/
inductive Job (π : Type*)
  /-- The commands come one after the other. -/
  | single (task : Task π)
  /-- `dequeue` sends `ZRANGE`. -/
  | range (indexKey : Key)
  /-- `dequeue` has asked for the messages with these ids. -/
  | fetching (indexKey : Key) (fetches : List (Text × Fetch π))

namespace Job

/-- A command is carried out, the next one of the `i`th message where there are several.
Source: `lib/storage/redis.js`, `RedisStore.prototype.dequeue`
Kind: D -/
def step (now heard : ℤ) (i : ℕ) (db : RedisStore π) : Job π → RedisStore π × Job π
  | .single task => ((task.step now db).1, .single (task.step now db).2)
  | .range indexKey => (db, .fetching indexKey ((db.zrange indexKey).map fun id => (id, .ask)))
  | .fetching indexKey fetches =>
      match fetches[i]? with
      | none => (db, .fetching indexKey fetches)
      | some (id, fetch) =>
          ((fetch.step now heard indexKey id db).1,
            .fetching indexKey (fetches.set i (id, (fetch.step now heard indexKey id db).2)))

/-- What `dequeue` returns, once all is known.
Source: `lib/storage/redis.js`, `RedisStore.prototype.dequeue`
Kind: D -/
def answer : Job π → Option (List (Entry π))
  | .fetching _ fetches =>
      if fetches.all fun f => f.2.answer.isSome then some (fetches.filterMap fun f => f.2.answer.join)
      else none
  | _ => none

/-- The commands that are left at most, of a `dequeue` that has asked for its messages.
Kind: D -/
def left : Job π → ℕ
  | .fetching _ fetches => (fetches.map fun f => f.2.left).sum
  | _ => 0

/-- A command for a message that is not yet known about is one less.
Kind: P -/
theorem left_step_lt (now heard : ℤ) (db : RedisStore π) (indexKey : Key)
    {fetches : List (Text × Fetch π)} {i : ℕ} {f : Text × Fetch π} (hf : fetches[i]? = some f)
    (hleft : f.2.left ≠ 0) :
    (step now heard i db (.fetching indexKey fetches)).2.left < (fetching indexKey fetches).left := by
  obtain ⟨id, fetch⟩ := f
  have hstep := fetch.left_step now heard indexKey id db
  simp only [step, hf, left]
  generalize (fetch.step now heard indexKey id db).2 = fetch' at hstep
  induction fetches generalizing i with
  | nil => exact absurd hf (by simp)
  | cons a fetches ih =>
      cases i with
      | zero =>
          obtain rfl : a = (id, fetch) := by simpa using hf
          simp only [List.set_cons_zero, List.map_cons, List.sum_cons]
          dsimp only at hleft
          omega
      | succ i =>
          have := ih (by simpa using hf)
          simp only [List.set_cons_succ, List.map_cons, List.sum_cons]
          omega

/-- When none are left, it is known what `dequeue` returns.
Kind: P -/
theorem answer_eq_none_iff {indexKey : Key} {fetches : List (Text × Fetch π)} :
    (fetching indexKey fetches).answer = none ↔ (fetching indexKey fetches).left ≠ 0 := by
  have hall : (fetches.all fun f => f.2.answer.isSome) = true ↔
      (fetching indexKey fetches).left = 0 := by
    rw [left, List.sum_eq_zero_iff_forall_eq_nat, List.all_eq_true]
    simp only [List.mem_map, forall_exists_index, and_imp, forall_apply_eq_imp_iff₂]
    refine forall₂_congr fun f _ => ?_
    rw [← Option.ne_none_iff_isSome, ne_eq, Fetch.answer_eq_none_iff, not_not]
  rw [answer, ne_eq, ← hall]
  split_ifs with h <;> simp [h]

end Job

/-! ### A `dequeue` alone -/

namespace Job

/-- Commands that nothing comes in between of, all at one reading of the clock.
Kind: D -/
def alone (now : ℤ) (s : RedisStore π × Job π) (commands : List ℕ) : RedisStore π × Job π :=
  commands.foldl (fun s i => s.2.step now now i s.1) s

theorem alone_append (now : ℤ) (s : RedisStore π × Job π) (commands commands' : List ℕ) :
    alone now s (commands ++ commands') = alone now (alone now s commands) commands' :=
  List.foldl_append

/-- The commands for one message.
Kind: D -/
def aloneFetch (now : ℤ) (indexKey : Key) (id : Text) (s : RedisStore π × Fetch π) (n : ℕ) :
    RedisStore π × Fetch π :=
  (fun s => s.2.step now now indexKey id s.1)^[n] s

/-- The commands for one message leave the others alone.
Kind: L -/
theorem alone_replicate (now : ℤ) (indexKey : Key) (known rest : List (Text × Fetch π)) (id : Text)
    (n : ℕ) (s : RedisStore π × Fetch π) :
    alone now (s.1, .fetching indexKey (known ++ (id, s.2) :: rest))
        (List.replicate n known.length) =
      ((aloneFetch now indexKey id s n).1,
        .fetching indexKey (known ++ (id, (aloneFetch now indexKey id s n).2) :: rest)) := by
  induction n generalizing s with
  | zero => rfl
  | succ n ih =>
      have hstep : Job.step now now known.length s.1
          (.fetching indexKey (known ++ (id, s.2) :: rest)) =
          ((s.2.step now now indexKey id s.1).1,
            .fetching indexKey (known ++ (id, (s.2.step now now indexKey id s.1).2) :: rest)) := by
        simp [step]
      rw [List.replicate_succ, alone, List.foldl_cons, hstep, aloneFetch, Function.iterate_succ_apply]
      exact ih _

/-- The commands for one message after the other.
Kind: L -/
theorem alone_flatMap (now : ℤ) (indexKey : Key) (n : ℕ) {I : RedisStore π → Prop}
    (act : RedisStore π → Text × Fetch π → RedisStore π) (next : Text × Fetch π → Fetch π)
    (known fetches : List (Text × Fetch π)) (db : RedisStore π) (hdb : I db)
    (h : ∀ db, I db → ∀ f ∈ fetches,
      aloneFetch now indexKey f.1 (db, f.2) n = (act db f, next f) ∧ I (act db f)) :
    alone now (db, .fetching indexKey (known ++ fetches))
        ((List.range' known.length fetches.length).flatMap (List.replicate n)) =
      (fetches.foldl act db, .fetching indexKey (known ++ fetches.map fun f => (f.1, next f))) := by
  induction fetches generalizing db known with
  | nil => simp [alone]
  | cons f fetches ih =>
      obtain ⟨hf, hact⟩ := h db hdb f (List.mem_cons_self ..)
      have hrest := ih (known ++ [(f.1, next f)]) (act db f) hact fun db hdb f' hf' =>
        h db hdb f' (List.mem_cons_of_mem _ hf')
      rw [List.length_cons, List.range'_succ, List.flatMap_cons, alone_append,
        alone_replicate now indexKey known fetches f.1 n (db, f.2), hf]
      simpa using hrest

/-- What is left of asking for a message once the answer is heard.
Kind: D -/
def asked (now : ℤ) (db : RedisStore π) (id : Text) : Fetch π :=
  (Fetch.ask.step now now (.message id) id db).2

/-- Acting on an answer is at most three commands.
Kind: L -/
theorem aloneFetch_asked (now : ℤ) (indexKey : Key) (db db' : RedisStore π) (id : Text) :
    aloneFetch now indexKey id (db', asked now db id) 3 =
      (RedisStore.settle now indexKey db' id (db.get now (.message id)),
        .answered (RedisStore.deliver now (db.get now (.message id)))) := by
  rw [asked, Fetch.step]
  dsimp only
  rcases db.get now (.message id) with _ | raw
  · rfl
  · dsimp only
    rw [RedisStore.settle]
    by_cases hexpired : RedisStore.isExpired now raw.entry = true
    · have hdeliver : RedisStore.deliver now (some raw) = none := by
        simp [RedisStore.deliver, hexpired]
      rw [if_pos hexpired, if_pos hexpired, hdeliver, RedisStore.ack]
      simp only [aloneFetch, Function.iterate_succ_apply, Function.iterate_zero_apply]
      simp only [Fetch.step, Task.step]
      rcases db'.get now (.message id) with _ | raw' <;> rfl
    · have hdeliver : RedisStore.deliver now (some raw) = some raw.entry := by
        simp [RedisStore.deliver, hexpired]
      rw [if_neg hexpired, if_neg hexpired, hdeliver]
      rfl

/-- Acting on all answers.
Kind: L -/
theorem alone_asked (now : ℤ) (indexKey : Key) (db : RedisStore π) (ids : List Text) :
    alone now (db, .fetching indexKey (ids.map fun id => (id, asked now db id)))
        ((List.range' 0 ids.length).flatMap (List.replicate 3)) =
      (ids.foldl (fun db' id => RedisStore.settle now indexKey db' id (db.get now (.message id))) db,
        .fetching indexKey (ids.map fun id =>
          (id, .answered (RedisStore.deliver now (db.get now (.message id)))))) := by
  have hall := alone_flatMap now indexKey 3 (I := fun _ => True)
    (fun db' f => RedisStore.settle now indexKey db' f.1 (db.get now (.message f.1)))
    (fun f => .answered (RedisStore.deliver now (db.get now (.message f.1))))
    [] (ids.map fun id => (id, asked now db id)) db trivial ?_
  · simpa [List.foldl_map, Function.comp_def] using hall
  · intro db' _ f hf
    obtain ⟨id, -, rfl⟩ := List.mem_map.mp hf
    exact ⟨aloneFetch_asked now indexKey db db' id, trivial⟩

/-- Asking for all messages.
Kind: L -/
theorem alone_ask (now : ℤ) (indexKey : Key) (db : RedisStore π) (ids : List Text) :
    alone now (db, .fetching indexKey (ids.map fun id => (id, .ask)))
        ((List.range' 0 ids.length).flatMap (List.replicate 1)) =
      (db, .fetching indexKey (ids.map fun id => (id, asked now db id))) := by
  have hall := alone_flatMap now indexKey 1 (I := (· = db)) (fun db' _ => db')
    (fun f => asked now db f.1) [] (ids.map fun id => (id, .ask)) db rfl ?_
  · simpa [Function.comp_def] using hall
  · rintro _ rfl f hf
    obtain ⟨id, -, rfl⟩ := List.mem_map.mp hf
    exact ⟨rfl, rfl⟩

/-- **A `dequeue` that is alone** does what it does as a whole.
Kind: P -/
theorem alone_dequeue (now : ℤ) (db : RedisStore π) (realm event consumer : Text) :
    ∃ commands, ∃ job : Job π,
      alone now (db, .range (.index (realmOr realm) event consumer)) commands =
        ((RedisStore.dequeue db now realm event consumer).1, job) ∧
      job.answer = some (RedisStore.dequeue db now realm event consumer).2 := by
  set indexKey := Key.index (realmOr realm) event consumer with hindex
  set ids := db.zrange indexKey with hids
  refine ⟨[0] ++ (List.range' 0 ids.length).flatMap (List.replicate 1) ++
    (List.range' 0 ids.length).flatMap (List.replicate 3),
    .fetching indexKey (ids.map fun id =>
      (id, .answered (RedisStore.deliver now (db.get now (.message id))))), ?_, ?_⟩
  · have hrange : alone now (db, .range indexKey) [0] =
        (db, .fetching indexKey (ids.map fun id => (id, .ask))) := rfl
    rw [alone_append, alone_append, hrange, alone_ask, alone_asked, RedisStore.dequeue,
      List.foldl_map]
  · rw [RedisStore.dequeue, List.filterMap_map, answer, if_pos]
    · rw [List.filterMap_map]
      rfl
    · simp [Fetch.answer]

end Job

/-! ### All nodes -/

/-- An operation that is called at some node.
Kind: D -/
inductive Request (π : Type*)
  /-- `enqueue`, with the id generated for the message in case it has none. -/
  | enqueue (realm event : Text) (message : Message π) (generated : Text)
  /-- `dequeue`. -/
  | dequeue (realm event consumer : Text)
  /-- `ack`. -/
  | ack (msgId : Text)
  /-- `deadLetter`. -/
  | deadLetter (msgId reason : Text)
  /-- `discardDlq`. -/
  | discardDlq (msgId : Text) (realm : Option Text)
  /-- `countQueued`. -/
  | countQueued (realm : Text) (event consumer : Option Text)

namespace Request

/-- The message that is queued, when the operation is called at a reading of the clock.
Kind: D -/
def entry (defaultTtl : Ttl) (now : ℤ) : Request π → Option (Entry π)
  | .enqueue realm event message generated =>
      some (queued defaultTtl now realm event message generated)
  | _ => none

/-- The id that is given to a message.
Kind: D -/
def newIds : Request π → List Text
  | .enqueue _ _ message generated => [message.idOr generated]
  | _ => []

/-- The operation before its first command.
Source: `lib/storage/redis.js`, `RedisStore.prototype.enqueue`, `dequeue`, `ack`, `deadLetter`,
`discardDlq`, `countQueued`
Kind: D -/
def job (defaultTtl : Ttl) (now : ℤ) : Request π → Job π
  | .enqueue realm event message generated =>
      .single (.enqueueSet (queued defaultTtl now realm event message generated))
  | .dequeue realm event consumer => .range (.index (realmOr realm) event consumer)
  | .ack msgId => .single (.ackGet msgId)
  | .deadLetter msgId reason => .single (.deadGet msgId reason)
  | .discardDlq msgId realm => .single (.discardGet msgId realm)
  | .countQueued realm (some event) (some consumer) =>
      .single (.count (.index (realmOr realm) event consumer))
  | .countQueued _ _ _ => .single .done

/-- Is it a `dequeue` of the queue of a message?
Kind: D -/
def IsDequeueOf (e : Entry π) : Request π → Prop
  | .dequeue realm event consumer => e.isIn (realmOr realm) event consumer = true
  | _ => False

/-- Does it take a message with the id out of its queue?
Kind: D -/
def Takes (msgId : Text) : Request π → Prop
  | .ack msgId' | .deadLetter msgId' _ => msgId' = msgId
  | _ => False

end Request

/-- An operation that has been called.
Kind: D -/
structure Called (π : Type*) where
  /-- The operation. -/
  request : Request π
  /-- The reading of the clock when it was called. -/
  since : ℤ
  /-- What is left of it. -/
  job : Job π

/-- The database, and the operations called at any node, in the order in which they were called.
Kind: D -/
structure Nodes (π : Type*) where
  /-- The database. -/
  db : RedisStore π
  /-- The operations. -/
  called : List (Called π)

/-- What happens at the nodes.
Kind: D -/
inductive Event (π : Type*)
  /-- An operation is called. -/
  | call (now : ℤ) (request : Request π)
  /-- A command of the `j`th operation is carried out, and its answer heard, the next one of the `i`th
  message where there are several. -/
  | command (now heard : ℤ) (j i : ℕ)

namespace Event

/-- The readings of the clock.
Kind: D -/
def readings : Event π → List ℤ
  | .call now _ => [now]
  | .command now heard _ _ => [now, heard]

/-- The ids given to messages.
Kind: D -/
def newIds : Event π → List Text
  | .call _ request => request.newIds
  | .command .. => []

/-- Is a message with the id to be taken out of its queue?
Kind: D -/
def Takes (msgId : Text) : Event π → Prop
  | .call _ request => request.Takes msgId
  | .command .. => False

end Event

namespace Nodes

/-- No operation has been called.
Kind: D -/
def init : Nodes π := ⟨Redis.empty, []⟩

/-- What an event does.
Kind: D -/
def step (defaultTtl : Ttl) (s : Nodes π) : Event π → Nodes π
  | .call now request => { s with called := s.called ++ [⟨request, now, request.job defaultTtl now⟩] }
  | .command now heard j i =>
      match s.called[j]? with
      | none => s
      | some c =>
          ⟨(c.job.step now heard i s.db).1,
            s.called.set j { c with job := (c.job.step now heard i s.db).2 }⟩

/-- The state after some events.
Kind: D -/
def run (defaultTtl : Ttl) (events : List (Event π)) : Nodes π :=
  runFrom (step defaultTtl) init events

end Nodes

end TyoMq.Storage
