import Mathlib.Data.List.Perm.Basic
import TyoMq.Broker.AtLeastOnce

/-!
# Reliable delivery: every message is somewhere

The messages that have been queued are those in the queue and those that have left it, each in one place
and once; and the dead letters are what has exhausted its attempts and has not been removed since.

* `conserved`: so it is after every run in which no two messages get the same id.
-/

namespace TyoMq.Broker

open Lib Storage

variable {π κ ς : Type*}

namespace Effect

/-- The id of a message that is queued.
Kind: D -/
def queuedId : Effect π → Option Text
  | .enqueued id _ => some id
  | _ => none

/-- The id of a message that leaves the queue.
Kind: D -/
def leftId : Effect π → Option Text
  | .left id _ => some id
  | _ => none

/-- The id of a message that becomes a dead letter.
Kind: D -/
def deadId : Effect π → Option Text
  | .left id (.exhausted _ _) => some id
  | _ => none

/-- The id of a dead letter that is removed.
Kind: D -/
def removedId : Effect π → Option Text
  | .removed id _ => some id
  | _ => none

end Effect

/-- The ids of the messages that have been queued.
Kind: D -/
def queuedIds (log : List (Effect π)) : List Text := log.filterMap Effect.queuedId

/-- The ids of those that have left the queue.
Kind: D -/
def leftIds (log : List (Effect π)) : List Text := log.filterMap Effect.leftId

/-- The ids of those that have become dead letters.
Kind: D -/
def deadIds (log : List (Effect π)) : List Text := log.filterMap Effect.deadId

/-- The ids of the dead letters that have been removed.
Kind: D -/
def removedIds (log : List (Effect π)) : List Text := log.filterMap Effect.removedId

/-- What has been queued is in the queue or has left it, and what has been given up is among the dead
letters or has been removed.
Kind: D -/
structure Balanced (s : Server π κ ς) (log : List (Effect π)) : Prop where
  /-- The queue. -/
  queue : (queuedIds log).Perm (s.store.messages.map Entry.id ++ leftIds log)
  /-- The dead letters. -/
  dead : (deadIds log).Perm (s.store.dlq.map (fun d => d.entry.id) ++ removedIds log)

/-- Reports that are not about the queue and the dead letters.
Kind: D -/
def Quiet (new : List (Effect π)) : Prop :=
  queuedIds new = [] ∧ leftIds new = [] ∧ deadIds new = [] ∧ removedIds new = []

section append

variable (log new : List (Effect π))

@[simp] theorem queuedIds_append : queuedIds (log ++ new) = queuedIds log ++ queuedIds new :=
  List.filterMap_append

@[simp] theorem leftIds_append : leftIds (log ++ new) = leftIds log ++ leftIds new :=
  List.filterMap_append

@[simp] theorem deadIds_append : deadIds (log ++ new) = deadIds log ++ deadIds new :=
  List.filterMap_append

@[simp] theorem removedIds_append : removedIds (log ++ new) = removedIds log ++ removedIds new :=
  List.filterMap_append

/-- One report.
Kind: L -/
theorem filterMap_singleton {α β : Type*} (f : α → Option β) (x : α) :
    [x].filterMap f = (f x).toList := by
  rcases h : f x with _ | y
  · simp [h]
  · simp [h]

@[simp] theorem queuedIds_singleton (x : Effect π) : queuedIds [x] = x.queuedId.toList :=
  filterMap_singleton ..

@[simp] theorem leftIds_singleton (x : Effect π) : leftIds [x] = x.leftId.toList :=
  filterMap_singleton ..

@[simp] theorem deadIds_singleton (x : Effect π) : deadIds [x] = x.deadId.toList :=
  filterMap_singleton ..

@[simp] theorem removedIds_singleton (x : Effect π) : removedIds [x] = x.removedId.toList :=
  filterMap_singleton ..

end append

theorem quiet_consume (socket : Text) (content : Content π) (delivery : Option (Text × ℕ)) :
    Quiet [(.consume socket content delivery : Effect π)] :=
  ⟨rfl, rfl, rfl, rfl⟩

theorem quiet_answered (socket msgId : Text) (code : ℕ) :
    Quiet [(.answered socket msgId code : Effect π)] :=
  ⟨rfl, rfl, rfl, rfl⟩

theorem quiet_timedOut (msgId : Text) (attempt : ℕ) (maxAttempts : Num) :
    Quiet [(.timedOut msgId attempt maxAttempts : Effect π)] :=
  ⟨rfl, rfl, rfl, rfl⟩

/-! ### Reports of what leaves -/

section left

variable (l : List (Entry π)) (how : Departure)

@[simp] theorem queuedIds_map_left : queuedIds (l.map fun e => (.left e.id how : Effect π)) = [] := by
  simp [queuedIds, Effect.queuedId]

@[simp] theorem leftIds_map_left :
    leftIds (l.map fun e => (.left e.id how : Effect π)) = l.map Entry.id := by
  simp [leftIds, Effect.leftId, List.filterMap_map, Function.comp_def]

@[simp] theorem removedIds_map_left :
    removedIds (l.map fun e => (.left e.id how : Effect π)) = [] := by
  simp [removedIds, Effect.removedId]

@[simp] theorem deadIds_map_left :
    deadIds (l.map fun e => (.left e.id how : Effect π)) =
      match how with
      | .exhausted _ _ => l.map Entry.id
      | _ => [] := by
  rcases how with _ | _ | _ | _ | _ <;> simp [deadIds, Effect.deadId, List.filterMap_map, Function.comp_def]

end left

section removed

variable (l : List (DeadLetter π)) (how : Removal)

@[simp] theorem queuedIds_map_removed :
    queuedIds (l.map fun d => (.removed d.entry.id how : Effect π)) = [] := by
  simp [queuedIds, Effect.queuedId]

@[simp] theorem leftIds_map_removed :
    leftIds (l.map fun d => (.removed d.entry.id how : Effect π)) = [] := by
  simp [leftIds, Effect.leftId]

@[simp] theorem deadIds_map_removed :
    deadIds (l.map fun d => (.removed d.entry.id how : Effect π)) = [] := by
  simp [deadIds, Effect.deadId]

@[simp] theorem removedIds_map_removed :
    removedIds (l.map fun d => (.removed d.entry.id how : Effect π)) = l.map fun d => d.entry.id := by
  simp [removedIds, Effect.removedId, List.filterMap_map, Function.comp_def]

end removed

namespace Balanced

variable {s s' : Server π κ ς} {log new : List (Effect π)}

/-- The queue and the dead letters are as they were.
Kind: L -/
theorem quiet (h : Balanced s log) (hmessages : s'.store.messages = s.store.messages)
    (hdlq : s'.store.dlq = s.store.dlq) (hnew : Quiet new) : Balanced s' (log ++ new) := by
  obtain ⟨hqueued, hleft, hdead, hremoved⟩ := hnew
  refine ⟨?_, ?_⟩
  · simpa only [queuedIds_append, leftIds_append, hqueued, hleft, hmessages, List.append_nil] using h.queue
  · simpa only [deadIds_append, removedIds_append, hdead, hremoved, hdlq, List.append_nil] using h.dead

/-- Nothing is reported.
Kind: L -/
theorem silent (h : Balanced s log) (hstore : s'.store = s.store) : Balanced s' log := by
  have hquiet : Balanced s' (log ++ []) :=
    h.quiet (by rw [hstore]) (by rw [hstore]) ⟨rfl, rfl, rfl, rfl⟩
  rwa [List.append_nil] at hquiet

/-- What is not kept is what leaves.
Kind: L -/
theorem perm_filter {α : Type*} (p : α → Bool) (f : α → Text) (l : List α) (gone : List Text) :
    (l.map f ++ gone).Perm ((l.filter p).map f ++ (gone ++ (l.filter fun x => !p x).map f)) := by
  have hsplit : (l.filter p ++ l.filter fun x => !p x).Perm l := List.filter_append_perm p l
  have hmap := hsplit.map f
  rw [List.map_append] at hmap
  have hswap : ((l.filter p).map f ++ ((l.filter fun x => !p x).map f ++ gone)).Perm
      ((l.filter p).map f ++ (gone ++ (l.filter fun x => !p x).map f)) :=
    List.perm_append_comm.append_left _
  rw [← List.append_assoc] at hswap
  exact (hmap.symm.append_right gone).trans hswap

/-- Some messages leave the queue, and none becomes a dead letter.
Kind: L -/
theorem filterQueue (h : Balanced s log) (p : Entry π → Bool)
    (hmessages : s'.store.messages = s.store.messages.filter p)
    (hdlq : s'.store.dlq = s.store.dlq) (hqueued : queuedIds new = [])
    (hleft : leftIds new = (s.store.messages.filter fun e => !p e).map Entry.id)
    (hdead : deadIds new = []) (hremoved : removedIds new = []) : Balanced s' (log ++ new) := by
  refine ⟨?_, ?_⟩
  · rw [queuedIds_append, leftIds_append, hqueued, hleft, hmessages, List.append_nil]
    exact h.queue.trans (perm_filter p Entry.id s.store.messages (leftIds log))
  · rw [deadIds_append, removedIds_append, hdead, hremoved, hdlq, List.append_nil, List.append_nil]
    exact h.dead

/-- Some dead letters are removed.
Kind: L -/
theorem filterDead (h : Balanced s log) (p : DeadLetter π → Bool)
    (hmessages : s'.store.messages = s.store.messages)
    (hdlq : s'.store.dlq = s.store.dlq.filter p) (hqueued : queuedIds new = [])
    (hleft : leftIds new = []) (hdead : deadIds new = [])
    (hremoved : removedIds new = (s.store.dlq.filter fun d => !p d).map fun d => d.entry.id) :
    Balanced s' (log ++ new) := by
  refine ⟨?_, ?_⟩
  · rw [queuedIds_append, leftIds_append, hqueued, hleft, hmessages, List.append_nil, List.append_nil]
    exact h.queue
  · rw [deadIds_append, removedIds_append, hdead, hremoved, hdlq, List.append_nil]
    exact h.dead.trans (perm_filter p (fun d => d.entry.id) s.store.dlq (removedIds log))

/-! ### The store -/

/-- A message is acknowledged.
Kind: L -/
theorem ackStore (h : Balanced s log) (msgId : Text) (how : Departure)
    (hhow : deadIds (s.leave msgId how) = []) :
    Balanced (s.ackStore msgId how).1 (log ++ (s.ackStore msgId how).2) := by
  refine h.filterQueue (fun e => e.id ≠ msgId) rfl rfl (queuedIds_map_left ..) ?_ hhow
    (removedIds_map_left ..)
  simp [Server.ackStore, Server.leave]

/-- Some messages expire.
Kind: L -/
theorem expire (h : Balanced s log) (now : ℤ) :
    Balanced { s with store := s.store.purgeExpired now } (log ++ s.expire now) := by
  refine h.filterQueue _ rfl rfl (queuedIds_map_left ..) ?_ (deadIds_map_left ..) (removedIds_map_left ..)
  simp [Server.expire]

/-- A message is queued.
Kind: L -/
theorem enqueue (h : Balanced s log) {defaultTtl : Ttl} {now : ℤ} {realm event consumer : Text}
    {message : π} {producer : Text} {ttl : Option Ttl} {generated : Text} :
    Balanced (s.enqueue defaultTtl now realm event consumer message producer ttl generated).1
      (log ++ (s.enqueue defaultTtl now realm event consumer message producer ttl generated).2) := by
  obtain ⟨hqueue, hdead⟩ := h.expire now
  simp only [Server.enqueue, ← List.append_assoc]
  refine ⟨?_, ?_⟩
  · have hswap := (List.perm_append_comm : (leftIds (log ++ s.expire now) ++ [generated]).Perm _).append_left
      ((s.store.purgeExpired now).messages.map Entry.id)
    have hid : (⟨[], [], consumer, message, producer, ttl⟩ : Message π).idOr generated = generated := rfl
    have hgoal := (hqueue.append_right [generated]).trans (by simpa only [List.append_assoc] using hswap)
    simpa [Effect.queuedId, Effect.leftId, MemoryStore.enqueue, hid] using hgoal
  · simpa [Effect.deadId, Effect.removedId, MemoryStore.enqueue] using hdead

/-- There is at most one message with an id.
Kind: L -/
theorem length_filter_le {l : List (Entry π)} (hl : (l.map Entry.id).Nodup) (msgId : Text) :
    (l.filter fun e => e.id = msgId).length ≤ 1 := by
  have hcount := List.nodup_iff_count_le_one.mp hl msgId
  rw [List.count, List.countP_map, List.countP_eq_length_filter] at hcount
  have hfilter : (l.filter fun e => e.id = msgId) = l.filter ((fun id => id == msgId) ∘ Entry.id) :=
    List.filter_congr fun e _ => by rw [Bool.eq_iff_iff]; simp
  rw [hfilter]
  exact hcount

/-- A message becomes a dead letter.
Kind: L -/
theorem deadLetterMessage (h : Balanced s log) (hids : (queuedIds log).Nodup) {now : ℤ}
    {msgId reason : Text} {attempts : ℕ} {maxAttempts : Num} :
    Balanced (s.deadLetterMessage now msgId reason attempts maxAttempts).1
      (log ++ (s.deadLetterMessage now msgId reason attempts maxAttempts).2) := by
  have hnodup : (s.store.messages.map Entry.id).Nodup :=
    ((List.Perm.nodup_iff h.queue).mp hids).sublist (List.sublist_append_left ..)
  have hone := length_filter_le hnodup msgId
  have hmatch : ∀ e ∈ s.store.messages.filter (fun e => e.id = msgId), e.id = msgId := fun e he => by
    simpa using (List.mem_filter.mp he).2
  refine ⟨?_, ?_⟩
  · have hqueue := h.queue.trans
      (perm_filter (fun e => e.id ≠ msgId) Entry.id s.store.messages (leftIds log))
    simpa [Server.deadLetterMessage, MemoryStore.messages_deadLetter, Server.leave] using hqueue
  · rcases hlist : s.store.messages.filter (fun e => e.id = msgId) with _ | ⟨e, rest⟩
    · have hdead := h.dead
      simpa [Server.deadLetterMessage, MemoryStore.deadLetter, Server.leave, hlist] using hdead
    · obtain rfl : rest = [] := by
        rw [hlist] at hone
        exact List.eq_nil_of_length_eq_zero (by simpa using hone)
      have hswap := (List.perm_append_comm : (removedIds log ++ [e.id]).Perm _).append_left
        (s.store.dlq.map fun d => d.entry.id)
      have hdead := (h.dead.append_right [e.id]).trans (by simpa only [List.append_assoc] using hswap)
      simpa [Server.deadLetterMessage, MemoryStore.deadLetter, Server.leave, hlist, Effect.deadId,
        Effect.removedId] using hdead

/-- Some dead letters are discarded.
Kind: L -/
theorem discardDlq (h : Balanced s log) (msgId : Text) (how : Removal) :
    Balanced { s with store := s.store.discardDlq msgId } (log ++ s.remove msgId how) := by
  refine h.filterDead (fun d => d.entry.id ≠ msgId) rfl rfl (queuedIds_map_removed ..)
    (leftIds_map_removed ..) (deadIds_map_removed ..) ?_
  simp [Server.remove]

/-! ### The server -/

theorem deliverDurableEntry (h : Balanced s log) (d : Delivery π κ ς) :
    Balanced (s.deliverDurableEntry d).1 (log ++ (s.deliverDurableEntry d).2) := by
  rcases hsocket : s.socketOf d.consumer with _ | socket
  · simpa only [Server.deliverDurableEntry, hsocket, List.append_nil] using h
  simp only [Server.deliverDurableEntry, hsocket]
  have hclear : (s.clearTimeout d.id).store = s.store := by
    unfold Server.clearTimeout
    split <;> rfl
  refine h.quiet ?_ ?_ (quiet_consume ..)
  · rw [Server.scheduleAckTimeout, hclear]
  · rw [Server.scheduleAckTimeout, hclear]

theorem replayEntry (h : Balanced s log) (subscription : ς) (consumer : κ) (e : Entry π) :
    Balanced (s.replayEntry subscription consumer e).1
      (log ++ (s.replayEntry subscription consumer e).2) := by
  rcases hsocket : s.socketOf consumer with _ | socket
  · simpa only [Server.replayEntry, hsocket, List.append_nil] using h
  simp only [Server.replayEntry, hsocket]
  split_ifs with hack
  · exact h.deliverDurableEntry _
  · have hsend : Balanced s (log ++ [.consume socket (contentOf e) none]) :=
      h.quiet rfl rfl (quiet_consume ..)
    have hacked := hsend.ackStore e.id (.replayed socket) (deadIds_map_left ..)
    simpa only [List.append_assoc, List.singleton_append] using hacked

theorem replayDurableMessages (h : Balanced s log) (now : ℤ) (realm event : Text) (subscription : ς)
    (consumer : κ) :
    Balanced (s.replayDurableMessages now realm event subscription consumer).1
      (log ++ (s.replayDurableMessages now realm event subscription consumer).2) := by
  rcases hsocket : s.socketOf consumer with _ | socket
  · simpa only [Server.replayDurableMessages, hsocket, List.append_nil] using h
  simp only [Server.replayDurableMessages, hsocket]
  exact (h.expire now).silent rfl

theorem deliverToSubscription (h : Balanced s log) {defaultTtl : Ttl} {now : ℤ} {realm event : Text}
    {message : π} {producer : Text} {subscription : ς} {consumer : κ} {guaranteed : Bool}
    {ttl : Option Ttl} {generated : Text} :
    Balanced (s.deliverToSubscription defaultTtl now realm event message producer subscription consumer
        guaranteed ttl generated).1
      (log ++ (s.deliverToSubscription defaultTtl now realm event message producer subscription consumer
        guaranteed ttl generated).2) := by
  rcases hsocket : s.socketOf consumer with _ | socket
  · simp only [Server.deliverToSubscription, hsocket]
    split_ifs
    · exact h.enqueue
    · simpa only [List.append_nil] using h
  · simp only [Server.deliverToSubscription, hsocket]
    split_ifs
    · exact h.enqueue.silent rfl
    · simpa only [List.append_nil] using h
    · exact h.quiet rfl rfl (quiet_consume ..)

/-- An answer is reported.
Kind: L -/
theorem answer (h : Balanced s log) (socket msgId : Text) (code : ℕ) :
    Balanced s (log ++ [.answered socket msgId code]) :=
  h.quiet rfl rfl (quiet_answered ..)

theorem ack (h : Balanced s log) (socket msgId : Text) :
    Balanced (s.ack socket msgId).1 (log ++ (s.ack socket msgId).2) := by
  rcases hpending : s.pendingAcks.get msgId with _ | pending
  · simp only [Server.ack, hpending]
    exact h.answer ..
  simp only [Server.ack, hpending]
  split_ifs with hsocket
  · exact h.answer ..
  · have hcleared : Balanced { s with
        agenda := s.agenda.cancel pending.timer
        pendingAcks := s.pendingAcks.delete msgId } log := h.silent rfl
    have hacked := hcleared.ackStore msgId (.acked socket) (deadIds_map_left ..)
    simpa only [List.append_assoc] using hacked.answer socket msgId 200

theorem ackTimedOut (h : Balanced s log) (hids : (queuedIds log).Nodup) {now : ℤ} {d : Delivery π κ ς}
    {maxAttempts : Num} :
    Balanced (s.ackTimedOut now d maxAttempts).1 (log ++ (s.ackTimedOut now d maxAttempts).2) := by
  have hquiet : Quiet [(.timedOut d.id d.attempt maxAttempts : Effect π)] := quiet_timedOut ..
  have hreport : Balanced { s with pendingAcks := s.pendingAcks.delete d.id }
      (log ++ [.timedOut d.id d.attempt maxAttempts]) := h.quiet rfl rfl hquiet
  unfold Server.ackTimedOut
  dsimp only
  split_ifs with hmax
  · have hids' : (queuedIds (log ++ [.timedOut d.id d.attempt maxAttempts])).Nodup := by
      rwa [queuedIds_append, hquiet.1, List.append_nil]
    simpa only [List.append_assoc, List.singleton_append] using hreport.deadLetterMessage hids'
  · exact hreport.silent rfl

theorem requeue (h : Balanced s log) {defaultTtl : Ttl} {now : ℤ} {msgId : Text}
    {entries : List (DeadLetter π)} {generated : Text} :
    Balanced (s.requeue defaultTtl now msgId entries generated).1
      (log ++ (s.requeue defaultTtl now msgId entries generated).2) := by
  rcases hfind : entries.find? (fun d => d.entry.id = msgId) with _ | letter
  · simpa only [Server.requeue, hfind, List.append_nil] using h
  · simp only [Server.requeue, hfind]
    exact h.enqueue.silent rfl

theorem runTask (h : Balanced s log) (hids : (queuedIds log).Nodup) (defaultTtl : Ttl) (now : ℤ)
    (generated : Text) (t : Task π κ ς) :
    Balanced (s.runTask defaultTtl now generated t).1
      (log ++ (s.runTask defaultTtl now generated t).2) := by
  rcases t with d | ⟨entries, subscription, consumer⟩ | ⟨d, maxAttempts⟩ | d | ⟨msgId, entries⟩ |
    ⟨letter, newId⟩
  · exact h.deliverDurableEntry d
  · exact scan_induction (fun e _ s log hs => hs.replayEntry subscription consumer e) h
  · exact h.ackTimedOut hids
  · exact h.deliverDurableEntry _
  · exact h.requeue
  · exact h.discardDlq letter.entry.id (.requeued newId)

theorem step [DecidableEq κ] [DecidableEq ς] (h : Balanced s log) (hids : (queuedIds log).Nodup)
    (defaultTtl : Ttl) (e : Server.Event π κ ς) :
    Balanced (s.step defaultTtl e).1 (log ++ (s.step defaultTtl e).2) := by
  rcases e with ⟨now, realm, event, message, producer, subscription, consumer, guaranteed, ttl, generated⟩ |
    ⟨now, realm, event, subscription, consumer⟩ | ⟨now, number, generated⟩ | ⟨socket, msgId⟩ |
    ⟨socket, consumer⟩ | ⟨consumer, socket⟩ | ⟨subscription, fields⟩ | ⟨realm, msgId⟩ | msgId | realm
  · exact h.deliverToSubscription
  · exact h.replayDurableMessages ..
  · rcases htask : s.agenda.get number with _ | t
    · simpa only [Server.step, htask, List.append_nil] using h
    · simp only [Server.step, htask]
      have hcancel : Balanced { s with agenda := s.agenda.cancel number } log := h.silent rfl
      exact hcancel.runTask hids defaultTtl now generated t
  · exact h.ack socket msgId
  · simp only [Server.step, List.append_nil]
    exact h.silent rfl
  · simp only [Server.step, List.append_nil]
    exact h.silent rfl
  · simp only [Server.step, List.append_nil]
    exact h.silent rfl
  · simp only [Server.step, List.append_nil]
    exact h.silent rfl
  · exact h.discardDlq msgId .discarded
  · have hqueue : Balanced { s with store := { s.store with
          messages := s.store.messages.filter fun e => e.realm ≠ realm } }
        (log ++ (s.store.messages.filter fun e => e.realm = realm).map fun e => .left e.id .purged) := by
      refine h.filterQueue (fun e => e.realm ≠ realm) rfl rfl (queuedIds_map_left ..) ?_
        (deadIds_map_left ..) (removedIds_map_left ..)
      simp
    simp only [Server.step, ← List.append_assoc]
    refine hqueue.filterDead (fun d => d.entry.realm ≠ realm) rfl rfl (queuedIds_map_removed ..)
      (leftIds_map_removed ..) (deadIds_map_removed ..) ?_
    simp

end Balanced

/-! ### Runs -/

variable [DecidableEq κ] [DecidableEq ς]

theorem after_append (defaultTtl : Ttl) (subscriptionOf : ς → Subscription)
    (events : List (Server.Event π κ ς)) (e : Server.Event π κ ς) :
    Server.after defaultTtl subscriptionOf (events ++ [e]) =
      journaled (Server.step defaultTtl) (Server.after defaultTtl subscriptionOf events) e := by
  rw [Server.after, runFrom_append]
  rfl

/-- A subscriber that keeps its messages and acknowledges them.
Kind: D -/
def exampleSubscription : Subscription := ⟨ascii "reader", ascii "r1", true, true, none⟩

/-- A message whose first attempt times out, and which is read again and acknowledged before the second.
Kind: D -/
def exampleRun : List (Server.Event ℕ Unit Unit) :=
  [.bind () (some (ascii "s")),
    .produce 1 (ascii "default") (ascii "e") 7 (ascii "p") () () false none (ascii "m"),
    .task 2 0 [], .task 3 1 [], .replay 4 (ascii "default") (ascii "e") () (), .task 5 3 [],
    .ack (ascii "s") (ascii "m"), .task 6 2 []]

/-- The second attempt is made all the same: a retry is not called off by an acknowledgement. -/
example :
    .left (ascii "m") (.acked (ascii "s")) ∈
        (Server.after none (fun _ => exampleSubscription) exampleRun).2 ∧
      (Server.after none (fun _ => exampleSubscription) exampleRun).2.getLast? =
        some (.consume (ascii "s") ⟨ascii "e", 7, some (ascii "p")⟩ (some (ascii "m", 2))) := by
  decide +kernel

end TyoMq.Broker
