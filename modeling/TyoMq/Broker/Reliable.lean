import Mathlib.Algebra.Field.Rat
import Mathlib.Algebra.Order.Monoid.Unbundled.WithTop
import Mathlib.Algebra.Order.Ring.Rat
import Mathlib.Order.WithBot
import TyoMq.Lib.Agenda
import TyoMq.Lib.Journal
import TyoMq.Storage.Memory

/-!
# Reliable delivery

The part of `lib/server.js` that delivers durable messages: a message is queued and sent, the subscriber
acknowledges it, and where it does not the message is sent again until its attempts are spent, when it
becomes a dead letter.

* A call of the store takes effect when it is made, as it does in the in-process store, and what the server
  does when it returns is a task. So is what it does when a timer goes off. Tasks are run in any order.
* A subscription and a consumer are the objects that the server's tables hold, which it changes in place:
  here they are what names them, `ς` and `κ`, and the state has their fields.
* What the server sends, and what leaves the queue and the dead letters, is reported (`Effect`).
-/

namespace TyoMq.Broker

open Lib Storage

/-- A number other than `NaN`.
Kind: D -/
abbrev Num := WithBot (WithTop ℚ)

/-- A subscription.
Source: `lib/server.js`, `subscribeMessage`
Kind: D -/
structure Subscription where
  /-- The consumer's name. -/
  name : Text
  /-- The id that its messages are queued under. -/
  consumer_id : Text
  /-- Are its messages kept while it is away? -/
  durable : Bool
  /-- Does it acknowledge what it gets? -/
  ack_required : Bool
  /-- `Number(retry.max_attempts || retry.maxAttempts)`, `none` where that is zero or no number. -/
  max_attempts : Option Num
  deriving DecidableEq

/-- `subscription.consumer_id || subscription.name`. `replayDurableMessages` has other names to fall back on,
but `subscribeMessage` never leaves the first empty.
Kind: D -/
def Subscription.queue (subscription : Subscription) : Text :=
  orElse subscription.consumer_id subscription.name

/-- How often a message is sent.
Source: `lib/server.js`, `normalizeRetryPolicy`
Kind: D -/
def normalizeRetryPolicy (subscription : Subscription) : Num := max 1 (subscription.max_attempts.getD 3)

/-- What is sent of a message.
Kind: D -/
structure Content (π : Type*) where
  /-- The event. -/
  event : Text
  /-- The message. -/
  message : π
  /-- Who produced it. -/
  producer : Option Text
  deriving DecidableEq

/-- The content of a message that is queued.
Kind: D -/
def contentOf {π : Type*} (e : Entry π) : Content π := ⟨e.event, e.message, e.producer⟩

/-- A queued message on its way to a subscription.
Source: `lib/server.js`, `deliverDurableEntry`
Kind: D -/
structure Delivery (π κ ς : Type*) where
  /-- Its id. -/
  id : Text
  /-- What it says. -/
  content : Content π
  /-- The subscription. -/
  subscription : ς
  /-- The consumer. -/
  consumer : κ
  /-- The number of the attempt, from 1. -/
  attempt : ℕ

/-- What the server has put off.
Kind: D -/
inductive Task (π κ ς : Type*)
  /-- A message has been queued and is to be sent. -/
  | enqueued (d : Delivery π κ ς)
  /-- The queue of a subscription has been read. -/
  | dequeued (entries : List (Entry π)) (subscription : ς) (consumer : κ)
  /-- The time for an acknowledgement is up, under the limit read when the message was sent. -/
  | ackTimeout (d : Delivery π κ ς) (maxAttempts : Num)
  /-- The delay before the next attempt is over. -/
  | retry (d : Delivery π κ ς)
  /-- The dead letters have been read, to queue one of them again. -/
  | listed (msgId : Text) (entries : List (DeadLetter π))
  /-- A dead letter has been queued again. -/
  | requeued (letter : DeadLetter π) (newId : Text)

/-- A delivery that waits for its acknowledgement.
Source: `lib/server.js`, `pendingAcks`
Kind: D -/
structure PendingAck where
  /-- The socket it went to. -/
  socket : Text
  /-- The subscription's id for its queue. -/
  consumer_id : Text
  /-- The number of the attempt. -/
  attempt : ℕ
  /-- The timer. -/
  timer : ℕ
  deriving DecidableEq

/-- How a message leaves the queue.
Kind: D -/
inductive Departure
  /-- It was acknowledged from the socket. -/
  | acked (socket : Text)
  /-- It was sent to the socket, which does not acknowledge anything. -/
  | replayed (socket : Text)
  /-- This many attempts were made, which was as many as the limit. -/
  | exhausted (attempts : ℕ) (maxAttempts : Num)
  /-- It expired. -/
  | expired
  /-- Its realm was removed. -/
  | purged
  deriving DecidableEq

/-- How a message leaves the dead letters.
Kind: D -/
inductive Removal
  /-- It was discarded. -/
  | discarded
  /-- It was queued again. -/
  | requeued (newId : Text)
  /-- Its realm was removed. -/
  | purged
  deriving DecidableEq

/-- What the server does.
Kind: D -/
inductive Effect (π : Type*)
  /-- It queues a message. -/
  | enqueued (msgId : Text) (content : Content π)
  /-- It sends a message to a socket, under its id and the number of the attempt where that is given. -/
  | consume (socket : Text) (content : Content π) (delivery : Option (Text × ℕ))
  /-- It sees an attempt time out. -/
  | timedOut (msgId : Text) (attempt : ℕ) (maxAttempts : Num)
  /-- It answers an acknowledgement. -/
  | answered (socket msgId : Text) (code : ℕ)
  /-- A message leaves the queue. -/
  | left (msgId : Text) (how : Departure)
  /-- A message leaves the dead letters. -/
  | removed (msgId : Text) (how : Removal)
  deriving DecidableEq

/-- The state of the server.
Kind: D -/
structure Server (π κ ς : Type*) where
  /-- The store. -/
  store : MemoryStore π
  /-- Source: `lib/server.js`, `pendingAcks` -/
  pendingAcks : JsMap Text PendingAck
  /-- What is put off. -/
  agenda : Agenda (Task π κ ς)
  /-- The socket of each consumer. -/
  socketOf : κ → Option Text
  /-- The subscriptions. -/
  subscriptionOf : ς → Subscription

namespace Server

variable {π κ ς : Type*}

/-! ### The store -/

/-- The reports of the messages with an id that leave the queue.
Kind: D -/
def leave (s : Server π κ ς) (msgId : Text) (how : Departure) : List (Effect π) :=
  (s.store.messages.filter fun e => e.id = msgId).map fun e => .left e.id how

/-- The reports of the messages that expire.
Kind: D -/
def expire (s : Server π κ ς) (now : ℤ) : List (Effect π) :=
  (s.store.messages.filter fun e => !e.expires_at.all fun t => t = 0 ∨ now < t).map fun e =>
    .left e.id .expired

/-- The reports of the dead letters with an id that are removed.
Kind: D -/
def remove (s : Server π κ ς) (msgId : Text) (how : Removal) : List (Effect π) :=
  (s.store.dlq.filter fun d => d.entry.id = msgId).map fun d => .removed d.entry.id how

/-- Queue a message. The id is the one that the store makes up.
Source: `lib/server.js`, `enqueueDurableMessage`
Kind: D -/
def enqueue (defaultTtl : Ttl) (s : Server π κ ς) (now : ℤ) (realm event consumer : Text) (message : π)
    (producer : Text) (ttl : Option Ttl) (generated : Text) : Server π κ ς × List (Effect π) :=
  ({ s with
      store := (s.store.enqueue defaultTtl now realm event ⟨[], [], consumer, message, producer, ttl⟩
        generated).1 },
    s.expire now ++ [.enqueued generated ⟨event, message, orNull producer⟩])

/-- Acknowledge a message.
Kind: D -/
def ackStore (s : Server π κ ς) (msgId : Text) (how : Departure) : Server π κ ς × List (Effect π) :=
  ({ s with store := s.store.ack msgId }, s.leave msgId how)

/-- Source: `lib/server.js`, `deadLetterMessage`
Kind: D -/
def deadLetterMessage (s : Server π κ ς) (now : ℤ) (msgId reason : Text) (attempts : ℕ)
    (maxAttempts : Num) : Server π κ ς × List (Effect π) :=
  ({ s with store := (s.store.deadLetter now msgId reason).1 },
    s.leave msgId (.exhausted attempts maxAttempts))

/-! ### Deliveries -/

/-- Source: `lib/server.js`, `scheduleAckTimeout`
Kind: D -/
def scheduleAckTimeout (s : Server π κ ς) (d : Delivery π κ ς) (socket : Text) (maxAttempts : Num) :
    Server π κ ς :=
  { s with
    agenda := s.agenda.post (.ackTimeout d maxAttempts)
    pendingAcks := s.pendingAcks.set d.id
      ⟨socket, (s.subscriptionOf d.subscription).consumer_id, d.attempt, s.agenda.next⟩ }

/-- Call off the timer of a delivery that waits for its acknowledgement, if there is one.
Kind: D -/
def clearTimeout (s : Server π κ ς) (msgId : Text) : Server π κ ς :=
  match s.pendingAcks.get msgId with
  | none => s
  | some pending => { s with agenda := s.agenda.cancel pending.timer }

/-- Source: `lib/server.js`, `deliverDurableEntry`
Kind: D -/
def deliverDurableEntry (s : Server π κ ς) (d : Delivery π κ ς) : Server π κ ς × List (Effect π) :=
  match s.socketOf d.consumer with
  | none => (s, [])
  | some socket =>
      ((s.clearTimeout d.id).scheduleAckTimeout d socket
          (normalizeRetryPolicy (s.subscriptionOf d.subscription)),
        [.consume socket d.content (some (d.id, d.attempt))])

/-- What `replayDurableMessages` does with one of the messages that it has read.
Source: `lib/server.js`, `replayDurableMessages`
Kind: D -/
def replayEntry (subscription : ς) (consumer : κ) (s : Server π κ ς) (e : Entry π) :
    Server π κ ς × List (Effect π) :=
  match s.socketOf consumer with
  | none => (s, [])
  | some socket =>
      if (s.subscriptionOf subscription).ack_required then
        s.deliverDurableEntry ⟨e.id, contentOf e, subscription, consumer, 1⟩
      else
        let acked := s.ackStore e.id (.replayed socket)
        (acked.1, .consume socket (contentOf e) none :: acked.2)

/-- Source: `lib/server.js`, `replayDurableMessages`
Kind: D -/
def replayDurableMessages (s : Server π κ ς) (now : ℤ) (realm event : Text) (subscription : ς)
    (consumer : κ) : Server π κ ς × List (Effect π) :=
  match s.socketOf consumer with
  | none => (s, [])
  | some _ =>
      let read := s.store.dequeue now realm event (s.subscriptionOf subscription).queue
      ({ s with store := read.1, agenda := s.agenda.post (.dequeued read.2 subscription consumer) },
        s.expire now)

/-- Where an acknowledgement is required of a subscription that keeps no messages, the source fails: it
asks for the outcome of a message that it has not queued.
Source: `lib/server.js`, `deliverToSubscription`, `enqueueAndDeliverReliable`
Kind: D -/
def deliverToSubscription (defaultTtl : Ttl) (s : Server π κ ς) (now : ℤ) (realm event : Text)
    (message : π) (producer : Text) (subscription : ς) (consumer : κ) (guaranteed : Bool)
    (ttl : Option Ttl) (generated : Text) : Server π κ ς × List (Effect π) :=
  let sub := s.subscriptionOf subscription
  let content : Content π := ⟨event, message, orNull producer⟩
  match s.socketOf consumer with
  | some socket =>
      if sub.ack_required then
        if sub.durable ∨ guaranteed then
          let queued := s.enqueue defaultTtl now realm event sub.queue message producer ttl generated
          ({ queued.1 with
              agenda := s.agenda.post (.enqueued ⟨generated, content, subscription, consumer, 1⟩) },
            queued.2)
        else (s, [])
      else (s, [.consume socket content none])
  | none =>
      if sub.durable ∨ guaranteed then
        s.enqueue defaultTtl now realm event sub.queue message producer ttl generated
      else (s, [])

/-! ### Sockets -/

/-- What a socket's acknowledgement does.
Source: `lib/server.js`, `ACK`
Kind: D -/
def ack (s : Server π κ ς) (socket msgId : Text) : Server π κ ς × List (Effect π) :=
  match s.pendingAcks.get msgId with
  | none => (s, [.answered socket msgId 404])
  | some pending =>
      if pending.socket ≠ socket then (s, [.answered socket msgId 403])
      else
        let acked := ackStore
          { s with
            agenda := s.agenda.cancel pending.timer
            pendingAcks := s.pendingAcks.delete msgId } msgId (.acked socket)
        (acked.1, acked.2 ++ [.answered socket msgId 200])

/-- What the end of a connection does: nothing waits for the socket any more, and the first consumer that
has it, if there is one, has none.
Source: `lib/server.js`, `disconnect`
Kind: D -/
def disconnect [DecidableEq κ] (s : Server π κ ς) (socket : Text) (consumer : Option κ) :
    Server π κ ς :=
  { s with
    agenda := s.agenda.cancelAll
      ((s.pendingAcks.entries.filter fun e => e.2.socket = socket).map fun e => e.2.timer)
    pendingAcks := s.pendingAcks.deleteWhere fun _ pending => pending.socket = socket
    socketOf := fun c => if some c = consumer then none else s.socketOf c }

/-! ### Tasks -/

/-- Source: `lib/server.js`, `scheduleAckTimeout`
Kind: D -/
def ackTimedOut (s : Server π κ ς) (now : ℤ) (d : Delivery π κ ς) (maxAttempts : Num) :
    Server π κ ς × List (Effect π) :=
  let s := { s with pendingAcks := s.pendingAcks.delete d.id }
  if maxAttempts ≤ (d.attempt : Num) then
    let dead := s.deadLetterMessage now d.id
      (ascii ("ack timeout after " ++ toString d.attempt ++ " attempt(s)")) d.attempt maxAttempts
    (dead.1, .timedOut d.id d.attempt maxAttempts :: dead.2)
  else
    ({ s with agenda := s.agenda.post (.retry d) }, [.timedOut d.id d.attempt maxAttempts])

/-- What `dlq_replay` does with the dead letters that it has read.
Source: `lib/server.js`, `handleAsyncManagementCommand`
Kind: D -/
def requeue (defaultTtl : Ttl) (s : Server π κ ς) (now : ℤ) (msgId : Text) (entries : List (DeadLetter π))
    (generated : Text) : Server π κ ς × List (Effect π) :=
  match entries.find? fun d => d.entry.id = msgId with
  | none => (s, [])
  | some letter =>
      let e := letter.entry
      let queued := s.enqueue defaultTtl now e.realm e.event (e.consumer.getD []) e.message
        (e.producer.getD []) none generated
      ({ queued.1 with agenda := s.agenda.post (.requeued letter generated) }, queued.2)

/-- Run a task, with the id that the store makes up for the message it queues, if it queues one.
Kind: D -/
def runTask (defaultTtl : Ttl) (s : Server π κ ς) (now : ℤ) (generated : Text) :
    Task π κ ς → Server π κ ς × List (Effect π)
  | .enqueued d => s.deliverDurableEntry d
  | .dequeued entries subscription consumer => scan (replayEntry subscription consumer) s entries
  | .ackTimeout d maxAttempts => s.ackTimedOut now d maxAttempts
  | .retry d => s.deliverDurableEntry { d with attempt := d.attempt + 1 }
  | .listed msgId entries => s.requeue defaultTtl now msgId entries generated
  | .requeued letter newId =>
      ({ s with store := s.store.discardDlq letter.entry.id },
        s.remove letter.entry.id (.requeued newId))

/-! ### Steps -/

/-- What happens to the server.
Kind: D -/
inductive Event (π κ ς : Type*)
  /-- A message is produced that goes to a subscription. -/
  | produce (now : ℤ) (realm event : Text) (message : π) (producer : Text) (subscription : ς)
      (consumer : κ) (guaranteed : Bool) (ttl : Option Ttl) (generated : Text)
  /-- The messages that are kept for a subscription are to be sent. -/
  | replay (now : ℤ) (realm event : Text) (subscription : ς) (consumer : κ)
  /-- A task is run. -/
  | task (now : ℤ) (number : ℕ) (generated : Text)
  /-- A socket acknowledges a message. -/
  | ack (socket msgId : Text)
  /-- A connection ends, which was the consumer's. -/
  | disconnect (socket : Text) (consumer : Option κ)
  /-- A consumer gets a socket, or loses it. -/
  | bind (consumer : κ) (socket : Option Text)
  /-- A subscription is made, or changed. -/
  | subscribe (subscription : ς) (fields : Subscription)
  /-- The manager queues a dead letter again. -/
  | replayDlq (realm : Option Text) (msgId : Text)
  /-- The manager discards a dead letter. -/
  | discardDlq (msgId : Text)
  /-- The realm is removed. -/
  | purgeRealm (realm : Text)

/-- What the server does.
Kind: D -/
def step [DecidableEq κ] [DecidableEq ς] (defaultTtl : Ttl) (s : Server π κ ς) :
    Event π κ ς → Server π κ ς × List (Effect π)
  | .produce now realm event message producer subscription consumer guaranteed ttl generated =>
      s.deliverToSubscription defaultTtl now realm event message producer subscription consumer
        guaranteed ttl generated
  | .replay now realm event subscription consumer =>
      s.replayDurableMessages now realm event subscription consumer
  | .task now number generated =>
      match s.agenda.get number with
      | none => (s, [])
      | some t => runTask defaultTtl { s with agenda := s.agenda.cancel number } now generated t
  | .ack socket msgId => s.ack socket msgId
  | .disconnect socket consumer => (s.disconnect socket consumer, [])
  | .bind consumer socket => ({ s with socketOf := Function.update s.socketOf consumer socket }, [])
  | .subscribe subscription fields =>
      ({ s with subscriptionOf := Function.update s.subscriptionOf subscription fields }, [])
  | .replayDlq realm msgId =>
      ({ s with agenda := s.agenda.post (.listed msgId (s.store.listDlq realm)) }, [])
  | .discardDlq msgId =>
      ({ s with store := s.store.discardDlq msgId }, s.remove msgId .discarded)
  | .purgeRealm realm =>
      ({ s with store := (s.store.purgeRealm realm).1 },
        ((s.store.messages.filter fun e => e.realm = realm).map fun e => .left e.id .purged) ++
          (s.store.dlq.filter fun d => d.entry.realm = realm).map fun d => .removed d.entry.id .purged)

/-- The server just started, with no message and no connection.
Kind: D -/
def init (subscriptionOf : ς → Subscription) : Server π κ ς :=
  ⟨MemoryStore.init, JsMap.empty, Agenda.empty, fun _ => none, subscriptionOf⟩

/-- What the server has come to after some events, and what it has done.
Kind: D -/
def after [DecidableEq κ] [DecidableEq ς] (defaultTtl : Ttl) (subscriptionOf : ς → Subscription)
    (events : List (Event π κ ς)) : Server π κ ς × List (Effect π) :=
  runFrom (journaled (step defaultTtl)) (init subscriptionOf, []) events

end Server

end TyoMq.Broker
