import TyoMq.Lib.Agenda
import TyoMq.Lib.Journal
import TyoMq.Storage.Memory

/-!
# Sealed delivery

The part of `lib/server.js` that delivers sealed messages, whose senders the broker does not know: who may
send to a recipient, what is sent at once, what is queued, and how a recipient drains its queue.

* A call of the store takes effect when it is made, as it does in the in-process store, and what the server
  does when it returns is a task. So is what it does when a client acknowledges a message that it was sent,
  or does not in time. Tasks are run in any order.
* The fields of a message have passed the checks of their types and lengths, and the access key is decoded.
* What the server does is reported (`Effect`).
-/

namespace TyoMq.Broker.Sealed

open Lib Storage

/-- Who a sealed message is for.
Kind: D -/
structure Recipient where
  /-- The realm. -/
  realm : Text
  /-- The name in it. -/
  identity : Text
  deriving DecidableEq

/-- A sealed message.
Kind: D -/
structure Frame where
  /-- What only the recipient can read. -/
  blob : Text
  /-- The sender's id for it. -/
  msg_id : Text
  deriving DecidableEq

/-- Who may send to a recipient.
Source: `lib/server.js`, `SEALED_UAK_SET`
Kind: D -/
inductive Access
  /-- Everybody. -/
  | unrestricted
  /-- Who knows the key. -/
  | requireUak (uak : Text)
  deriving DecidableEq

/-- Source: `lib/server.js`, `SEALED_DELIVER`; `lib/sealed-sender.js`, `uakEqual`
Kind: D -/
def Access.admits (presented : Text) : Access → Bool
  | .unrestricted => true
  | .requireUak uak => presented = uak

/-- What the settings and the protocol package say.
Kind: D -/
structure Config where
  /-- Source: `lib/server.js`, `sealedEnabledForRealm` -/
  sealedEnabledForRealm : Text → Bool
  /-- The `max_queued_per_realm` of a realm, `none` for no limit. -/
  maxQueuedRealm : Text → Option ℕ
  /-- The `max_queued_per_recipient` of a realm, `none` for no limit. -/
  maxQueuedRecipient : Text → Option ℕ
  /-- How long a sealed message is kept. -/
  sealedInboxTtl : Ttl
  /-- How long the store keeps what does not say. -/
  defaultTtl : Ttl
  /-- How many messages are drained at once. -/
  SEALED_REPLAY_BATCH : ℕ

/-- A drain of a queue by a client that acknowledges what it gets.
Source: `lib/server.js`, `SEALED_SUBSCRIBE`
Kind: D -/
structure Drain where
  /-- The client's socket. -/
  socket : Text
  /-- Whose queue it is. -/
  owner : Recipient
  /-- What is left of the batch. -/
  rest : List (Entry Frame)
  /-- How many messages the client has confirmed. -/
  replayed : ℕ
  /-- How many it has refused. -/
  dead : ℕ
  /-- How many it has not answered for. -/
  pending : ℕ
  /-- Is there more in the queue than the batch? -/
  more : Bool

/-- What the server has put off.
Kind: D -/
inductive Task
  /-- An acknowledgement of a message that was sent at once. -/
  | online (dest : Recipient) (frame : Frame) (socket : Text)
  /-- The queued messages of the realm have been counted. -/
  | realmCounted (dest : Recipient) (frame : Frame) (count : Option ℕ)
  /-- Those of the recipient have. -/
  | recipientCounted (dest : Recipient) (frame : Frame) (count : Option ℕ)
  /-- A message has been queued. -/
  | stored (dest : Recipient) (frame : Frame)
  /-- A queue has been read for a drain. -/
  | read (d : Drain)
  /-- The next message of a drain. -/
  | next (d : Drain)
  /-- An acknowledgement of a message of a drain. -/
  | awaiting (d : Drain) (e : Entry Frame)
  /-- A queue has been read for a client that acknowledges nothing. -/
  | legacy (socket : Text) (owner : Recipient) (entries : List (Entry Frame))

/-- How a message leaves the queue.
Kind: D -/
inductive Departure
  /-- The client on the socket has confirmed it. -/
  | confirmed (socket : Text)
  /-- The client on the socket has refused it, and it is a dead letter. -/
  | refused (socket : Text)
  /-- It was sent to the socket, which acknowledges nothing. -/
  | replayed (socket : Text)
  /-- It expired. -/
  | expired
  /-- Its realm was removed. -/
  | purged
  deriving DecidableEq

/-- What a sender is told.
Kind: D -/
inductive Outcome
  /-- The message was sent at once. -/
  | online
  /-- It was queued. -/
  | queued
  /-- There is no room for it. -/
  | full
  /-- It may not be sent. -/
  | refused
  deriving DecidableEq

/-- What the server does.
Kind: D -/
inductive Effect
  /-- A socket is authenticated for a realm. -/
  | authenticated (socket realm : Text)
  /-- A socket registers a name. -/
  | registered (socket identity : Text)
  /-- The directory gives a recipient a socket. -/
  | bound (dest : Recipient) (socket : Text)
  /-- Who may send to a recipient is set, from a socket. -/
  | uakSet (socket : Text) (owner : Recipient) (access : Access)
  /-- A message may be sent, for which the key was presented. -/
  | accepted (dest : Recipient) (frame : Frame) (presented : Text)
  /-- A message is sent to a socket, under its id in the queue where it is from there. -/
  | emitted (socket : Text) (frame : Frame) (queue_id : Option Text)
  /-- A message is sent at once to a client that acknowledges nothing. -/
  | forgotten (dest : Recipient) (frame : Frame)
  /-- A client acknowledges a message that was sent at once. -/
  | acknowledged (dest : Recipient) (frame : Frame) (socket : Text)
  /-- It does not in time. -/
  | timedOut (dest : Recipient) (frame : Frame) (socket : Text)
  /-- A message is queued. -/
  | enqueued (dest : Recipient) (e : Entry Frame)
  /-- A sender is answered. -/
  | answered (dest : Recipient) (frame : Frame) (outcome : Outcome)
  /-- A message leaves the queue. -/
  | left (e : Entry Frame) (how : Departure)
  /-- A dead letter is removed with its realm. -/
  | removed (e : Entry Frame)
  /-- A drain is over. -/
  | drained (socket : Text) (owner : Recipient) (replayed dead pending : ℕ) (more : Bool)
  /-- A drain is refused. -/
  | drainRefused (socket identity : Text) (code : ℕ)
  deriving DecidableEq

/-- The state of the server.
Kind: D -/
structure Server where
  /-- The store. -/
  store : MemoryStore Frame
  /-- Who may send to whom. -/
  sealedUak : Recipient → Option Access
  /-- The socket of a recipient in the directory. -/
  socketOf : Recipient → Option Text
  /-- Which sockets are connected. -/
  connected : Text → Bool
  /-- The realm of each socket. -/
  realmOf : Text → Text
  /-- Source: `lib/server.js`, `_tyoIdentities` -/
  identities : List (Text × Text)
  /-- Source: `lib/server.js`, `_sealedAckCapable` -/
  ackCapable : Text → Bool
  /-- Source: `lib/server.js`, `_sealedDraining` -/
  draining : List (Text × Text)
  /-- What is put off. -/
  agenda : Agenda Task

namespace Server

/-! ### The store -/

/-- The event that sealed messages to a name are queued under.
Kind: D -/
def sealedEvent (identity : Text) : Text := ascii "sealed:" ++ identity

/-- The reports of the messages that expire.
Kind: D -/
def expire (s : Server) (now : ℤ) : List Effect :=
  (s.store.messages.filter fun e => !e.expires_at.all fun t => t = 0 ∨ now < t).map fun e =>
    .left e .expired

/-- The reports of the messages with an id that leave the queue.
Kind: D -/
def leave (s : Server) (msgId : Text) (how : Departure) : List Effect :=
  (s.store.messages.filter fun e => e.id = msgId).map fun e => .left e how

/-- A sealed message in the queue.
Kind: D -/
def sealedEntry (c : Config) (now : ℤ) (dest : Recipient) (frame : Frame) (generated : Text) :
    Entry Frame where
  id := generated
  realm := realmOr dest.realm
  event := sealedEvent dest.identity
  consumer := orNull dest.identity
  message := frame
  producer := none
  created_at := now
  expires_at := expiresAt c.defaultTtl (some c.sealedInboxTtl) now

/-- Source: `lib/server.js`, `enqueueSealedForRecipient`
Kind: D -/
def enqueueSealedForRecipient (c : Config) (s : Server) (now : ℤ) (dest : Recipient) (frame : Frame)
    (generated : Text) : Server × List Effect :=
  ({ s with
      store := (s.store.enqueue c.defaultTtl now dest.realm (sealedEvent dest.identity)
        ⟨[], [], dest.identity, frame, [], some c.sealedInboxTtl⟩ generated).1 },
    s.expire now ++ [.enqueued dest (sealedEntry c now dest frame generated)])

/-! ### Sending -/

/-- Source: `lib/server.js`, `doSealedEnqueue`
Kind: D -/
def doSealedEnqueue (c : Config) (s : Server) (now : ℤ) (dest : Recipient) (frame : Frame)
    (generated : Text) : Server × List Effect :=
  let queued := s.enqueueSealedForRecipient c now dest frame generated
  ({ queued.1 with agenda := s.agenda.post (.stored dest frame) }, queued.2)

/-- A message is sent to the recipient, or on the way into its queue.
Source: `lib/server.js`, `SEALED_DELIVER`
Kind: D -/
def route (c : Config) (s : Server) (now : ℤ) (dest : Recipient) (frame : Frame) (generated : Text) :
    Server × List Effect :=
  match (s.socketOf dest).filter s.connected with
  | some socket =>
      if s.ackCapable socket then
        ({ s with agenda := s.agenda.post (.online dest frame socket) },
          [.emitted socket frame none, .answered dest frame .online])
      else (s, [.emitted socket frame none, .forgotten dest frame, .answered dest frame .online])
  | none =>
      if (c.maxQueuedRealm dest.realm).isSome then
        let counted := s.store.countQueued now dest.realm none none
        ({ s with
            store := counted.1
            agenda := s.agenda.post (.realmCounted dest frame counted.2) }, s.expire now)
      else if (c.maxQueuedRecipient dest.realm).isSome then
        ({ s with agenda := s.agenda.post (.realmCounted dest frame none) }, [])
      else s.doSealedEnqueue c now dest frame generated

/-- A sender delivers a message.
Source: `lib/server.js`, `SEALED_DELIVER`
Kind: D -/
def deliver (c : Config) (s : Server) (now : ℤ) (dest : Recipient) (frame : Frame)
    (presented generated : Text) : Server × List Effect :=
  match s.sealedUak dest with
  | none => (s, [.answered dest frame .refused])
  | some access =>
      if !c.sealedEnabledForRealm dest.realm ∨ !access.admits presented then
        (s, [.answered dest frame .refused])
      else
        let routed := s.route c now dest frame generated
        (routed.1, .accepted dest frame presented :: routed.2)

/-- Is a count at its limit?
Kind: D -/
def full (limit count : Option ℕ) : Bool := count.any fun n => limit.any fun m => m ≤ n

/-- The messages of the realm have been counted.
Source: `lib/server.js`, `SEALED_DELIVER`
Kind: D -/
def realmCounted (c : Config) (s : Server) (now : ℤ) (dest : Recipient) (frame : Frame) (count : Option ℕ)
    (generated : Text) : Server × List Effect :=
  if full (c.maxQueuedRealm dest.realm) count then (s, [.answered dest frame .full])
  else if (c.maxQueuedRecipient dest.realm).isSome then
    let counted := s.store.countQueued now dest.realm (some (sealedEvent dest.identity)) (some dest.identity)
    ({ s with
        store := counted.1
        agenda := s.agenda.post (.recipientCounted dest frame counted.2) }, s.expire now)
  else s.doSealedEnqueue c now dest frame generated

/-- The messages of the recipient have been counted.
Source: `lib/server.js`, `SEALED_DELIVER`
Kind: D -/
def recipientCounted (c : Config) (s : Server) (now : ℤ) (dest : Recipient) (frame : Frame)
    (count : Option ℕ) (generated : Text) : Server × List Effect :=
  if full (c.maxQueuedRecipient dest.realm) count then (s, [.answered dest frame .full])
  else s.doSealedEnqueue c now dest frame generated

/-! ### Draining -/

/-- A client asks for what is queued for a name.
Source: `lib/server.js`, `SEALED_SUBSCRIBE`
Kind: D -/
def subscribe (c : Config) (s : Server) (now : ℤ) (socket identity : Text) (ack : Bool) :
    Server × List Effect :=
  let owner : Recipient := ⟨s.realmOf socket, identity⟩
  if !s.identities.contains (socket, identity) ∨ !c.sealedEnabledForRealm owner.realm then
    (s, [.drainRefused socket identity 403])
  else if ack then
    let s := { s with ackCapable := Function.update s.ackCapable socket true }
    if s.draining.contains (socket, identity) then (s, [.drainRefused socket identity 409])
    else
      let read := s.store.dequeue now owner.realm (sealedEvent identity) identity
      ({ s with
          store := read.1
          draining := s.draining ++ [(socket, identity)]
          agenda := s.agenda.post (.read ⟨socket, owner, read.2, 0, 0, 0, false⟩) }, s.expire now)
  else
    let read := s.store.dequeue now owner.realm (sealedEvent identity) identity
    ({ s with store := read.1, agenda := s.agenda.post (.legacy socket owner read.2) }, s.expire now)

/-- The queue has been read.
Source: `lib/server.js`, `SEALED_SUBSCRIBE`
Kind: D -/
def startDrain (c : Config) (s : Server) (d : Drain) : Server :=
  { s with
    agenda := s.agenda.post (.next { d with
      rest := d.rest.take c.SEALED_REPLAY_BATCH
      more := c.SEALED_REPLAY_BATCH < d.rest.length }) }

/-- Source: `lib/server.js`, `SEALED_SUBSCRIBE`
Kind: D -/
def drainNext (s : Server) (d : Drain) : Server × List Effect :=
  match d.rest with
  | [] =>
      ({ s with draining := s.draining.filter fun p => p ≠ (d.socket, d.owner.identity) },
        [.drained d.socket d.owner d.replayed d.dead d.pending (d.more ∨ 0 < d.pending)])
  | e :: rest =>
      if s.connected d.socket then
        ({ s with agenda := s.agenda.post (.awaiting { d with rest := rest } e) },
          [.emitted d.socket e.message (some e.id)])
      else
        ({ s with agenda := s.agenda.post (.next { d with rest := rest, pending := d.pending + 1 }) }, [])

/-- The client answers for a message of its drain.
Source: `lib/server.js`, `SEALED_SUBSCRIBE`
Kind: D -/
def drainReply (s : Server) (now : ℤ) (d : Drain) (e : Entry Frame) (ok : Bool) : Server × List Effect :=
  if ok then
    ({ s with
        store := s.store.ack e.id
        agenda := s.agenda.post (.next { d with replayed := d.replayed + 1 }) },
      s.leave e.id (.confirmed d.socket))
  else
    ({ s with
        store := (s.store.deadLetter now e.id (ascii "client refused sealed blob")).1
        agenda := s.agenda.post (.next { d with dead := d.dead + 1 }) },
      s.leave e.id (.refused d.socket))

/-- What is done with a message for a client that acknowledges nothing. It is sent to nobody where the
client is gone.
Source: `lib/server.js`, `SEALED_SUBSCRIBE`
Kind: D -/
def replayEntry (socket : Text) (s : Server) (e : Entry Frame) : Server × List Effect :=
  ({ s with store := s.store.ack e.id },
    (if s.connected socket then [.emitted socket e.message (some e.id)] else []) ++
      s.leave e.id (.replayed socket))

/-! ### Steps -/

/-- Run a task, which for an acknowledgement means that it has not come in time.
Kind: D -/
def runTask (c : Config) (s : Server) (now : ℤ) (generated : Text) : Task → Server × List Effect
  | .online dest frame socket =>
      let queued := s.enqueueSealedForRecipient c now dest frame generated
      (queued.1, .timedOut dest frame socket :: queued.2)
  | .realmCounted dest frame count => s.realmCounted c now dest frame count generated
  | .recipientCounted dest frame count => s.recipientCounted c now dest frame count generated
  | .stored dest frame => (s, [.answered dest frame .queued])
  | .read d => (s.startDrain c d, [])
  | .next d => s.drainNext d
  | .awaiting d _ => ({ s with agenda := s.agenda.post (.next { d with pending := d.pending + 1 }) }, [])
  | .legacy socket _ entries => scan (replayEntry socket) s (entries.take c.SEALED_REPLAY_BATCH)

/-- What happens to the server.
Kind: D -/
inductive Event
  /-- The directory gives a recipient a socket, or none. -/
  | bind (dest : Recipient) (socket : Option Text)
  /-- A socket connects, or its connection ends. -/
  | connect (socket : Text) (up : Bool)
  /-- A socket is authenticated for a realm. -/
  | authenticate (socket realm : Text)
  /-- A socket registers a name. -/
  | register (socket identity : Text)
  /-- A client says who may send to one of its names. -/
  | uakSet (socket identity : Text) (access : Access)
  /-- A sender delivers a message. -/
  | deliver (now : ℤ) (dest : Recipient) (frame : Frame) (presented generated : Text)
  /-- A client asks for what is queued. -/
  | subscribe (now : ℤ) (socket identity : Text) (ack : Bool)
  /-- The client that a message was sent to answers for it. -/
  | reply (now : ℤ) (number : ℕ) (ok : Bool)
  /-- A task is run. -/
  | task (now : ℤ) (number : ℕ) (generated : Text)
  /-- A realm is removed. -/
  | removeRealm (realm : Text)

/-- A client answers for a message that it was sent.
Kind: D -/
def reply (s : Server) (now : ℤ) (number : ℕ) (ok : Bool) : Server × List Effect :=
  let s' := { s with agenda := s.agenda.cancel number }
  match s.agenda.get number with
  | some (.online dest frame socket) =>
      if s.connected socket then (s', [.acknowledged dest frame socket]) else (s, [])
  | some (.awaiting d e) => if s.connected d.socket then s'.drainReply now d e ok else (s, [])
  | _ => (s, [])

/-- Source: `lib/server.js`, `SEALED_UAK_SET`
Kind: D -/
def uakSet (c : Config) (s : Server) (socket identity : Text) (access : Access) : Server × List Effect :=
  let owner : Recipient := ⟨s.realmOf socket, identity⟩
  if s.identities.contains (socket, identity) ∧ c.sealedEnabledForRealm owner.realm then
    ({ s with sealedUak := Function.update s.sealedUak owner (some access) }, [.uakSet socket owner access])
  else (s, [])

/-- What the server does.
Kind: D -/
def step (c : Config) (s : Server) : Event → Server × List Effect
  | .bind dest socket =>
      ({ s with socketOf := Function.update s.socketOf dest socket }, socket.toList.map (.bound dest))
  | .connect socket up => ({ s with connected := Function.update s.connected socket up }, [])
  | .authenticate socket realm =>
      ({ s with realmOf := Function.update s.realmOf socket realm }, [.authenticated socket realm])
  | .register socket identity =>
      ({ s with identities := (socket, identity) :: s.identities }, [.registered socket identity])
  | .uakSet socket identity access => s.uakSet c socket identity access
  | .deliver now dest frame presented generated => s.deliver c now dest frame presented generated
  | .subscribe now socket identity ack => s.subscribe c now socket identity ack
  | .reply now number ok => s.reply now number ok
  | .task now number generated =>
      match s.agenda.get number with
      | none => (s, [])
      | some t => runTask c { s with agenda := s.agenda.cancel number } now generated t
  | .removeRealm realm =>
      ({ s with
          store := (s.store.purgeRealm realm).1
          sealedUak := fun dest => if dest.realm = realm then none else s.sealedUak dest
          socketOf := fun dest => if dest.realm = realm then none else s.socketOf dest },
        ((s.store.messages.filter fun e => e.realm = realm).map fun e => .left e .purged) ++
          (s.store.dlq.filter fun d => d.entry.realm = realm).map fun d => .removed d.entry)

/-- The server just started, with the access records that its disk has kept and sockets that are in some
realm.
Kind: D -/
def init (sealedUak : Recipient → Option Access) (realmOf : Text → Text) : Server :=
  ⟨MemoryStore.init, sealedUak, fun _ => none, fun _ => false, realmOf, [], fun _ => false, [],
    Agenda.empty⟩

/-- What the server has come to after some events, and what it has done.
Kind: D -/
def after (c : Config) (sealedUak : Recipient → Option Access) (realmOf : Text → Text)
    (events : List Event) : Server × List Effect :=
  runFrom (journaled (step c)) (init sealedUak realmOf, []) events

end Server

end TyoMq.Broker.Sealed
