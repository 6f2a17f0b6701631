import TyoMq.Broker.Reliable
import TyoMq.Lib.JsObject

/-!
# The directory of a realm

Who is registered in a realm of `lib/server.js` as a producer and as a consumer, on which socket, and who
has subscribed to what; and what connects, subscribes, disconnects and sweeps make of it.

* The tables are plain objects. Their keys are names that no object inherits (`Name`), so that looking one
  up finds what was put there or nothing.
* The names of the events come from the protocol package (`Protocol`).
* How often the groups of a realm have been served is kept with the routing of messages.
* A field that is `undefined` or `null` is `none`. A string that stands for an id is not empty.
-/

namespace TyoMq.Broker

open Lib

/-- A name that is not that of a member of `Object.prototype`.
Kind: D -/
abbrev Name := {n : JsString // n ∉ objectPrototype}

/-- `names.add(name)`, on a set that is kept in the order of its insertions.
Kind: D -/
def addName (names : List Name) (name : Name) : List Name :=
  if names.contains name then names else names ++ [name]

@[simp] theorem mem_addName {names : List Name} {name other : Name} :
    other ∈ addName names name ↔ other ∈ names ∨ other = name := by
  unfold addName
  split_ifs with h
  · have hin : name ∈ names := by simpa using h
    constructor
    · exact Or.inl
    · rintro (hother | rfl)
      · exact hother
      · exact hin
  · simp

/-- What the protocol package says.
Kind: D -/
structure Protocol where
  /-- The name of a client that gives none. -/
  ANONYMOUS : Name
  /-- The name that stands for every producer. -/
  ALL_PUBLISHERS : Name
  /-- The name under which an event of a producer is subscribed to. -/
  toConsumerEvent : JsString → Name → Name
  /-- The name under which all the events of a producer are subscribed to. -/
  toConsumerEventAll : Name → Name

/-- A subscription, as the directory has it.
Source: `lib/server.js`, `getEventSubscriber`, `subscribeMessage`
Kind: D -/
structure Subscriber where
  /-- The consumer's id. -/
  id : Option JsString
  /-- The consumer's name, none before the subscription is filled in. -/
  name : Option Name
  /-- What concerns delivery. -/
  delivery : Subscription
  /-- The group, if it is in one. -/
  group : Option Name
  /-- The producers it names. -/
  subscribeTos : List Name
  deriving DecidableEq

/-- `{subscribeTos: new Set()}`.
Kind: D -/
def Subscriber.blank : Subscriber := ⟨none, none, ⟨[], [], false, false, none⟩, none, []⟩

/-- Source: `lib/server.js`, `getConsumerMetaInfo`
Kind: D -/
structure ConsumerMeta where
  /-- Its id. -/
  id : Option JsString
  /-- The socket it is on. -/
  socket : Option JsString
  /-- Is it online? -/
  online : Option Bool
  /-- When it went. -/
  offline_at : Option ℤ
  /-- The producers it has subscribed to. -/
  subscribeTos : List Name
  deriving DecidableEq

/-- Source: `lib/server.js`, `getProducerMetaInfo`
Kind: D -/
structure ProducerMeta where
  /-- Its id. -/
  id : Option JsString
  /-- The socket it is on. -/
  socket : Option JsString
  /-- Is it online? -/
  online : Option Bool
  /-- When it went. -/
  offline_at : Option ℤ
  /-- The consumers that have subscribed to it. -/
  subscribers : List Name
  deriving DecidableEq

/-- Source: `lib/server.js`, `getRealm`
Kind: D -/
structure Realm where
  /-- The producers. -/
  producers : JsMap Name ProducerMeta
  /-- The consumers. -/
  consumers : JsMap Name ConsumerMeta
  /-- The subscriptions of each event, by consumer. -/
  subscriptions : JsMap Name (JsMap Name Subscriber)
  /-- The patterns of the events that are subscribed to in topic mode. -/
  topicPatterns : JsMap Name JsString

namespace Realm

/-- A realm in which nobody is registered.
Kind: D -/
def empty : Realm := ⟨JsMap.empty, JsMap.empty, JsMap.empty, JsMap.empty⟩

/-! ### Looking up -/

/-- Source: `lib/server.js`, `getEventSubscriptions`
Kind: D -/
def getEventSubscriptions (r : Realm) (eventStr : Name) : JsMap Name Subscriber :=
  (r.subscriptions.get eventStr).getD JsMap.empty

/-- Source: `lib/server.js`, `getEventSubscriber`
Kind: D -/
def getEventSubscriber (r : Realm) (eventStr consumer : Name) : Subscriber :=
  ((r.getEventSubscriptions eventStr).get consumer).getD .blank

/-- Source: `lib/server.js`, `getConsumerMetaInfo`
Kind: D -/
def getConsumerMetaInfo (r : Realm) (consumer : Name) : ConsumerMeta :=
  (r.consumers.get consumer).getD ⟨none, none, none, none, []⟩

/-- Source: `lib/server.js`, `getProducerMetaInfo`
Kind: D -/
def getProducerMetaInfo (r : Realm) (producer : Name) : ProducerMeta :=
  (r.producers.get producer).getD ⟨none, none, none, none, []⟩

/-! ### Changing an entry, which is made if there is none -/

/-- Change a subscription.
Kind: D -/
def setSubscriber (r : Realm) (eventStr consumer : Name) (sub : Subscriber) : Realm :=
  { r with subscriptions :=
      r.subscriptions.set eventStr ((r.getEventSubscriptions eventStr).set consumer sub) }

/-- Change a consumer.
Kind: D -/
def modifyConsumer (r : Realm) (consumer : Name) (f : ConsumerMeta → ConsumerMeta) : Realm :=
  { r with consumers := r.consumers.set consumer (f (r.getConsumerMetaInfo consumer)) }

/-- Change a producer.
Kind: D -/
def modifyProducer (r : Realm) (producer : Name) (f : ProducerMeta → ProducerMeta) : Realm :=
  { r with producers := r.producers.set producer (f (r.getProducerMetaInfo producer)) }

/-- Make entries for some producers that have none.
Kind: D -/
def ensureProducers (r : Realm) (names : List Name) : Realm :=
  names.foldl (fun r name => r.modifyProducer name id) r

/-- Make entries for some consumers that have none.
Kind: D -/
def ensureConsumers (r : Realm) (names : List Name) : Realm :=
  names.foldl (fun r name => r.modifyConsumer name id) r

/-! ### The handlers -/

/-- Source: `lib/server.js`, `setupConsumer`
Kind: D -/
def setupConsumer (r : Realm) (consumer : Name) (consumerId : Option JsString) (socket : JsString) : Realm :=
  r.modifyConsumer consumer fun m =>
    { m with id := consumerId.or m.id, socket := some socket, online := some true }

/-- Source: `lib/server.js`, `setupProducer`
Kind: D -/
def setupProducer (r : Realm) (producer : Name) (producerId : Option JsString) (socket : JsString) : Realm :=
  r.modifyProducer producer fun m =>
    { m with id := producerId.or m.id, socket := some socket, online := some true }

/-- Is the consumer that comes another one than the one that has the name? Both have to give an id of their
own for that.
Source: `lib/server.js`, `CONSUMER`
Kind: D -/
def isDistinctInstance (consumer : Name) (incomingId existingId : Option JsString) : Bool :=
  match incomingId, existingId with
  | some incoming, some existing =>
      incoming ≠ consumer.1 ∧ existing ≠ consumer.1 ∧ incoming ≠ existing
  | _, _ => false

/-- A consumer registers, with its id if it gives one. `connected` says whether the socket that has the
name is still connected. The second part is false where the newcomer is turned away.
Source: `lib/server.js`, `CONSUMER`
Kind: D -/
def registerConsumer (r : Realm) (consumer : Name) (id : Option JsString) (socket : JsString)
    (connected : Bool) : Realm × Bool :=
  let existing := r.consumers.get consumer
  let held := existing.any fun m => m.socket.any fun s => s ≠ socket
  if held ∧ connected ∧ isDistinctInstance consumer id (existing.bind ConsumerMeta.id) then (r, false)
  else
    let r := r.setupConsumer consumer (some (id.getD socket)) socket
    (r.ensureProducers (r.getConsumerMetaInfo consumer).subscribeTos, true)

/-- The names under which the subscriptions to a producer are known: for each id, that of the first.
Source: `lib/server.js`, `getSubscribersByProducer`
Kind: D -/
def subscribersByProducer (r : Realm) (producer : Name) : List (Option JsString × Option Name × List Name) :=
  (r.subscriptions.entries.flatMap fun e =>
    (e.2.entries.filter fun sub => sub.2.subscribeTos.contains producer).map fun sub =>
      (sub.2.id, sub.2.name, e.1)).foldl
    (fun ids sub =>
      if ids.any fun known => known.1 = sub.1 then
        ids.map fun known => if known.1 = sub.1 then (known.1, known.2.1, addName known.2.2 sub.2.2) else known
      else ids ++ [(sub.1, sub.2.1, [sub.2.2])]) []

/-- What the registration of a producer makes of one of the subscribers known under an id: it is noted, and
it has a subscription to each of the events.
Source: `lib/server.js`, `PRODUCER`
Kind: D -/
def noteSubscriber (P : Protocol) (producer : Name) (r : Realm)
    (known : Option JsString × Option Name × List Name) : Realm :=
  let consumer := known.2.1.getD P.ANONYMOUS
  let r := r.modifyConsumer consumer id
  let r := r.modifyProducer producer fun m => { m with subscribers := addName m.subscribers consumer }
  known.2.2.foldl (fun r eventStr => r.setSubscriber eventStr consumer (r.getEventSubscriber eventStr consumer)) r

/-- A producer registers.
Source: `lib/server.js`, `PRODUCER`
Kind: D -/
def registerProducer (P : Protocol) (r : Realm) (producer : Name) (id : Option JsString)
    (socket : JsString) : Realm :=
  let r := r.setupProducer producer (some (id.getD socket)) socket
  (r.subscribersByProducer producer).foldl (noteSubscriber P producer) r

/-- A producer that is online notes a subscriber.
Source: `lib/server.js`, `sendSubscriptionMessageToProducer`
Kind: D -/
def sendSubscriptionMessageToProducer (r : Realm) (producer consumer : Name) : Realm :=
  r.modifyProducer producer fun m =>
    if m.online = some true then { m with subscribers := addName m.subscribers consumer } else m

/-- The pattern of what is subscribed to in topic mode is kept.
Source: `lib/server.js`, `subscribeMessage`
Kind: D -/
def notePattern (r : Realm) (eventStr : Name) : Option JsString → Realm
  | none => r
  | some pattern => { r with topicPatterns := r.topicPatterns.set eventStr pattern }

/-- A consumer subscribes to what is known as `eventStr`. Where it does so in topic mode, `pattern` is the
event in lower case.
Source: `lib/server.js`, `subscribeMessage`
Kind: D -/
def subscribeMessage (P : Protocol) (r : Realm) (eventStr producer consumer : Name)
    (consumerId : Option JsString) (socket : JsString) (delivery : Subscription) (group : Option Name)
    (pattern : Option JsString) : Realm :=
  let r := if (r.getConsumerMetaInfo consumer).socket = none then r.setupConsumer consumer consumerId socket
    else r.modifyConsumer consumer id
  let m := r.getConsumerMetaInfo consumer
  let sub := r.getEventSubscriber eventStr consumer
  let r := r.setSubscriber eventStr consumer
    { id := m.id, name := some consumer, delivery := delivery, group := group
      subscribeTos := if m.subscribeTos.contains producer then sub.subscribeTos
        else addName sub.subscribeTos producer }
  let r := r.notePattern eventStr pattern
  let r := r.modifyConsumer consumer fun m => { m with subscribeTos := addName m.subscribeTos producer }
  if producer = P.ALL_PUBLISHERS then
    (r.producers.keys.filter fun name => name ≠ consumer).foldl
      (fun r name => r.sendSubscriptionMessageToProducer name consumer) r
  else r.sendSubscriptionMessageToProducer producer consumer

/-- What is deleted is the subscription of a consumer whose name is the id of the socket.
Source: `lib/server.js`, `UNSUBSCRIBE`
Kind: D -/
def unsubscribe (r : Realm) (eventStr socket : Name) : Realm :=
  match r.subscriptions.get eventStr with
  | none => r
  | some subs => { r with subscriptions := r.subscriptions.set eventStr (subs.delete socket) }

/-- The first producer on a socket goes offline.
Source: `lib/server.js`, `disconnect`
Kind: D -/
def disconnectProducer (r : Realm) (socket : JsString) (now : ℤ) : Realm :=
  match r.producers.entries.find? fun e => e.2.socket = some socket with
  | none => r
  | some (name, m) =>
      (r.ensureConsumers m.subscribers).modifyProducer name fun m =>
        { m with online := some false, socket := none, offline_at := some now }

/-- The first consumer on a socket goes offline.
Source: `lib/server.js`, `disconnect`
Kind: D -/
def disconnectConsumer (r : Realm) (socket : JsString) (now : ℤ) : Realm :=
  match r.consumers.entries.find? fun e => e.2.socket = some socket with
  | none => r
  | some (name, m) =>
      (r.ensureProducers m.subscribeTos).modifyConsumer name fun m =>
        { m with online := some false, socket := none, offline_at := some now }

/-- A connection ends.
Source: `lib/server.js`, `disconnect`
Kind: D -/
def disconnect (r : Realm) (socket : JsString) (now : ℤ) : Realm :=
  (r.disconnectProducer socket now).disconnectConsumer socket now

/-! ### The sweep -/

/-- Has it been offline for long enough, with nothing linked to it? A time of zero counts as none.
Source: `lib/server.js`, `sweepIdleRegistrations`
Kind: D -/
def evictable (cutoff : ℤ) (socket : Option JsString) (online : Option Bool) (offline_at : Option ℤ)
    (links : List Name) : Bool :=
  socket = none ∧ online = some false ∧ (offline_at.any fun t => t ≠ 0 ∧ t ≤ cutoff) ∧ links.isEmpty

/-- Source: `lib/server.js`, `deleteConsumerFromSubscriptions`
Kind: D -/
def deleteConsumerFromSubscriptions (r : Realm) (consumer : Name) : Realm :=
  { r with subscriptions := r.subscriptions.filterMapValues fun subs => some (subs.delete consumer) }

/-- What is left of the subscriptions to an event without those that name a producer, none where that was
all of them.
Kind: D -/
def withoutProducer (producer : Name) (subs : JsMap Name Subscriber) : Option (JsMap Name Subscriber) :=
  let left := subs.deleteWhere fun _ sub => sub.subscribeTos.contains producer
  if subs.entries.any fun sub => sub.2.subscribeTos.contains producer then
    if left.entries.isEmpty then none else some left
  else some subs

/-- Source: `lib/server.js`, `deleteProducerFromSubscriptions`
Kind: D -/
def deleteProducerFromSubscriptions (r : Realm) (producer : Name) : Realm :=
  { r with subscriptions := r.subscriptions.filterMapValues (withoutProducer producer) }

/-- Evict a consumer that may be evicted.
Source: `lib/server.js`, `sweepIdleRegistrations`
Kind: D -/
def evictConsumer (cutoff : ℤ) (r : Realm) (e : Name × ConsumerMeta) : Realm :=
  if evictable cutoff e.2.socket e.2.online e.2.offline_at e.2.subscribeTos then
    deleteConsumerFromSubscriptions { r with consumers := r.consumers.delete e.1 } e.1
  else r

/-- Evict a producer that may be evicted.
Source: `lib/server.js`, `sweepIdleRegistrations`
Kind: D -/
def evictProducer (cutoff : ℤ) (r : Realm) (e : Name × ProducerMeta) : Realm :=
  if evictable cutoff e.2.socket e.2.online e.2.offline_at e.2.subscribers then
    deleteProducerFromSubscriptions { r with producers := r.producers.delete e.1 } e.1
  else r

/-- Source: `lib/server.js`, `sweepIdleRegistrations`, in one realm
Kind: D -/
def sweepIdleRegistrations (r : Realm) (cutoff : ℤ) : Realm :=
  let r := r.consumers.entries.foldl (evictConsumer cutoff) r
  r.producers.entries.foldl (evictProducer cutoff) r

end Realm

end TyoMq.Broker
