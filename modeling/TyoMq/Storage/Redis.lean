import TyoMq.Lib.Redis
import TyoMq.Storage.Message

/-!
# Durable messages: the Redis store

`lib/storage/redis.js`: a string for each message and each dead letter, a sorted set of message ids
for each queue, and one of dead letters for each realm, scored by the time.

* The keys are told apart by their texts: the parts of an index key are encoded without colons.
-/

namespace TyoMq.Storage

open TyoMq.Lib

variable {π : Type*}

/-- A key of the store.
Source: `lib/storage/redis.js`, `RedisStore.prototype._messageKey`, `_dlqMessageKey`, `_dlqIndexKey`,
`_indexKey`
Kind: D -/
inductive Key
  /-- A message. -/
  | message (id : Text)
  /-- A dead letter. -/
  | dlqMessage (id : Text)
  /-- The dead letters of a realm. -/
  | dlqIndex (realm : Text)
  /-- A queue. -/
  | index (realm event consumer : Text)
  deriving DecidableEq

/-- What is written under the key of a message: the message and, for a dead letter, the reason and the
time.
Kind: D -/
structure Written (π : Type*) where
  /-- The message. -/
  entry : Entry π
  /-- `reason` and `dead_lettered_at`, when they are there. -/
  dead : Option (Option Text × ℤ)

/-- Source: `lib/storage/redis.js`, `RedisStore`
Kind: D -/
abbrev RedisStore (π : Type*) := Redis Key (Written π) Text

namespace RedisStore

/-- The key of the queue that an entry is in.
Kind: D -/
def indexOf (entry : Entry π) : Key := .index entry.realm entry.event (entry.consumer.getD [])

/-- Write a message under its key, to expire when it does.
Source: `lib/storage/redis.js`, `RedisStore.prototype.enqueue`
Kind: D -/
def write (db : RedisStore π) (now : ℤ) (payload : Entry π) : RedisStore π :=
  let db := db.set (.message payload.id) ⟨payload, none⟩
  match payload.expires_at with
  | none => db
  | some t => if t = 0 then db else db.pexpireat now (.message payload.id) t

/-- Source: `lib/storage/redis.js`, `RedisStore.prototype.enqueue`
Kind: D -/
def enqueue (defaultTtl : Ttl) (db : RedisStore π) (now : ℤ) (realm event : Text)
    (message : Message π) (generated : Text) : RedisStore π × Option Text :=
  let id := message.idOr generated
  let payload : Entry π :=
    { id := id
      realm := realmOr realm
      event := event
      consumer := some message.recipient
      message := message.payload
      producer := orNull message.producer
      created_at := now
      expires_at := expiresAt defaultTtl message.ttl now }
  ((write db now payload).zadd (indexOf payload) now id, some id)

/-- Source: `lib/storage/redis.js`, `RedisStore.prototype.ack`
Kind: D -/
def ack (db : RedisStore π) (now : ℤ) (msgId : Text) : RedisStore π :=
  let db :=
    match db.get now (.message msgId) with
    | none => db
    | some raw => db.zrem (indexOf raw.entry) msgId
  db.del (.message msgId)

/-- Has the entry expired, by the client's clock?
Kind: D -/
def isExpired (now : ℤ) (entry : Entry π) : Bool :=
  entry.expires_at.any fun t => t ≠ 0 ∧ t ≤ now

/-- What is done about an id whose message has been asked for.
Kind: D -/
def settle (now : ℤ) (indexKey : Key) (db : RedisStore π) (id : Text) :
    Option (Written π) → RedisStore π
  | none => db.zrem indexKey id
  | some raw => if isExpired now raw.entry then ack db now id else db

/-- What is returned for an id whose message has been asked for.
Kind: D -/
def deliver (now : ℤ) (raw : Option (Written π)) : Option (Entry π) :=
  (raw.map Written.entry).filter fun entry => !isExpired now entry

/-- All messages are asked for before the first answer is acted on.
Source: `lib/storage/redis.js`, `RedisStore.prototype.dequeue`
Kind: D -/
def dequeue (db : RedisStore π) (now : ℤ) (realm event consumer : Text) :
    RedisStore π × List (Entry π) :=
  let indexKey := Key.index (realmOr realm) event consumer
  let answers := (db.zrange indexKey).map fun id => (id, db.get now (.message id))
  (answers.foldl (fun db answer => settle now indexKey db answer.1 answer.2) db,
    answers.filterMap fun answer => deliver now answer.2)

/-- Source: `lib/storage/redis.js`, `RedisStore.prototype.deadLetter`
Kind: D -/
def deadLetter (db : RedisStore π) (now : ℤ) (msgId reason : Text) : RedisStore π × Option Text :=
  match db.get now (.message msgId) with
  | none => (db, none)
  | some raw =>
      let db := db.set (.dlqMessage msgId) ⟨raw.entry, some (orNull reason, now)⟩
      let db := db.zadd (.dlqIndex raw.entry.realm) now msgId
      (ack db now msgId, some msgId)

/-- Source: `lib/storage/redis.js`, `RedisStore.prototype.listDlq`
Kind: D -/
def listDlq (db : RedisStore π) (now : ℤ) (realm : Option Text) :
    RedisStore π × List (DeadLetter π) :=
  let indexKey := Key.dlqIndex (realm.getD [])
  let answers := (db.zrange indexKey).map fun id => (id, db.get now (.dlqMessage id))
  (answers.foldl (fun db answer => if answer.2.isNone then db.zrem indexKey answer.1 else db) db,
    answers.filterMap fun answer =>
      answer.2.bind fun raw => raw.dead.map fun dead => ⟨raw.entry, dead.1, dead.2⟩)

/-- Source: `lib/storage/redis.js`, `RedisStore.prototype.discardDlq`
Kind: D -/
def discardDlq (db : RedisStore π) (now : ℤ) (msgId : Text) (realm : Option Text) : RedisStore π :=
  let entryRealm := ((db.get now (.dlqMessage msgId)).map fun raw => raw.entry.realm).or realm
  let db := db.del (.dlqMessage msgId)
  match entryRealm with
  | none => db
  | some r => db.zrem (.dlqIndex r) msgId

/-- The count of a single queue, messages that have expired included.
Source: `lib/storage/redis.js`, `RedisStore.prototype.countQueued`
Kind: D -/
def countQueued (db : RedisStore π) (realm : Text) : Option Text → Option Text → Option ℕ
  | some event, some consumer => some (db.zcard (.index (realmOr realm) event consumer))
  | _, _ => none

/-- Does the key match the pattern of the queues of a realm?
Kind: D -/
def isIndexOf (realm : Text) : Key → Bool
  | .index r _ _ => r = realm
  | _ => false

/-- Delete a sorted set and the messages in it, adding to the count.
Source: `lib/storage/redis.js`, `RedisStore.prototype.purgeRealm`
Kind: D -/
def drainIndex (messageKeyFor : Text → Key) (s : RedisStore π × ℕ) (indexKey : Key) :
    RedisStore π × ℕ :=
  let ids := s.1.zrange indexKey
  ((ids.foldl (fun db id => db.del (messageKeyFor id)) s.1).del indexKey, s.2 + ids.length)

/-- Source: `lib/storage/redis.js`, `RedisStore.prototype.purgeRealm`
Kind: D -/
def purgeRealm (db : RedisStore π) (realm : Text) : RedisStore π × ℕ :=
  drainIndex .dlqMessage ((db.scan (isIndexOf realm)).foldl (drainIndex .message) (db, 0))
    (.dlqIndex realm)

/-- The operations of the Redis store.
Kind: D -/
def store (defaultTtl : Ttl) : Store π (RedisStore π) where
  init := Redis.empty
  enqueue := enqueue defaultTtl
  dequeue db now realm event consumer := (dequeue db now realm event consumer).map id some
  ack := ack
  deadLetter db now msgId reason := (deadLetter db now msgId reason).map id some
  listDlq db now realm := (listDlq db now realm).map id some
  discardDlq := discardDlq
  countQueued db _ realm event consumer := (db, countQueued db realm event consumer)
  purgeRealm db _ := purgeRealm db

end RedisStore

end TyoMq.Storage
