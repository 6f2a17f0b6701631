import TyoMq.Lib.RowTable
import TyoMq.Storage.Message

/-!
# Durable messages: the SQLite store

`lib/storage/sqlite.js`: a table `messages` and a table `dlq`, both with the message's id as primary
key, and hence with row numbers of their own.

* The rows are compared by what they hold. What is read of them is cut at U+0000 (`Entry.cut`), and a row
  whose expiry is out of range is not read at all (`Entry.read`).
-/

namespace TyoMq.Storage

open TyoMq.Lib

variable {π : Type*} {T D : Type} [LinearOrder T] [Zero T] [Clock T D]

/-- Source: `lib/storage/sqlite.js`, `SQLiteStore`
Kind: D -/
structure SQLiteStore (π : Type*) (T : Type := ℤ) where
  /-- The table `messages`. -/
  messages : RowTable (Entry π T)
  /-- The table `dlq`. -/
  dlq : RowTable (DeadLetter π T)

/-- The texts of a row as they are read.
Kind: D -/
def Entry.cut (row : Entry π T) : Entry π T :=
  { row with
    id := Sqlite.cut row.id
    realm := Sqlite.cut row.realm
    event := Sqlite.cut row.event
    consumer := row.consumer.map Sqlite.cut
    producer := row.producer.map Sqlite.cut }

/-- A row as it is read.
Kind: D -/
def Entry.read (row : Entry π T) : Option (Entry π T) := if row.readable then some row.cut else none

/-- A row of the table `dlq` as it is read.
Kind: D -/
def DeadLetter.read (row : DeadLetter π T) : Option (DeadLetter π T) :=
  row.entry.read.map fun entry => ⟨entry, row.reason.map Sqlite.cut, row.dead_lettered_at⟩

namespace SQLiteStore

/-- The store just created.
Kind: D -/
def init : SQLiteStore π T := ⟨RowTable.empty, RowTable.empty⟩

/-- Source: `lib/storage/sqlite.js`, `SQLiteStore.prototype._purgeExpired`
Kind: D -/
def purgeExpired (s : SQLiteStore π T) (now : T) : SQLiteStore π T :=
  { s with messages := s.messages.deleteWhere fun row => row.expires_at.any (· ≤ now) }

/-- A message whose id is taken is refused by the primary key.
Source: `lib/storage/sqlite.js`, `SQLiteStore.prototype.enqueue`
Kind: D -/
def enqueue (defaultTtl : D) (s : SQLiteStore π T) (now : T) (realm event : Text)
    (message : Message π D) (generated : Text) : SQLiteStore π T × Option Text :=
  let s := s.purgeExpired now
  let id := message.idOr generated
  if s.messages.scan.any fun row => row.id = id then (s, none)
  else
    ({ s with
        messages := s.messages.insert
          { id := id
            realm := realmOr realm
            event := event
            consumer := some message.recipient
            message := message.payload
            producer := orNull message.producer
            created_at := now
            expires_at := Clock.expiresAt defaultTtl message.ttl now } }, some id)

/-- The query throws when it comes to a row that cannot be read.
Source: `lib/storage/sqlite.js`, `SQLiteStore.prototype.dequeue`
Kind: D -/
def dequeue (s : SQLiteStore π T) (now : T) (realm event consumer : Text) :
    SQLiteStore π T × Option (List (Entry π T)) :=
  let s := s.purgeExpired now
  (s, Sqlite.readAll Entry.read (s.messages.scan.filter fun row =>
    row.realm = realmOr realm ∧ row.event = event ∧ row.consumer = some consumer))

/-- Source: `lib/storage/sqlite.js`, `SQLiteStore.prototype.ack`
Kind: D -/
def ack (s : SQLiteStore π T) (msgId : Text) : SQLiteStore π T :=
  { s with messages := s.messages.deleteWhere fun row => row.id = msgId }

/-- What is filed is the row as it has been read.
Source: `lib/storage/sqlite.js`, `SQLiteStore.prototype.deadLetter`
Kind: D -/
def deadLetter (s : SQLiteStore π T) (now : T) (msgId reason : Text) :
    SQLiteStore π T × Option (Option Text) :=
  match s.messages.scan.find? fun row => row.id = msgId with
  | none => (s, some none)
  | some row =>
      match row.read with
      | none => (s, none)
      | some row =>
          (⟨s.messages.deleteWhere fun row => row.id = msgId,
            s.dlq.replaceWhere (fun d => d.entry.id = row.id) ⟨row, orNull reason, now⟩⟩,
            some (some row.id))

/-- Source: `lib/storage/sqlite.js`, `SQLiteStore.prototype.listDlq`
Kind: D -/
def listDlq (s : SQLiteStore π T) (realm : Option Text) : Option (List (DeadLetter π T)) :=
  Sqlite.readAll DeadLetter.read (s.dlq.scan.filter fun d => realm.all fun r => d.entry.realm = r)

/-- Source: `lib/storage/sqlite.js`, `SQLiteStore.prototype.discardDlq`
Kind: D -/
def discardDlq (s : SQLiteStore π T) (msgId : Text) : SQLiteStore π T :=
  { s with dlq := s.dlq.deleteWhere fun d => d.entry.id = msgId }

/-- Source: `lib/storage/sqlite.js`, `SQLiteStore.prototype.countQueued`
Kind: D -/
def countQueued (s : SQLiteStore π T) (now : T) (realm : Text) (event consumer : Option Text) :
    SQLiteStore π T × Option ℕ :=
  let s := s.purgeExpired now
  (s, some (s.messages.scan.filter fun row =>
    row.realm = realmOr realm ∧ (event.all fun e => row.event = e) ∧
      consumer.all fun c => row.consumer = some c).length)

/-- Source: `lib/storage/sqlite.js`, `SQLiteStore.prototype.purgeRealm`
Kind: D -/
def purgeRealm (s : SQLiteStore π T) (realm : Text) : SQLiteStore π T × ℕ :=
  (⟨s.messages.deleteWhere fun row => row.realm = realm,
    s.dlq.deleteWhere fun d => d.entry.realm = realm⟩,
    (s.messages.scan.filter fun row => row.realm = realm).length +
      (s.dlq.scan.filter fun d => d.entry.realm = realm).length)

/-- The operations of the SQLite store.
Kind: D -/
def store (defaultTtl : D) : Store π (SQLiteStore π T) T D where
  init := init
  enqueue := enqueue defaultTtl
  dequeue := dequeue
  ack s _ := s.ack
  deadLetter := deadLetter
  listDlq s _ realm := (s, s.listDlq realm)
  discardDlq s _ msgId _ := s.discardDlq msgId
  countQueued := countQueued
  purgeRealm s _ := s.purgeRealm

end SQLiteStore

end TyoMq.Storage
