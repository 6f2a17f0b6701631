import Mathlib.Data.List.Nodup
import TyoMq.Storage.Message

/-!
# Durable messages: the in-process store

`lib/storage/memory.js`: an array of queued messages and one of dead letters.
-/

namespace TyoMq.Storage

/-- Source: `lib/storage/memory.js`, `MemoryStore`
Kind: D -/
structure MemoryStore (π : Type*) (T : Type := ℤ) where
  /-- The queued messages. -/
  messages : List (Entry π T)
  /-- The dead letters. -/
  dlq : List (DeadLetter π T)

namespace MemoryStore

variable {π : Type*} {T D : Type}

section Operations

variable [LinearOrder T] [Zero T] [Clock T D]

/-- The store just created.
Kind: D -/
def init : MemoryStore π T := ⟨[], []⟩

/-- Source: `lib/storage/memory.js`, `MemoryStore.prototype._purgeExpired`
Kind: D -/
def purgeExpired (s : MemoryStore π T) (now : T) : MemoryStore π T :=
  { s with messages := s.messages.filter fun entry => entry.expires_at.all fun t => t = 0 ∨ now < t }

/-- Source: `lib/storage/memory.js`, `MemoryStore.prototype.enqueue`
Kind: D -/
def enqueue (defaultTtl : D) (s : MemoryStore π T) (now : T) (realm event : Text)
    (message : Message π D) (generated : Text) : MemoryStore π T × Option Text :=
  let s := s.purgeExpired now
  let id := message.idOr generated
  ({ s with
      messages := s.messages ++
        [{ id := id
           realm := realmOr realm
           event := event
           consumer := orNull message.recipient
           message := message.payload
           producer := orNull message.producer
           created_at := now
           expires_at := Clock.expiresAt defaultTtl message.ttl now }] }, some id)

/-- Source: `lib/storage/memory.js`, `MemoryStore.prototype.dequeue`
Kind: D -/
def dequeue (s : MemoryStore π T) (now : T) (realm event consumer : Text) :
    MemoryStore π T × List (Entry π T) :=
  let s := s.purgeExpired now
  (s, s.messages.filter fun entry =>
    entry.realm = realmOr realm ∧ entry.event = event ∧ entry.consumer.getD [] = consumer)

/-- Source: `lib/storage/memory.js`, `MemoryStore.prototype.ack`
Kind: D -/
def ack (s : MemoryStore π T) (msgId : Text) : MemoryStore π T :=
  { s with messages := s.messages.filter fun entry => entry.id ≠ msgId }

/-- The last message with the id is the one that becomes a dead letter.
Source: `lib/storage/memory.js`, `MemoryStore.prototype.deadLetter`
Kind: D -/
def deadLetter (s : MemoryStore π T) (now : T) (msgId reason : Text) : MemoryStore π T × Option Text :=
  let messages := s.messages.filter fun entry => entry.id ≠ msgId
  match (s.messages.filter fun entry => entry.id = msgId).getLast? with
  | none => ({ s with messages := messages }, none)
  | some found => (⟨messages, s.dlq ++ [⟨found, orNull reason, now⟩]⟩, some found.id)

/-- Source: `lib/storage/memory.js`, `MemoryStore.prototype.listDlq`
Kind: D -/
def listDlq (s : MemoryStore π T) (realm : Option Text) : List (DeadLetter π T) :=
  s.dlq.filter fun d => realm.getD [] = [] ∨ d.entry.realm = realm.getD []

/-- Source: `lib/storage/memory.js`, `MemoryStore.prototype.discardDlq`
Kind: D -/
def discardDlq (s : MemoryStore π T) (msgId : Text) : MemoryStore π T :=
  { s with dlq := s.dlq.filter fun d => d.entry.id ≠ msgId }

/-- Source: `lib/storage/memory.js`, `MemoryStore.prototype.countQueued`
Kind: D -/
def countQueued (s : MemoryStore π T) (now : T) (realm : Text) (event consumer : Option Text) :
    MemoryStore π T × Option ℕ :=
  let s := s.purgeExpired now
  (s, some (s.messages.filter fun entry =>
    entry.realm = realmOr realm ∧ (event.all fun e => entry.event = e) ∧
      consumer.all fun c => entry.consumer.getD [] = c).length)

/-- Source: `lib/storage/memory.js`, `MemoryStore.prototype.purgeRealm`
Kind: D -/
def purgeRealm (s : MemoryStore π T) (realm : Text) : MemoryStore π T × ℕ :=
  let s' : MemoryStore π T :=
    ⟨s.messages.filter fun entry => entry.realm ≠ realm,
      s.dlq.filter fun d => d.entry.realm ≠ realm⟩
  (s', s.messages.length + s.dlq.length - s'.messages.length - s'.dlq.length)

/-- The operations of the in-process store.
Kind: D -/
def store (defaultTtl : D) : Store π (MemoryStore π T) T D where
  init := init
  enqueue := enqueue defaultTtl
  dequeue s now realm event consumer := (s.dequeue now realm event consumer).map id some
  ack s _ := s.ack
  deadLetter s now msgId reason := (s.deadLetter now msgId reason).map id some
  listDlq s _ realm := (s, some (s.listDlq realm))
  discardDlq s _ msgId _ := s.discardDlq msgId
  countQueued := countQueued
  purgeRealm s _ := s.purgeRealm

end Operations

/-! ### Dead letters -/

theorem messages_deadLetter (s : MemoryStore π T) (now : T) (msgId reason : Text) :
    (s.deadLetter now msgId reason).1.messages = s.messages.filter fun e => e.id ≠ msgId := by
  unfold deadLetter
  dsimp only
  split <;> rfl

/-- Where no two messages have the same id, what becomes a dead letter is what leaves the queue.
Kind: L -/
theorem dlq_deadLetter {s : MemoryStore π T} (hids : (s.messages.map Entry.id).Nodup) (now : T)
    (msgId reason : Text) :
    (s.deadLetter now msgId reason).1.dlq.map DeadLetter.entry =
      s.dlq.map DeadLetter.entry ++ s.messages.filter fun e => e.id = msgId := by
  have hone : (s.messages.filter fun e => e.id = msgId).length ≤ 1 := by
    have hcount := List.nodup_iff_count_le_one.mp hids msgId
    rw [List.count, List.countP_map, List.countP_eq_length_filter] at hcount
    have hfilter : (s.messages.filter fun e => e.id = msgId) =
        s.messages.filter ((fun id => id == msgId) ∘ Entry.id) :=
      List.filter_congr fun e _ => by rw [Bool.eq_iff_iff]; simp
    rw [hfilter]
    exact hcount
  unfold deadLetter
  dsimp only
  generalize (s.messages.filter fun e => e.id = msgId) = l at hone
  rcases l with _ | ⟨e, rest⟩
  · exact (List.append_nil _).symm
  · obtain rfl : rest = [] := List.eq_nil_of_length_eq_zero (by simpa using hone)
    exact List.map_append

end MemoryStore

end TyoMq.Storage
