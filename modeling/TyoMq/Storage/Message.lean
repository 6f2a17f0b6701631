import Mathlib.Data.List.Lex
import Mathlib.Order.Fin.Basic
import Mathlib.Tactic.Common
import TyoMq.Lib.Sqlite

/-!
# Durable messages: what the stores share

The messages that a store is given, the entries it keeps, and the operations it offers, which are the
same for the three stores of `lib/storage`.

* A text is its UTF-8 bytes, which is how SQLite and Redis keep and compare it. A text that is missing
  is the empty one: the stores' `||` does not tell the two apart.
* The in-process store keeps a payload `π` itself, the other two its JSON text. To these a call is given
  with the payload that the text says, and with the texts that UTF-8 has for it (`Call.written`). In the
  JSON text of an entry Redis has a lone surrogate as an escape; here it is U+FFFD there as in the keys.
* Times are numbers `T`, and times to live numbers `D` (`Clock`). They are whole milliseconds where
  nothing else is said.
* Each operation reads the clock once.
-/

namespace TyoMq.Storage

open TyoMq.Lib

/-- A text: its UTF-8 bytes. A lone surrogate, which has none, has the three bytes that its number would
have.
Kind: D -/
abbrev Text := List (Fin 256)

/-- There is a byte zero.
Kind: D -/
scoped instance neZero_byte : NeZero 256 := ⟨by decide⟩

/-- Has the text this byte?
Kind: D -/
scoped instance decidableMem_text (b : Fin 256) (t : Text) : Decidable (b ∈ t) :=
  List.instDecidableMemOfLawfulBEq b t

/-- The text as UTF-8 has it: with U+FFFD for each lone surrogate.
Kind: D -/
def encoded : Text → Text
  | a :: b :: c :: t =>
      if a = 0xED ∧ 0xA0 ≤ b then 0xEF :: 0xBF :: 0xBD :: encoded t else a :: encoded (b :: c :: t)
  | t => t

theorem encoded_eq_nil {t : Text} : encoded t = [] ↔ t = [] := by
  constructor
  · intro h
    unfold encoded at h
    split at h
    · split_ifs at h
    · exact h
  · rintro rfl
    rfl

/-- The text of a string of ASCII characters.
Kind: D -/
def ascii (s : String) : Text := s.toList.map fun c => Fin.ofNat 256 c.toNat

/-- A text or, if it is empty, `null`.
Kind: D -/
def orNull (t : Text) : Option Text := if t = [] then none else some t

/-- A text or, if it is empty, another.
Kind: D -/
def orElse (t other : Text) : Text := if t = [] then other else t

/-- A time to live in milliseconds, `none` when it is not a finite number.
Kind: D -/
abbrev Ttl := Option ℤ

/-- A message to be queued.
Source: `lib/storage/memory.js`, `MemoryStore.prototype.enqueue`
Kind: D -/
structure Message (π : Type*) (D : Type := Ttl) where
  /-- The id, when the caller chooses it. -/
  id : Text
  /-- The consumer it is for. -/
  consumer : Text
  /-- The consumer it is for, under its other name. -/
  consumer_id : Text
  /-- `payload`, or `message` when that is undefined. -/
  payload : π
  /-- Who produced it. -/
  producer : Text
  /-- How long it lives, `none` when that is not given. -/
  ttl : Option D

/-- The consumer a message is for.
Kind: D -/
def Message.recipient {π : Type*} {D : Type} (m : Message π D) : Text :=
  orElse m.consumer m.consumer_id

/-- The id of a message, given the one generated for it in case it has none.
Kind: D -/
def Message.idOr {π : Type*} {D : Type} (m : Message π D) (generated : Text) : Text :=
  orElse m.id generated

/-- What `dequeue` returns for a message.
Source: `lib/storage/memory.js`, `MemoryStore.prototype.dequeue`
Kind: D -/
@[ext] structure Entry (π : Type*) (T : Type := ℤ) where
  /-- The message's id. -/
  id : Text
  /-- The realm. -/
  realm : Text
  /-- The event. -/
  event : Text
  /-- The consumer. -/
  consumer : Option Text
  /-- The payload. -/
  message : π
  /-- Who produced it. -/
  producer : Option Text
  /-- When it was queued. -/
  created_at : T
  /-- When it expires. -/
  expires_at : Option T
  deriving DecidableEq

/-- What `listDlq` returns for a dead-lettered message.
Source: `lib/storage/memory.js`, `MemoryStore.prototype.deadLetter`
Kind: D -/
structure DeadLetter (π : Type*) (T : Type := ℤ) where
  /-- The message. -/
  entry : Entry π T
  /-- Why it was given up. -/
  reason : Option Text
  /-- When. -/
  dead_lettered_at : T
  deriving DecidableEq

/-- When a message expires, `none` for never.
Source: `lib/storage/memory.js`, `MemoryStore.prototype._expiresAt`
Kind: D -/
def expiresAt (defaultTtl : Ttl) (ttl : Option Ttl) (now : ℤ) : Option ℤ :=
  match ttl.getD defaultTtl with
  | none => none
  | some ms => if ms < 0 then none else some (now + ms)

/-- An expiry time lies after the reading of the clock, or is it.
Kind: L -/
theorem le_expiresAt {defaultTtl : Ttl} {ttl : Option Ttl} {now x : ℤ}
    (h : x ∈ expiresAt defaultTtl ttl now) : now ≤ x := by
  unfold expiresAt at h
  split at h
  · exact absurd h (by simp)
  · split_ifs at h
    · exact absurd h (by simp)
    · have : now + _ = x := Option.some.inj h
      omega

/-- Numbers in which a store counts time.
Kind: D -/
class Clock (T : Type) (D : outParam Type) [LinearOrder T] [Zero T] where
  /-- When a message expires, given the default time to live, its own, and a reading of the clock. -/
  expiresAt : D → Option D → T → Option T
  /-- Can SQLite give the time back? -/
  readable : T → Bool
  /-- A message that is queued after the epoch expires after it. -/
  expiresAt_pos : ∀ {defaultTtl ttl now}, 0 < now → ∀ x ∈ expiresAt defaultTtl ttl now, 0 < x

/-- Whole milliseconds.
Kind: D -/
instance : Clock ℤ Ttl where
  expiresAt := expiresAt
  readable := Sqlite.readable
  expiresAt_pos hpos _ hx := hpos.trans_le (le_expiresAt hx)

/-- Can SQLite give the message's expiry back?
Kind: D -/
def Entry.readable {π : Type*} {T D : Type} [LinearOrder T] [Zero T] [Clock T D] (e : Entry π T) :
    Bool := e.expires_at.all Clock.readable

/-- `String(realm || 'default')`.
Kind: D -/
def realmOr (realm : Text) : Text := orElse realm (ascii "default")

theorem realmOr_of_ne_nil {realm : Text} (h : realm ≠ []) : realmOr realm = realm := if_neg h

theorem realmOr_ne_nil (realm : Text) : realmOr realm ≠ [] := by
  unfold realmOr orElse
  split_ifs with h
  · decide
  · exact h

/-! ### Operations -/

/-- An operation of a store.
Kind: D -/
inductive Op (π : Type*) (D : Type := Ttl)
  /-- `enqueue`, with the id generated for the message in case it has none. -/
  | enqueue (realm event : Text) (message : Message π D) (generated : Text)
  /-- `dequeue`. -/
  | dequeue (realm event consumer : Text)
  /-- `ack`. -/
  | ack (msgId : Text)
  /-- `deadLetter`. -/
  | deadLetter (msgId reason : Text)
  /-- `listDlq`. -/
  | listDlq (realm : Option Text)
  /-- `discardDlq`. -/
  | discardDlq (msgId : Text) (realm : Option Text)
  /-- `countQueued`. -/
  | countQueued (realm : Text) (event consumer : Option Text)
  /-- `purgeRealm`. -/
  | purgeRealm (realm : Text)

/-- An operation at a reading of the clock.
Kind: D -/
structure Call (π : Type*) (T : Type := ℤ) (D : Type := Ttl) where
  /-- The reading. -/
  now : T
  /-- The operation. -/
  op : Op π D

section Written

variable {π : Type*} {T D : Type}

/-- A message as it is written: its texts in UTF-8, its payload in JSON.
Kind: D -/
def Message.written (copy : π → π) (m : Message π D) : Message π D where
  id := encoded m.id
  consumer := encoded m.consumer
  consumer_id := encoded m.consumer_id
  payload := copy m.payload
  producer := encoded m.producer
  ttl := m.ttl

/-- An operation as it is written.
Kind: D -/
def Op.written (copy : π → π) : Op π D → Op π D
  | .enqueue realm event message generated =>
      .enqueue (encoded realm) (encoded event) (message.written copy) (encoded generated)
  | .dequeue realm event consumer => .dequeue (encoded realm) (encoded event) (encoded consumer)
  | .ack msgId => .ack (encoded msgId)
  | .deadLetter msgId reason => .deadLetter (encoded msgId) (encoded reason)
  | .listDlq realm => .listDlq (realm.map encoded)
  | .discardDlq msgId realm => .discardDlq (encoded msgId) (realm.map encoded)
  | .countQueued realm event consumer =>
      .countQueued (encoded realm) (event.map encoded) (consumer.map encoded)
  | .purgeRealm realm => .purgeRealm (encoded realm)

/-- A call as a store that writes texts and payloads is given it, where `copy` is what `JSON.parse` makes
of what `JSON.stringify` makes of a payload.
Kind: D -/
def Call.written (copy : π → π) (c : Call π T D) : Call π T D := ⟨c.now, c.op.written copy⟩

end Written

/-- A store whose state is `σ`: what each operation does at a reading of the clock, and what it
returns. An operation that fails returns `none`, and so does a count that a store cannot make.
Kind: D -/
structure Store (π σ : Type*) (T : Type := ℤ) (D : Type := Ttl) where
  /-- The store just created. -/
  init : σ
  /-- `enqueue`. -/
  enqueue : σ → T → Text → Text → Message π D → Text → σ × Option Text
  /-- `dequeue`. -/
  dequeue : σ → T → Text → Text → Text → σ × Option (List (Entry π T))
  /-- `ack`. -/
  ack : σ → T → Text → σ
  /-- `deadLetter`. -/
  deadLetter : σ → T → Text → Text → σ × Option (Option Text)
  /-- `listDlq`. -/
  listDlq : σ → T → Option Text → σ × Option (List (DeadLetter π T))
  /-- `discardDlq`. -/
  discardDlq : σ → T → Text → Option Text → σ
  /-- `countQueued`. -/
  countQueued : σ → T → Text → Option Text → Option Text → σ × Option ℕ
  /-- `purgeRealm`. -/
  purgeRealm : σ → T → Text → σ × ℕ

namespace Store

variable {π σ : Type*} {T D : Type}

/-- The state after a call.
Kind: D -/
def step (S : Store π σ T D) (s : σ) (c : Call π T D) : σ :=
  match c.op with
  | .enqueue realm event message generated => (S.enqueue s c.now realm event message generated).1
  | .dequeue realm event consumer => (S.dequeue s c.now realm event consumer).1
  | .ack msgId => S.ack s c.now msgId
  | .deadLetter msgId reason => (S.deadLetter s c.now msgId reason).1
  | .listDlq realm => (S.listDlq s c.now realm).1
  | .discardDlq msgId realm => S.discardDlq s c.now msgId realm
  | .countQueued realm event consumer => (S.countQueued s c.now realm event consumer).1
  | .purgeRealm realm => (S.purgeRealm s c.now realm).1

/-- The state after some calls, one after the other.
Kind: D -/
def run (S : Store π σ T D) (calls : List (Call π T D)) : σ := calls.foldl S.step S.init

theorem run_append (S : Store π σ T D) (calls : List (Call π T D)) (c : Call π T D) :
    S.run (calls ++ [c]) = S.step (S.run calls) c := by
  rw [run, List.foldl_append]
  rfl

end Store

end TyoMq.Storage
