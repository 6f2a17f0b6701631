import TyoMq.Lib.Runs
import TyoMq.Storage.Keys
import TyoMq.Storage.RedisFiling

/-!
# Durable messages: queues that see each other's messages

The Redis store called with JavaScript strings, and which queues its messages turn up in.

* The strings are carried along with each message, so that it can be told which queue it was meant for
  (`Address`, `Traced`).
* Every queue sees only its own messages exactly as long as no message is queued under a string that
  another one becomes the same as, nor with an id that another queue still has (`isolated_iff`).
-/

namespace TyoMq.Storage

open TyoMq.Lib

variable {π : Type*}

/-! ### Calls with JavaScript strings -/

/-- A queue.
Kind: D -/
@[ext] structure Address where
  /-- The realm. -/
  realm : JsString
  /-- The event. -/
  event : JsString
  /-- The consumer. -/
  consumer : JsString
  /-- An empty realm counts as the default one. -/
  realm_ne_nil : realm ≠ []
  deriving DecidableEq

/-- The queue that these strings name.
Source: `lib/storage/redis.js`, `RedisStore.prototype.enqueue`, `dequeue`
Kind: D -/
def Address.named (realm event consumer : JsString) : Address where
  realm := if realm = [] then js "default" else realm
  event := event
  consumer := consumer
  realm_ne_nil := by
    split_ifs with h
    · decide
    · exact h

/-- Its key.
Kind: D -/
def Address.key (q : Address) : Key := (JsKey.index q.realm q.event q.consumer).key

/-- An operation called with JavaScript strings; the consumer of a message is given apart.
Kind: D -/
inductive JsOp (π : Type*)
  /-- `enqueue`. -/
  | enqueue (realm event consumer : JsString) (message : Message π) (generated : Text)
  /-- `dequeue`. -/
  | dequeue (realm event consumer : JsString)
  /-- `ack`. -/
  | ack (msgId : Text)
  /-- `deadLetter`. -/
  | deadLetter (msgId reason : Text)
  /-- `listDlq`. -/
  | listDlq (realm : Option JsString)
  /-- `discardDlq`. -/
  | discardDlq (msgId : Text) (realm : Option JsString)
  /-- `countQueued`. -/
  | countQueued (realm : JsString) (event consumer : Option JsString)
  /-- `purgeRealm`. -/
  | purgeRealm (realm : JsString)

namespace JsOp

/-- The operation with the bytes of the strings; a message carries its queue along.
Kind: D -/
def op : JsOp π → Op (Address × π)
  | enqueue realm event consumer message generated =>
      .enqueue (utf8 realm) (utf8 event)
        { id := message.id
          consumer := utf8 consumer
          consumer_id := []
          payload := (Address.named realm event consumer, message.payload)
          producer := message.producer
          ttl := message.ttl } generated
  | dequeue realm event consumer => .dequeue (utf8 realm) (utf8 event) (utf8 consumer)
  | ack msgId => .ack msgId
  | deadLetter msgId reason => .deadLetter msgId reason
  | listDlq realm => .listDlq (realm.map utf8)
  | discardDlq msgId realm => .discardDlq msgId (realm.map utf8)
  | countQueued realm event consumer =>
      .countQueued (utf8 realm) (event.map utf8) (consumer.map utf8)
  | purgeRealm realm => .purgeRealm (utf8 realm)

/-- The id and the queue of a message that is queued.
Kind: D -/
def queues : JsOp π → List (Text × Address)
  | enqueue realm event consumer message generated =>
      [(message.idOr generated, Address.named realm event consumer)]
  | _ => []

end JsOp

/-- An operation at a reading of the clock.
Kind: D -/
structure JsCall (π : Type*) where
  /-- The reading. -/
  now : ℤ
  /-- The operation. -/
  op : JsOp π

/-- The database, and the messages that have been queued so far.
Kind: D -/
structure Traced (π : Type*) where
  /-- The database. -/
  db : RedisStore (Address × π)
  /-- The ids and the queues. -/
  history : List (Text × Address)

namespace Traced

/-- Nothing has been called.
Kind: D -/
def init : Traced π := ⟨Redis.empty, []⟩

/-- What a call does.
Kind: D -/
def step (defaultTtl : Ttl) (s : Traced π) (c : JsCall π) : Traced π :=
  ⟨(RedisStore.store defaultTtl).step s.db ⟨c.now, c.op.op⟩, s.history ++ c.op.queues⟩

theorem step_db (defaultTtl : Ttl) (s : Traced π) (c : JsCall π) :
    (s.step defaultTtl c).db = (RedisStore.store defaultTtl).step s.db ⟨c.now, c.op.op⟩ := rfl

/-- Every queue sees only what was queued for it: what `dequeue` returns, and the ids that `countQueued`
counts.
Kind: D -/
def Isolated (s : Traced π) : Prop :=
  ∀ q : Address,
    (∀ now, ∀ e ∈ (RedisStore.dequeue s.db now (utf8 q.realm) (utf8 q.event) (utf8 q.consumer)).2,
      e.message.1 = q) ∧
    ∀ id ∈ s.db.zrange q.key, (id, q) ∈ s.history

/-- Is no message queued under a string that another one becomes the same as, nor, unless it expires at
once, with an id that another queue has?
Kind: D -/
def Unmistaken (defaultTtl : Ttl) (s : Traced π) (c : JsCall π) : Prop :=
  match c.op with
  | .enqueue realm event consumer message generated =>
      let q := Address.named realm event consumer
      (replacement ∉ scalars q.realm ∧ replacement ∉ scalars q.event ∧
        replacement ∉ scalars q.consumer) ∧
      (expiresAt defaultTtl message.ttl c.now = some c.now ∧ c.now ≠ 0 ∨
        ∀ q' ≠ q, message.idOr generated ∉ s.db.zrange q'.key)
  | _ => True

end Traced

/-! ### Taking away -/

namespace RedisStore

/-- Messages and ids of queues are taken away, and none come.
Kind: D -/
structure Shrunk (db db' : RedisStore π) : Prop where
  /-- The messages that are there were there. -/
  get : ∀ now id raw, db'.get now (.message id) = some raw → db.get now (.message id) = some raw
  /-- The ids that are in a queue were there. -/
  queue : ∀ r ev c id, id ∈ db'.zrange (.index r ev c) → id ∈ db.zrange (.index r ev c)

namespace Shrunk

variable {db db' db'' : RedisStore π}

theorem refl (db : RedisStore π) : Shrunk db db := ⟨fun _ _ _ h => h, fun _ _ _ _ h => h⟩

theorem trans (h : Shrunk db db') (h' : Shrunk db' db'') : Shrunk db db'' :=
  ⟨fun now id raw hraw => h.get now id raw (h'.get now id raw hraw),
    fun r ev c id hin => h.queue r ev c id (h'.queue r ev c id hin)⟩

theorem zrem (db : RedisStore π) (k : Key) (msgId : Text) : Shrunk db (db.zrem k msgId) where
  get now id raw hraw := by rwa [Redis.get_zrem] at hraw
  queue r ev c id hin := (Redis.mem_zrange_zrem.mp hin).1

theorem del (db : RedisStore π) (k : Key) : Shrunk db (db.del k) where
  get now id raw hraw := by
    by_cases hk : Key.message id = k
    · rw [← hk, Redis.get_del_self] at hraw
      exact absurd hraw (by simp)
    · rwa [Redis.get_del_of_ne hk] at hraw
  queue r ev c id hin := by
    by_cases hk : Key.index r ev c = k
    · rw [Redis.zrange, ← hk, Redis.zset_del_self] at hin
      exact absurd hin List.not_mem_nil
    · rwa [Redis.zrange, Redis.zset_del_of_ne hk] at hin

/-- Nothing happens to messages and queues.
Kind: L -/
theorem of_same (h : ∀ k : Key, k.isDlq = false → Redis.SameAt db db' k) : Shrunk db db' where
  get now id raw hraw := by rwa [(h (.message id) rfl).get] at hraw
  queue r ev c id hin := by rwa [Redis.zrange, (h (.index r ev c) rfl).zset] at hin

theorem foldl {α : Type*} {f : RedisStore π → α → RedisStore π} (h : ∀ db a, Shrunk db (f db a))
    (l : List α) (db : RedisStore π) : Shrunk db (l.foldl f db) := by
  induction l generalizing db with
  | nil => exact refl db
  | cons a l ih => exact (h db a).trans (ih (f db a))

theorem ack (db : RedisStore π) (now : ℤ) (msgId : Text) : Shrunk db (RedisStore.ack db now msgId) := by
  rw [RedisStore.ack]
  refine Shrunk.trans ?_ (del _ _)
  split
  · exact refl db
  · exact zrem db _ msgId

theorem settle (db : RedisStore π) (now : ℤ) (indexKey : Key) (id : Text) (raw : Option (Written π)) :
    Shrunk db (RedisStore.settle now indexKey db id raw) := by
  rcases raw with _ | raw
  · exact zrem db indexKey id
  · rw [RedisStore.settle]
    split_ifs
    · exact ack db now id
    · exact refl db

theorem deadLetter (db : RedisStore π) (now : ℤ) (msgId reason : Text) :
    Shrunk db (RedisStore.deadLetter db now msgId reason).1 := by
  rw [RedisStore.deadLetter]
  split
  · exact refl db
  · rename_i raw hraw
    refine Shrunk.trans (of_same fun k hk => ?_) (ack _ now msgId)
    refine (Redis.SameAt.set db ?_ _).trans (Redis.SameAt.zadd _ ?_ _ _)
    · rintro rfl
      exact absurd hk (by simp [Key.isDlq])
    · rintro rfl
      exact absurd hk (by simp [Key.isDlq])

theorem drainIndex (messageKeyFor : Text → Key) (s : RedisStore π × ℕ) (indexKey : Key) :
    Shrunk s.1 (RedisStore.drainIndex messageKeyFor s indexKey).1 :=
  (foldl (fun db id => del db (messageKeyFor id)) _ s.1).trans (del _ indexKey)

theorem purgeRealm (db : RedisStore π) (realm : Text) : Shrunk db (RedisStore.purgeRealm db realm).1 := by
  have hall : ∀ (keys : List Key) (s : RedisStore π × ℕ),
      Shrunk s.1 (keys.foldl (RedisStore.drainIndex .message) s).1 := by
    intro keys
    induction keys with
    | nil => exact fun s => refl s.1
    | cons k keys ih => exact fun s => (drainIndex .message s k).trans (ih _)
  rw [RedisStore.purgeRealm]
  exact (hall _ (db, 0)).trans (drainIndex .dlqMessage _ _)

/-- Only `enqueue` brings messages.
Kind: P -/
theorem step (defaultTtl : Ttl) (db : RedisStore π) (c : Call π)
    (h : ∀ realm event message generated, c.op ≠ .enqueue realm event message generated) :
    Shrunk db ((store defaultTtl).step db c) := by
  obtain ⟨now, op⟩ := c
  cases op with
  | enqueue realm event message generated => exact absurd rfl (h realm event message generated)
  | dequeue realm event consumer =>
      exact foldl (fun db (answer : Text × Option (Written π)) => settle db now _ answer.1 answer.2) _ db
  | ack msgId => exact ack db now msgId
  | deadLetter msgId reason => exact deadLetter db now msgId reason
  | listDlq realm =>
      refine foldl (fun db answer => ?_) _ db
      split_ifs
      · exact zrem db _ _
      · exact refl db
  | discardDlq msgId realm =>
      show Shrunk db (RedisStore.discardDlq db now msgId realm)
      rw [RedisStore.discardDlq]
      split
      · exact del db _
      · exact (del db _).trans (zrem _ _ msgId)
  | countQueued => exact refl db
  | purgeRealm realm => exact purgeRealm db realm

end Shrunk

/-- What `dequeue` returns is under the key of an id that the queue has.
Kind: L -/
theorem mem_dequeue {db : RedisStore π} {now : ℤ} {realm event consumer : Text} {e : Entry π} :
    e ∈ (dequeue db now realm event consumer).2 ↔
      ∃ id ∈ db.zrange (.index (realmOr realm) event consumer), ∃ raw,
        db.get now (.message id) = some raw ∧ raw.entry = e ∧ isExpired now e = false := by
  rw [dequeue, List.filterMap_map, List.mem_filterMap]
  refine exists_congr fun id => and_congr_right fun _ => ?_
  rw [Function.comp_apply, deliver, Option.filter_eq_some_iff, Option.map_eq_some_iff]
  simp only [Bool.not_eq_true']
  constructor
  · rintro ⟨⟨raw, hraw, hentry⟩, hexpired⟩
    exact ⟨raw, hraw, hentry, hexpired⟩
  · rintro ⟨raw, hraw, hentry, hexpired⟩
    exact ⟨⟨raw, hraw, hentry⟩, hexpired⟩

end RedisStore

/-! ### Queues and strings -/

namespace Address

theorem realmOr_utf8 (q : Address) : realmOr (utf8 q.realm) = utf8 q.realm :=
  if_neg fun h => q.realm_ne_nil (utf8_eq_nil.mp h)

/-- What a queue returns.
Kind: L -/
theorem mem_dequeue {db : RedisStore π} {now : ℤ} {q : Address} {e : Entry π} :
    e ∈ (RedisStore.dequeue db now (utf8 q.realm) (utf8 q.event) (utf8 q.consumer)).2 ↔
      ∃ id ∈ db.zrange q.key, ∃ raw,
        db.get now (.message id) = some raw ∧ raw.entry = e ∧ RedisStore.isExpired now e = false := by
  rw [RedisStore.mem_dequeue, realmOr_utf8]
  rfl

/-- The realm is defaulted in the same way in strings and in bytes.
Kind: L -/
theorem utf8_realm_named (realm event consumer : JsString) :
    utf8 (named realm event consumer).realm = realmOr (utf8 realm) := by
  rw [named, realmOr, orElse]
  dsimp only
  by_cases h : realm = []
  · rw [if_pos h, if_pos (utf8_eq_nil.mpr h)]
    decide
  · rw [if_neg h, if_neg fun hnil => h (utf8_eq_nil.mp hnil)]

/-- A queue that cannot be mistaken is the only one with its key.
Kind: L -/
theorem eq_of_key {q q' : Address} (h : replacement ∉ scalars q.realm ∧ replacement ∉ scalars q.event ∧
    replacement ∉ scalars q.consumer) (hkey : q'.key = q.key) : q' = q := by
  obtain ⟨hrealm, hevent, hconsumer⟩ := h
  rw [key, key, JsKey.key_eq_iff, JsKey.wellFormed, JsKey.wellFormed, JsKey.index.injEq] at hkey
  obtain ⟨hrealm', hevent', hconsumer'⟩ := hkey
  apply Address.ext
  · exact unmistakable_iff.mpr hrealm _ hrealm'
  · exact unmistakable_iff.mpr hevent _ hevent'
  · exact unmistakable_iff.mpr hconsumer _ hconsumer'

theorem key_congr {q q' : Address} (hrealm : utf8 q.realm = utf8 q'.realm)
    (hevent : utf8 q.event = utf8 q'.event) (hconsumer : utf8 q.consumer = utf8 q'.consumer) :
    q.key = q'.key := by
  rw [key, JsKey.key, hrealm, hevent, hconsumer, key, JsKey.key]

/-- A queue that can be mistaken is not.
Kind: L -/
theorem exists_key {q : Address} (h : ¬ (replacement ∉ scalars q.realm ∧ replacement ∉ scalars q.event ∧
    replacement ∉ scalars q.consumer)) : ∃ q' : Address, q' ≠ q ∧ q'.key = q.key := by
  have hother : ∀ {s : JsString}, replacement ∈ scalars s → ∃ s', utf8 s' = utf8 s ∧ s' ≠ s := by
    intro s hs
    by_contra hnone
    refine unmistakable_iff.mp (fun s' hs' => ?_) hs
    by_contra hne
    exact hnone ⟨s', utf8_inj.mpr hs', hne⟩
  by_cases hrealm : replacement ∈ scalars q.realm
  · obtain ⟨r, hbytes, hr⟩ := hother hrealm
    have hne : r ≠ [] := by
      intro hnil
      rw [utf8_eq_nil.mpr hnil] at hbytes
      exact q.realm_ne_nil (utf8_eq_nil.mp hbytes.symm)
    exact ⟨⟨r, q.event, q.consumer, hne⟩, fun heq => hr (congrArg Address.realm heq),
      key_congr hbytes rfl rfl⟩
  · by_cases hevent : replacement ∈ scalars q.event
    · obtain ⟨ev, hbytes, hev⟩ := hother hevent
      exact ⟨⟨q.realm, ev, q.consumer, q.realm_ne_nil⟩, fun heq => hev (congrArg Address.event heq),
        key_congr rfl hbytes rfl⟩
    · have hconsumer : replacement ∈ scalars q.consumer := by
        by_contra hconsumer
        exact h ⟨hrealm, hevent, hconsumer⟩
      obtain ⟨c, hbytes, hc⟩ := hother hconsumer
      exact ⟨⟨q.realm, q.event, c, q.realm_ne_nil⟩, fun heq => hc (congrArg Address.consumer heq),
        key_congr rfl rfl hbytes⟩

end Address

/-! ### One call -/

namespace RedisStore

/-- A message that expires at once is not written.
Kind: L -/
theorem get_write_of_expired {db : RedisStore π} {now t : ℤ} {e : Entry π}
    (h : e.expires_at = some now ∧ now ≠ 0) : (write db now e).get t (.message e.id) = none := by
  rw [write, h.1]
  dsimp only
  rw [if_neg h.2, Redis.get_pexpireat_self Redis.get_set_self, if_pos (Or.inl (le_refl now))]

/-- Any other is there at once.
Kind: L -/
theorem get_write_now {db : RedisStore π} {now : ℤ} {e : Entry π} (hle : ∀ t ∈ e.expires_at, now ≤ t)
    (h : ¬ (e.expires_at = some now ∧ now ≠ 0)) :
    (write db now e).get now (.message e.id) = some ⟨e, none⟩ ∧ isExpired now e = false := by
  rw [write, isExpired]
  rcases hx : e.expires_at with _ | t
  · exact ⟨Redis.get_set_self, rfl⟩
  · dsimp only
    rw [hx] at hle h
    have hnow : now ≤ t := hle t rfl
    by_cases ht : t = 0
    · rw [if_pos ht]
      exact ⟨Redis.get_set_self, decide_eq_false fun hexpired => hexpired.1 ht⟩
    · have hne : t ≠ now := by
        rintro rfl
        exact h ⟨rfl, ht⟩
      rw [if_neg ht, Redis.get_pexpireat_self Redis.get_set_self, if_neg (by omega)]
      exact ⟨rfl, decide_eq_false fun hexpired => absurd hexpired.2 (by omega)⟩

end RedisStore

namespace Traced

variable {defaultTtl : Ttl} {s : Traced π}

/-- All queues that messages have been queued for can be told apart from all others.
Kind: D -/
def Clear (s : Traced π) : Prop :=
  ∀ m ∈ s.history, replacement ∉ scalars m.2.realm ∧ replacement ∉ scalars m.2.event ∧
    replacement ∉ scalars m.2.consumer

/-- A call that brings no messages.
Kind: L -/
theorem Isolated.shrink (h : s.Isolated) {s' : Traced π} (hshrunk : RedisStore.Shrunk s.db s'.db)
    (hqueued : ∀ m ∈ s.history, m ∈ s'.history) : s'.Isolated := by
  intro q
  obtain ⟨hmessages, hids⟩ := h q
  refine ⟨fun now e he => ?_, fun id hid => hqueued _ (hids id (hshrunk.queue _ _ _ id hid))⟩
  obtain ⟨id, hid, raw, hraw, hentry, hexpired⟩ := RedisStore.mem_dequeue.mp he
  apply hmessages now e
  exact RedisStore.mem_dequeue.mpr
    ⟨id, hshrunk.queue _ _ _ id hid, raw, hshrunk.get now id raw hraw, hentry, hexpired⟩

/-- What a message that is queued changes: its id comes into its queue, and what is written is under its
key.
Kind: D -/
structure Placed (q : Address) (e : Entry (Address × π)) (now : ℤ)
    (db db' : RedisStore (Address × π)) : Prop where
  /-- The queues. -/
  ids : ∀ (q' : Address) id, id ∈ db'.zrange q'.key ↔
    q'.key = q.key ∧ id = e.id ∨ id ∈ db.zrange q'.key
  /-- The message. -/
  written : ∀ t, db'.get t (.message e.id) = (RedisStore.write db now e).get t (.message e.id)
  /-- The other messages. -/
  other : ∀ t id, id ≠ e.id → db'.get t (.message id) = db.get t (.message id)

theorem placed_enqueue (defaultTtl : Ttl) (db : RedisStore (Address × π)) (now : ℤ)
    (realm event consumer : JsString) (message : Message π) (generated : Text) {e : Entry (Address × π)}
    (he : e = queued defaultTtl now (utf8 realm) (utf8 event)
      ⟨message.id, utf8 consumer, [], (Address.named realm event consumer, message.payload),
        message.producer, message.ttl⟩ generated) :
    Placed (Address.named realm event consumer) e now db
      ((RedisStore.write db now e).zadd (RedisStore.indexOf e) now e.id) := by
  have hindex : RedisStore.indexOf e = (Address.named realm event consumer).key := by
    have hconsumer : orElse (utf8 consumer) [] = utf8 consumer := by
      rw [orElse]
      split_ifs with hnil
      · exact hnil.symm
      · rfl
    rw [Address.key, JsKey.key, Address.utf8_realm_named, he]
    show Key.index (realmOr (utf8 realm)) (utf8 event) (orElse (utf8 consumer) []) = _
    rw [hconsumer]
    rfl
  constructor
  · intro q' id
    have hsame : Redis.SameAt db (RedisStore.write db now e) q'.key :=
      RedisStore.sameAt_write db now e (by simp [Address.key, JsKey.key])
    rw [Redis.mem_zrange_zadd, hindex, Redis.zrange, hsame.zset, ← Redis.zrange]
  · intro t
    exact Redis.get_zadd
  · intro t id hid
    rw [Redis.get_zadd]
    exact (RedisStore.sameAt_write db now e (by simpa using hid)).get t

section Placed

variable {q : Address} {e : Entry (Address × π)} {now : ℤ} {db' : RedisStore (Address × π)}

/-- Where the queues are isolated after a message was queued, it was not mistaken.
Kind: L -/
theorem Placed.unmistaken (hplaced : Placed q e now s.db db') (hclear : s.Clear)
    (hlater : ∀ t ∈ e.expires_at, now ≤ t) (hown : e.message.1 = q)
    (hisolated : (⟨db', s.history ++ [(e.id, q)]⟩ : Traced π).Isolated) :
    (replacement ∉ scalars q.realm ∧ replacement ∉ scalars q.event ∧
        replacement ∉ scalars q.consumer) ∧
      (e.expires_at = some now ∧ now ≠ 0 ∨ ∀ q' ≠ q, e.id ∉ s.db.zrange q'.key) := by
  constructor
  · -- a queue that is mistaken for this one would have the id as well
    by_contra hmistaken
    obtain ⟨q', hne, hkey⟩ := Address.exists_key hmistaken
    have hid : e.id ∈ db'.zrange q'.key := (hplaced.ids q' e.id).mpr (Or.inl ⟨hkey, rfl⟩)
    rcases List.mem_append.mp ((hisolated q').2 e.id hid) with hold | hnew
    · exact hne (Address.eq_of_key (hclear _ hold) hkey.symm).symm
    · obtain ⟨-, rfl⟩ := Prod.mk.inj (List.mem_singleton.mp hnew)
      exact hne rfl
  · by_cases hexpired : e.expires_at = some now ∧ now ≠ 0
    · exact Or.inl hexpired
    · -- another queue that has the id would return the message
      refine Or.inr fun q' hne hid => hne ?_
      obtain ⟨hthere, halive⟩ := RedisStore.get_write_now hlater hexpired
      rw [← hplaced.written] at hthere
      have hmem : e ∈ (RedisStore.dequeue db' now (utf8 q'.realm) (utf8 q'.event)
          (utf8 q'.consumer)).2 :=
        Address.mem_dequeue.mpr
          ⟨e.id, (hplaced.ids q' e.id).mpr (Or.inr hid), ⟨e, none⟩, hthere, rfl, halive⟩
      exact ((hisolated q').1 now e hmem).symm.trans hown

/-- A message that is not mistaken leaves the queues isolated.
Kind: L -/
theorem Placed.isolated_of_unmistaken (hplaced : Placed q e now s.db db') (h : s.Isolated)
    (hclear : replacement ∉ scalars q.realm ∧ replacement ∉ scalars q.event ∧
      replacement ∉ scalars q.consumer)
    (hid : e.expires_at = some now ∧ now ≠ 0 ∨ ∀ q' ≠ q, e.id ∉ s.db.zrange q'.key)
    (hown : e.message.1 = q) :
    (⟨db', s.history ++ [(e.id, q)]⟩ : Traced π).Isolated := by
  intro q'
  refine ⟨fun t e' he' => ?_, fun id hid' => ?_⟩
  · obtain ⟨id, hin, raw, hraw, hentry, hexpired⟩ := Address.mem_dequeue.mp he'
    by_cases hne : id = e.id
    · rw [hne, hplaced.written] at hraw
      rw [← hentry, RedisStore.Filed.of_get_write hraw, hown]
      by_contra hother
      rcases hid with hat | hnowhere
      · rw [RedisStore.get_write_of_expired hat] at hraw
        exact absurd hraw (by simp)
      · rcases (hplaced.ids q' id).mp hin with ⟨hkey, -⟩ | hold
        · exact hother (Address.eq_of_key hclear hkey).symm
        · rw [hne] at hold
          exact hnowhere q' (Ne.symm hother) hold
    · rw [hplaced.other t id hne] at hraw
      apply (h q').1 t e'
      apply Address.mem_dequeue.mpr
      refine ⟨id, ?_, raw, hraw, hentry, hexpired⟩
      exact ((hplaced.ids q' id).mp hin).resolve_left fun hnew => hne hnew.2
  · rcases (hplaced.ids q' id).mp hid' with ⟨hkey, rfl⟩ | hold
    · rw [Address.eq_of_key hclear hkey]
      exact List.mem_append_right _ (List.mem_singleton_self _)
    · exact List.mem_append_left _ ((h q').2 id hold)

end Placed

/-- A message that is queued leaves the queues isolated exactly when it is not mistaken.
Kind: L -/
theorem isolated_enqueue_iff (hclear : s.Clear) (h : s.Isolated) (now : ℤ)
    (realm event consumer : JsString) (message : Message π) (generated : Text) :
    (s.step defaultTtl ⟨now, .enqueue realm event consumer message generated⟩).Isolated ↔
      s.Unmistaken defaultTtl ⟨now, .enqueue realm event consumer message generated⟩ := by
  have hplaced := placed_enqueue defaultTtl s.db now realm event consumer message generated rfl
  constructor
  · intro hisolated
    exact hplaced.unmistaken hclear (fun t ht => le_expiresAt ht) rfl hisolated
  · rintro ⟨hclear', hid⟩
    exact hplaced.isolated_of_unmistaken h hclear' hid rfl

/-- A call leaves the queues isolated exactly when no message is mistaken.
Kind: P -/
theorem isolated_step_iff (hclear : s.Clear) (h : s.Isolated) (c : JsCall π) :
    (s.step defaultTtl c).Isolated ↔ s.Unmistaken defaultTtl c := by
  obtain ⟨now, op⟩ := c
  cases op with
  | enqueue realm event consumer message generated =>
      exact isolated_enqueue_iff hclear h now realm event consumer message generated
  | dequeue | ack | deadLetter | listDlq | discardDlq | countQueued | purgeRealm =>
      refine iff_of_true (h.shrink ?_ fun m hm => List.mem_append_left _ hm) trivial
      rw [step_db]
      apply RedisStore.Shrunk.step
      simp [JsOp.op]

theorem Clear.step (hclear : s.Clear) {c : JsCall π} (h : s.Unmistaken defaultTtl c) :
    (s.step defaultTtl c).Clear := by
  obtain ⟨now, op⟩ := c
  intro m hm
  rcases List.mem_append.mp hm with hm | hm
  · exact hclear m hm
  · cases op with
    | enqueue realm event consumer message generated =>
        rw [List.mem_singleton.mp hm]
        exact h.1
    | dequeue | ack | deadLetter | listDlq | discardDlq | countQueued | purgeRealm =>
        exact absurd hm List.not_mem_nil

end Traced

/-- **Which keys are the same, and when queues see each other's messages.**
Kind: P -/
theorem isolated_iff (keyPrefix : JsString) (defaultTtl : Ttl) (calls : List (JsCall π)) :
    (∀ k k' : JsKey, utf8 (k.text keyPrefix) = utf8 (k'.text keyPrefix) ↔
      k.wellFormed = k'.wellFormed) ∧
    ((∀ before after, before ++ after = calls →
        (runFrom (Traced.step defaultTtl) Traced.init before).Isolated) ↔
      EachStep (Traced.step defaultTtl) (Traced.Unmistaken defaultTtl) Traced.init calls) ∧
    ∀ (db : RedisStore (Address × π)) (q : Address),
      RedisStore.countQueued db (utf8 q.realm) (some (utf8 q.event)) (some (utf8 q.consumer)) =
        some (db.zrange q.key).length := by
  refine ⟨fun k k' => JsKey.utf8_text_inj keyPrefix, ?_, fun db q => ?_⟩
  · refine everyState_iff_of (J := Traced.Clear)
      (fun s c hclear h => Traced.isolated_step_iff hclear h c)
      (fun s c hclear h => hclear.step h) (fun m hm => absurd hm List.not_mem_nil) fun q => ?_
    refine ⟨fun now e he => ?_, fun id hid => absurd hid List.not_mem_nil⟩
    obtain ⟨id, hid, -⟩ := RedisStore.mem_dequeue.mp he
    exact absurd hid List.not_mem_nil
  · rw [RedisStore.countQueued, Address.realmOr_utf8, Redis.zcard_eq_length]
    rfl

/-- A message is queued in a realm that is a lone surrogate.
Kind: D -/
def surrogate : List (JsCall ℕ) :=
  [⟨1, .enqueue [0xD800] (js "tick") (js "w") ⟨ascii "a", [], [], 1, [], none⟩ []⟩]

/-- The same id is used in two realms.
Kind: D -/
def reused : List (JsCall ℕ) :=
  [⟨1, .enqueue (js "one") (js "tick") (js "w") ⟨ascii "a", [], [], 1, [], none⟩ []⟩,
    ⟨2, .enqueue (js "two") (js "tick") (js "w") ⟨ascii "a", [], [], 2, [], none⟩ []⟩]

/-- Two realms have the same key, and one sees the message of the other; and a realm sees the message of
another that has used the same id.
Kind: P -/
theorem not_isolated_surrogate :
    ([0xD800] : JsString) ≠ [0xDC00] ∧
    utf8 (indexKey (js "tyo-mq:queue") [0xD800] (js "tick") (js "w")) =
      utf8 (indexKey (js "tyo-mq:queue") [0xDC00] (js "tick") (js "w")) ∧
    ¬ (runFrom (Traced.step none) Traced.init surrogate).Isolated ∧
    ¬ (runFrom (Traced.step none) Traced.init reused).Isolated := by
  refine ⟨by decide, ?_, fun h => ?_, fun h => ?_⟩
  · show utf8 ((JsKey.index [0xD800] (js "tick") (js "w")).text (js "tyo-mq:queue")) =
      utf8 ((JsKey.index [0xDC00] (js "tick") (js "w")).text (js "tyo-mq:queue"))
    rw [JsKey.utf8_text_inj]
    decide
  · have hother := (h ⟨[0xDC00], js "tick", js "w", by decide⟩).2 (ascii "a") (by decide)
    exact absurd hother (by decide)
  · have hmessage := (h ⟨js "one", js "tick", js "w", by decide⟩).1 3
    have hall := List.all_eq_true.mpr fun e he => decide_eq_true (hmessage e he)
    exact absurd hall (by decide)

end TyoMq.Storage
