import TyoMq.Lib.Runs
import TyoMq.Storage.Equivalence
import TyoMq.Storage.RedisOrder

/-!
# Durable messages: the dead letters

The three stores side by side, with the dead letters that there should be (`Trio`). SQLite and Redis are
given the calls as they are written. The dead letters are there in all three after every run in which the
stores find the same message to give up, SQLite reads it as it was written, and no dead letter has its id
yet (`Clear`): the array and the table list them in order, the keyspace has them under their ids and in
the sorted sets of their realms (`RedisStore.DeadAre`).

* **Listing** (`listedAlike_run`): the three then list the same for a realm whose name UTF-8 does not take
  to that of another realm with dead letters. For no realm, or the empty one, they do only when there is
  nothing to list: Redis looks for a realm of that name, the array takes either to mean every realm, and
  the table only the first.
-/

namespace TyoMq.Storage

open TyoMq.Lib

variable {π : Type*}

/-- The message that a dead letter is made of.
Source: `lib/storage/redis.js`, `RedisStore.prototype.deadLetter`
Kind: D -/
def RedisStore.found (db : RedisStore π) (now : ℤ) (msgId : Text) : Option (Entry π) :=
  (db.get now (.message msgId)).map Written.entry

/-! ### The keyspace -/

/-- Is it a key of dead letters?
Kind: D -/
def Key.isDlq : Key → Bool
  | .dlqMessage _ | .dlqIndex _ => true
  | _ => false

namespace RedisStore

variable {db db' : RedisStore π} {dead : List (DeadLetter π)} {now : ℤ} {k : Key}

/-- The dead letter that is written, if it is one.
Source: `lib/storage/redis.js`, `RedisStore.prototype.listDlq`
Kind: D -/
def letter (raw : Written π) : Option (DeadLetter π) :=
  raw.dead.map fun dead => (DeadLetter.mk raw.entry dead.1 dead.2).toNull

/-- The keyspace has these dead letters.
Kind: D -/
structure DeadAre (dead : List (DeadLetter π)) (db : RedisStore π) : Prop where
  /-- What is under the key of a dead letter is one. -/
  stored : ∀ now id raw, db.get now (.dlqMessage id) = some raw →
    ∃ d ∈ dead, d.entry.id = id ∧ letter raw = some d
  /-- Every one is under its key, for good. -/
  kept : ∀ now, ∀ d ∈ dead, db.get now (.dlqMessage d.entry.id) ≠ none
  /-- The sorted set of a realm has the ids of its dead letters. -/
  index : ∀ r id, id ∈ db.zrange (.dlqIndex r) ↔
    ∃ d ∈ dead, d.entry.id = id ∧ d.entry.realm = r
  /-- No two have the same id. -/
  distinct : (dead.map fun d => d.entry.id).Nodup

/-! ### What leaves the dead letters alone -/

theorem sameAt_write (db : RedisStore π) (now : ℤ) (e : Entry π) (hk : k ≠ .message e.id) :
    Redis.SameAt db (write db now e) k := by
  have hset := Redis.SameAt.set db hk ⟨e, none⟩
  rw [write]
  rcases e.expires_at with _ | x
  · exact hset
  · dsimp only
    split_ifs
    · exact hset
    · exact hset.trans (Redis.SameAt.pexpireat _ hk _ _)

theorem sameAt_ack (db : RedisStore π) (now : ℤ) (msgId : Text) (hk : k.isDlq = true) :
    Redis.SameAt db (ack db now msgId) k := by
  have hmessage : k ≠ .message msgId := by
    rintro rfl
    exact absurd hk (by simp [Key.isDlq])
  rw [ack]
  rcases db.get now (.message msgId) with _ | raw
  · exact Redis.SameAt.del db hmessage
  · have hindex : k ≠ indexOf raw.entry := by
      rintro rfl
      exact absurd hk (by simp [Key.isDlq, indexOf])
    exact (Redis.SameAt.zrem db hindex msgId).trans (Redis.SameAt.del _ hmessage)

theorem sameAt_dequeue (db : RedisStore π) (now : ℤ) (realm event consumer : Text)
    (hk : k.isDlq = true) : Redis.SameAt db (dequeue db now realm event consumer).1 k := by
  have hindex : k ≠ .index (realmOr realm) event consumer := by
    rintro rfl
    exact absurd hk (by simp [Key.isDlq])
  rw [dequeue]
  apply Redis.SameAt.foldl
  rintro db ⟨id, raw⟩ -
  rcases raw with _ | raw
  · exact Redis.SameAt.zrem db hindex id
  · dsimp only [settle]
    split_ifs
    · exact sameAt_ack db now id hk
    · exact Redis.SameAt.refl db k

theorem sameAt_enqueue (defaultTtl : Ttl) (db : RedisStore π) (now : ℤ) (realm event : Text)
    (message : Message π) (generated : Text) (hk : k.isDlq = true) :
    Redis.SameAt db (enqueue defaultTtl db now realm event message generated).1 k := by
  rw [enqueue]
  refine (sameAt_write db now _ ?_).trans (Redis.SameAt.zadd _ ?_ _ _)
  · rintro rfl
    exact absurd hk (by simp [Key.isDlq])
  · rintro rfl
    exact absurd hk (by simp [Key.isDlq, indexOf])

/-- The queues of a realm are drained.
Kind: L -/
theorem sameAt_drain (db : RedisStore π) (n : ℕ) (realm : Text) (keys : List Key)
    (hkeys : ∀ k' ∈ keys, isIndexOf realm k' = true) (hk : k.isDlq = true) :
    Redis.SameAt db (keys.foldl (drainIndex .message) (db, n)).1 k := by
  have hmessage : ∀ id, k ≠ .message id := by
    rintro id rfl
    exact absurd hk (by simp [Key.isDlq])
  induction keys generalizing db n with
  | nil => exact Redis.SameAt.refl db k
  | cons k' keys ih =>
      have hne : k ≠ k' := by
        rintro rfl
        have hindex := hkeys k (List.mem_cons_self ..)
        cases k <;> simp [isIndexOf, Key.isDlq] at hindex hk
      have hdrain : Redis.SameAt db (drainIndex .message (db, n) k').1 k := by
        rw [drainIndex]
        refine (Redis.SameAt.foldl (fun db id _ => ?_) db).trans (Redis.SameAt.del _ hne)
        exact Redis.SameAt.del db (hmessage id)
      exact hdrain.trans (ih _ _ fun k' hk' => hkeys k' (List.mem_cons_of_mem _ hk'))

namespace DeadAre

theorem init : DeadAre [] (Redis.empty : RedisStore π) := by
  refine ⟨?_, ?_, ?_, List.nodup_nil⟩
  · exact fun _ _ _ h => absurd h (by simp)
  · exact fun _ _ h => absurd h List.not_mem_nil
  · intro r id
    simp [Redis.zrange, Redis.zset, Redis.empty, SortedSet.range, SortedSet.empty]

/-- Nothing happens to the dead letters.
Kind: L -/
theorem of_same (h : DeadAre dead db) (hsame : ∀ k, k.isDlq = true → Redis.SameAt db db' k) :
    DeadAre dead db' where
  stored now id raw hraw := by
    rw [(hsame (.dlqMessage id) rfl).get] at hraw
    exact h.stored now id raw hraw
  kept now d hd := by
    rw [(hsame (.dlqMessage d.entry.id) rfl).get]
    exact h.kept now d hd
  index r id := by
    rw [Redis.zrange, (hsame (.dlqIndex r) rfl).zset, ← Redis.zrange]
    exact h.index r id
  distinct := h.distinct

/-- A dead letter is told by its id.
Kind: L -/
theorem eq_of_id (h : DeadAre dead db) {d d' : DeadLetter π} (hd : d ∈ dead) (hd' : d' ∈ dead)
    (hid : d.entry.id = d'.entry.id) : d = d' :=
  List.inj_on_of_nodup_map h.distinct hd hd' hid

theorem realm_of_letter {raw : Written π} {d : DeadLetter π} (h : letter raw = some d) :
    d.entry.realm = raw.entry.realm := by
  obtain ⟨dead, -, rfl⟩ := Option.map_eq_some_iff.mp h
  rfl

/-- A message is given up.
Kind: L -/
theorem deadLetter (h : DeadAre dead db) {raw : Written π} {msgId : Text}
    (hget : db.get now (.message msgId) = some raw) (hid : raw.entry.id = msgId)
    (hnew : ∀ d ∈ dead, d.entry.id ≠ msgId) (reason : Text) :
    DeadAre (dead ++ [(DeadLetter.mk raw.entry (orNull reason) now).toNull])
      (deadLetter db now msgId reason).1 := by
  rw [RedisStore.deadLetter, hget]
  dsimp only
  suffices hwritten : DeadAre (dead ++ [(DeadLetter.mk raw.entry (orNull reason) now).toNull])
      ((db.set (.dlqMessage msgId) ⟨raw.entry, some (orNull reason, now)⟩).zadd
        (.dlqIndex raw.entry.realm) now msgId) from
    of_same hwritten fun k hk => sameAt_ack _ now msgId hk
  refine ⟨fun now' id raw' hraw => ?_, fun now' d hd => ?_, fun r id => ?_, ?_⟩
  · rw [Redis.get_zadd] at hraw
    by_cases hid' : id = msgId
    · subst hid'
      rw [Redis.get_set_self] at hraw
      obtain rfl := Option.some.inj hraw
      exact ⟨_, List.mem_append_right _ (List.mem_singleton_self _), hid, rfl⟩
    · rw [Redis.get_set_of_ne (by simpa using hid')] at hraw
      obtain ⟨d, hd, hrest⟩ := h.stored now' id raw' hraw
      exact ⟨d, List.mem_append_left _ hd, hrest⟩
  · rw [Redis.get_zadd]
    by_cases hid' : d.entry.id = msgId
    · rw [hid', Redis.get_set_self]
      exact Option.some_ne_none _
    · rw [Redis.get_set_of_ne (by simpa using hid')]
      rcases List.mem_append.mp hd with hold | hlast
      · exact h.kept now' d hold
      · rw [List.mem_singleton.mp hlast] at hid'
        exact absurd hid hid'
  · rw [Redis.mem_zrange_zadd, Redis.zrange, Redis.zset_set_of_ne (by simp), ← Redis.zrange, h.index]
    simp only [List.mem_append, List.mem_singleton, or_and_right, exists_or, exists_eq_left]
    constructor
    · rintro (⟨hr, rfl⟩ | hold)
      · exact Or.inr ⟨hid, (Key.dlqIndex.inj hr).symm⟩
      · exact Or.inl hold
    · rintro (hold | ⟨hid', hr⟩)
      · exact Or.inr hold
      · exact Or.inl ⟨congrArg Key.dlqIndex hr.symm, hid'.symm.trans hid⟩
  · rw [List.map_append, List.map_singleton]
    apply h.distinct.append (List.nodup_singleton _)
    intro id hmem heq
    obtain ⟨d, hd, rfl⟩ := List.mem_map.mp hmem
    exact hnew d hd ((List.mem_singleton.mp heq).trans hid)

/-- Some of the dead letters are taken away.
Kind: L -/
theorem filter (h : DeadAre dead db) (stays : DeadLetter π → Bool)
    (hgone : ∀ now, ∀ d ∈ dead, stays d = false → db'.get now (.dlqMessage d.entry.id) = none)
    (hkept : ∀ now, ∀ d ∈ dead, stays d = true → db'.get now (.dlqMessage d.entry.id) ≠ none)
    (hmono : ∀ now id raw, db'.get now (.dlqMessage id) = some raw →
      db.get now (.dlqMessage id) = some raw)
    (hindex : ∀ r id, id ∈ db'.zrange (.dlqIndex r) ↔
      ∃ d ∈ dead, d.entry.id = id ∧ d.entry.realm = r ∧ stays d = true) :
    DeadAre (dead.filter stays) db' where
  stored now id raw hraw := by
    obtain ⟨d, hd, rfl, hletter⟩ := h.stored now id raw (hmono now id raw hraw)
    refine ⟨d, List.mem_filter.mpr ⟨hd, ?_⟩, rfl, hletter⟩
    by_contra hnot
    rw [hgone now d hd (Bool.eq_false_of_not_eq_true hnot)] at hraw
    cases hraw
  kept now d hd := by
    obtain ⟨hd, hstays⟩ := List.mem_filter.mp hd
    exact hkept now d hd hstays
  index r id := by
    rw [hindex]
    constructor
    · rintro ⟨d, hd, hid, hr, hstays⟩
      exact ⟨d, List.mem_filter.mpr ⟨hd, hstays⟩, hid, hr⟩
    · rintro ⟨d, hd, hid, hr⟩
      obtain ⟨hd, hstays⟩ := List.mem_filter.mp hd
      exact ⟨d, hd, hid, hr, hstays⟩
  distinct := h.distinct.sublist (List.filter_sublist.map _)

/-- The sorted set that a discarded id is taken out of is the one it is in.
Kind: L -/
theorem realm_of_get (h : DeadAre dead db) (now : ℤ) {d : DeadLetter π} (hd : d ∈ dead) :
    ((db.get now (.dlqMessage d.entry.id)).map fun raw => raw.entry.realm) = some d.entry.realm := by
  obtain ⟨raw, hraw⟩ := Option.ne_none_iff_exists'.mp (h.kept now d hd)
  obtain ⟨d', hd', hid', hletter⟩ := h.stored now _ raw hraw
  rw [hraw, Option.map_some, h.eq_of_id hd hd' hid'.symm, realm_of_letter hletter]

/-- The texts once an id has been discarded.
Kind: L -/
theorem get_discardDlq (db : RedisStore π) (now now' : ℤ) (msgId id : Text) (realm : Option Text) :
    (RedisStore.discardDlq db now msgId realm).get now' (.dlqMessage id) =
      if id = msgId then none else db.get now' (.dlqMessage id) := by
  have hdel : (db.del (.dlqMessage msgId)).get now' (.dlqMessage id) =
      if id = msgId then none else db.get now' (.dlqMessage id) := by
    split_ifs with hid
    · rw [hid, Redis.get_del_self]
    · exact Redis.get_del_of_ne (by simpa using hid)
  rw [RedisStore.discardDlq]
  split
  · exact hdel
  · rw [Redis.get_zrem, hdel]

/-- The ids in the sorted sets once one has been discarded.
Kind: L -/
theorem mem_zrange_discardDlq (h : DeadAre dead db) (now : ℤ) (msgId : Text) (realm : Option Text)
    (r id : Text) :
    id ∈ (RedisStore.discardDlq db now msgId realm).zrange (.dlqIndex r) ↔
      id ∈ db.zrange (.dlqIndex r) ∧ id ≠ msgId := by
  have hdel : (db.del (.dlqMessage msgId)).zrange (.dlqIndex r) = db.zrange (.dlqIndex r) :=
    congrArg SortedSet.range (Redis.zset_del_of_ne (by simp))
  have hnot : ∀ r', ((db.get now (.dlqMessage msgId)).map fun raw => raw.entry.realm).or realm ≠
      some r' → msgId ∉ db.zrange (.dlqIndex r') := by
    intro r' hne hin
    obtain ⟨d, hd, rfl, rfl⟩ := (h.index r' msgId).mp hin
    exact hne (by rw [h.realm_of_get now hd]; rfl)
  rw [RedisStore.discardDlq]
  split
  · rename_i hnone
    rw [hdel, iff_self_and]
    rintro hin rfl
    exact hnot r (by rw [hnone]; simp) hin
  · rename_i r' hsome
    rw [Redis.mem_zrange_zrem, hdel]
    refine and_congr_right fun hin => ⟨?_, fun hne hc => hne hc.2⟩
    rintro hc rfl
    refine hnot r ?_ hin
    rw [hsome]
    rintro hr
    exact hc ⟨congrArg Key.dlqIndex (Option.some.inj hr).symm, rfl⟩

/-- A dead letter is discarded.
Kind: L -/
theorem discardDlq (h : DeadAre dead db) (now : ℤ) (msgId : Text) (realm : Option Text) :
    DeadAre (dead.filter fun d => d.entry.id ≠ msgId) (discardDlq db now msgId realm) := by
  refine h.filter _ (fun now' d _ hout => ?_) (fun now' d hd hstays => ?_)
    (fun now' id raw hraw => ?_) fun r id => ?_
  · rw [get_discardDlq, if_pos (by simpa using hout)]
  · rw [get_discardDlq, if_neg (by simpa using hstays)]
    exact h.kept now' d hd
  · rw [get_discardDlq] at hraw
    split_ifs at hraw
    exact hraw
  · rw [h.mem_zrange_discardDlq, h.index]
    constructor
    · rintro ⟨⟨d, hd, rfl, rfl⟩, hid⟩
      exact ⟨d, hd, rfl, rfl, by simpa using hid⟩
    · rintro ⟨d, hd, rfl, rfl, hid⟩
      exact ⟨⟨d, hd, rfl, rfl⟩, by simpa using hid⟩

/-- The dead letters of a realm are those with an id in its sorted set.
Kind: L -/
theorem mem_zrange_iff (h : DeadAre dead db) {d : DeadLetter π} (hd : d ∈ dead) (realm : Text) :
    d.entry.id ∈ db.zrange (.dlqIndex realm) ↔ d.entry.realm = realm := by
  rw [h.index]
  constructor
  · rintro ⟨d', hd', hid, hr⟩
    rwa [← h.eq_of_id hd' hd hid]
  · intro hr
    exact ⟨d, hd, rfl, hr⟩

/-- The dead letters of a realm are drained.
Kind: L -/
theorem drainIndex (h : DeadAre dead db) (n : ℕ) (realm : Text) :
    DeadAre (dead.filter fun d => d.entry.realm ≠ realm)
      (drainIndex .dlqMessage (db, n) (.dlqIndex realm)).1 := by
  have hget : ∀ now' id, (RedisStore.drainIndex .dlqMessage (db, n) (.dlqIndex realm)).1.get now'
      (.dlqMessage id) = if id ∈ db.zrange (.dlqIndex realm) then none
        else db.get now' (.dlqMessage id) := by
    intro now' id
    rw [RedisStore.drainIndex]
    dsimp only
    rw [Redis.get_del_of_ne (by simp), get_foldl_del]
    simp
  refine h.filter _ (fun now' d hd hout => ?_) (fun now' d hd hstays => ?_)
    (fun now' id raw hraw => ?_) fun r id => ?_
  · rw [hget, if_pos ((h.mem_zrange_iff hd realm).mpr (by simpa using hout))]
  · rw [hget, if_neg fun hid => of_decide_eq_true hstays ((h.mem_zrange_iff hd realm).mp hid)]
    exact h.kept now' d hd
  · rw [hget] at hraw
    split_ifs at hraw
    exact hraw
  · rw [Redis.zrange, zset_drainIndex (by simp)]
    split_ifs with hr
    · refine iff_of_false (by simp [SortedSet.range, SortedSet.empty]) ?_
      rintro ⟨d, -, -, hdr, hstays⟩
      exact of_decide_eq_true hstays (hdr.trans (Key.dlqIndex.inj hr))
    · rw [← Redis.zrange, h.index]
      constructor
      · rintro ⟨d, hd, hid, rfl⟩
        exact ⟨d, hd, hid, rfl, decide_eq_true fun hdr => hr (congrArg Key.dlqIndex hdr)⟩
      · rintro ⟨d, hd, hid, hdr, -⟩
        exact ⟨d, hd, hid, hdr⟩

/-- A realm is purged.
Kind: L -/
theorem purgeRealm (h : DeadAre dead db) (realm : Text) :
    DeadAre (dead.filter fun d => d.entry.realm ≠ realm) (purgeRealm db realm).1 := by
  have hqueues := h.of_same fun k hk => sameAt_drain db 0 realm (db.scan (isIndexOf realm))
    (fun k' hk' => (List.mem_filter.mp hk').2) hk
  rw [RedisStore.purgeRealm]
  generalize (db.scan (isIndexOf realm)).foldl (RedisStore.drainIndex .message) (db, 0) = s at hqueues
  obtain ⟨db', n⟩ := s
  exact hqueues.drainIndex n realm

/-- Listing finds every id's dead letter, and so changes nothing.
Kind: L -/
theorem listDlq_fst (h : DeadAre dead db) (now : ℤ) (realm : Option Text) :
    (listDlq db now realm).1 = db := by
  have hgeneral : ∀ answers : List (Text × Option (Written π)), (∀ a ∈ answers, a.2 ≠ none) →
      answers.foldl (fun db answer =>
        if answer.2.isNone then db.zrem (.dlqIndex (realm.getD [])) answer.1 else db) db = db := by
    intro answers hall
    induction answers with
    | nil => rfl
    | cons a answers ih =>
        have hsome : ¬ a.2.isNone = true := by
          rw [Option.isNone_iff_eq_none]
          exact hall a (List.mem_cons_self ..)
        rw [List.foldl_cons, if_neg hsome]
        exact ih fun a' ha' => hall a' (List.mem_cons_of_mem _ ha')
  apply hgeneral
  intro a ha
  obtain ⟨id, hid, rfl⟩ := List.mem_map.mp ha
  obtain ⟨d, hd, rfl, -⟩ := (h.index _ id).mp hid
  exact h.kept now d hd

/-- What is listed are the dead letters of the realm of that name.
Kind: P -/
theorem mem_listDlq (h : DeadAre dead db) (now : ℤ) (realm : Option Text) (d : DeadLetter π) :
    d ∈ (listDlq db now realm).2.map DeadLetter.toNull ↔
      d ∈ dead ∧ d.entry.realm = realm.getD [] := by
  have hlisted : d ∈ (listDlq db now realm).2.map DeadLetter.toNull ↔
      ∃ id ∈ db.zrange (.dlqIndex (realm.getD [])), ∃ raw, db.get now (.dlqMessage id) = some raw ∧
        letter raw = some d := by
    simp only [listDlq, letter, List.mem_map, List.mem_filterMap, Option.bind_eq_some_iff,
      Option.map_eq_some_iff]
    constructor
    · rintro ⟨_, ⟨_, ⟨id, hid, rfl⟩, raw, hraw, dead, hdead, rfl⟩, rfl⟩
      exact ⟨id, hid, raw, hraw, dead, hdead, rfl⟩
    · rintro ⟨id, hid, raw, hraw, dead, hdead, rfl⟩
      exact ⟨_, ⟨_, ⟨id, hid, rfl⟩, raw, hraw, dead, hdead, rfl⟩, rfl⟩
  rw [hlisted]
  constructor
  · rintro ⟨id, hid, raw, hraw, hletter⟩
    obtain ⟨d', hd', hid', hrealm⟩ := (h.index _ id).mp hid
    obtain ⟨d'', hd'', hid'', hletter'⟩ := h.stored now id raw hraw
    obtain rfl := Option.some.inj (hletter.symm.trans hletter')
    rw [h.eq_of_id hd' hd'' (hid'.trans hid''.symm)] at hrealm
    exact ⟨hd'', hrealm⟩
  · rintro ⟨hd, hrealm⟩
    obtain ⟨raw, hraw⟩ := Option.ne_none_iff_exists'.mp (h.kept now d hd)
    obtain ⟨d', hd', hid', hletter⟩ := h.stored now _ raw hraw
    rw [h.eq_of_id hd' hd hid'] at hletter
    exact ⟨_, (h.index _ _).mpr ⟨d, hd, rfl, hrealm⟩, raw, hraw, hletter⟩

end DeadAre

end RedisStore

/-! ### The three stores -/

/-- The three stores, each as the calls have left it, and the dead letters that there should be.
Kind: D -/
structure Trio (π : Type*) where
  /-- The in-process store. -/
  memory : MemoryStore π
  /-- The SQLite store. -/
  sqlite : SQLiteStore π
  /-- The Redis store. -/
  redis : RedisStore π
  /-- The messages that have been given up, and not discarded or purged since. -/
  dead : List (DeadLetter π)

namespace Trio

variable {t : Trio π}

/-- The stores just created.
Kind: D -/
def init : Trio π := ⟨MemoryStore.init, SQLiteStore.init, Redis.empty, []⟩

/-- The stores after a call.
Kind: D -/
def step (copy : π → π) (defaultTtl : Ttl) (t : Trio π) (c : Call π) : Trio π where
  memory := (MemoryStore.store defaultTtl).step t.memory c
  sqlite := (SQLiteStore.store defaultTtl).step t.sqlite (c.written copy)
  redis := (RedisStore.store defaultTtl).step t.redis (c.written copy)
  dead :=
    match c.op with
    | .deadLetter msgId reason =>
        t.dead ++ ((t.memory.found msgId).map fun e =>
          (DeadLetter.mk e (orNull reason) c.now).toNull).toList
    | .discardDlq msgId _ => t.dead.filter fun d => d.entry.id ≠ msgId
    | .purgeRealm realm => t.dead.filter fun d => d.entry.realm ≠ realm
    | _ => t.dead

/-- The stores find the same message to give up, or none. When they find one, SQLite reads it and will read
the reason as they are, and no dead letter has its id. What is discarded or purged has a name that UTF-8
does not take to that of another dead letter or realm.
Kind: D -/
def Clear (t : Trio π) (c : Call π) : Prop :=
  match c.op with
  | .deadLetter msgId reason =>
      (t.sqlite.found (encoded msgId)).map Entry.toNull = (t.memory.found msgId).map Entry.toNull ∧
        (RedisStore.found t.redis c.now (encoded msgId)).map Entry.toNull =
          (t.memory.found msgId).map Entry.toNull ∧
        ∀ e ∈ t.memory.found msgId,
          e.Legible ∧ encoded reason = reason ∧ 0 ∉ reason ∧ ∀ d ∈ t.dead, d.entry.id ≠ msgId
  | .discardDlq msgId _ => ∀ d ∈ t.dead, d.entry.id = msgId ↔ d.entry.id = encoded msgId
  | .purgeRealm realm => ∀ d ∈ t.dead, d.entry.realm = realm ↔ d.entry.realm = encoded realm
  | _ => True

/-- All three have the dead letters.
Kind: D -/
structure Consistent (t : Trio π) : Prop where
  /-- The array has. -/
  memory : t.memory.dlq.map DeadLetter.toNull = t.dead
  /-- The table has. -/
  sqlite : t.sqlite.dlq.scan.map DeadLetter.toNull = t.dead
  /-- They are read as they are. -/
  read : ∀ d ∈ t.sqlite.dlq.scan, d.read = some d
  /-- The keyspace has. -/
  redis : RedisStore.DeadAre t.dead t.redis
  /-- A message is in a realm. -/
  messages : ∀ e ∈ t.memory.messages, e.realm ≠ []
  /-- So is a dead letter. -/
  letters : ∀ d ∈ t.dead, d.entry.realm ≠ []

namespace Consistent

theorem init : Consistent (Trio.init : Trio π) := by
  refine ⟨rfl, rfl, ?_, RedisStore.DeadAre.init, ?_, ?_⟩
  · exact fun _ h => absurd h List.not_mem_nil
  · exact fun _ h => absurd h List.not_mem_nil
  · exact fun _ h => absurd h List.not_mem_nil

/-- Nothing happens to the dead letters.
Kind: L -/
theorem of_same (h : t.Consistent) (t' : Trio π) (hdead : t'.dead = t.dead)
    (hmemory : t'.memory.dlq = t.memory.dlq) (hsqlite : t'.sqlite.dlq = t.sqlite.dlq)
    (hredis : ∀ k, k.isDlq = true → Redis.SameAt t.redis t'.redis k)
    (hmessages : ∀ e ∈ t'.memory.messages, e ∈ t.memory.messages ∨ e.realm ≠ []) :
    t'.Consistent where
  memory := by rw [hmemory, hdead, h.memory]
  sqlite := by rw [hsqlite, hdead, h.sqlite]
  read := by
    rw [hsqlite]
    exact h.read
  redis := by
    rw [hdead]
    exact h.redis.of_same hredis
  messages e he := (hmessages e he).elim (h.messages e) id
  letters := by
    rw [hdead]
    exact h.letters

/-- Dead letters go from all three.
Kind: L -/
theorem filter (h : t.Consistent) (t' : Trio π) {p q : DeadLetter π → Bool}
    (hp : ∀ d : DeadLetter π, p d.toNull = p d) (hq : ∀ d : DeadLetter π, q d.toNull = q d)
    (hpq : ∀ d ∈ t.dead, p d = q d) (hdead : t'.dead = t.dead.filter p)
    (hmemory : t'.memory.dlq = t.memory.dlq.filter p)
    (hsqlite : t'.sqlite.dlq.scan = t.sqlite.dlq.scan.filter q)
    (hredis : RedisStore.DeadAre (t.dead.filter q) t'.redis)
    (hmessages : ∀ e ∈ t'.memory.messages, e ∈ t.memory.messages) : t'.Consistent where
  memory := by
    rw [hmemory, hdead, ← h.memory, List.filter_map]
    exact congrArg _ (List.filter_congr fun d _ => (hp d).symm)
  sqlite := by
    rw [hsqlite, hdead, List.filter_congr hpq, ← h.sqlite, List.filter_map]
    exact congrArg _ (List.filter_congr fun d _ => (hq d).symm)
  read d hd := by
    rw [hsqlite] at hd
    exact h.read d (List.mem_of_mem_filter hd)
  redis := by
    rw [hdead, List.filter_congr hpq]
    exact hredis
  messages e he := h.messages e (hmessages e he)
  letters d hd := by
    rw [hdead] at hd
    exact h.letters d (List.mem_of_mem_filter hd)

/-- Giving up a message brings no messages.
Kind: L -/
theorem mem_messages_of_deadLetter {now : ℤ} {msgId reason : Text} {e : Entry π}
    (he : e ∈ (t.memory.deadLetter now msgId reason).1.messages) : e ∈ t.memory.messages := by
  rw [MemoryStore.deadLetter] at he
  split at he <;> exact List.mem_of_mem_filter he

/-- A message that none of the three finds is not given up.
Kind: L -/
theorem deadLetter_of_none (h : t.Consistent) (copy : π → π) (defaultTtl : Ttl) {now : ℤ}
    {msgId reason : Text} (hmemory : t.memory.found msgId = none)
    (hsqlite : t.sqlite.found (encoded msgId) = none)
    (hredis : t.redis.get now (.message (encoded msgId)) = none) :
    (t.step copy defaultTtl ⟨now, .deadLetter msgId reason⟩).Consistent := by
  refine h.of_same _ ?_ ?_ ?_ (fun k _ => ?_) fun e he => Or.inl (mem_messages_of_deadLetter he)
  · simp only [Trio.step, hmemory, Option.map_none, Option.toList_none, List.append_nil]
  · show (t.memory.deadLetter now msgId reason).1.dlq = _
    rw [MemoryStore.deadLetter, ← MemoryStore.found, hmemory]
  · show (t.sqlite.deadLetter now (encoded msgId) (encoded reason)).1.dlq = _
    rw [SQLiteStore.deadLetter, ← SQLiteStore.found, hsqlite]
  · show Redis.SameAt t.redis
      (RedisStore.deadLetter t.redis now (encoded msgId) (encoded reason)).1 k
    rw [RedisStore.deadLetter, hredis]
    exact Redis.SameAt.refl _ k

/-- A message that all three find is given up.
Kind: L -/
theorem deadLetter_of_some (h : t.Consistent) (copy : π → π) (defaultTtl : Ttl) {now : ℤ}
    {msgId reason : Text} {e row : Entry π} {raw : Written π}
    (hmemory : t.memory.found msgId = some e)
    (hsqlite : t.sqlite.found (encoded msgId) = some row) (hrow : row.toNull = e.toNull)
    (hredis : t.redis.get now (.message (encoded msgId)) = some raw)
    (hraw : raw.entry.toNull = e.toNull) (hlegible : e.Legible) (hreason : encoded reason = reason)
    (hzero : 0 ∉ reason) (hfresh : ∀ d ∈ t.dead, d.entry.id ≠ msgId) :
    (t.step copy defaultTtl ⟨now, .deadLetter msgId reason⟩).Consistent := by
  obtain ⟨hmem, hid⟩ : e ∈ t.memory.messages ∧ e.id = msgId := by
    simpa using List.mem_of_getLast? hmemory
  -- the id that the row has is the one that was asked for
  have hencoded : encoded msgId = msgId := by
    have hrowid : row.id = encoded msgId := by simpa using List.find?_some hsqlite
    have hsame : row.id = e.id := congrArg (fun e => e.id) hrow
    rw [← hrowid, hsame, hid]
  rw [hencoded] at hsqlite hredis
  have hdead : (t.step copy defaultTtl ⟨now, .deadLetter msgId reason⟩).dead =
      t.dead ++ [(DeadLetter.mk e (orNull reason) now).toNull] := by
    simp only [Trio.step, hmemory, Option.map_some, Option.toList_some]
  have hsame : ∀ e' : Entry π, e'.toNull = e.toNull →
      (DeadLetter.mk e' (orNull reason) now).toNull =
        (DeadLetter.mk e (orNull reason) now).toNull := by
    intro e' heq
    rw [DeadLetter.toNull, DeadLetter.toNull, heq]
  have hread : row.read = some row := by
    rw [Entry.read_eq_self_iff, ← Entry.legible_toNull, hrow, Entry.legible_toNull]
    exact hlegible
  have hscan : (t.step copy defaultTtl ⟨now, .deadLetter msgId reason⟩).sqlite.dlq.scan =
      t.sqlite.dlq.scan ++ [⟨row, orNull reason, now⟩] := by
    show (t.sqlite.deadLetter now (encoded msgId) (encoded reason)).1.dlq.scan = _
    have hrowid : row.id = msgId := (congrArg (fun e => e.id) hrow).trans hid
    rw [hencoded, hreason, SQLiteStore.deadLetter, ← SQLiteStore.found, hsqlite]
    dsimp only
    rw [hread]
    apply RowTable.scan_replaceWhere_of_new
    intro d hd
    rw [hrowid]
    exact decide_eq_false (hfresh d.toNull (h.sqlite ▸ List.mem_map_of_mem hd))
  refine ⟨?_, ?_, fun d hd => ?_, ?_, fun e' he' => h.messages e' (mem_messages_of_deadLetter he'),
    fun d hd => ?_⟩
  · rw [hdead]
    show ((t.memory.deadLetter now msgId reason).1.dlq).map _ = _
    rw [MemoryStore.deadLetter, ← MemoryStore.found, hmemory, List.map_append, h.memory,
      List.map_singleton]
  · rw [hscan, hdead, List.map_append, h.sqlite, List.map_singleton, hsame row hrow]
  · rw [hscan, List.mem_append, List.mem_singleton] at hd
    rcases hd with hold | rfl
    · exact h.read d hold
    · have hcut : (orNull reason).map Sqlite.cut = orNull reason := by
        rw [map_cut_eq_self_iff, orNull]
        split_ifs <;> simp [hzero]
      rw [DeadLetter.read, hread, Option.map_some, hcut]
  · rw [hdead, ← hsame raw.entry hraw]
    show RedisStore.DeadAre _ (RedisStore.deadLetter t.redis now (encoded msgId) (encoded reason)).1
    rw [hencoded, hreason]
    exact h.redis.deadLetter hredis ((congrArg (fun e => e.id) hraw).trans hid) hfresh reason
  · rw [hdead, List.mem_append, List.mem_singleton] at hd
    rcases hd with hold | rfl
    · exact h.letters d hold
    · exact h.messages e hmem

/-- A message is given up, or not found.
Kind: L -/
theorem deadLetter (h : t.Consistent) (copy : π → π) (defaultTtl : Ttl) {now : ℤ}
    {msgId reason : Text} (hclear : t.Clear ⟨now, .deadLetter msgId reason⟩) :
    (t.step copy defaultTtl ⟨now, .deadLetter msgId reason⟩).Consistent := by
  obtain ⟨hsqlite, hredis, hnew⟩ := hclear
  rcases hfound : t.memory.found msgId with _ | e
  · rw [hfound, Option.map_none, Option.map_eq_none_iff] at hsqlite hredis
    rw [RedisStore.found, Option.map_eq_none_iff] at hredis
    exact h.deadLetter_of_none copy defaultTtl hfound hsqlite hredis
  · rw [hfound, Option.map_some, Option.map_eq_some_iff] at hsqlite hredis
    obtain ⟨row, hrow, hrowe⟩ := hsqlite
    obtain ⟨_, hfoundraw, hrawe⟩ := hredis
    obtain ⟨raw, hget, rfl⟩ := Option.map_eq_some_iff.mp hfoundraw
    obtain ⟨hlegible, hreason, hzero, hfresh⟩ := hnew e hfound
    exact h.deadLetter_of_some copy defaultTtl hfound hrow hrowe hget hrawe hlegible hreason hzero
      hfresh

/-- **A step** keeps the dead letters in all three stores when it is clear.
Kind: P -/
theorem step (h : t.Consistent) (copy : π → π) (defaultTtl : Ttl) (c : Call π) (hclear : t.Clear c) :
    (t.step copy defaultTtl c).Consistent := by
  obtain ⟨now, op⟩ := c
  cases op with
  | enqueue realm event message generated =>
      refine h.of_same _ rfl rfl ?_ (fun k hk => RedisStore.sameAt_enqueue _ _ _ _ _ _ _ hk)
        fun e he => ?_
      · show (t.sqlite.enqueue defaultTtl now (encoded realm) (encoded event) (message.written copy)
          (encoded generated)).1.dlq = _
        rw [SQLiteStore.enqueue]
        split_ifs <;> rfl
      · rcases List.mem_append.mp he with he | he
        · exact Or.inl (List.mem_of_mem_filter he)
        · rw [List.mem_singleton.mp he]
          exact Or.inr (realmOr_ne_nil realm)
  | dequeue realm event consumer =>
      exact h.of_same _ rfl rfl rfl (fun k hk => RedisStore.sameAt_dequeue _ _ _ _ _ hk)
        fun e he => Or.inl (List.mem_of_mem_filter he)
  | ack msgId =>
      exact h.of_same _ rfl rfl rfl (fun k hk => RedisStore.sameAt_ack _ _ _ hk)
        fun e he => Or.inl (List.mem_of_mem_filter he)
  | deadLetter msgId reason => exact h.deadLetter copy defaultTtl hclear
  | listDlq realm =>
      refine h.of_same _ rfl rfl rfl (fun k _ => ?_) fun e he => Or.inl he
      show Redis.SameAt t.redis (RedisStore.listDlq t.redis now (realm.map encoded)).1 k
      rw [h.redis.listDlq_fst]
      exact Redis.SameAt.refl _ k
  | discardDlq msgId realm =>
      refine h.filter _ (p := fun d => d.entry.id ≠ msgId) (q := fun d => d.entry.id ≠ encoded msgId)
        (fun _ => rfl) (fun _ => rfl) (fun d hd => ?_) rfl rfl ?_
        (h.redis.discardDlq now (encoded msgId) (realm.map encoded)) fun e he => he
      · exact decide_eq_decide.mpr (not_congr (hclear d hd))
      · show (t.sqlite.discardDlq (encoded msgId)).dlq.scan = _
        rw [SQLiteStore.discardDlq, RowTable.scan_deleteWhere]
        exact List.filter_congr fun d _ => by simp
  | countQueued realm event consumer =>
      exact h.of_same _ rfl rfl rfl (fun k _ => Redis.SameAt.refl _ k)
        fun e he => Or.inl (List.mem_of_mem_filter he)
  | purgeRealm realm =>
      refine h.filter _ (p := fun d => d.entry.realm ≠ realm)
        (q := fun d => d.entry.realm ≠ encoded realm) (fun _ => rfl) (fun _ => rfl)
        (fun d hd => ?_) rfl rfl ?_ (h.redis.purgeRealm (encoded realm)) fun e he =>
          List.mem_of_mem_filter he
      · exact decide_eq_decide.mpr (not_congr (hclear d hd))
      · show (t.sqlite.purgeRealm (encoded realm)).1.dlq.scan = _
        rw [SQLiteStore.purgeRealm, RowTable.scan_deleteWhere]
        exact List.filter_congr fun d _ => by simp

/-- What SQLite lists.
Kind: L -/
theorem listDlq_sqlite (h : t.Consistent) (realm : Option Text) :
    t.sqlite.listDlq realm =
      some (t.sqlite.dlq.scan.filter fun d => realm.all fun r => d.entry.realm = r) := by
  rw [SQLiteStore.listDlq, Sqlite.readAll_eq_self_iff]
  exact fun d hd => h.read d (List.mem_of_mem_filter hd)

/-- What the three list.
Kind: P -/
theorem listed (h : t.Consistent) (now : ℤ) (realm : Option Text) (d : DeadLetter π) :
    (d ∈ (t.memory.listDlq realm).map DeadLetter.toNull ↔
        d ∈ t.dead ∧ (realm.getD [] = [] ∨ d.entry.realm = realm.getD [])) ∧
      (d ∈ ((t.sqlite.listDlq realm).getD []).map DeadLetter.toNull ↔
        d ∈ t.dead ∧ ∀ r ∈ realm, d.entry.realm = r) ∧
      (d ∈ (RedisStore.listDlq t.redis now realm).2.map DeadLetter.toNull ↔
        d ∈ t.dead ∧ d.entry.realm = realm.getD []) := by
  refine ⟨?_, ?_, h.redis.mem_listDlq now realm d⟩
  · rw [MemoryStore.listDlq, ← h.memory]
    simp only [List.mem_map, List.mem_filter, decide_eq_true_eq]
    constructor
    · rintro ⟨d, ⟨hd, hr⟩, rfl⟩
      exact ⟨⟨d, hd, rfl⟩, hr⟩
    · rintro ⟨⟨d, hd, rfl⟩, hr⟩
      exact ⟨d, ⟨hd, hr⟩, rfl⟩
  · rw [h.listDlq_sqlite, Option.getD_some, ← h.sqlite]
    simp only [List.mem_map, List.mem_filter, Option.all_eq_true, decide_eq_true_eq]
    constructor
    · rintro ⟨d, ⟨hd, hr⟩, rfl⟩
      exact ⟨⟨d, hd, rfl⟩, hr⟩
    · rintro ⟨⟨d, hd, rfl⟩, hr⟩
      exact ⟨d, ⟨hd, hr⟩, rfl⟩

end Consistent

/-- The three list the same dead letters, all of them when no realm is named, and when one is, its own.
Kind: D -/
structure ListedAlike (t : Trio π) (now : ℤ) (realm : Option Text) : Prop where
  /-- The table can be listed. -/
  read : t.sqlite.listDlq (realm.map encoded) ≠ none
  /-- It lists what the array does. -/
  sqlite : ∀ d, d ∈ ((t.sqlite.listDlq (realm.map encoded)).getD []).map DeadLetter.toNull ↔
    d ∈ (t.memory.listDlq realm).map DeadLetter.toNull
  /-- So does the keyspace. -/
  redis : ∀ d,
    d ∈ (RedisStore.listDlq t.redis now (realm.map encoded)).2.map DeadLetter.toNull ↔
      d ∈ (t.memory.listDlq realm).map DeadLetter.toNull
  /-- Without a realm that is all. -/
  all : realm = none → ∀ d, d ∈ (t.memory.listDlq realm).map DeadLetter.toNull ↔ d ∈ t.dead
  /-- With a realm it is what the realm has. -/
  own : ∀ r ≠ [], realm = some r → ∀ d, d ∈ (t.memory.listDlq realm).map DeadLetter.toNull ↔
    d ∈ t.dead ∧ d.entry.realm = r

/-- Is a realm named, with a name that UTF-8 does not take to that of another realm with dead letters?
Kind: D -/
def Named (t : Trio π) (realm : Option Text) : Prop :=
  ∃ r ≠ [], realm = some r ∧ ∀ d ∈ t.dead, d.entry.realm = r ↔ d.entry.realm = encoded r

/-- **Listing**: the three list alike when a realm is named, or when there is nothing to list.
Kind: P -/
theorem Consistent.listedAlike_iff (h : t.Consistent) (now : ℤ) (realm : Option Text) :
    t.ListedAlike now realm ↔ t.Named realm ∨ t.dead = [] := by
  constructor
  · intro hlisted
    rcases realm with _ | r
    · -- Redis looks for the realm with no name
      right
      rw [List.eq_nil_iff_forall_not_mem]
      intro d hd
      have hall := ((h.listed now none d).2.2).mp ((hlisted.redis d).mpr ((hlisted.all rfl d).mpr hd))
      exact h.letters d hd hall.2
    · by_cases hr : r = []
      · subst hr
        right
        rw [List.eq_nil_iff_forall_not_mem]
        intro d hd
        have hmemory := ((h.listed now (some []) d).1).mpr ⟨hd, Or.inl rfl⟩
        have htable := ((h.listed now (some []) d).2.1).mp ((hlisted.sqlite d).mpr hmemory)
        exact h.letters d hd (htable.2 [] rfl)
      · refine Or.inl ⟨r, hr, rfl, fun d hd => ?_⟩
        have hown := hlisted.own r hr rfl d
        have htable := (h.listed now (some (encoded r)) d).2.1
        rw [← Option.map_some, hlisted.sqlite d, hown] at htable
        simpa [hd] using htable
  · rintro (⟨r, hr, rfl, hsame⟩ | hnone)
    · refine ⟨?_, fun d => ?_, fun d => ?_, fun hnone => absurd hnone (by simp), ?_⟩
      · rw [h.listDlq_sqlite]
        exact Option.some_ne_none _
      · rw [(h.listed now (some r) d).1, Option.map_some, (h.listed now (some (encoded r)) d).2.1]
        refine and_congr_right fun hd => ?_
        simpa [hr] using (hsame d hd).symm
      · rw [(h.listed now (some r) d).1, Option.map_some, (h.listed now (some (encoded r)) d).2.2]
        refine and_congr_right fun hd => ?_
        simpa [hr] using (hsame d hd).symm
      · rintro r' hr' heq d
        obtain rfl := Option.some.inj heq
        rw [(h.listed now (some r) d).1]
        simp [hr]
    · have hempty : ∀ d, d ∉ t.dead := by simp [hnone]
      refine ⟨?_, fun d => ?_, fun d => ?_, fun _ d => ?_, fun r' hr' _ d => ?_⟩
      · rw [h.listDlq_sqlite]
        exact Option.some_ne_none _
      · simp only [(h.listed now _ d).1, (h.listed now _ d).2.1, hempty, false_and]
      · simp only [(h.listed now _ d).1, (h.listed now _ d).2.2, hempty, false_and]
      · simp only [(h.listed now realm d).1, hempty, false_and]
      · simp only [(h.listed now realm d).1, hempty, false_and]

/-- **The stores list the same dead letters** for a realm after every run whose steps are clear, but
without one, or for the empty one, only while there are none.
Kind: P -/
theorem listedAlike_run (copy : π → π) (defaultTtl : Ttl) {calls : List (Call π)}
    (h : EachStep (step copy defaultTtl) Clear Trio.init calls) (now : ℤ) (realm : Option Text) :
    (runFrom (step copy defaultTtl) Trio.init calls).ListedAlike now realm ↔
      (runFrom (step copy defaultTtl) Trio.init calls).Named realm ∨
        (runFrom (step copy defaultTtl) Trio.init calls).dead = [] := by
  apply Consistent.listedAlike_iff
  exact invariant_run (fun t c ht hc => ht.step copy defaultTtl c hc) Consistent.init h

instance (t : Trio π) [DecidableEq π] : ∀ c : Call π, Decidable (t.Clear c)
  | ⟨now, .deadLetter msgId reason⟩ =>
      inferInstanceAs (Decidable (
        (t.sqlite.found (encoded msgId)).map Entry.toNull =
            (t.memory.found msgId).map Entry.toNull ∧
          (RedisStore.found t.redis now (encoded msgId)).map Entry.toNull =
            (t.memory.found msgId).map Entry.toNull ∧
          ∀ e ∈ t.memory.found msgId,
            e.Legible ∧ encoded reason = reason ∧ 0 ∉ reason ∧ ∀ d ∈ t.dead, d.entry.id ≠ msgId))
  | ⟨_, .discardDlq msgId _⟩ =>
      inferInstanceAs (Decidable (∀ d ∈ t.dead, d.entry.id = msgId ↔ d.entry.id = encoded msgId))
  | ⟨_, .purgeRealm realm⟩ =>
      inferInstanceAs (Decidable (∀ d ∈ t.dead, d.entry.realm = realm ↔
        d.entry.realm = encoded realm))
  | ⟨_, .enqueue ..⟩ => isTrue trivial
  | ⟨_, .dequeue ..⟩ => isTrue trivial
  | ⟨_, .ack _⟩ => isTrue trivial
  | ⟨_, .listDlq _⟩ => isTrue trivial
  | ⟨_, .countQueued ..⟩ => isTrue trivial

/-- A message of the default realm is given up.
Kind: D -/
def givenUp : List (Call ℕ) :=
  [⟨1, .enqueue [] (ascii "tick") ⟨ascii "a", ascii "w", [], 1, [], none⟩ []⟩,
    ⟨2, .deadLetter (ascii "a") (ascii "refused")⟩]

/-- The three list it for its realm.
Kind: C -/
theorem listedAlike_givenUp :
    (runFrom (step id none) Trio.init givenUp).ListedAlike 3 (some (ascii "default")) := by
  refine (listedAlike_run id none (by decide) 3 (some (ascii "default"))).mpr (Or.inl ?_)
  exact ⟨ascii "default", by decide, rfl, by decide⟩

/-- Without a realm, Redis does not list it.
Kind: P -/
theorem not_listedAlike_givenUp :
    (RedisStore.listDlq (runFrom (step id none) Trio.init givenUp).redis 3 none).2.map
        DeadLetter.toNull = [] ∧
      ¬ (runFrom (step id none) Trio.init givenUp).ListedAlike 3 none := by
  have hredis : (RedisStore.listDlq (runFrom (step id none) Trio.init givenUp).redis 3 none).2.map
      DeadLetter.toNull = [] := by
    have hnil : (RedisStore.listDlq (runFrom (step id none) Trio.init givenUp).redis 3
        none).2.length = 0 := by decide
    rw [List.length_eq_zero_iff.mp hnil, List.map_nil]
  refine ⟨hredis, fun h => ?_⟩
  have hempty : ((runFrom (step id none) Trio.init givenUp).memory.listDlq none).map
      DeadLetter.toNull = [] := by
    rw [List.eq_nil_iff_forall_not_mem]
    intro d hd
    have := (h.redis d).mpr hd
    rw [Option.map_none, hredis] at this
    exact List.not_mem_nil this
  exact absurd (congrArg List.length hempty) (by decide)

end Trio

end TyoMq.Storage
