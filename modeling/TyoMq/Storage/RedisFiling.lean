import TyoMq.Storage.DeadLetters

/-!
# Durable messages: how the Redis store files them

What holds of the keyspace after any calls, whatever ids they use, as long as the clock does not run
backwards: a message is under its id, and in the sorted set of its queue; a dead letter is under its id
(`Filed`, `filed_run`).
-/

namespace TyoMq.Storage

open TyoMq.Lib

variable {π : Type*} {t now : ℤ}

namespace RedisStore

variable {db db' : RedisStore π}

/-- Messages and dead letters are where they should be, from a reading of the clock on.
Kind: D -/
structure Filed (t : ℤ) (db : RedisStore π) : Prop where
  /-- A message is under its id and in its queue. -/
  message : ∀ now, t ≤ now → ∀ id raw, db.get now (.message id) = some raw →
    raw.entry.id = id ∧ id ∈ db.zrange (indexOf raw.entry)
  /-- A dead letter is under its id. -/
  letter : ∀ now id raw, db.get now (.dlqMessage id) = some raw →
    raw.entry.id = id ∧ raw.dead ≠ none

namespace Filed

theorem init (t : ℤ) : Filed t (Redis.empty : RedisStore π) :=
  ⟨fun _ _ _ _ h => absurd h (by simp), fun _ _ _ h => absurd h (by simp)⟩

/-- Messages are taken away, and from the queues nothing but ids that have no message any more.
Kind: L -/
theorem shrink (h : Filed t db) (hle : t ≤ now)
    (hget : ∀ now', now ≤ now' → ∀ id raw, db'.get now' (.message id) = some raw →
      db.get now' (.message id) = some raw)
    (hkeep : ∀ id, db'.get now (.message id) ≠ none → ∀ r ev c,
      id ∈ db.zrange (.index r ev c) → id ∈ db'.zrange (.index r ev c))
    (hletter : ∀ now' id raw, db'.get now' (.dlqMessage id) = some raw →
      db.get now' (.dlqMessage id) = some raw) : Filed now db' where
  message now' hle' id raw hraw := by
    obtain ⟨hid, hin⟩ := h.message now' (hle.trans hle') id raw (hget now' hle' id raw hraw)
    refine ⟨hid, hkeep id ?_ _ _ _ hin⟩
    rw [Redis.get_mono hle' hraw]
    exact Option.some_ne_none _
  letter now' id raw hraw := h.letter now' id raw (hletter now' id raw hraw)

/-- Nothing happens to messages, queues and dead letters.
Kind: L -/
theorem of_same (h : Filed t db) (hle : t ≤ now)
    (hmessage : ∀ id, Redis.SameAt db db' (.message id))
    (hindex : ∀ r ev c, Redis.SameAt db db' (.index r ev c))
    (hletter : ∀ now' id raw, db'.get now' (.dlqMessage id) = some raw →
      db.get now' (.dlqMessage id) = some raw) : Filed now db' := by
  refine h.shrink hle (fun now' _ id raw hraw => ?_) (fun id _ r ev c hin => ?_) hletter
  · rwa [(hmessage id).get] at hraw
  · rwa [Redis.zrange, (hindex r ev c).zset]

theorem mono (h : Filed t db) (hle : t ≤ now) : Filed now db :=
  h.of_same hle (fun _ => Redis.SameAt.refl _ _) (fun _ _ _ => Redis.SameAt.refl _ _)
    fun _ _ _ hraw => hraw

/-- What is under the key of a message that has just been written is that message.
Kind: L -/
theorem of_get_write {e : Entry π} {now' : ℤ} {raw : Written π}
    (h : (write db now e).get now' (.message e.id) = some raw) : raw = ⟨e, none⟩ := by
  rw [write] at h
  have hset : (db.set (.message e.id) ⟨e, none⟩).get now' (.message e.id) = some ⟨e, none⟩ :=
    Redis.get_set_self
  rcases hx : e.expires_at with _ | x
  · rw [hx] at h
    exact (Option.some.inj (hset.symm.trans h)).symm
  · rw [hx] at h
    dsimp only at h
    split_ifs at h
    · exact (Option.some.inj (hset.symm.trans h)).symm
    · rw [Redis.get_pexpireat_self Redis.get_set_self] at h
      split_ifs at h
      exact (Option.some.inj h).symm

theorem enqueue (h : Filed t db) (hle : t ≤ now) (defaultTtl : Ttl) (realm event : Text)
    (message : Message π) (generated : Text) :
    Filed now (enqueue defaultTtl db now realm event message generated).1 := by
  set e := queued defaultTtl now realm event message generated with he
  have henqueue : (RedisStore.enqueue defaultTtl db now realm event message generated).1 =
      (write db now e).zadd (indexOf e) now e.id := rfl
  have hwrite : ∀ k : Key, k ≠ .message e.id → Redis.SameAt db (write db now e) k := fun k hk =>
    sameAt_write db now e hk
  have hrange : ∀ r ev c id, id ∈ ((write db now e).zadd (indexOf e) now e.id).zrange
      (.index r ev c) ↔ id ∈ db.zrange (.index r ev c) ∨ indexOf e = .index r ev c ∧ id = e.id := by
    intro r ev c id
    simp only [Redis.zrange, SortedSet.mem_range, mem_zset_zadd,
      (hwrite (.index r ev c) (by simp)).zset, Prod.mk.injEq]
    constructor
    · rintro ⟨score, ⟨hindex, -, rfl⟩ | ⟨hmem, -⟩⟩
      · exact Or.inr ⟨hindex, rfl⟩
      · exact Or.inl ⟨score, hmem⟩
    · rintro (⟨score, hmem⟩ | ⟨hindex, rfl⟩)
      · by_cases hsame : indexOf e = .index r ev c ∧ id = e.id
        · exact ⟨now, Or.inl ⟨hsame.1, rfl, hsame.2⟩⟩
        · exact ⟨score, Or.inr ⟨hmem, hsame⟩⟩
      · exact ⟨now, Or.inl ⟨hindex, rfl, rfl⟩⟩
  rw [henqueue]
  refine ⟨fun now' hle' id raw hraw => ?_, fun now' id raw hraw => ?_⟩
  · rw [Redis.get_zadd] at hraw
    by_cases hid : id = e.id
    · rw [hid] at hraw ⊢
      rw [of_get_write hraw]
      refine ⟨rfl, (hrange _ _ _ _).mpr (Or.inr ⟨rfl, rfl⟩)⟩
    · rw [(hwrite (.message id) (by simpa using hid)).get] at hraw
      obtain ⟨hid', hin⟩ := h.message now' (hle.trans hle') id raw hraw
      exact ⟨hid', (hrange _ _ _ _).mpr (Or.inl hin)⟩
  · rw [Redis.get_zadd, (hwrite (.dlqMessage id) (by simp)).get] at hraw
    exact h.letter now' id raw hraw

theorem ack (h : Filed t db) (hle : t ≤ now) (msgId : Text) :
    Filed now (RedisStore.ack db now msgId) := by
  refine h.shrink hle (fun now' _ id raw hraw => ?_) (fun id hsome r ev c hin => ?_)
    fun now' id raw hraw => ?_
  · rw [get_ack] at hraw
    split_ifs at hraw
    exact hraw
  · rw [get_ack] at hsome
    obtain ⟨score, hmem⟩ := SortedSet.mem_range.mp hin
    refine SortedSet.mem_range.mpr ⟨score, mem_zset_ack_of_ne (fun hid => ?_) hmem⟩
    exact hsome (if_pos hid)
  · rwa [(sameAt_ack db now msgId rfl).get] at hraw

/-- Acting on an answer, when what is not there now was not there then.
Kind: L -/
theorem settle (h : Filed t db) (hle : t ≤ now) (indexKey : Key) {id : Text} {raw : Option (Written π)}
    (hnone : raw = none → db.get now (.message id) = none) :
    Filed now (RedisStore.settle now indexKey db id raw) := by
  rcases raw with _ | raw
  · refine h.shrink hle (fun now' _ id raw hraw => ?_) (fun id' hsome r ev c hin => ?_)
      fun now' id raw hraw => ?_
    · rwa [RedisStore.settle, Redis.get_zrem] at hraw
    · rw [RedisStore.settle, Redis.get_zrem] at hsome
      obtain ⟨score, hmem⟩ := SortedSet.mem_range.mp hin
      refine SortedSet.mem_range.mpr ⟨score, Redis.mem_zrem.mpr ⟨hmem, ?_⟩⟩
      rintro ⟨-, rfl⟩
      exact hsome (hnone rfl)
    · rwa [RedisStore.settle, Redis.get_zrem] at hraw
  · rw [RedisStore.settle]
    split_ifs
    · exact h.ack hle id
    · exact h.mono hle

theorem dequeue (h : Filed t db) (hle : t ≤ now) (realm event consumer : Text) :
    Filed now (RedisStore.dequeue db now realm event consumer).1 := by
  have hall : ∀ (answers : List (Text × Option (Written π))) (db' : RedisStore π),
      (∀ a ∈ answers, a.2 = none → db'.get now (.message a.1) = none) → Filed now db' →
      Filed now (answers.foldl (fun db answer =>
        RedisStore.settle now (.index (realmOr realm) event consumer) db answer.1 answer.2) db') := by
    intro answers
    induction answers with
    | nil => exact fun _ _ h => h
    | cons a answers ih =>
        intro db' hnone hfiled
        apply ih
        · intro a' ha' hraw
          exact get_settle_eq_none (hnone a' (List.mem_cons_of_mem _ ha') hraw)
        · exact hfiled.settle (le_refl _) _ (hnone a (List.mem_cons_self ..))
  apply hall _ db _ (h.mono hle)
  intro a ha hraw
  obtain ⟨id, -, rfl⟩ := List.mem_map.mp ha
  exact hraw

theorem deadLetter (h : Filed t db) (hle : t ≤ now) (msgId reason : Text) :
    Filed now (RedisStore.deadLetter db now msgId reason).1 := by
  rw [RedisStore.deadLetter]
  rcases hget : db.get now (.message msgId) with _ | raw
  · exact h.mono hle
  · have hid := (h.message now hle msgId raw hget).1
    have hsame : ∀ k : Key, k.isDlq = false → Redis.SameAt db
        ((db.set (.dlqMessage msgId) ⟨raw.entry, some (orNull reason, now)⟩).zadd
          (.dlqIndex raw.entry.realm) now msgId) k := by
      intro k hk
      refine (Redis.SameAt.set db ?_ _).trans (Redis.SameAt.zadd _ ?_ _ _)
      · rintro rfl
        exact absurd hk (by simp [Key.isDlq])
      · rintro rfl
        exact absurd hk (by simp [Key.isDlq])
    have hwritten : Filed now ((db.set (.dlqMessage msgId)
        ⟨raw.entry, some (orNull reason, now)⟩).zadd (.dlqIndex raw.entry.realm) now msgId) := by
      refine ⟨fun now' hle' id raw' hraw => ?_, fun now' id raw' hraw => ?_⟩
      · rw [(hsame (.message id) rfl).get] at hraw
        rw [Redis.zrange, indexOf, (hsame (.index _ _ _) rfl).zset]
        exact h.message now' (hle.trans hle') id raw' hraw
      · rw [Redis.get_zadd] at hraw
        by_cases hid' : id = msgId
        · rw [hid', Redis.get_set_self] at hraw
          obtain rfl := Option.some.inj hraw
          exact ⟨hid.trans hid'.symm, Option.some_ne_none _⟩
        · rw [Redis.get_set_of_ne (by simpa using hid')] at hraw
          exact h.letter now' id raw' hraw
    exact hwritten.ack (le_refl _) msgId

/-- A dead letter is taken out of the sorted set of its realm.
Kind: L -/
theorem zrem_dlqIndex (h : Filed t db) (realm msgId : Text) :
    Filed t (db.zrem (.dlqIndex realm) msgId) := by
  refine h.of_same (le_refl _) (fun id => ?_) (fun r ev c => ?_) fun now' id raw hraw => ?_
  · exact Redis.SameAt.zrem db (by simp) msgId
  · exact Redis.SameAt.zrem db (by simp) msgId
  · rwa [Redis.get_zrem] at hraw

theorem listDlq (h : Filed t db) (hle : t ≤ now) (realm : Option Text) :
    Filed now (RedisStore.listDlq db now realm).1 := by
  have hall : ∀ (answers : List (Text × Option (Written π))) (db' : RedisStore π), Filed now db' →
      Filed now (answers.foldl (fun db answer =>
        if answer.2.isNone then db.zrem (.dlqIndex (realm.getD [])) answer.1 else db) db') := by
    intro answers
    induction answers with
    | nil => exact fun _ h => h
    | cons a answers ih =>
        intro db' hfiled
        apply ih
        dsimp only
        split_ifs
        · exact hfiled.zrem_dlqIndex _ _
        · exact hfiled
  exact hall _ db (h.mono hle)

theorem discardDlq (h : Filed t db) (hle : t ≤ now) (msgId : Text) (realm : Option Text) :
    Filed now (RedisStore.discardDlq db now msgId realm) := by
  have hdel : Filed now (db.del (.dlqMessage msgId)) := by
    refine h.of_same hle (fun id => ?_) (fun r ev c => ?_) fun now' id raw hraw => ?_
    · exact Redis.SameAt.del db (by simp)
    · exact Redis.SameAt.del db (by simp)
    · by_cases hid : id = msgId
      · rw [hid, Redis.get_del_self] at hraw
        exact absurd hraw (by simp)
      · rwa [Redis.get_del_of_ne (by simpa using hid)] at hraw
  rw [RedisStore.discardDlq]
  split
  · exact hdel
  · exact hdel.zrem_dlqIndex _ _

theorem purgeRealm (h : Filed t db) (hle : t ≤ now) (realm : Text) :
    Filed now (RedisStore.purgeRealm db realm).1 := by
  have hscan : ∀ k ∈ db.scan (isIndexOf realm), isIndexOf realm k = true := fun k hk =>
    (List.mem_filter.mp hk).2
  have hkeys : ∀ k ∈ db.scan (isIndexOf realm), ∃ r ev c, k = .index r ev c := by
    intro k hk
    have hindex := hscan k hk
    cases k with
    | index r ev c => exact ⟨r, ev, c, rfl⟩
    | message | dlqMessage | dlqIndex => exact absurd hindex Bool.false_ne_true
  obtain ⟨hget, hzset⟩ := drain_all db 0 hkeys
  have hletter := fun id => sameAt_drain (k := .dlqMessage id) db 0 realm _ hscan rfl
  rw [RedisStore.purgeRealm]
  generalize (db.scan (isIndexOf realm)).foldl (drainIndex .message) (db, 0) = s at hget hzset hletter
  obtain ⟨db₁, n₁⟩ := s
  have hqueues : Filed now db₁ := by
    refine h.shrink hle (fun now' _ id raw hraw => ?_) (fun id hsome r ev c hin => ?_)
      fun now' id raw hraw => ?_
    · rw [hget] at hraw
      split_ifs at hraw
      exact hraw
    · rw [hget] at hsome
      rw [Redis.zrange, hzset, if_neg]
      · exact hin
      · exact fun hk => hsome (if_pos ⟨_, hk, hin⟩)
    · rwa [(hletter id).get] at hraw
  refine hqueues.of_same (le_refl _) (fun id => ⟨fun now' => ?_, ?_⟩) (fun r ev c => ⟨fun now' => ?_, ?_⟩)
    fun now' id raw hraw => ?_
  · rw [drainIndex, Redis.get_del_of_ne (by simp), get_foldl_del, if_neg (by simp)]
  · rw [zset_drainIndex (by simp), if_neg (by simp)]
  · rw [drainIndex, Redis.get_del_of_ne (by simp), get_foldl_del, if_neg (by simp)]
  · rw [zset_drainIndex (by simp), if_neg (by simp)]
  · rw [drainIndex, Redis.get_del_of_ne (by simp), get_foldl_del] at hraw
    split_ifs at hraw
    exact hraw

/-- Every call keeps the keyspace so.
Kind: P -/
theorem step (h : Filed t db) (defaultTtl : Ttl) (c : Call π) (hle : t ≤ c.now) :
    Filed c.now ((store defaultTtl).step db c) := by
  obtain ⟨now, op⟩ := c
  cases op with
  | enqueue realm event message generated =>
      exact h.enqueue hle defaultTtl realm event message generated
  | dequeue realm event consumer => exact h.dequeue hle realm event consumer
  | ack msgId => exact h.ack hle msgId
  | deadLetter msgId reason => exact h.deadLetter hle msgId reason
  | listDlq realm => exact h.listDlq hle realm
  | discardDlq msgId realm => exact h.discardDlq hle msgId realm
  | countQueued => exact h.mono hle
  | purgeRealm realm => exact h.purgeRealm hle realm

end Filed

/-- The keyspace after any calls, from their last reading of the clock on.
Kind: P -/
theorem filed_run (defaultTtl : Ttl) {calls : List (Call π)}
    (hchron : (calls.map Call.now).Pairwise (· ≤ ·)) (hnow : ∀ c ∈ calls, c.now ≤ now) :
    Filed now ((store defaultTtl).run calls) := by
  induction calls using List.reverseRecOn generalizing now with
  | nil => exact Filed.init now
  | append_singleton calls c ih =>
      rw [List.map_append, List.pairwise_append] at hchron
      rw [Store.run_append]
      have hcalls : Filed c.now ((store defaultTtl).run calls) := by
        apply ih hchron.1
        exact fun c' hc' => hchron.2.2 _ (List.mem_map_of_mem hc') _ (by simp)
      exact (hcalls.step defaultTtl c (le_refl _)).mono (hnow c (by simp))

end RedisStore

end TyoMq.Storage
