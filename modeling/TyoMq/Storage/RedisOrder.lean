import TyoMq.Storage.Ledger
import TyoMq.Storage.Redis

/-!
# Durable messages: the order of the Redis store

The keyspace follows the survivors (`Tracks`): a message that has not expired is under its key, a
message under its key is in the sorted set of its queue with the time at which it was queued, and what
is in a sorted set has been queued there at that time. So a queue's messages come by the time at which
they were queued, and by their ids where that is the same (`sorted_dequeue`, `mem_dequeue`).

* All calls but `enqueue` only take away from the queues, which is one argument (`Tracks.shrink`).
-/

namespace TyoMq.Storage

open TyoMq.Lib

variable {π : Type*} {defaultTtl : Ttl} {L L' : List (Entry π)} {seen : List Text} {t now : ℤ}

namespace RedisStore

variable {db db' : RedisStore π}

/-- The keyspace follows the survivors of a run, given the ids it has used and its last reading of the
clock.
Kind: D -/
structure Tracks (L : List (Entry π)) (seen : List Text) (t : ℤ) (db : RedisStore π) : Prop where
  /-- The survivors are orderly. -/
  orderly : Orderly L seen t
  /-- What is under the key of a message survives and is in its queue. -/
  live : ∀ now, t ≤ now → ∀ id raw, db.get now (.message id) = some raw →
    raw.entry ∈ L ∧ raw.entry.id = id ∧
      (raw.entry.created_at, id) ∈ (db.zset (indexOf raw.entry)).entries
  /-- What survives is under its key until it expires. -/
  alive : ∀ now, t ≤ now → ∀ e ∈ L, e.alive now = true → db.get now (.message e.id) = some ⟨e, none⟩
  /-- What is in a queue has been queued there at that time. -/
  index : ∀ r ev c, ∀ m ∈ (db.zset (.index r ev c)).entries, m.2 ∈ seen ∧
    ∀ e ∈ L, e.id = m.2 → indexOf e = .index r ev c ∧ e.created_at = m.1

/-- Survivors are taken away, and from the keyspace nothing but messages, and ids that have no message
any more.
Kind: P -/
theorem Tracks.shrink (h : Tracks L seen t db) (hle : t ≤ now) (hL : L'.Sublist L)
    (hget : ∀ now', now ≤ now' → ∀ id raw, db'.get now' (.message id) = some raw →
      db.get now' (.message id) = some raw)
    (hin : ∀ id raw, db'.get now (.message id) = some raw → raw.entry ∈ L')
    (hkeep : ∀ now', now ≤ now' → ∀ e ∈ L', e.alive now' = true →
      db'.get now' (.message e.id) = db.get now' (.message e.id))
    (hzset : ∀ r ev c, ∀ m ∈ (db'.zset (.index r ev c)).entries,
      m ∈ (db.zset (.index r ev c)).entries)
    (hzkeep : ∀ r ev c, ∀ m ∈ (db.zset (.index r ev c)).entries,
      db'.get now (.message m.2) ≠ none → m ∈ (db'.zset (.index r ev c)).entries) :
    Tracks L' seen now db' where
  orderly := h.orderly.sublist hL hle
  live now' hle' id raw hraw := by
    obtain ⟨-, hid, hindex⟩ := h.live now' (hle.trans hle') id raw (hget now' hle' id raw hraw)
    have hnow := Redis.get_mono hle' hraw
    exact ⟨hin id raw hnow, hid, hzkeep _ _ _ _ hindex (by rw [hnow]; simp)⟩
  alive now' hle' e he halive := by
    rw [hkeep now' hle' e he halive]
    exact h.alive now' (hle.trans hle') e (hL.subset he) halive
  index r ev c m hm := by
    obtain ⟨hseen, hall⟩ := h.index r ev c m (hzset r ev c m hm)
    exact ⟨hseen, fun e he => hall e (hL.subset he)⟩

/-- Nothing that a queue depends on changes.
Kind: L -/
theorem Tracks.of_same (h : Tracks L seen t db) (hle : t ≤ now)
    (hget : ∀ now' id, db'.get now' (.message id) = db.get now' (.message id))
    (hzset : ∀ r ev c m, m ∈ (db'.zset (.index r ev c)).entries ↔
      m ∈ (db.zset (.index r ev c)).entries) : Tracks L seen now db' :=
  h.shrink hle (List.Sublist.refl _) (fun now' _ id _ hraw => hget now' id ▸ hraw)
    (fun id raw hraw => (h.live now hle id raw (hget now id ▸ hraw)).1)
    (fun now' _ e _ _ => hget now' e.id) (fun r ev c m hm => (hzset r ev c m).mp hm)
    fun r ev c m hm _ => (hzset r ev c m).mpr hm

/-! ### Queueing -/

/-- The messages after one has been written.
Kind: L -/
theorem get_write {e : Entry π} (hpos : ∀ x ∈ e.expires_at, 0 < x) (db : RedisStore π)
    (now now' : ℤ) (id : Text) :
    (write db now e).get now' (.message id) =
      if id = e.id then
        if e.expires_at.any fun x => x ≤ now ∨ x < now' then none else some ⟨e, none⟩
      else db.get now' (.message id) := by
  rw [write]
  rcases hx : e.expires_at with _ | x
  · dsimp only
    by_cases hid : id = e.id
    · rw [hid, Redis.get_set_self]
      simp
    · rw [Redis.get_set_of_ne (by simpa using hid), if_neg hid]
  · have hx0 : x ≠ 0 := (hpos x hx).ne'
    dsimp only
    rw [if_neg hx0]
    by_cases hid : id = e.id
    · rw [hid, if_pos rfl, Redis.get_pexpireat_self Redis.get_set_self]
      simp
    · rw [Redis.get_pexpireat_of_ne (by simpa using hid), Redis.get_set_of_ne (by simpa using hid),
        if_neg hid]

/-- Writing a message does not touch the queues.
Kind: L -/
theorem zset_write (db : RedisStore π) (now : ℤ) (e : Entry π) (r ev c : Text) :
    (write db now e).zset (.index r ev c) = db.zset (.index r ev c) := by
  rw [write]
  rcases e.expires_at with _ | x
  · exact Redis.zset_set_of_ne (by simp)
  · dsimp only
    split_ifs
    · exact Redis.zset_set_of_ne (by simp)
    · rw [Redis.zset_pexpireat_of_ne (by simp), Redis.zset_set_of_ne (by simp)]

/-- The queues after a message has been queued.
Kind: L -/
theorem mem_zset_zadd {e : Entry π} {id : Text} {r ev c : Text} {m : ℤ × Text} :
    m ∈ ((db.zadd (indexOf e) now id).zset (.index r ev c)).entries ↔
      (indexOf e = .index r ev c ∧ m = (now, id)) ∨
        m ∈ (db.zset (.index r ev c)).entries ∧ ¬ (indexOf e = .index r ev c ∧ m.2 = id) := by
  by_cases h : indexOf e = .index r ev c
  · rw [h, Redis.zset_zadd_self, SortedSet.mem_add]
    simp
  · rw [Redis.zset_zadd_of_ne (Ne.symm h)]
    simp [h]

/-- What is alive has not expired, neither when it was written nor since.
Kind: L -/
theorem not_expired_of_alive {e : Entry π} (hle : now ≤ now') (h : e.alive now' = true) :
    ¬ (e.expires_at.any fun x => x ≤ now ∨ x < now') = true := by
  rw [Entry.alive] at h
  rcases hx : e.expires_at with _ | x
  · simp
  · rw [hx] at h
    simp only [Option.all_some, decide_eq_true_eq] at h
    simp only [Option.any_some, decide_eq_true_eq]
    omega

/-- The messages after one has been queued.
Kind: L -/
theorem get_queued {e : Entry π} (hpos : ∀ x ∈ e.expires_at, 0 < x) (now' : ℤ) (id : Text) :
    ((write db now e).zadd (indexOf e) now e.id).get now' (.message id) =
      if id = e.id then
        if e.expires_at.any fun x => x ≤ now ∨ x < now' then none else some ⟨e, none⟩
      else db.get now' (.message id) := by
  rw [Redis.get_zadd, get_write hpos]

/-- The queues after that.
Kind: L -/
theorem mem_zset_queued {e : Entry π} {r ev c : Text} {m : ℤ × Text} :
    m ∈ (((write db now e).zadd (indexOf e) now e.id).zset (.index r ev c)).entries ↔
      (indexOf e = .index r ev c ∧ m = (now, e.id)) ∨
        m ∈ (db.zset (.index r ev c)).entries ∧ ¬ (indexOf e = .index r ev c ∧ m.2 = e.id) := by
  rw [mem_zset_zadd, zset_write]

/-- An entry with a new id joins its queue.
Kind: L -/
theorem Tracks.append (h : Tracks L seen t db) (hle : t ≤ now) {e : Entry π} (hcreated : e.created_at = now)
    (hnew : e.id ∉ seen) (horderly : Orderly (L ++ [e]) (seen ++ [e.id]) now) :
    Tracks (L ++ [e]) (seen ++ [e.id]) now ((write db now e).zadd (indexOf e) now e.id) := by
  have hmem : e ∈ L ++ [e] := List.mem_append_right _ List.mem_cons_self
  have hpos : ∀ x ∈ e.expires_at, 0 < x := horderly.positive e hmem
  refine ⟨horderly, ?_, ?_, ?_⟩
  · intro now' hle' id raw hraw
    rw [get_queued hpos] at hraw
    split_ifs at hraw with hid hexp
    · obtain rfl := Option.some.inj hraw
      subst hid
      refine ⟨hmem, rfl, mem_zset_queued.mpr (Or.inl ⟨rfl, ?_⟩)⟩
      rw [hcreated]
    · obtain ⟨hin, hraw', hindex⟩ := h.live now' (hle.trans hle') id raw hraw
      refine ⟨List.mem_append_left _ hin, hraw', mem_zset_queued.mpr (Or.inr ⟨hindex, ?_⟩)⟩
      exact fun hc => hid hc.2
  · intro now' hle' e' he halive
    rw [get_queued hpos]
    rcases List.mem_append.mp he with he | he
    · have hne : e'.id ≠ e.id := fun heq => hnew (heq ▸ h.orderly.seen e' he)
      rw [if_neg hne]
      exact h.alive now' (hle.trans hle') e' he halive
    · obtain rfl := List.mem_singleton.mp he
      rw [if_pos rfl, if_neg (not_expired_of_alive hle' halive)]
  · intro r ev c m hm
    rcases mem_zset_queued.mp hm with ⟨hindex, rfl⟩ | ⟨hold, -⟩
    · refine ⟨List.mem_append_right _ List.mem_cons_self, fun e' he hid => ?_⟩
      rw [horderly.eq_of_id he hmem hid]
      exact ⟨hindex, hcreated⟩
    · obtain ⟨hseen, hall⟩ := h.index r ev c m hold
      refine ⟨List.mem_append_left _ hseen, fun e' he hid => ?_⟩
      rcases List.mem_append.mp he with he | he
      · exact hall e' he hid
      · obtain rfl := List.mem_singleton.mp he
        exact absurd (hid ▸ hseen) hnew

/-- A message with a new id joins its queue.
Kind: P -/
theorem Tracks.enqueue (h : Tracks L seen t db) (hle : t ≤ now) (hpos : 0 < now) (defaultTtl : Ttl)
    (realm event : Text) {message : Message π} {generated : Text}
    (hnew : message.idOr generated ∉ seen) :
    Tracks (L ++ [queued defaultTtl now realm event message generated])
      (seen ++ [message.idOr generated]) now
      (enqueue defaultTtl db now realm event message generated).1 :=
  h.append hle rfl hnew (h.orderly.queued hle hpos hnew)

/-! ### Taking away -/

/-- The messages after an acknowledgement.
Kind: L -/
theorem get_ack (db : RedisStore π) (now : ℤ) (msgId : Text) (now' : ℤ) (id : Text) :
    (ack db now msgId).get now' (.message id) =
      if id = msgId then none else db.get now' (.message id) := by
  rw [ack]
  by_cases hid : id = msgId
  · rw [hid, Redis.get_del_self, if_pos rfl]
  · rw [Redis.get_del_of_ne (by simpa using hid), if_neg hid]
    split
    · rfl
    · rw [Redis.get_zrem]

/-- The queues after an acknowledgement.
Kind: L -/
theorem mem_zset_ack {msgId : Text} {r ev c : Text} {m : ℤ × Text} :
    m ∈ ((ack db now msgId).zset (.index r ev c)).entries →
      m ∈ (db.zset (.index r ev c)).entries := by
  rw [ack, Redis.zset_del_of_ne (by simp)]
  split
  · exact id
  · exact fun h => (Redis.mem_zrem.mp h).1

/-- An acknowledgement takes only its own message out of the queues.
Kind: L -/
theorem mem_zset_ack_of_ne {msgId : Text} {r ev c : Text} {m : ℤ × Text} (hne : m.2 ≠ msgId)
    (h : m ∈ (db.zset (.index r ev c)).entries) :
    m ∈ ((ack db now msgId).zset (.index r ev c)).entries := by
  rw [ack, Redis.zset_del_of_ne (by simp)]
  split
  · exact h
  · exact Redis.mem_zrem.mpr ⟨h, fun hc => hne hc.2⟩

/-- An acknowledgement takes a survivor away, or one that has expired.
Kind: P -/
theorem Tracks.ack (h : Tracks L seen t db) (hle : t ≤ now) {msgId : Text} (hL : L'.Sublist L)
    (hin : ∀ e ∈ L, e.id ≠ msgId → e ∈ L')
    (hgone : ∀ e ∈ L', e.id = msgId → e.alive now = false) :
    Tracks L' seen now (RedisStore.ack db now msgId) := by
  refine h.shrink hle hL (fun now' _ id raw hraw => ?_) (fun id raw hraw => ?_)
    (fun now' hle' e he halive => ?_) (fun r ev c m => mem_zset_ack) fun r ev c m hm hraw => ?_
  · rw [get_ack] at hraw
    split_ifs at hraw
    exact hraw
  · rw [get_ack] at hraw
    split_ifs at hraw with hid
    obtain ⟨hmem, hid', -⟩ := h.live now hle id raw hraw
    exact hin _ hmem (hid' ▸ hid)
  · rw [get_ack, if_neg]
    intro hid
    exact Bool.false_ne_true ((hgone e he hid).symm.trans (Entry.alive_mono halive hle'))
  · rw [get_ack] at hraw
    exact mem_zset_ack_of_ne (fun hid => hraw (if_pos hid)) hm

theorem Tracks.mono (h : Tracks L seen t db) (hle : t ≤ now) : Tracks L seen now db :=
  h.of_same hle (fun _ _ => rfl) fun _ _ _ _ => Iff.rfl

/-- By the client's clock a survivor has expired when it is not alive.
Kind: L -/
theorem Tracks.isExpired_eq (h : Tracks L seen t db) {e : Entry π} (he : e ∈ L) (now : ℤ) :
    isExpired now e = !e.alive now := by
  rw [isExpired, Entry.alive]
  rcases hx : e.expires_at with _ | x
  · rfl
  · have hx0 : x ≠ 0 := (h.orderly.positive e he x hx).ne'
    simp only [Option.any_some, Option.all_some, hx0, ne_eq, not_false_eq_true, true_and,
      ← decide_not, not_lt]

/-- A dead letter takes its message away.
Kind: P -/
theorem Tracks.deadLetter (h : Tracks L seen t db) (hle : t ≤ now) (msgId reason : Text) :
    Tracks (L.filter fun e => e.id ≠ msgId) seen now (deadLetter db now msgId reason).1 := by
  have hfilter : ∀ e ∈ L, e.id ≠ msgId → e ∈ L.filter fun e => e.id ≠ msgId := fun e he hne =>
    List.mem_filter.mpr ⟨he, decide_eq_true hne⟩
  rw [RedisStore.deadLetter]
  rcases hget : db.get now (.message msgId) with _ | raw
  · -- it has expired, or is not there
    refine h.shrink hle List.filter_sublist (fun _ _ _ _ hraw => hraw) (fun id raw hraw => ?_)
      (fun _ _ _ _ _ => rfl) (fun _ _ _ _ hm => hm) fun _ _ _ _ hm _ => hm
    obtain ⟨hmem, hid, -⟩ := h.live now hle id raw hraw
    apply hfilter _ hmem
    intro hid'
    rw [← hid, hid', hget] at hraw
    exact absurd hraw (by simp)
  · have hsame : Tracks L seen now ((db.set (.dlqMessage msgId)
        ⟨raw.entry, some (orNull reason, now)⟩).zadd (.dlqIndex raw.entry.realm) now msgId) := by
      refine h.of_same hle ?_ ?_
      · intro now' id
        rw [Redis.get_zadd, Redis.get_set_of_ne (by simp)]
      · intro r ev c m
        rw [Redis.zset_zadd_of_ne (by simp), Redis.zset_set_of_ne (by simp)]
    apply hsame.ack (le_refl _) List.filter_sublist hfilter
    intro e he hid
    exact absurd hid (of_decide_eq_true (List.mem_filter.mp he).2)

/-! ### Answers -/

/-- What is not there is not there after an answer has been acted on.
Kind: L -/
theorem get_settle_eq_none {indexKey : Key} {id id' : Text} {raw : Option (Written π)}
    (h : db.get now (.message id') = none) :
    (settle now indexKey db id raw).get now (.message id') = none := by
  rcases raw with _ | raw
  · rw [settle, Redis.get_zrem, h]
  · rw [settle]
    split_ifs
    · rw [get_ack, h, ite_self]
    · exact h

/-- Acting on an answer takes away what has expired.
Kind: L -/
theorem Tracks.settle (h : Tracks L seen t db) (hle : t ≤ now) (indexKey : Key) {id : Text}
    {raw : Option (Written π)} (hnone : raw = none → db.get now (.message id) = none)
    (hsome : ∀ w, raw = some w → w.entry ∈ L ∧ w.entry.id = id) :
    Tracks L seen now (settle now indexKey db id raw) := by
  rcases raw with _ | raw
  · rw [RedisStore.settle]
    refine h.shrink hle (List.Sublist.refl _) (fun now' _ id raw hraw => ?_) (fun id raw hraw => ?_)
      (fun _ _ _ _ _ => Redis.get_zrem) (fun r ev c m hm => (Redis.mem_zrem.mp hm).1)
      fun r ev c m hm hraw => ?_
    · rwa [Redis.get_zrem] at hraw
    · rw [Redis.get_zrem] at hraw
      exact (h.live now hle id raw hraw).1
    · rw [Redis.get_zrem] at hraw
      exact Redis.mem_zrem.mpr ⟨hm, fun hc => hraw (hc.2 ▸ hnone rfl)⟩
  · rw [RedisStore.settle]
    obtain ⟨hmem, hid⟩ := hsome raw rfl
    split_ifs with hexp
    · refine h.ack hle (List.Sublist.refl _) (fun e he _ => he) fun e he hid' => ?_
      rw [h.isExpired_eq hmem, Bool.not_eq_true'] at hexp
      rw [h.orderly.eq_of_id he hmem (hid'.trans hid.symm)]
      exact hexp
    · exact h.mono hle

/-- Acting on all the answers, which were all given before the first was acted on.
Kind: P -/
theorem Tracks.settle_all (h : Tracks L seen t db) (hle : t ≤ now) (indexKey : Key)
    {answers : List (Text × Option (Written π))}
    (hanswers : ∀ a ∈ answers, a.2 = db.get now (.message a.1)) (htracks : Tracks L seen now db')
    (hnone : ∀ id, db.get now (.message id) = none → db'.get now (.message id) = none) :
    Tracks L seen now
      (answers.foldl (fun db answer => RedisStore.settle now indexKey db answer.1 answer.2) db') := by
  induction answers generalizing db' with
  | nil => exact htracks
  | cons a answers ih =>
      have ha := hanswers a List.mem_cons_self
      refine ih (fun a' ha' => hanswers a' (List.mem_cons_of_mem _ ha')) ?_ fun id hid =>
        get_settle_eq_none (hnone id hid)
      refine htracks.settle (le_refl _) indexKey (fun hraw => hnone _ (ha.symm.trans hraw)) ?_
      intro w hw
      obtain ⟨hmem, hid, -⟩ := h.live now hle a.1 w (ha.symm.trans hw)
      exact ⟨hmem, hid⟩

theorem Tracks.dequeue (h : Tracks L seen t db) (hle : t ≤ now) (realm event consumer : Text) :
    Tracks L seen now (dequeue db now realm event consumer).1 := by
  refine h.settle_all hle _ (fun a ha => ?_) (h.mono hle) fun _ hid => hid
  obtain ⟨id, -, rfl⟩ := List.mem_map.mp ha
  rfl

/-! ### Dead letters -/

theorem Tracks.zrem_dlqIndex (h : Tracks L seen t db) (realm msgId : Text) :
    Tracks L seen t (db.zrem (.dlqIndex realm) msgId) := by
  refine h.of_same (le_refl _) (fun _ _ => Redis.get_zrem) fun r ev c m => ?_
  simp [Redis.mem_zrem]

theorem Tracks.listDlq (h : Tracks L seen t db) (hle : t ≤ now) (realm : Option Text) :
    Tracks L seen now (listDlq db now realm).1 := by
  rw [RedisStore.listDlq]
  dsimp only
  generalize ((db.zrange (.dlqIndex (realm.getD []))).map fun id =>
    (id, db.get now (.dlqMessage id))) = answers
  replace h := h.mono hle
  induction answers generalizing db with
  | nil => exact h
  | cons a answers ih =>
      refine ih ?_
      dsimp only
      split_ifs
      · exact h.zrem_dlqIndex _ _
      · exact h

theorem Tracks.discardDlq (h : Tracks L seen t db) (hle : t ≤ now) (msgId : Text)
    (realm : Option Text) : Tracks L seen now (discardDlq db now msgId realm) := by
  have hdel : Tracks L seen now (db.del (.dlqMessage msgId)) := by
    refine h.of_same hle (fun now' id => Redis.get_del_of_ne (by simp)) fun r ev c m => ?_
    rw [Redis.zset_del_of_ne (by simp)]
  rw [RedisStore.discardDlq]
  split
  · exact hdel
  · exact hdel.zrem_dlqIndex _ _

/-! ### Purging a realm -/

section Drain

variable {messageKeyFor : Text → Key} {k k' : Key} {n : ℕ}

/-- The strings after some messages have been deleted.
Kind: L -/
theorem get_foldl_del {ids : List Text} (now' : ℤ) :
    (ids.foldl (fun db id => db.del (messageKeyFor id)) db).get now' k =
      if k ∈ ids.map messageKeyFor then none else db.get now' k := by
  rw [← List.foldl_map]
  exact Redis.get_foldl_del

/-- The sorted sets after some messages have been deleted.
Kind: L -/
theorem zset_foldl_del {ids : List Text} (hk : ∀ id, k ≠ messageKeyFor id) :
    (ids.foldl (fun db id => db.del (messageKeyFor id)) db).zset k = db.zset k := by
  have hnot : k ∉ ids.map messageKeyFor := by
    rintro hmem
    obtain ⟨id, -, rfl⟩ := List.mem_map.mp hmem
    exact hk id rfl
  rw [← List.foldl_map, Redis.zset_foldl_del, if_neg hnot]

theorem zset_drainIndex (hk : ∀ id, k ≠ messageKeyFor id) :
    (drainIndex messageKeyFor (db, n) k').1.zset k =
      if k = k' then SortedSet.empty else db.zset k := by
  rw [drainIndex]
  dsimp only
  split_ifs with h
  · rw [h, Redis.zset_del_self]
  · rw [Redis.zset_del_of_ne h, zset_foldl_del hk]

/-- The messages after one queue has been drained.
Kind: L -/
theorem get_drainIndex (db : RedisStore π) (n : ℕ) (r ev c : Text) (now' : ℤ) (id : Text) :
    (drainIndex .message (db, n) (.index r ev c)).1.get now' (.message id) =
      if id ∈ db.zrange (.index r ev c) then none else db.get now' (.message id) := by
  rw [drainIndex]
  dsimp only
  rw [Redis.get_del_of_ne (by simp), get_foldl_del]
  simp

/-- The messages and the queues after some queues have been drained.
Kind: P -/
theorem drain_all (db : RedisStore π) (n : ℕ) {keys : List Key}
    (hkeys : ∀ k ∈ keys, ∃ r ev c, k = .index r ev c) :
    (∀ now' id, (keys.foldl (drainIndex .message) (db, n)).1.get now' (.message id) =
      if ∃ k ∈ keys, id ∈ db.zrange k then none else db.get now' (.message id)) ∧
    ∀ r ev c, (keys.foldl (drainIndex .message) (db, n)).1.zset (.index r ev c) =
      if .index r ev c ∈ keys then SortedSet.empty else db.zset (.index r ev c) := by
  induction keys generalizing db n with
  | nil => exact ⟨fun _ _ => by simp, fun _ _ _ => by simp⟩
  | cons k keys ih =>
      have hkeys' : ∀ k ∈ keys, ∃ r ev c, k = .index r ev c := fun k hk =>
        hkeys k (List.mem_cons_of_mem _ hk)
      obtain ⟨r₀, ev₀, c₀, hk⟩ := hkeys k List.mem_cons_self
      have hzset : ∀ r ev c, (drainIndex .message (db, n) k).1.zset (.index r ev c) =
          if .index r ev c = k then SortedSet.empty else db.zset (.index r ev c) :=
        fun r ev c => zset_drainIndex (by simp)
      have hget : ∀ now' id, (drainIndex .message (db, n) k).1.get now' (.message id) =
          if id ∈ db.zrange k then none else db.get now' (.message id) := by
        rw [hk]
        exact get_drainIndex db n r₀ ev₀ c₀
      rw [List.foldl_cons]
      generalize drainIndex .message (db, n) k = s at hzset hget
      obtain ⟨db₁, n₁⟩ := s
      obtain ⟨ihget, ihzset⟩ := ih db₁ n₁ hkeys'
      have hrange : ∀ k' ∈ keys, ∀ id, id ∈ db₁.zrange k' ↔ k' ≠ k ∧ id ∈ db.zrange k' := by
        intro k' hk' id
        obtain ⟨r, ev, c, rfl⟩ := hkeys' k' hk'
        rw [Redis.zrange, hzset]
        split_ifs with heq
        · simp [heq, SortedSet.range, SortedSet.empty]
        · simp [heq, Redis.zrange]
      refine ⟨?_, ?_⟩
      · intro now' id
        rw [ihget, hget]
        by_cases hin : id ∈ db.zrange k
        · rw [if_pos hin, ite_self, if_pos ⟨k, List.mem_cons_self, hin⟩]
        · have hiff : (∃ k' ∈ keys, id ∈ db₁.zrange k') ↔ ∃ k' ∈ k :: keys, id ∈ db.zrange k' := by
            constructor
            · rintro ⟨k', hk', hid⟩
              exact ⟨k', List.mem_cons_of_mem _ hk', ((hrange k' hk' id).mp hid).2⟩
            · rintro ⟨k', hk', hid⟩
              have hne : k' ≠ k := fun heq => hin (heq ▸ hid)
              have hk'' := (List.mem_cons.mp hk').resolve_left hne
              exact ⟨k', hk'', (hrange k' hk'' id).mpr ⟨hne, hid⟩⟩
          rw [if_neg hin]
          simp only [hiff]
      · intro r ev c
        rw [ihzset, hzset]
        by_cases heq : Key.index r ev c = k
        · rw [if_pos heq, ite_self, if_pos (heq ▸ List.mem_cons_self)]
        · simp only [List.mem_cons, heq, false_or, if_false]

end Drain

/-- The scan finds the queues of the realm that have an id, and nothing but queues of the realm.
Kind: L -/
theorem mem_scan_isIndexOf (db : RedisStore π) (realm : Text) :
    (∀ k ∈ db.scan (isIndexOf realm), ∃ ev c, k = .index realm ev c) ∧
      ∀ ev c, ∀ id ∈ db.zrange (.index realm ev c), .index realm ev c ∈ db.scan (isIndexOf realm) := by
  constructor
  · intro k hk
    have hindex := (List.mem_filter.mp hk).2
    cases k with
    | index r ev c => exact ⟨ev, c, by rw [of_decide_eq_true hindex]⟩
    | message | dlqMessage | dlqIndex => exact absurd hindex Bool.false_ne_true
  · intro ev c id hid
    obtain ⟨score, hmem⟩ := SortedSet.mem_range.mp hid
    exact Redis.mem_scan hmem (decide_eq_true rfl)

/-- The messages after a purge.
Kind: L -/
theorem get_purgeRealm (db : RedisStore π) (realm : Text) (now' : ℤ) (id : Text) :
    (purgeRealm db realm).1.get now' (.message id) =
      if ∃ k ∈ db.scan (isIndexOf realm), id ∈ db.zrange k then none
      else db.get now' (.message id) := by
  obtain ⟨hget, -⟩ := drain_all db 0 fun k hk => ⟨realm, (mem_scan_isIndexOf db realm).1 k hk⟩
  rw [RedisStore.purgeRealm]
  generalize (db.scan (isIndexOf realm)).foldl (drainIndex .message) (db, 0) = s at hget
  -- draining the dead letters does not touch the messages
  rw [drainIndex, Redis.get_del_of_ne (by simp), get_foldl_del, if_neg (by simp), hget]

/-- The queues after a purge.
Kind: L -/
theorem zset_purgeRealm (db : RedisStore π) (realm r ev c : Text) :
    (purgeRealm db realm).1.zset (.index r ev c) =
      if .index r ev c ∈ db.scan (isIndexOf realm) then SortedSet.empty
      else db.zset (.index r ev c) := by
  obtain ⟨-, hzset⟩ := drain_all db 0 fun k hk => ⟨realm, (mem_scan_isIndexOf db realm).1 k hk⟩
  rw [RedisStore.purgeRealm]
  generalize (db.scan (isIndexOf realm)).foldl (drainIndex .message) (db, 0) = s at hzset
  rw [zset_drainIndex (by simp), if_neg (by simp), hzset]

/-- A purge takes the survivors of its realm away.
Kind: P -/
theorem Tracks.purgeRealm (h : Tracks L seen t db) (hle : t ≤ now) (realm : Text) :
    Tracks (L.filter fun e => e.realm ≠ realm) seen now (purgeRealm db realm).1 := by
  obtain ⟨hindex, hfound⟩ := mem_scan_isIndexOf db realm
  refine h.shrink hle List.filter_sublist ?_ ?_ ?_ ?_ ?_
  · intro now' _ id raw hraw
    rw [get_purgeRealm] at hraw
    split_ifs at hraw
    exact hraw
  · intro id raw hraw
    rw [get_purgeRealm] at hraw
    split_ifs at hraw with hex
    obtain ⟨hmem, -, hqueue⟩ := h.live now hle id raw hraw
    refine List.mem_filter.mpr ⟨hmem, decide_eq_true fun hr => hex ?_⟩
    rw [indexOf, hr] at hqueue
    have hid := SortedSet.mem_range.mpr ⟨_, hqueue⟩
    exact ⟨_, hfound _ _ _ hid, hid⟩
  · intro now' hle' e he halive
    obtain ⟨hmem, hne⟩ := List.mem_filter.mp he
    rw [get_purgeRealm, if_neg]
    rintro ⟨k, hk, hid⟩
    obtain ⟨ev, c, rfl⟩ := hindex k hk
    obtain ⟨score, hscore⟩ := SortedSet.mem_range.mp hid
    have hqueue := ((h.index _ _ _ _ hscore).2 e hmem rfl).1
    exact of_decide_eq_true hne (Key.index.inj hqueue).1
  · intro r ev c m hm
    rw [zset_purgeRealm] at hm
    split_ifs at hm
    · exact absurd hm (SortedSet.mem_empty m)
    · exact hm
  · intro r ev c m hm hraw
    rw [get_purgeRealm] at hraw
    rw [zset_purgeRealm, if_neg]
    · exact hm
    · intro hk
      exact hraw (if_pos ⟨_, hk, SortedSet.mem_range.mpr ⟨m.1, hm⟩⟩)

/-! ### Runs -/

/-- Every call keeps the keyspace as it should be.
Kind: P -/
theorem tracks_step (db : RedisStore π) (c : Call π) (h : Tracks L seen t db) (hle : t ≤ c.now)
    (hpos : 0 < c.now) (hnew : ∀ id ∈ c.newIds, id ∉ seen) :
    Tracks (record defaultTtl L c) (seen ++ c.newIds) c.now ((store defaultTtl).step db c) := by
  obtain ⟨now, op⟩ := c
  cases op with
  | enqueue realm event message generated =>
      exact h.enqueue hle hpos defaultTtl realm event (hnew _ (List.mem_singleton_self _))
  | dequeue realm event consumer =>
      rw [Call.newIds, List.append_nil]
      exact h.dequeue hle realm event consumer
  | ack msgId =>
      rw [Call.newIds, List.append_nil]
      refine h.ack hle List.filter_sublist
        (fun e he hne => List.mem_filter.mpr ⟨he, decide_eq_true hne⟩) fun e he hid => ?_
      exact absurd hid (of_decide_eq_true (List.mem_filter.mp he).2)
  | deadLetter msgId reason =>
      rw [Call.newIds, List.append_nil]
      exact h.deadLetter hle msgId reason
  | listDlq realm =>
      rw [Call.newIds, List.append_nil]
      exact h.listDlq hle realm
  | discardDlq msgId realm =>
      rw [Call.newIds, List.append_nil]
      exact h.discardDlq hle msgId realm
  | countQueued =>
      rw [Call.newIds, List.append_nil]
      exact h.mono hle
  | purgeRealm realm =>
      rw [Call.newIds, List.append_nil]
      exact h.purgeRealm hle realm

theorem tracks_run {calls : List (Call π)} (h : Proper calls) :
    Tracks (survivors defaultTtl calls) (ids calls) (clock calls) ((store defaultTtl).run calls) :=
  run_invariant (store defaultTtl) (record defaultTtl) (I := Tracks)
    ⟨Orderly.init, fun _ _ _ _ h => absurd h (by simp [store]), fun _ _ _ h => absurd h
      List.not_mem_nil, fun _ _ _ m h => absurd h (SortedSet.mem_empty m)⟩
    (fun _ _ _ s c => tracks_step s c) h

/-! ### What is returned -/

/-- The message that is returned for an id.
Kind: L -/
theorem Tracks.deliver_eq_some_iff (h : Tracks L seen t db) (hle : t ≤ now) {id : Text}
    {e : Entry π} : deliver now (db.get now (.message id)) = some e ↔
      e ∈ L ∧ e.id = id ∧ e.alive now = true := by
  constructor
  · intro hdeliver
    obtain ⟨hraw, hexp⟩ := Option.filter_eq_some_iff.mp hdeliver
    obtain ⟨raw, hget, rfl⟩ := Option.map_eq_some_iff.mp hraw
    obtain ⟨hmem, hid, -⟩ := h.live now hle id raw hget
    rw [h.isExpired_eq hmem, Bool.not_not] at hexp
    exact ⟨hmem, hid, hexp⟩
  · rintro ⟨hmem, rfl, halive⟩
    rw [h.alive now hle e hmem halive]
    refine Option.filter_eq_some_iff.mpr ⟨rfl, ?_⟩
    rw [h.isExpired_eq hmem, halive]
    rfl

/-- The messages that are returned are the survivors in the queue that have not expired.
Kind: P -/
theorem Tracks.mem_dequeue (h : Tracks L seen t db) (hle : t ≤ now) {realm event consumer : Text}
    {e : Entry π} : e ∈ (RedisStore.dequeue db now realm event consumer).2 ↔
      e ∈ L ∧ e.isIn (realmOr realm) event consumer = true ∧ e.alive now = true := by
  have hindexOf : indexOf e = .index (realmOr realm) event consumer ↔
      e.isIn (realmOr realm) event consumer = true := by
    rw [Entry.isIn_iff, indexOf, Key.index.injEq]
  rw [RedisStore.dequeue]
  simp only [List.mem_filterMap, List.mem_map, exists_exists_and_eq_and]
  rw [← hindexOf]
  constructor
  · rintro ⟨id, hid, hdeliver⟩
    obtain ⟨hmem, rfl, halive⟩ := (h.deliver_eq_some_iff hle).mp hdeliver
    obtain ⟨score, hscore⟩ := SortedSet.mem_range.mp hid
    exact ⟨hmem, ((h.index _ _ _ _ hscore).2 e hmem rfl).1, halive⟩
  · rintro ⟨hmem, hindex, halive⟩
    refine ⟨e.id, ?_, (h.deliver_eq_some_iff hle).mpr ⟨hmem, rfl, halive⟩⟩
    obtain ⟨-, -, hin⟩ := h.live now hle _ _ (h.alive now hle e hmem halive)
    rw [hindex] at hin
    exact SortedSet.mem_range.mpr ⟨_, hin⟩

/-- The order in which Redis has messages: by time, then by id.
Kind: D -/
def Precedes (e e' : Entry π) : Prop :=
  e.created_at < e'.created_at ∨ e.created_at = e'.created_at ∧ e.id < e'.id

instance (e e' : Entry π) : Decidable (Precedes e e') := inferInstanceAs (Decidable (_ ∨ _))

instance : Std.Irrefl (Precedes : Entry π → Entry π → Prop) where
  irrefl e h := by
    rcases h with h | ⟨-, h⟩
    · exact lt_irrefl _ h
    · exact lt_irrefl _ h

instance : Std.Antisymm (Precedes : Entry π → Entry π → Prop) where
  antisymm e e' h h' := by
    rcases h with h | ⟨heq, h⟩ <;> rcases h' with h' | ⟨heq', h'⟩
    · omega
    · omega
    · omega
    · exact absurd (h.trans h') (lt_irrefl _)

/-- The messages that are returned are in the order in which Redis has them.
Kind: P -/
theorem Tracks.sorted_dequeue (h : Tracks L seen t db) (hle : t ≤ now)
    (realm event consumer : Text) :
    (RedisStore.dequeue db now realm event consumer).2.Pairwise Precedes := by
  rw [RedisStore.dequeue]
  generalize hk : Key.index (realmOr realm) event consumer = k
  have hstrict : (db.zset k).entries.Pairwise fun m m' => Before m m' ∧ m.2 ≠ m'.2 :=
    List.pairwise_and_iff.mpr ⟨(db.zset k).sorted, List.pairwise_map.mp (db.zset k).nodup⟩
  rw [List.filterMap_map, Redis.zrange, SortedSet.range, List.filterMap_map,
    List.pairwise_filterMap]
  refine hstrict.imp_of_mem fun {m m'} hm hm' hbefore e he e' he' => ?_
  obtain ⟨hmem, hid, -⟩ := (h.deliver_eq_some_iff hle).mp he
  obtain ⟨hmem', hid', -⟩ := (h.deliver_eq_some_iff hle).mp he'
  rw [← hk] at hm hm'
  have hscore := ((h.index _ _ _ _ hm).2 e hmem hid).2
  have hscore' := ((h.index _ _ _ _ hm').2 e' hmem' hid').2
  rw [Precedes, hscore, hscore', hid, hid']
  exact hbefore.1.imp_right fun hties => ⟨hties.1, lt_of_le_of_ne hties.2 hbefore.2⟩

end RedisStore

end TyoMq.Storage
