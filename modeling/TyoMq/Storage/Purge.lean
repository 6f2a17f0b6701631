import TyoMq.Storage.Keys
import TyoMq.Storage.RedisOrder
import TyoMq.Storage.Memory
import TyoMq.Storage.Sqlite
import TyoMq.Storage.DeadLetters

/-!
# Durable messages: purging a realm

What `purgeRealm` of the three stores leaves (`PurgesExactly`).

* The in-process store and SQLite purge exactly the realm, in every state.
* Redis is asked for the keys of the queues, in whatever order and however often it names them, and for all
  their ids before anything is deleted (`purgeScanned`). It purges the whole realm, and nothing else exactly
  when no message is in a queue of the realm and in one of another realm, and no dead letter is listed by
  both (`purgesExactly_iff`).
-/

namespace TyoMq.Storage

open TyoMq.Lib

variable {π σ : Type*}

/-! ### What a purge should do -/

/-- After the purge, the realm has nothing, and every other realm has what it had.
Kind: D -/
structure PurgesExactly (S : Store π σ) (T : ℤ) (realm : Text) (s s' : σ) : Prop where
  /-- The realm's queues are empty. -/
  dequeue_nil : ∀ now ≥ T, ∀ event consumer, (S.dequeue s' now realm event consumer).2 = some []
  /-- Where a store can count them, it counts none. -/
  count_zero : ∀ now ≥ T, ∀ event consumer n,
    (S.countQueued s' now realm event consumer).2 = some n → n = 0
  /-- The realm has no dead letters. -/
  listDlq_nil : ∀ now ≥ T, (S.listDlq s' now (some realm)).2 = some []
  /-- The queues of other realms are as before. -/
  dequeue_eq : ∀ now ≥ T, ∀ other, realmOr other ≠ realm → ∀ event consumer,
    (S.dequeue s' now other event consumer).2 = (S.dequeue s now other event consumer).2
  /-- So is what is counted. -/
  count_eq : ∀ now ≥ T, ∀ other, realmOr other ≠ realm → ∀ event consumer,
    (S.countQueued s' now other event consumer).2 = (S.countQueued s now other event consumer).2
  /-- So are the dead letters. -/
  listDlq_eq : ∀ now ≥ T, ∀ other, other ≠ [] → other ≠ realm →
    (S.listDlq s' now (some other)).2 = (S.listDlq s now (some other)).2

section Filter

variable {α : Type*} {outside asked : α → Bool} {l : List α}

/-- Nothing is left of what is asked for when all of it lies inside.
Kind: L -/
theorem filter_outside_eq_nil (h : ∀ a, asked a = true → outside a = false) :
    (l.filter outside).filter asked = [] := by
  rw [List.filter_filter, List.filter_eq_nil_iff]
  intro a _ hboth
  obtain ⟨hasked, hout⟩ := Bool.and_eq_true_iff.mp hboth
  exact Bool.false_ne_true ((h a hasked).symm.trans hout)

/-- All is left when all of it lies outside.
Kind: L -/
theorem filter_outside_eq (h : ∀ a, asked a = true → outside a = true) :
    (l.filter outside).filter asked = l.filter asked := by
  rw [List.filter_filter]
  apply List.filter_congr
  intro a _
  rcases hasked : asked a with _ | _
  · rfl
  · rw [h a hasked]
    rfl

end Filter

/-! ### The in-process store and SQLite -/

namespace MemoryStore

variable (s : MemoryStore π) {realm other : Text} {asked : Entry π → Bool}

/-- The queued messages, without those that have expired, after a purge.
Kind: L -/
theorem filter_purgeRealm (now : ℤ) (asked : Entry π → Bool) :
    (((s.purgeRealm realm).1.purgeExpired now).messages).filter asked =
      (((s.purgeExpired now).messages).filter fun e => e.realm ≠ realm).filter asked := by
  rw [purgeExpired, purgeExpired, purgeRealm]
  exact congrArg (List.filter asked) (List.filter_comm ..)

/-- **The in-process store purges exactly the realm.**
Kind: P -/
theorem purgesExactly (defaultTtl : Ttl) (T : ℤ) (hrealm : realm ≠ []) :
    PurgesExactly (store defaultTtl) T realm s (s.purgeRealm realm).1 where
  dequeue_nil now _ event consumer := by
    refine congrArg some ((filter_purgeRealm s now _).trans (filter_outside_eq_nil fun e he => ?_))
    rw [realmOr_of_ne_nil hrealm] at he
    simpa using (of_decide_eq_true he).1
  count_zero now _ event consumer n h := by
    obtain rfl := Option.some.inj h
    rw [List.length_eq_zero_iff]
    refine (filter_purgeRealm s now _).trans (filter_outside_eq_nil fun e he => ?_)
    rw [realmOr_of_ne_nil hrealm] at he
    simpa using (of_decide_eq_true he).1
  listDlq_nil now _ := by
    refine congrArg some (filter_outside_eq_nil fun d hd => ?_)
    simpa [hrealm] using hd
  dequeue_eq now _ other hother event consumer := by
    refine congrArg some ((filter_purgeRealm s now _).trans (filter_outside_eq fun e he => ?_))
    rw [decide_eq_true_eq, (of_decide_eq_true he).1]
    exact hother
  count_eq now _ other hother event consumer := by
    refine congrArg (fun l => some (List.length l))
      ((filter_purgeRealm s now _).trans (filter_outside_eq fun e he => ?_))
    rw [decide_eq_true_eq, (of_decide_eq_true he).1]
    exact hother
  listDlq_eq now _ other hne hother := by
    refine congrArg some (filter_outside_eq fun d hd => ?_)
    rw [decide_eq_true_eq, (of_decide_eq_true hd).resolve_left hne]
    exact hother

end MemoryStore

namespace SQLiteStore

variable (s : SQLiteStore π) {realm other : Text}

/-- The same for the table of messages.
Kind: L -/
theorem filter_purgeRealm (now : ℤ) (asked : Entry π → Bool) :
    ((s.purgeRealm realm).1.purgeExpired now).messages.scan.filter asked =
      ((s.purgeExpired now).messages.scan.filter fun row => !decide (row.realm = realm)).filter asked := by
  rw [purgeExpired, purgeExpired, purgeRealm]
  simp only [RowTable.scan_deleteWhere]
  exact congrArg (List.filter asked) (List.filter_comm ..)

/-- **SQLite purges exactly the realm.**
Kind: P -/
theorem purgesExactly (defaultTtl : Ttl) (T : ℤ) (hrealm : realm ≠ []) :
    PurgesExactly (store defaultTtl) T realm s (s.purgeRealm realm).1 where
  dequeue_nil now _ event consumer := by
    refine congrArg (Sqlite.readAll Entry.read)
      ((filter_purgeRealm s now _).trans (filter_outside_eq_nil fun e he => ?_))
    rw [realmOr_of_ne_nil hrealm] at he
    simpa using (of_decide_eq_true he).1
  count_zero now _ event consumer n h := by
    obtain rfl := Option.some.inj h
    rw [List.length_eq_zero_iff]
    refine (filter_purgeRealm s now _).trans (filter_outside_eq_nil fun e he => ?_)
    rw [realmOr_of_ne_nil hrealm] at he
    simpa using (of_decide_eq_true he).1
  listDlq_nil now _ := by
    show Sqlite.readAll _ (((s.purgeRealm realm).1.dlq.scan).filter _) = some []
    rw [purgeRealm, RowTable.scan_deleteWhere]
    refine congrArg (Sqlite.readAll DeadLetter.read) (filter_outside_eq_nil fun d hd => ?_)
    simpa using hd
  dequeue_eq now _ other hother event consumer := by
    refine congrArg (Sqlite.readAll Entry.read)
      ((filter_purgeRealm s now _).trans (filter_outside_eq fun e he => ?_))
    rw [(of_decide_eq_true he).1]
    simpa using hother
  count_eq now _ other hother event consumer := by
    refine congrArg (fun l => some (List.length l))
      ((filter_purgeRealm s now _).trans (filter_outside_eq fun e he => ?_))
    rw [(of_decide_eq_true he).1]
    simpa using hother
  listDlq_eq now _ other hne hother := by
    show Sqlite.readAll _ (((s.purgeRealm realm).1.dlq.scan).filter _) =
      Sqlite.readAll _ ((s.dlq.scan).filter _)
    rw [purgeRealm, RowTable.scan_deleteWhere]
    refine congrArg (Sqlite.readAll DeadLetter.read) (filter_outside_eq fun d hd => ?_)
    have hd : d.entry.realm = other := by simpa using hd
    simpa [hd] using hother

end SQLiteStore

/-! ### Redis -/

namespace RedisStore

variable {db db' : RedisStore π} {realm : Text}

/-- The keys that are deleted: the queues that were found, and the messages in them.
Source: `lib/storage/redis.js`, `RedisStore.prototype.purgeRealm`
Kind: D -/
def drained (db : RedisStore π) (scanned : List Key) : List Key :=
  scanned.flatMap fun indexKey => (db.zrange indexKey).map .message ++ [indexKey]

/-- What is deleted: the messages in what was found, and what was found.
Kind: L -/
theorem mem_drained {scanned : List Key} {k : Key} : k ∈ drained db scanned ↔
    (∃ k' ∈ scanned, ∃ id ∈ db.zrange k', .message id = k) ∨ k ∈ scanned := by
  simp only [drained, List.mem_flatMap, List.mem_append, List.mem_map, List.mem_singleton]
  constructor
  · rintro ⟨k', hk', ⟨id, hid, hk⟩ | rfl⟩
    · exact Or.inl ⟨k', hk', id, hid, hk⟩
    · exact Or.inr hk'
  · rintro (⟨k', hk', id, hid, hk⟩ | hk)
    · exact ⟨k', hk', Or.inl ⟨id, hid, hk⟩⟩
    · exact ⟨k, hk, Or.inr rfl⟩

/-- A purge, given the keys that the scan has found, and the order in which the keys are deleted. The ids
of all queues are asked for before the first answer is acted on, so those of a key that is found twice are
counted twice.
Source: `lib/storage/redis.js`, `RedisStore.prototype.purgeRealm`
Kind: D -/
def purgeScanned (db : RedisStore π) (realm : Text) (scanned deletions : List Key) :
    RedisStore π × ℕ :=
  drainIndex .dlqMessage
    (deletions.foldl Redis.del db, (scanned.map fun indexKey => (db.zrange indexKey).length).sum)
    (.dlqIndex realm)

/-- What is there after a purge.
Kind: D -/
structure Purged (realm : Text) (db db' : RedisStore π) : Prop where
  /-- The messages in the realm's queues are gone. -/
  message_gone : ∀ now id ev c, id ∈ db.zrange (.index realm ev c) → db'.get now (.message id) = none
  /-- No others are. -/
  message_kept : ∀ now id, (∀ ev c, id ∉ db.zrange (.index realm ev c)) →
    db'.get now (.message id) = db.get now (.message id)
  /-- The realm's queues are gone. -/
  queue_gone : ∀ ev c, db'.zrange (.index realm ev c) = []
  /-- No others are. -/
  queue_kept : ∀ r ev c, r ≠ realm → db'.zrange (.index r ev c) = db.zrange (.index r ev c)
  /-- The realm's dead letters are gone. -/
  letter_gone : ∀ now, ∀ id ∈ db.zrange (.dlqIndex realm), db'.get now (.dlqMessage id) = none
  /-- No others are. -/
  letter_kept : ∀ now id, id ∉ db.zrange (.dlqIndex realm) →
    db'.get now (.dlqMessage id) = db.get now (.dlqMessage id)
  /-- The realm lists none. -/
  letters_gone : db'.zrange (.dlqIndex realm) = []
  /-- Other realms list what they listed. -/
  letters_kept : ∀ r, r ≠ realm → db'.zrange (.dlqIndex r) = db.zrange (.dlqIndex r)

/-- What is there once the queues have been drained.
Kind: D -/
structure Drained (realm : Text) (db db' : RedisStore π) : Prop where
  /-- The messages in the realm's queues are gone. -/
  message_gone : ∀ now id ev c, id ∈ db.zrange (.index realm ev c) → db'.get now (.message id) = none
  /-- No others are. -/
  message_kept : ∀ now id, (∀ ev c, id ∉ db.zrange (.index realm ev c)) →
    db'.get now (.message id) = db.get now (.message id)
  /-- The realm's queues are gone. -/
  queue_gone : ∀ ev c, db'.zrange (.index realm ev c) = []
  /-- No others are. -/
  queue_kept : ∀ r ev c, r ≠ realm → db'.zrange (.index r ev c) = db.zrange (.index r ev c)
  /-- Nothing has happened to dead letters. -/
  letters : ∀ k : Key, k.isDlq = true → Redis.SameAt db db' k

/-- Then the dead letters are drained.
Kind: L -/
theorem Drained.purged (h : Drained realm db db') (n : ℕ) :
    Purged realm db (drainIndex .dlqMessage (db', n) (.dlqIndex realm)).1 := by
  have hids : db'.zrange (.dlqIndex realm) = db.zrange (.dlqIndex realm) := by
    rw [Redis.zrange, (h.letters _ rfl).zset, ← Redis.zrange]
  have hget : ∀ now (k : Key), k ≠ .dlqIndex realm →
      (drainIndex .dlqMessage (db', n) (.dlqIndex realm)).1.get now k =
        if k ∈ (db.zrange (.dlqIndex realm)).map Key.dlqMessage then none else db'.get now k := by
    intro now k hk
    rw [drainIndex]
    dsimp only
    rw [Redis.get_del_of_ne hk, get_foldl_del, hids]
  have hzrange : ∀ k : Key, (∀ id, k ≠ .dlqMessage id) →
      (drainIndex .dlqMessage (db', n) (.dlqIndex realm)).1.zrange k =
        if k = .dlqIndex realm then [] else db'.zrange k := by
    intro k hk
    rw [Redis.zrange, zset_drainIndex hk]
    split_ifs
    · rfl
    · rfl
  constructor
  · intro now id ev c hid
    rw [hget _ _ (by simp), if_neg (by simp)]
    exact h.message_gone now id ev c hid
  · intro now id hid
    rw [hget _ _ (by simp), if_neg (by simp)]
    exact h.message_kept now id hid
  · intro ev c
    rw [hzrange _ (by simp), if_neg (by simp)]
    exact h.queue_gone ev c
  · intro r ev c hr
    rw [hzrange _ (by simp), if_neg (by simp)]
    exact h.queue_kept r ev c hr
  · intro now id hid
    rw [hget _ _ (by simp), if_pos (List.mem_map_of_mem hid)]
  · intro now id hid
    rw [hget _ _ (by simp), if_neg (by simpa using hid)]
    exact (h.letters _ rfl).get now
  · rw [hzrange _ (by simp), if_pos rfl]
  · intro r hr
    rw [hzrange _ (by simp), if_neg (by simpa using hr), Redis.zrange, (h.letters _ rfl).zset,
      ← Redis.zrange]

/-- A purge in which one queue after the other is drained.
Kind: P -/
theorem purged_purgeRealm (db : RedisStore π) (realm : Text) :
    Purged realm db (purgeRealm db realm).1 := by
  obtain ⟨hindex, hfound⟩ := mem_scan_isIndexOf db realm
  have hkeys : ∀ k ∈ db.scan (isIndexOf realm), ∃ r ev c, k = .index r ev c := fun k hk =>
    ⟨realm, hindex k hk⟩
  obtain ⟨hget, hzset⟩ := drain_all db 0 hkeys
  have hdrained : Drained realm db
      ((db.scan (isIndexOf realm)).foldl (drainIndex .message) (db, 0)).1 := by
    constructor
    · intro now id ev c hid
      rw [hget, if_pos ⟨_, hfound ev c id hid, hid⟩]
    · intro now id hid
      rw [hget, if_neg]
      rintro ⟨k, hk, hin⟩
      obtain ⟨ev, c, rfl⟩ := hindex k hk
      exact hid ev c hin
    · intro ev c
      rw [Redis.zrange, hzset]
      split_ifs with hk
      · rfl
      · by_contra hne
        obtain ⟨id, hid⟩ := List.exists_mem_of_ne_nil _ hne
        exact hk (hfound ev c id hid)
    · intro r ev c hr
      rw [Redis.zrange, hzset, if_neg, ← Redis.zrange]
      intro hk
      obtain ⟨ev', c', heq⟩ := hindex _ hk
      exact hr (Key.index.inj heq).1
    · intro k hk
      exact sameAt_drain db 0 realm _ (fun k' hk' => (List.mem_filter.mp hk').2) hk
  exact hdrained.purged _

section Scanned

variable {scanned deletions : List Key}

/-- The messages that are deleted with what has been found are those of the queues of the realm.
Kind: L -/
theorem message_mem_drained (hscanned : ∀ k, k ∈ scanned ↔ k ∈ db.scan (isIndexOf realm)) {id : Text} :
    .message id ∈ drained db scanned ↔ ∃ ev c, id ∈ db.zrange (.index realm ev c) := by
  obtain ⟨hindex, hfound⟩ := mem_scan_isIndexOf db realm
  rw [mem_drained]
  constructor
  · rintro (⟨k, hk, id', hid, heq⟩ | hk)
    · obtain ⟨ev, c, rfl⟩ := hindex k ((hscanned k).mp hk)
      exact ⟨ev, c, Key.message.inj heq ▸ hid⟩
    · obtain ⟨ev, c, heq⟩ := hindex _ ((hscanned _).mp hk)
      exact absurd heq (by simp)
  · rintro ⟨ev, c, hid⟩
    exact Or.inl ⟨_, (hscanned _).mpr (hfound ev c id hid), id, hid, rfl⟩

/-- No other key is deleted than messages and queues of the realm.
Kind: L -/
theorem of_mem_drained (hscanned : ∀ k, k ∈ scanned ↔ k ∈ db.scan (isIndexOf realm)) {k : Key}
    (h : k ∈ drained db scanned) : (∃ id, k = .message id) ∨ ∃ ev c, k = .index realm ev c := by
  rcases mem_drained.mp h with ⟨_, -, id, -, rfl⟩ | hk
  · exact Or.inl ⟨id, rfl⟩
  · exact Or.inr ((mem_scan_isIndexOf db realm).1 k ((hscanned k).mp hk))

/-- A purge that deletes in any order what has been found in any order.
Kind: P -/
theorem purged_purgeScanned (hscanned : ∀ k, k ∈ scanned ↔ k ∈ db.scan (isIndexOf realm))
    (hdeletions : deletions.Perm (drained db scanned)) :
    Purged realm db (purgeScanned db realm scanned deletions).1 := by
  have hmessage : ∀ id, .message id ∈ deletions ↔ ∃ ev c, id ∈ db.zrange (.index realm ev c) :=
    fun id => hdeletions.mem_iff.trans (message_mem_drained hscanned)
  have hother : ∀ k ∈ deletions, (∃ id, k = .message id) ∨ ∃ ev c, k = .index realm ev c :=
    fun k hk => of_mem_drained hscanned (hdeletions.mem_iff.mp hk)
  have hdlq : ∀ k : Key, k.isDlq = true → k ∉ deletions := by
    intro k hk hmem
    rcases hother k hmem with ⟨id, rfl⟩ | ⟨ev, c, rfl⟩
    · exact absurd hk (by simp [Key.isDlq])
    · exact absurd hk (by simp [Key.isDlq])
  have hdrained : Drained realm db (deletions.foldl Redis.del db) := by
    constructor
    · intro now id ev c hid
      rw [Redis.get_foldl_del, if_pos ((hmessage id).mpr ⟨ev, c, hid⟩)]
    · intro now id hid
      rw [Redis.get_foldl_del, if_neg fun hmem => ?_]
      obtain ⟨ev, c, hin⟩ := (hmessage id).mp hmem
      exact hid ev c hin
    · intro ev c
      rw [Redis.zrange, Redis.zset_foldl_del]
      split_ifs with hk
      · rfl
      · by_contra hne
        obtain ⟨id, hid⟩ := List.exists_mem_of_ne_nil _ hne
        have hscan := (mem_scan_isIndexOf db realm).2 ev c id hid
        exact hk (hdeletions.mem_iff.mpr (mem_drained.mpr (Or.inr ((hscanned _).mpr hscan))))
    · intro r ev c hr
      have hnot : .index r ev c ∉ deletions := by
        intro hmem
        rcases hother _ hmem with ⟨id, heq⟩ | ⟨ev', c', heq⟩
        · exact absurd heq (by simp)
        · exact hr (Key.index.inj heq).1
      rw [Redis.zrange, Redis.zset_foldl_del, if_neg hnot, ← Redis.zrange]
    · intro k hk
      refine ⟨fun t => ?_, ?_⟩
      · rw [Redis.get_foldl_del, if_neg (hdlq k hk)]
      · rw [Redis.zset_foldl_del, if_neg (hdlq k hk)]
  exact hdrained.purged _

end Scanned

/-! ### What other realms lose -/

section FilterMap

variable {α β : Type*} {f g : α → Option β} {l : List α}

/-- Where something may only be gone, no more is returned.
Kind: L -/
theorem length_filterMap_le (h : ∀ a ∈ l, g a = none ∨ g a = f a) :
    (l.filterMap g).length ≤ (l.filterMap f).length := by
  induction l with
  | nil => exact Nat.le_refl _
  | cons a l ih =>
      have hle := ih fun a' ha' => h a' (List.mem_cons_of_mem _ ha')
      rcases h a (List.mem_cons_self ..) with hnone | hsame
      · rw [List.filterMap_cons_none hnone]
        exact hle.trans (List.Sublist.length_le ((List.sublist_cons_self a l).filterMap f))
      · simp only [List.filterMap_cons, hsame]
        split
        · exact hle
        · exact Nat.succ_le_succ hle

/-- What is returned for some keys is as before exactly when it is so for each key, where something may
only be gone.
Kind: L -/
theorem filterMap_eq_iff (h : ∀ a ∈ l, g a = none ∨ g a = f a) :
    l.filterMap g = l.filterMap f ↔ ∀ a ∈ l, g a = f a := by
  constructor
  · intro heq
    induction l with
    | nil => exact fun a ha => absurd ha List.not_mem_nil
    | cons a l ih =>
        have hrest : ∀ a' ∈ l, g a' = none ∨ g a' = f a' := fun a' ha' => h a' (List.mem_cons_of_mem _ ha')
        have hhead : g a = f a := by
          rcases h a (List.mem_cons_self ..) with hnone | hsame
          · rcases hf : f a with _ | b
            · exact hnone
            · -- one is gone, so there are fewer
              rw [List.filterMap_cons_none hnone, List.filterMap_cons_some hf] at heq
              have hlength := length_filterMap_le hrest
              rw [heq, List.length_cons] at hlength
              omega
          · exact hsame
        have htail : l.filterMap g = l.filterMap f := by
          simp only [List.filterMap_cons, hhead] at heq
          split at heq
          · exact heq
          · exact (List.cons.inj heq).2
        intro a' ha'
        rcases List.mem_cons.mp ha' with rfl | ha'
        · exact hhead
        · exact ih hrest htail a' ha'
  · exact List.filterMap_congr

end FilterMap

/-- No message that can still be had is in a queue of the realm and in one of another, and no dead letter is
listed by both.
Kind: D -/
structure Apart (T : ℤ) (realm : Text) (db : RedisStore π) : Prop where
  /-- Messages. -/
  message : ∀ id ev c, id ∈ db.zrange (.index realm ev c) →
    ∀ r ev' c', r ≠ realm → r ≠ [] → id ∈ db.zrange (.index r ev' c') →
      deliver T (db.get T (.message id)) = none
  /-- Dead letters. -/
  letter : ∀ id ∈ db.zrange (.dlqIndex realm), ∀ r, r ≠ realm → r ≠ [] →
    id ∈ db.zrange (.dlqIndex r) → ((db.get T (.dlqMessage id)).bind Written.dead) = none

/-- What can be had could be had before.
Kind: L -/
theorem deliver_mono {T now : ℤ} (hle : T ≤ now) {id : Text} {e : Entry π}
    (h : deliver now (db.get now (.message id)) = some e) : deliver T (db.get T (.message id)) = some e := by
  rw [deliver, Option.filter_eq_some_iff, Option.map_eq_some_iff] at h ⊢
  obtain ⟨⟨raw, hraw, hentry⟩, hexpired⟩ := h
  refine ⟨⟨raw, Redis.get_mono hle hraw, hentry⟩, ?_⟩
  rw [Bool.not_eq_true', isExpired] at hexpired ⊢
  rcases hx : e.expires_at with _ | x
  · rfl
  · rw [hx] at hexpired
    have hnot := of_decide_eq_false hexpired
    exact decide_eq_false fun h => hnot ⟨h.1, h.2.trans hle⟩

/-- The answer for a dead letter.
Kind: D -/
def answerFor (raw : Option (Written π)) : Option (DeadLetter π) :=
  raw.bind fun raw => raw.dead.map fun dead => ⟨raw.entry, dead.1, dead.2⟩

theorem answerFor_eq_none {raw : Option (Written π)} :
    answerFor raw = none ↔ raw.bind Written.dead = none := by
  rcases raw with _ | raw <;> simp [answerFor]

theorem answerFor_mono {T now : ℤ} (hle : T ≤ now) {id : Text} {d : DeadLetter π}
    (h : answerFor (db.get now (.dlqMessage id)) = some d) :
    answerFor (db.get T (.dlqMessage id)) = some d := by
  rcases hraw : db.get now (.dlqMessage id) with _ | raw
  · rw [hraw] at h
    exact absurd h (by simp [answerFor])
  · rw [Redis.get_mono hle hraw, ← hraw]
    exact h

theorem dequeue_snd (db : RedisStore π) (now : ℤ) (realm event consumer : Text) :
    (dequeue db now realm event consumer).2 =
      (db.zrange (.index (realmOr realm) event consumer)).filterMap fun id =>
        deliver now (db.get now (.message id)) := by
  rw [dequeue, List.filterMap_map]
  rfl

theorem listDlq_snd (db : RedisStore π) (now : ℤ) (realm : Text) :
    (listDlq db now (some realm)).2 =
      (db.zrange (.dlqIndex realm)).filterMap fun id => answerFor (db.get now (.dlqMessage id)) := by
  rw [listDlq, List.filterMap_map]
  rfl

/-- What is counted is the length of the index.
Kind: L -/
theorem countQueued_congr {other : Text}
    (h : ∀ ev c, db'.zrange (.index (realmOr other) ev c) = db.zrange (.index (realmOr other) ev c))
    (event consumer : Option Text) :
    countQueued db' other event consumer = countQueued db other event consumer := by
  rcases event with _ | event
  · rfl
  rcases consumer with _ | consumer
  · rfl
  rw [countQueued, countQueued, Redis.zcard_eq_length, Redis.zcard_eq_length, h]

namespace Purged

variable (h : Purged realm db db')
include h

/-- What a queue gets for an id is gone or as it was.
Kind: L -/
theorem deliver_eq_or (now : ℤ) (id : Text) : deliver now (db'.get now (.message id)) = none ∨
    deliver now (db'.get now (.message id)) = deliver now (db.get now (.message id)) := by
  by_cases hin : ∃ ev c, id ∈ db.zrange (.index realm ev c)
  · obtain ⟨ev, c, hin⟩ := hin
    rw [h.message_gone now id ev c hin]
    exact Or.inl rfl
  · rw [h.message_kept now id fun ev c hid => hin ⟨ev, c, hid⟩]
    exact Or.inr rfl

/-- So is what a list of dead letters gets for it.
Kind: L -/
theorem answerFor_eq_or (now : ℤ) (id : Text) : answerFor (db'.get now (.dlqMessage id)) = none ∨
    answerFor (db'.get now (.dlqMessage id)) = answerFor (db.get now (.dlqMessage id)) := by
  by_cases hin : id ∈ db.zrange (.dlqIndex realm)
  · rw [h.letter_gone now id hin]
    exact Or.inl rfl
  · rw [h.letter_kept now id hin]
    exact Or.inr rfl

/-- Another realm's queue is as before exactly when each of its messages is.
Kind: L -/
theorem dequeue_eq_iff (now : ℤ) {other : Text} (hother : realmOr other ≠ realm)
    (event consumer : Text) :
    (dequeue db' now other event consumer).2 = (dequeue db now other event consumer).2 ↔
      ∀ id ∈ db.zrange (.index (realmOr other) event consumer),
        deliver now (db'.get now (.message id)) = deliver now (db.get now (.message id)) := by
  rw [dequeue_snd, dequeue_snd, h.queue_kept _ _ _ hother]
  exact filterMap_eq_iff fun id _ => h.deliver_eq_or now id

/-- Another realm's dead letters are as before exactly when each of them is.
Kind: L -/
theorem listDlq_eq_iff (now : ℤ) {other : Text} (hother : other ≠ realm) :
    (listDlq db' now (some other)).2 = (listDlq db now (some other)).2 ↔
      ∀ id ∈ db.zrange (.dlqIndex other),
        answerFor (db'.get now (.dlqMessage id)) = answerFor (db.get now (.dlqMessage id)) := by
  rw [listDlq_snd, listDlq_snd, h.letters_kept _ hother]
  exact filterMap_eq_iff fun id _ => h.answerFor_eq_or now id

/-- A purge that takes nothing from another realm shares nothing with it.
Kind: L -/
theorem apart_of_exact {defaultTtl : Ttl} {T : ℤ}
    (hexact : PurgesExactly (store defaultTtl) T realm db db') : Apart T realm db := by
  refine ⟨fun id ev c hid r ev' c' hr hne hid' => ?_, fun id hid r hr hne hid' => ?_⟩
  · have hother : realmOr r ≠ realm := by rwa [realmOr_of_ne_nil hne]
    have hsame := (h.dequeue_eq_iff T hother ev' c').mp
      (Option.some.inj (hexact.dequeue_eq T (le_refl T) r hother ev' c')) id (by rwa [realmOr_of_ne_nil hne])
    rw [h.message_gone T id ev c hid] at hsame
    exact hsame.symm
  · have hsame := (h.listDlq_eq_iff T hr).mp (Option.some.inj (hexact.listDlq_eq T (le_refl T) r hne hr)) id hid'
    rw [h.letter_gone T id hid] at hsame
    exact answerFor_eq_none.mp hsame.symm

/-- A message of another realm, when nothing is shared.
Kind: L -/
theorem deliver_eq_of_apart {T now : ℤ} (hapart : Apart T realm db) (hle : T ≤ now) {r : Text}
    (hr : r ≠ realm) (hne : r ≠ []) {event consumer id : Text}
    (hid : id ∈ db.zrange (.index r event consumer)) :
    deliver now (db'.get now (.message id)) = deliver now (db.get now (.message id)) := by
  by_cases hin : ∃ ev c, id ∈ db.zrange (.index realm ev c)
  · obtain ⟨ev, c, hin⟩ := hin
    have hnone := hapart.message id ev c hin r event consumer hr hne hid
    rw [h.message_gone now id ev c hin]
    rcases hthere : deliver now (db.get now (.message id)) with _ | e
    · rfl
    · rw [deliver_mono hle hthere] at hnone
      exact absurd hnone (by simp)
  · rw [h.message_kept now id fun ev c hid => hin ⟨ev, c, hid⟩]

/-- A dead letter of another realm, when nothing is shared.
Kind: L -/
theorem answerFor_eq_of_apart {T now : ℤ} (hapart : Apart T realm db) (hle : T ≤ now) {r : Text}
    (hr : r ≠ realm) (hne : r ≠ []) {id : Text} (hid : id ∈ db.zrange (.dlqIndex r)) :
    answerFor (db'.get now (.dlqMessage id)) = answerFor (db.get now (.dlqMessage id)) := by
  by_cases hin : id ∈ db.zrange (.dlqIndex realm)
  · have hnone := answerFor_eq_none.mpr (hapart.letter id hin r hr hne hid)
    rw [h.letter_gone now id hin]
    rcases hthere : answerFor (db.get now (.dlqMessage id)) with _ | d
    · rfl
    · rw [answerFor_mono hle hthere] at hnone
      exact absurd hnone (by simp)
  · rw [h.letter_kept now id hin]

/-- A purge of a realm that shares nothing purges exactly the realm.
Kind: L -/
theorem exact_of_apart (defaultTtl : Ttl) {T : ℤ} (hrealm : realm ≠ []) (hapart : Apart T realm db) :
    PurgesExactly (store defaultTtl) T realm db db' where
  dequeue_nil now _ event consumer := by
    show some (dequeue db' now realm event consumer).2 = some []
    rw [dequeue_snd, realmOr_of_ne_nil hrealm, h.queue_gone]
    rfl
  count_zero now _ event consumer n hn := by
    change countQueued db' realm event consumer = some n at hn
    rcases event with _ | event
    · cases hn
    rcases consumer with _ | consumer
    · cases hn
    rw [countQueued, Redis.zcard_eq_length, realmOr_of_ne_nil hrealm, h.queue_gone] at hn
    exact (Option.some.inj hn).symm
  listDlq_nil now _ := by
    show some (listDlq db' now (some realm)).2 = some []
    rw [listDlq_snd, h.letters_gone]
    rfl
  dequeue_eq now hle other hother event consumer :=
    congrArg some <| (h.dequeue_eq_iff now hother event consumer).mpr fun _ hid =>
      h.deliver_eq_of_apart hapart hle hother (realmOr_ne_nil other) hid
  count_eq now _ other hother event consumer :=
    countQueued_congr (fun ev c => h.queue_kept _ ev c hother) event consumer
  listDlq_eq now hle other hne hother :=
    congrArg some <| (h.listDlq_eq_iff now hother).mpr fun _ hid =>
      h.answerFor_eq_of_apart hapart hle hother hne hid

/-- **Redis purges the whole realm, and nothing else exactly when nothing is shared.**
Kind: P -/
theorem exact_iff (defaultTtl : Ttl) (T : ℤ) (hrealm : realm ≠ []) :
    PurgesExactly (store defaultTtl) T realm db db' ↔ Apart T realm db :=
  ⟨h.apart_of_exact, h.exact_of_apart defaultTtl hrealm⟩

end Purged

end RedisStore

/-- **What a purge leaves.** The in-process store and SQLite purge exactly the realm. So does Redis, in
whatever order the scan finds the queues and however often, exactly when the realm shares no message and no
dead letter with another.
Kind: P -/
theorem purgesExactly_iff (glob : Redis.Glob) {keyPrefix realm : JsString} (hrealm : realm ≠ [])
    (hfits : Fits glob keyPrefix realm) (defaultTtl : Ttl) (T : ℤ) :
    (∀ s : MemoryStore π, PurgesExactly (MemoryStore.store defaultTtl) T (utf8 realm) s
      (s.purgeRealm (utf8 realm)).1) ∧
    (∀ s : SQLiteStore π, PurgesExactly (SQLiteStore.store defaultTtl) T (utf8 realm) s
      (s.purgeRealm (utf8 realm)).1) ∧
    ∀ (db : RedisStore π) (replies : List (Text × List Key)) (scanned deletions : List Key),
      Redis.scanLoop replies [] = some scanned →
      (∀ k, k ∈ scanned ↔ k ∈ db.scan fun k =>
        glob.isMatch (utf8 (queuePattern keyPrefix realm)) (k.bytes (utf8 keyPrefix))) →
      deletions.Perm (RedisStore.drained db scanned) →
      (PurgesExactly (RedisStore.store defaultTtl) T (utf8 realm) db
          (RedisStore.purgeScanned db (utf8 realm) scanned deletions).1 ↔
        RedisStore.Apart T (utf8 realm) db) := by
  have hne : utf8 realm ≠ [] := fun h => hrealm (utf8_eq_nil.mp h)
  refine ⟨fun s => s.purgesExactly defaultTtl T hne, fun s => s.purgesExactly defaultTtl T hne, ?_⟩
  intro db replies scanned deletions _ hscanned hdeletions
  have hmatch : (fun k : Key => glob.isMatch (utf8 (queuePattern keyPrefix realm))
      (k.bytes (utf8 keyPrefix))) = RedisStore.isIndexOf (utf8 realm) := funext hfits
  rw [hmatch] at hscanned
  have hpurged := RedisStore.purged_purgeScanned hscanned hdeletions
  exact hpurged.exact_iff defaultTtl T hne

/-- Compare a pattern that has a star at the end only.
Kind: D -/
def matchTrailingStar (pattern key : List (Fin 256)) : Bool :=
  if pattern.getLast? = some Redis.globStar ∧ ∀ b ∈ pattern.dropLast, b ∉ Redis.globSpecial then
    pattern.dropLast.isPrefixOf key
  else decide (pattern = key)

theorem matchTrailingStar_concat (text key : List (Fin 256)) (h : ∀ b ∈ text, b ∉ Redis.globSpecial) :
    matchTrailingStar (text ++ [Redis.globStar]) key = text.isPrefixOf key := by
  rw [matchTrailingStar, List.getLast?_concat, List.dropLast_concat, if_pos ⟨rfl, h⟩]

/-- A way to compare that knows stars at the end only.
Kind: D -/
def trailingStar : Redis.Glob := ⟨matchTrailingStar, matchTrailingStar_concat⟩

/-- Two realms, of which one is named like the start of the other, and use different ids.
Kind: D -/
def tidy : List (Call ℕ) :=
  [⟨1, .enqueue (ascii "a") (ascii "tick") ⟨ascii "x", ascii "w", [], 1, [], none⟩ []⟩,
    ⟨2, .enqueue (ascii "a*") (ascii "tick") ⟨ascii "y", ascii "w", [], 2, [], none⟩ []⟩]

/-- They use the same id.
Kind: D -/
def shared : List (Call ℕ) :=
  [⟨1, .enqueue (ascii "a") (ascii "tick") ⟨ascii "x", ascii "w", [], 1, [], none⟩ []⟩,
    ⟨2, .enqueue (ascii "a*") (ascii "tick") ⟨ascii "x", ascii "w", [], 2, [], none⟩ []⟩]

/-- The queue of the first realm, found twice.
Kind: D -/
def foundTwice : List (Text × List Key) :=
  [(ascii "7", [.index (ascii "a") (ascii "tick") (ascii "w")]),
    (ascii "0", [.index (ascii "a") (ascii "tick") (ascii "w")])]

/-- What the queues and the dead letters of the two realms list.
Kind: L -/
theorem mem_zrange_tidy {k : Key} (hk : ∀ id, k ≠ .message id) {id : Text}
    (h : id ∈ ((RedisStore.store none).run tidy).zrange k) :
    k = .index (ascii "a*") (ascii "tick") (ascii "w") ∧ id = ascii "y" ∨
      k = .index (ascii "a") (ascii "tick") (ascii "w") ∧ id = ascii "x" := by
  have hwrite : ∀ (db : RedisStore ℕ) (now : ℤ) (e : Entry ℕ),
      (RedisStore.write db now e).zrange k = db.zrange k := fun db now e =>
    congrArg SortedSet.range (RedisStore.sameAt_write db now e (hk e.id)).zset
  rcases Redis.mem_zrange_zadd.mp h with hlast | hbefore
  · exact Or.inl hlast
  · rw [hwrite] at hbefore
    rcases Redis.mem_zrange_zadd.mp hbefore with hfirst | hnone
    · exact Or.inr hfirst
    · rw [hwrite] at hnone
      exact absurd hnone List.not_mem_nil

/-- The two realms share nothing.
Kind: L -/
theorem apart_tidy : RedisStore.Apart 3 (utf8 (js "a")) ((RedisStore.store none).run tidy) := by
  have hname : utf8 (js "a") = ascii "a" := by decide +kernel
  rw [hname]
  constructor
  · intro id ev c hid r ev' c' hr _ hid'
    rcases mem_zrange_tidy (by simp) hid with ⟨hkey, -⟩ | ⟨-, rfl⟩
    · exact absurd (Key.index.inj hkey).1 (by decide)
    · rcases mem_zrange_tidy (by simp) hid' with ⟨-, hother⟩ | ⟨hkey, -⟩
      · exact absurd hother (by decide)
      · exact absurd (Key.index.inj hkey).1 hr
  · intro id hid
    rcases mem_zrange_tidy (by simp) hid with ⟨hkey, -⟩ | ⟨hkey, -⟩
    · exact absurd hkey (by simp)
    · exact absurd hkey (by simp)

/-- Redis purges exactly the realm.
Kind: C -/
theorem purgesExactly_iff_tidy :
    PurgesExactly (RedisStore.store none) 3 (utf8 (js "a")) ((RedisStore.store none).run tidy)
      (RedisStore.purgeScanned ((RedisStore.store none).run tidy) (utf8 (js "a"))
        [.index (ascii "a") (ascii "tick") (ascii "w"), .index (ascii "a") (ascii "tick") (ascii "w")]
        (RedisStore.drained ((RedisStore.store none).run tidy)
          [.index (ascii "a") (ascii "tick") (ascii "w"),
            .index (ascii "a") (ascii "tick") (ascii "w")])).1 := by
  have hfits : Fits trailingStar (js "tyo-mq:queue") (js "a") :=
    fits_of_literal trailingStar (by decide +kernel) (js "a")
  have hscan : ((RedisStore.store none).run tidy).scan (RedisStore.isIndexOf (utf8 (js "a"))) =
      [.index (ascii "a") (ascii "tick") (ascii "w")] := by decide
  refine ((purgesExactly_iff trailingStar (by decide) hfits none 3).2.2 _ foundTwice _ _ (by decide)
    (fun k => ?_) (List.Perm.refl _)).mpr ?_
  swap
  · exact apart_tidy
  rw [show (fun k : Key => trailingStar.isMatch (utf8 (queuePattern (js "tyo-mq:queue") (js "a")))
      (k.bytes (utf8 (js "tyo-mq:queue")))) = RedisStore.isIndexOf (utf8 (js "a")) from funext hfits,
    hscan]
  simp

/-- A purge of the first realm takes the message of the second.
Kind: P -/
theorem not_purgesExactly_shared :
    ¬ PurgesExactly (RedisStore.store none) 3 (ascii "a") ((RedisStore.store none).run shared)
      (RedisStore.purgeScanned ((RedisStore.store none).run shared) (ascii "a")
        [.index (ascii "a") (ascii "tick") (ascii "w")]
        (RedisStore.drained ((RedisStore.store none).run shared)
          [.index (ascii "a") (ascii "tick") (ascii "w")])).1 := by
  intro hexact
  have hsame := congrArg (fun l => (l.getD []).length)
    (hexact.dequeue_eq 3 (le_refl 3) (ascii "a*") (by decide) (ascii "tick") (ascii "w"))
  exact absurd hsame (by decide)

end TyoMq.Storage
