import TyoMq.Storage.Ledger
import TyoMq.Storage.Memory
import TyoMq.Storage.Sqlite

/-!
# Durable messages: the order of the in-process store and of SQLite

Both keep the survivors that have not expired in the order in which they were queued
(`MemoryStore.Holds`, `SQLiteStore.Holds`): the array because a new message goes to its end and filters
keep the order, the table because a new row comes last in a scan, whatever row numbers have been freed.

* What is read from the table is what is there when no text has a U+0000 and the expiry can be read
  (`Entry.read_eq_self_iff`).
-/

namespace TyoMq.Storage

open TyoMq.Lib

variable {π : Type*} {T D : Type} [LinearOrder T] [Zero T] [Clock T D] {defaultTtl : D}
  {L : List (Entry π T)} {seen : List Text} {t now : T}

/-! ### Reading rows -/

/-- Has a message no U+0000 in its texts, and an expiry that can be read?
Kind: D -/
structure Entry.Legible (e : Entry π T) : Prop where
  /-- Its id has none. -/
  id : 0 ∉ e.id
  /-- Nor has its realm. -/
  realm : 0 ∉ e.realm
  /-- Nor its event. -/
  event : 0 ∉ e.event
  /-- Nor its consumer. -/
  consumer : ∀ c ∈ e.consumer, 0 ∉ c
  /-- Nor who produced it. -/
  producer : ∀ p ∈ e.producer, 0 ∉ p
  /-- Its expiry can be read. -/
  readable : e.readable = true

theorem Entry.legible_iff {e : Entry π T} : e.Legible ↔ 0 ∉ e.id ∧ 0 ∉ e.realm ∧ 0 ∉ e.event ∧
    (∀ c ∈ e.consumer, 0 ∉ c) ∧ (∀ p ∈ e.producer, 0 ∉ p) ∧ e.readable = true :=
  ⟨fun h => ⟨h.id, h.realm, h.event, h.consumer, h.producer, h.readable⟩,
    fun ⟨hid, hrealm, hevent, hconsumer, hproducer, hreadable⟩ =>
      ⟨hid, hrealm, hevent, hconsumer, hproducer, hreadable⟩⟩

instance (e : Entry π T) : Decidable e.Legible := decidable_of_iff' _ Entry.legible_iff

/-- An optional text is read as it is when it has no U+0000.
Kind: L -/
theorem map_cut_eq_self_iff {t : Option Text} : t.map Sqlite.cut = t ↔ ∀ s ∈ t, 0 ∉ s := by
  rcases t with _ | t
  · simp
  · rw [Option.map_some, Option.some.injEq, Sqlite.cut_eq_self_iff]
    simp

/-- A row is read as it is exactly when it is legible.
Kind: P -/
theorem Entry.read_eq_self_iff {row : Entry π T} : row.read = some row ↔ row.Legible := by
  unfold Entry.read
  split_ifs with hreadable
  · rw [Option.some.injEq, Entry.ext_iff]
    simp only [Entry.cut, Sqlite.cut_eq_self_iff, map_cut_eq_self_iff, true_and, and_true]
    constructor
    · rintro ⟨hid, hrealm, hevent, hconsumer, hproducer⟩
      exact ⟨hid, hrealm, hevent, hconsumer, hproducer, hreadable⟩
    · rintro ⟨hid, hrealm, hevent, hconsumer, hproducer, -⟩
      exact ⟨hid, hrealm, hevent, hconsumer, hproducer⟩
  · exact iff_of_false (by simp) fun h => hreadable h.readable

/-! ### The in-process store -/

namespace MemoryStore

variable {s : MemoryStore π T}

/-- The array holds the survivors that have not expired.
Kind: D -/
structure Holds (L : List (Entry π T)) (seen : List Text) (t : T) (s : MemoryStore π T) : Prop where
  /-- The survivors are orderly. -/
  orderly : Orderly L seen t
  /-- They are there, in order, until they expire. -/
  same : SameAlive t s.messages (L.map Entry.toNull)
  /-- No message expires at time zero, which would mean never. -/
  positive : ∀ e ∈ s.messages, ∀ x ∈ e.expires_at, 0 < x

/-- What a purge of expired messages leaves.
Kind: L -/
theorem purgeExpired_messages
    (h : ∀ e ∈ s.messages, ∀ x ∈ e.expires_at, 0 < x) (now : T) :
    (s.purgeExpired now).messages = s.messages.filter (Entry.alive now) := by
  apply List.filter_congr
  intro e he
  rw [Entry.alive]
  rcases hx : e.expires_at with _ | x
  · rfl
  · have hpos : x ≠ 0 := (h e he x (by rw [hx]; rfl)).ne'
    simp [hpos]

theorem holds_purgeExpired (h : Holds L seen t s) (hle : t ≤ now) :
    SameAlive now (s.purgeExpired now).messages (L.map Entry.toNull) := by
  rw [purgeExpired_messages h.positive]
  exact h.same.purge hle

theorem positive_purgeExpired (h : Holds L seen t s) (now : T) :
    ∀ e ∈ (s.purgeExpired now).messages, ∀ x ∈ e.expires_at, 0 < x := fun e he =>
  h.positive e (List.mem_of_mem_filter he)

/-- Filters that do not look at a missing consumer go through.
Kind: L -/
theorem holds_filter (h : Holds L seen t s) (hle : t ≤ now) (p : Entry π T → Bool)
    (hp : ∀ e, p e.toNull = p e) :
    SameAlive now (s.messages.filter p) ((L.filter p).map Entry.toNull) := by
  have hmap : (L.filter p).map Entry.toNull = (L.map Entry.toNull).filter p := by
    rw [List.filter_map]
    exact congrArg _ (List.filter_congr fun e _ => (hp e).symm)
  rw [hmap]
  exact (h.same.mono hle).filter p

/-- Every call keeps the array as it should be.
Kind: P -/
theorem holds_step (s : MemoryStore π T) (c : Call π T D) (h : Holds L seen t s) (hle : t ≤ c.now)
    (hpos : 0 < c.now) (hnew : ∀ id ∈ c.newIds, id ∉ seen) :
    Holds (record defaultTtl L c) (seen ++ c.newIds) c.now ((store defaultTtl).step s c) := by
  refine ⟨h.orderly.record defaultTtl hle hpos hnew, ?_, ?_⟩
  · obtain ⟨now, op⟩ := c
    cases op with
    | enqueue realm event message generated =>
        have happend := (holds_purgeExpired h hle).append
          (queued defaultTtl now realm event message generated).toNull
        rw [record, List.map_append]
        exact happend
    | dequeue | countQueued => exact holds_purgeExpired h hle
    | ack msgId => exact holds_filter h hle _ fun e => rfl
    | deadLetter msgId reason =>
        rw [Store.step]
        show SameAlive now (s.deadLetter now msgId reason).1.messages _
        rw [deadLetter]
        split <;> exact holds_filter h hle _ fun e => rfl
    | listDlq | discardDlq => exact h.same.mono hle
    | purgeRealm realm => exact holds_filter h hle _ fun e => rfl
  · obtain ⟨now, op⟩ := c
    cases op with
    | enqueue realm event message generated =>
        intro e he x hx
        rcases List.mem_append.mp he with he | he
        · exact positive_purgeExpired h now e he x hx
        · rw [List.mem_singleton.mp he] at hx
          exact Clock.expiresAt_pos hpos x hx
    | dequeue | countQueued => exact positive_purgeExpired h now
    | ack | purgeRealm => exact fun e he => h.positive e (List.mem_of_mem_filter he)
    | deadLetter msgId reason =>
        intro e he
        change e ∈ (s.deadLetter now msgId reason).1.messages at he
        rw [deadLetter] at he
        split at he <;> exact h.positive e (List.mem_of_mem_filter he)
    | listDlq | discardDlq => exact h.positive

theorem holds_run {calls : List (Call π T D)} (h : Proper calls) :
    Holds (survivors defaultTtl calls) (ids calls) (clock calls) ((store defaultTtl).run calls) :=
  run_invariant (store defaultTtl) (record defaultTtl) (I := Holds)
    ⟨Orderly.init, fun _ _ => rfl, fun _ he => absurd he List.not_mem_nil⟩
    (fun _ _ _ s c => holds_step s c) h

/-- What the in-process store returns for a queue.
Kind: P -/
theorem dequeue_eq (h : Holds L seen t s) (hle : t ≤ now) (realm event consumer : Text) :
    (dequeue s now realm event consumer).2 =
      (queueOf L now realm event consumer).map Entry.toNull := by
  have hsame := h.same now hle
  rw [← purgeExpired_messages h.positive] at hsame
  show (s.purgeExpired now).messages.filter (Entry.isIn (realmOr realm) event consumer) = _
  rw [hsame, List.filter_filter, List.filter_map]
  refine congrArg _ (List.filter_congr fun e _ => ?_)
  rw [Function.comp_apply, Entry.isIn_toNull, Entry.alive_toNull]

end MemoryStore

/-! ### The SQLite store -/

namespace SQLiteStore

variable {s : SQLiteStore π T}

/-- The table holds its survivors that have not expired.
Kind: D -/
structure Holds (L : List (Entry π T)) (seen : List Text) (t : T) (s : SQLiteStore π T) : Prop where
  /-- The survivors are orderly. -/
  orderly : Orderly L seen t
  /-- They are there, in order, until they expire. -/
  same : SameAlive t s.messages.scan L
  /-- The rows have ids that have been used. -/
  seen : ∀ row ∈ s.messages.scan, row.id ∈ seen
  /-- No two have the same. -/
  distinct : (s.messages.scan.map Entry.id).Nodup

omit [Zero T] in
/-- What a purge of expired messages leaves.
Kind: L -/
theorem purgeExpired_scan (s : SQLiteStore π T) (now : T) :
    (s.purgeExpired now).messages.scan = s.messages.scan.filter (Entry.alive now) := by
  rw [purgeExpired, RowTable.scan_deleteWhere]
  apply List.filter_congr
  intro e _
  rw [Entry.alive]
  rcases e.expires_at with _ | x
  · rfl
  · simp only [Option.any_some, Option.all_some, ← decide_not, not_le]

theorem holds_purgeExpired (h : Holds L seen t s) (hle : t ≤ now) :
    SameAlive now (s.purgeExpired now).messages.scan L := by
  rw [purgeExpired_scan]
  exact h.same.purge hle

theorem seen_purgeExpired (h : Holds L seen t s) (now : T) :
    ∀ row ∈ (s.purgeExpired now).messages.scan, row.id ∈ seen := by
  rw [purgeExpired_scan]
  exact fun row hrow => h.seen row (List.mem_of_mem_filter hrow)

/-- A message with a new id is not refused, and comes last.
Kind: L -/
theorem enqueue_scan (h : Holds L seen t s) (defaultTtl : D) (now : T) (realm event : Text)
    {message : Message π D} {generated : Text} (hnew : message.idOr generated ∉ seen) :
    (enqueue defaultTtl s now realm event message generated).1.messages.scan =
      (s.purgeExpired now).messages.scan ++
        [queued defaultTtl now realm event message generated] := by
  have hfree : ((s.purgeExpired now).messages.scan.any fun row =>
      row.id = message.idOr generated) = false := by
    rw [List.any_eq_false]
    intro row hrow hid
    exact hnew (of_decide_eq_true hid ▸ seen_purgeExpired h now row hrow)
  simp only [enqueue, hfree, Bool.false_eq_true, if_false, RowTable.scan_insert]
  rfl

/-- The rows after a message has been taken out to become a dead letter: when it cannot be read, it
stays.
Kind: L -/
theorem deadLetter_scan (hids : (s.messages.scan.map Entry.id).Nodup) (now : T)
    (msgId reason : Text) :
    (s.deadLetter now msgId reason).1.messages.scan =
      s.messages.scan.filter fun e => e.id ≠ msgId || !e.readable := by
  have hkeep : (∀ e ∈ s.messages.scan, e.id = msgId → e.readable = false) →
      s.messages.scan = s.messages.scan.filter fun e => e.id ≠ msgId || !e.readable := by
    refine fun h => (List.filter_eq_self.mpr fun e he => ?_).symm
    rw [Bool.or_eq_true, decide_eq_true_eq, or_iff_not_imp_left, not_not]
    intro hid
    rw [h e he hid]
    rfl
  rw [deadLetter]
  rcases hfound : s.messages.scan.find? fun row => row.id = msgId with _ | row
  · rw [hfound]
    apply hkeep
    intro e he hid
    exact absurd (decide_eq_true hid) (List.find?_eq_none.mp hfound e he)
  · rw [hfound]
    have hmem := List.mem_of_find?_eq_some hfound
    have hrowid : row.id = msgId := by simpa using List.find?_some hfound
    have hone : ∀ e ∈ s.messages.scan, e.id = msgId → e = row := fun e he hid =>
      List.inj_on_of_nodup_map hids he hmem (hid.trans hrowid.symm)
    rcases hread : row.readable with _ | _
    · have hnone : row.read = none := if_neg (by rw [hread]; exact Bool.false_ne_true)
      dsimp only
      rw [hnone]
      exact hkeep fun e he hid => hone e he hid ▸ hread
    · have hsome : row.read = some row.cut := if_pos hread
      dsimp only
      rw [hsome]
      dsimp only
      rw [RowTable.scan_deleteWhere]
      apply List.filter_congr
      intro e he
      by_cases hid : e.id = msgId
      · rw [hone e he hid]
        simp [hrowid, hread]
      · simp [hid]

/-- Rows may be taken out of the table with the survivors that they are.
Kind: L -/
theorem holds_filter {s' : SQLiteStore π T} (h : Holds L seen t s) (hle : t ≤ now)
    {p : Entry π T → Bool} (horderly : Orderly (L.filter p) seen now)
    (hscan : s'.messages.scan = s.messages.scan.filter p) : Holds (L.filter p) seen now s' := by
  refine ⟨horderly, ?_, ?_, ?_⟩
  · rw [hscan]
    exact (h.same.mono hle).filter p
  · intro row hrow
    rw [hscan] at hrow
    exact h.seen row (List.mem_of_mem_filter hrow)
  · rw [hscan]
    exact h.distinct.sublist (List.filter_sublist.map _)

/-- Rows that have expired are taken out.
Kind: L -/
theorem holds_purge (h : Holds L seen t s) (hle : t ≤ now) (horderly : Orderly L seen now) :
    Holds L seen now (s.purgeExpired now) := by
  refine ⟨horderly, holds_purgeExpired h hle, seen_purgeExpired h now, ?_⟩
  rw [purgeExpired_scan]
  exact h.distinct.sublist (List.filter_sublist.map _)

/-- Every call keeps the table as it should be.
Kind: P -/
theorem holds_step (s : SQLiteStore π T) (c : Call π T D) (h : Holds L seen t s) (hle : t ≤ c.now)
    (hpos : 0 < c.now) (hnew : ∀ id ∈ c.newIds, id ∉ seen) :
    Holds (recordTable defaultTtl L c) (seen ++ c.newIds) c.now ((store defaultTtl).step s c) := by
  have horderly := h.orderly.recordTable defaultTtl hle hpos hnew
  obtain ⟨now, op⟩ := c
  cases op with
  | enqueue realm event message generated =>
      have hid := hnew _ (List.mem_singleton_self _)
      have hscan := enqueue_scan h defaultTtl now realm event hid
      refine ⟨horderly, ?_, ?_, ?_⟩
      · show SameAlive now (enqueue defaultTtl s now realm event message generated).1.messages.scan _
        rw [hscan]
        exact (holds_purgeExpired h hle).append _
      · intro row hrow
        change row ∈ (enqueue defaultTtl s now realm event message generated).1.messages.scan at hrow
        rw [hscan] at hrow
        rcases List.mem_append.mp hrow with hrow | hrow
        · exact List.mem_append_left _ (seen_purgeExpired h now row hrow)
        · rw [List.mem_singleton.mp hrow]
          exact List.mem_append_right _ (List.mem_singleton_self _)
      · show ((enqueue defaultTtl s now realm event message generated).1.messages.scan.map _).Nodup
        rw [hscan, List.map_append, List.map_singleton, purgeExpired_scan]
        apply (h.distinct.sublist (List.filter_sublist.map _)).append (List.nodup_singleton _)
        intro id hmem hlast
        obtain ⟨row, hrow, rfl⟩ := List.mem_map.mp hmem
        have heq : row.id = message.idOr generated := List.mem_singleton.mp hlast
        exact hid (heq ▸ h.seen row (List.mem_of_mem_filter hrow))
  | dequeue | countQueued =>
      rw [Call.newIds, List.append_nil] at horderly ⊢
      exact holds_purge h hle horderly
  | ack msgId =>
      rw [Call.newIds, List.append_nil] at horderly ⊢
      apply holds_filter h hle horderly
      show (s.ack msgId).messages.scan = _
      rw [ack, RowTable.scan_deleteWhere]
      exact List.filter_congr fun e _ => by simp
  | deadLetter msgId reason =>
      rw [Call.newIds, List.append_nil] at horderly ⊢
      exact holds_filter h hle horderly (deadLetter_scan h.distinct now msgId reason)
  | listDlq | discardDlq =>
      rw [Call.newIds, List.append_nil] at horderly ⊢
      exact ⟨horderly, h.same.mono hle, h.seen, h.distinct⟩
  | purgeRealm realm =>
      rw [Call.newIds, List.append_nil] at horderly ⊢
      apply holds_filter h hle horderly
      show (s.purgeRealm realm).1.messages.scan = _
      rw [purgeRealm, RowTable.scan_deleteWhere]
      exact List.filter_congr fun e _ => by simp

theorem holds_run {calls : List (Call π T D)} (h : Proper calls) :
    Holds (tableSurvivors defaultTtl calls) (ids calls) (clock calls)
      ((store defaultTtl).run calls) :=
  run_invariant (store defaultTtl) (recordTable defaultTtl) (I := Holds)
    ⟨Orderly.init, fun _ _ => rfl, fun _ he => absurd he List.not_mem_nil, List.nodup_nil⟩
    (fun _ _ _ s c => holds_step s c) h

/-- What the SQLite store reads for a queue.
Kind: P -/
theorem dequeue_eq (h : Holds L seen t s) (hle : t ≤ now) (realm event consumer : Text) :
    (dequeue s now realm event consumer).2 =
      Sqlite.readAll Entry.read (queueOf L now realm event consumer) := by
  have hsame := h.same now hle
  rw [← purgeExpired_scan] at hsame
  rw [dequeue, queueOf]
  dsimp only
  rw [hsame, List.filter_filter]
  refine congrArg _ (List.filter_congr fun e he => ?_)
  obtain ⟨c, hc⟩ := Option.isSome_iff_exists.mp (h.orderly.consumer e he)
  simp [Entry.isIn, hc]

/-- It returns the queue exactly when all its messages are legible.
Kind: P -/
theorem dequeue_eq_iff (h : Holds L seen t s) (hle : t ≤ now) (realm event consumer : Text) :
    (dequeue s now realm event consumer).2 = some (queueOf L now realm event consumer) ↔
      ∀ e ∈ queueOf L now realm event consumer, e.Legible := by
  rw [dequeue_eq h hle, Sqlite.readAll_eq_self_iff]
  exact forall₂_congr fun _ _ => Entry.read_eq_self_iff

end SQLiteStore

end TyoMq.Storage
