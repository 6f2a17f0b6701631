import TyoMq.Storage.Doubles
import TyoMq.Storage.RedisOrder

/-!
# Durable messages: the order in which a queue is replayed

After every run of calls the in-process store returns the survivors of a queue that have not expired in
the order in which they were queued (`dequeue_eq_expected`).

* The SQLite store has them in that order too. It returns them when all of them are legible: it cuts texts
  at U+0000, and throws when an expiry is out of range.
* The Redis store has the same messages, but returns those of one millisecond in the order of their ids,
  which is another order when a later id is smaller (`ne_expected_sameMillisecond`).

The times of the first two are doubles. Redis takes whole milliseconds only: `PEXPIREAT` refuses others.
-/

namespace TyoMq.Storage

open TyoMq.Lib

variable {π : Type*}

/-- Do the messages that were queued in the same millisecond come in the order of their ids?
Kind: D -/
def TiesInOrder (l : List (Entry π)) : Prop :=
  l.Pairwise fun e e' => e.created_at = e'.created_at → e.id < e'.id

instance (l : List (Entry π)) : Decidable (TiesInOrder l) :=
  inferInstanceAs (Decidable (l.Pairwise _))

/-- Survivors are in the order of Redis when ties are.
Kind: L -/
theorem pairwise_precedes_iff {l : List (Entry π)}
    (hsorted : l.Pairwise fun e e' => e.created_at ≤ e'.created_at) :
    l.Pairwise RedisStore.Precedes ↔ TiesInOrder l := by
  constructor
  · refine fun h => h.imp fun {e e'} hprec heq => ?_
    rcases hprec with hlt | ⟨-, hid⟩
    · omega
    · exact hid
  · refine fun h => (List.pairwise_and_iff.mpr ⟨hsorted, h⟩).imp fun {e e'} hboth => ?_
    rcases lt_or_eq_of_le hboth.1 with hlt | heq
    · exact Or.inl hlt
    · exact Or.inr ⟨heq, hboth.2 heq⟩

/-- What the Redis store returns for a queue.
Kind: P -/
theorem RedisStore.dequeue_eq_iff (defaultTtl : Ttl) {calls : List (Call π)} (h : Proper calls)
    {now : ℤ} (hnow : clock calls ≤ now) (realm event consumer : Text) :
    (dequeue ((store defaultTtl).run calls) now realm event consumer).2 =
        expected defaultTtl calls now realm event consumer ↔
      TiesInOrder (expected defaultTtl calls now realm event consumer) := by
  have htracks : Tracks (survivors defaultTtl calls) _ _ _ := tracks_run h
  have hprec := htracks.sorted_dequeue hnow realm event consumer
  have hsorted := htracks.orderly.sorted.sublist
    (List.filter_sublist (p := fun e => e.isIn (realmOr realm) event consumer && e.alive now))
  rw [expected, queueOf, ← pairwise_precedes_iff hsorted]
  constructor
  · intro heq
    exact heq ▸ hprec
  · intro hprec'
    apply hprec.eq_of_mem_iff hprec'
    intro e
    rw [htracks.mem_dequeue hnow, List.mem_filter, Bool.and_eq_true]

/-! ### What the table still has -/

section Table

variable {T D : Type} [LinearOrder T] [Zero T] [Clock T D] {defaultTtl : D} {calls : List (Call π T D)}
  {now : T} {realm event consumer : Text}

/-- What survives is in the table, and nothing else that can be read.
Kind: L -/
theorem survivors_table (defaultTtl : D) (calls : List (Call π T D)) :
    (survivors defaultTtl calls).Sublist (tableSurvivors defaultTtl calls) ∧
      (tableSurvivors defaultTtl calls).filter Entry.readable =
        (survivors defaultTtl calls).filter Entry.readable := by
  suffices hfrom : ∀ (L L' : List (Entry π T)), L.Sublist L' →
      L'.filter Entry.readable = L.filter Entry.readable →
      (calls.foldl (record defaultTtl) L).Sublist (calls.foldl (recordTable defaultTtl) L') ∧
        (calls.foldl (recordTable defaultTtl) L').filter Entry.readable =
          (calls.foldl (record defaultTtl) L).filter Entry.readable from
    hfrom [] [] (List.Sublist.refl _) rfl
  induction calls with
  | nil => exact fun L L' hsub hsame => ⟨hsub, hsame⟩
  | cons c calls ih =>
      intro L L' hsub hsame
      have hfilter : ∀ p : Entry π T → Bool,
          (L'.filter p).filter Entry.readable = (L.filter p).filter Entry.readable := fun p => by
        rw [List.filter_comm, hsame, List.filter_comm]
      obtain ⟨now, op⟩ := c
      apply ih
      · cases op with
        | enqueue => exact hsub.append (List.Sublist.refl _)
        | ack | purgeRealm => exact hsub.filter _
        | deadLetter msgId reason =>
            refine (List.monotone_filter_right L fun e he => ?_).trans (hsub.filter _)
            rw [he]
            rfl
        | dequeue | listDlq | discardDlq | countQueued => exact hsub
      · cases op with
        | enqueue =>
            show (L' ++ _).filter _ = (L ++ _).filter _
            rw [List.filter_append, List.filter_append, hsame]
        | ack | purgeRealm => exact hfilter _
        | deadLetter msgId reason =>
            have hsplit : (L'.filter fun e => e.id ≠ msgId || !e.readable).filter Entry.readable =
                (L'.filter fun e => e.id ≠ msgId).filter Entry.readable := by
              rw [List.filter_filter, List.filter_filter]
              refine List.filter_congr fun e _ => ?_
              rcases e.readable with _ | _ <;> simp
            exact hsplit.trans (hfilter _)
        | dequeue | listDlq | discardDlq | countQueued => exact hsame

/-- A queue in which every expiry can be read has just its survivors in the table.
Kind: L -/
theorem queueOf_tableSurvivors
    (h : ∀ e ∈ queueOf (tableSurvivors defaultTtl calls) now realm event consumer,
      e.readable = true) :
    queueOf (tableSurvivors defaultTtl calls) now realm event consumer =
      expected defaultTtl calls now realm event consumer := by
  obtain ⟨hsub, hsame⟩ := survivors_table defaultTtl calls
  have hsurvivors : ∀ e ∈ expected defaultTtl calls now realm event consumer, e.readable = true :=
    fun e he => h e ((hsub.filter _).subset he)
  calc queueOf (tableSurvivors defaultTtl calls) now realm event consumer
      = (queueOf (tableSurvivors defaultTtl calls) now realm event consumer).filter
          Entry.readable := (List.filter_eq_self.mpr h).symm
    _ = (expected defaultTtl calls now realm event consumer).filter Entry.readable := by
      rw [expected, queueOf, queueOf, List.filter_comm, hsame, List.filter_comm]
    _ = expected defaultTtl calls now realm event consumer := List.filter_eq_self.mpr hsurvivors

/-- What the SQLite store returns for a queue.
Kind: P -/
theorem SQLiteStore.dequeue_eq_expected_iff (h : Proper calls) (hnow : clock calls ≤ now) :
    (dequeue ((store defaultTtl).run calls) now realm event consumer).2 =
        some (expected defaultTtl calls now realm event consumer) ↔
      ∀ e ∈ queueOf (tableSurvivors defaultTtl calls) now realm event consumer, e.Legible := by
  have hholds : Holds _ _ _ ((store defaultTtl).run calls) := holds_run h
  constructor
  · intro heq
    rw [dequeue_eq hholds hnow] at heq
    have hreadable : ∀ e ∈ queueOf (tableSurvivors defaultTtl calls) now realm event consumer,
        e.readable = true := by
      intro e he
      obtain ⟨e', -, hread⟩ := Sqlite.exists_of_readAll_eq_some heq e he
      by_contra hnot
      rw [Entry.read, if_neg hnot] at hread
      cases hread
    rw [← queueOf_tableSurvivors hreadable, ← dequeue_eq hholds hnow,
      dequeue_eq_iff hholds hnow] at heq
    exact heq
  · intro hlegible
    rw [← queueOf_tableSurvivors fun e he => (hlegible e he).readable]
    exact (dequeue_eq_iff hholds hnow realm event consumer).mpr hlegible

omit [Clock T D] in
/-- Distinct ids that stay so in UTF-8 were distinct.
Kind: L -/
theorem Proper.of_written {copy : π → π} (h : Proper (calls.map (Call.written copy))) :
    Proper calls := by
  obtain ⟨hchron, hpos, hdistinct⟩ := h
  refine ⟨?_, fun c hc => hpos (c.written copy) (List.mem_map_of_mem hc), ?_⟩
  · rw [List.map_map] at hchron
    exact hchron
  · rw [ids_written] at hdistinct
    exact hdistinct.of_map

omit [LinearOrder T] [Clock T D] in
theorem clock_written (copy : π → π) (calls : List (Call π T D)) :
    clock (calls.map (Call.written copy)) = clock calls := by
  rw [clock, clock, List.getLast?_map, Option.map_map]
  rfl

end Table

/-! ### The three stores -/

/-- **A queue is replayed in order**: always by the in-process store; by SQLite exactly when the messages
of the queue are legible; and by Redis exactly when those of one millisecond come in the order of their
ids.
Kind: P -/
theorem dequeue_eq_expected (copy : π → π) :
    (∀ (defaultTtl : Double) {calls : List (Call π Instant Double)},
      Proper (calls.map (Call.written copy)) → ∀ {now : Instant}, clock calls ≤ now →
        ∀ realm event consumer : Text,
          (MemoryStore.dequeue ((MemoryStore.store defaultTtl).run calls) now realm event consumer).2 =
              (expected defaultTtl calls now realm event consumer).map Entry.toNull ∧
            ((SQLiteStore.dequeue
                  ((SQLiteStore.store defaultTtl).run (calls.map (Call.written copy))) now
                  (encoded realm) (encoded event) (encoded consumer)).2 =
                some (expected defaultTtl (calls.map (Call.written copy)) now (encoded realm)
                  (encoded event) (encoded consumer)) ↔
              ∀ e ∈ queueOf (tableSurvivors defaultTtl (calls.map (Call.written copy))) now
                (encoded realm) (encoded event) (encoded consumer), e.Legible)) ∧
      ∀ (defaultTtl : Ttl) {calls : List (Call π)}, Proper (calls.map (Call.written copy)) →
        ∀ {now : ℤ}, clock calls ≤ now → ∀ realm event consumer : Text,
          ((RedisStore.dequeue
                ((RedisStore.store defaultTtl).run (calls.map (Call.written copy))) now
                (encoded realm) (encoded event) (encoded consumer)).2 =
              expected defaultTtl (calls.map (Call.written copy)) now (encoded realm)
                (encoded event) (encoded consumer) ↔
            TiesInOrder (expected defaultTtl (calls.map (Call.written copy)) now (encoded realm)
              (encoded event) (encoded consumer))) := by
  constructor
  · intro defaultTtl calls h now hnow realm event consumer
    refine ⟨MemoryStore.dequeue_eq (MemoryStore.holds_run h.of_written) hnow realm event consumer, ?_⟩
    rw [← clock_written copy] at hnow
    exact SQLiteStore.dequeue_eq_expected_iff h hnow
  · intro defaultTtl calls h now hnow realm event consumer
    rw [← clock_written copy] at hnow
    exact RedisStore.dequeue_eq_iff defaultTtl h hnow _ _ _

/-- Two messages for one consumer in the same millisecond, the second with the smaller id.
Kind: D -/
def sameMillisecond : List (Call ℕ) :=
  [⟨1, .enqueue [] (ascii "tick") ⟨ascii "b", ascii "w", [], 1, [], none⟩ []⟩,
    ⟨1, .enqueue [] (ascii "tick") ⟨ascii "a", ascii "w", [], 2, [], none⟩ []⟩]

theorem sameMillisecond_proper : Proper sameMillisecond := ⟨by decide, by decide, by decide⟩

/-- The same two, the first of which lives for half a millisecond.
Kind: D -/
def halfMillisecond : List (Call ℕ Instant Double) :=
  [⟨millis 1, .enqueue [] (ascii "tick")
      ⟨ascii "b", ascii "w", [], 1, [], some (.ofRat (1 / 2000))⟩ []⟩,
    ⟨millis 1, .enqueue [] (ascii "tick") ⟨ascii "a", ascii "w", [], 2, [], none⟩ []⟩]

/-- The in-process store and SQLite return both, and Redis in the other order.
Kind: C -/
theorem dequeue_eq_expected_sameMillisecond :
    (MemoryStore.dequeue ((MemoryStore.store .infinity).run halfMillisecond) (millis 1) []
        (ascii "tick") (ascii "w")).2 =
        (expected .infinity halfMillisecond (millis 1) [] (ascii "tick")
          (ascii "w")).map Entry.toNull ∧
      (SQLiteStore.dequeue
        ((SQLiteStore.store .infinity).run (halfMillisecond.map (Call.written id)))
        (millis 1) (encoded []) (encoded (ascii "tick")) (encoded (ascii "w"))).2 =
        some (expected .infinity (halfMillisecond.map (Call.written id)) (millis 1)
          (encoded []) (encoded (ascii "tick")) (encoded (ascii "w"))) ∧
      (RedisStore.dequeue
        ((RedisStore.store none).run (sameMillisecond.map (Call.written id))) 2 (encoded [])
        (encoded (ascii "tick")) (encoded (ascii "w"))).2 ≠
        expected none (sameMillisecond.map (Call.written id)) 2 (encoded [])
          (encoded (ascii "tick")) (encoded (ascii "w")) := by
  have hhalf : Proper (halfMillisecond.map (Call.written id)) :=
    ⟨by decide +kernel, by decide +kernel, by decide⟩
  have hsame : Proper (sameMillisecond.map (Call.written id)) := ⟨by decide, by decide, by decide⟩
  have hnow : clock halfMillisecond ≤ millis 1 := le_rfl
  obtain ⟨hstores, hredis⟩ := dequeue_eq_expected (id : ℕ → ℕ)
  obtain ⟨hmemory, hsqlite⟩ := hstores .infinity hhalf hnow [] (ascii "tick") (ascii "w")
  refine ⟨hmemory, hsqlite.mpr (by decide +kernel), fun heq => ?_⟩
  exact absurd ((hredis none hsame (by decide) [] (ascii "tick") (ascii "w")).mp heq) (by decide)

/-- A message that expires in 300,000 years.
Kind: D -/
def farExpiry : List (Call ℕ Instant Double) :=
  [⟨millis 1, .enqueue [] (ascii "tick")
      ⟨ascii "a", ascii "w", [], 1, [], some ((10 ^ 13 : ℕ) : Double)⟩ []⟩]

/-- Redis returns the two messages in the other order, and SQLite throws for a queue with an expiry out
of range.
Kind: P -/
theorem ne_expected_sameMillisecond :
    (Proper sameMillisecond ∧ clock sameMillisecond ≤ 2 ∧
      (RedisStore.dequeue ((RedisStore.store none).run sameMillisecond) 2 [] (ascii "tick")
        (ascii "w")).2 ≠ expected none sameMillisecond 2 [] (ascii "tick") (ascii "w")) ∧
    Proper farExpiry ∧
      (SQLiteStore.dequeue ((SQLiteStore.store .infinity).run farExpiry) (millis 2) []
        (ascii "tick") (ascii "w")).2 = none := by
  refine ⟨⟨sameMillisecond_proper, by decide, by decide⟩,
    ⟨by decide +kernel, by decide +kernel, by decide⟩, ?_⟩
  decide +kernel

end TyoMq.Storage
