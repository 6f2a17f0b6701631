import Mathlib.Data.List.Induction
import Mathlib.Data.List.Nodup
import TyoMq.Storage.Message

/-!
# Durable messages: what a store should hold

The messages that have been queued and not taken out since, in the order in which they were queued
(`survivors`), from the calls alone, and what every run of calls makes of them (`Orderly`).

* `run_invariant`: what a store has at the start, and what each call keeps when the clock does not run
  backwards and the id is new, it has after every run.
-/

namespace TyoMq.Storage

variable {π σ : Type*} {T D : Type}

/-! ### Entries -/

theorem orNull_getD (t : Text) : (orNull t).getD [] = t := by
  unfold orNull
  split_ifs with h
  · exact h.symm
  · rfl

namespace Entry

/-- Has the message not expired yet?
Kind: D -/
def alive [LinearOrder T] (t : T) (e : Entry π T) : Bool := e.expires_at.all fun x => t < x

/-- Is the message in this queue?
Kind: D -/
def isIn (realm event consumer : Text) (e : Entry π T) : Bool :=
  e.realm = realm ∧ e.event = event ∧ e.consumer.getD [] = consumer

/-- The message as the in-process store returns it, with `null` for no consumer.
Kind: D -/
def toNull (e : Entry π T) : Entry π T := { e with consumer := orNull (e.consumer.getD []) }

@[simp] theorem alive_toNull [LinearOrder T] (t : T) (e : Entry π T) :
    e.toNull.alive t = e.alive t := rfl

@[simp] theorem isIn_toNull (realm event consumer : Text) (e : Entry π T) :
    e.toNull.isIn realm event consumer = e.isIn realm event consumer := by
  simp only [isIn, toNull, orNull_getD]

/-- What has not expired had not expired before.
Kind: L -/
theorem alive_mono [LinearOrder T] {t t' : T} {e : Entry π T} (h : e.alive t' = true) (hle : t ≤ t') :
    e.alive t = true := by
  unfold alive at h ⊢
  rcases hx : e.expires_at with _ | x
  · rfl
  · rw [hx] at h
    simp only [Option.all_some, decide_eq_true_eq] at h ⊢
    exact lt_of_le_of_lt hle h

theorem isIn_iff {realm event consumer : Text} {e : Entry π T} :
    e.isIn realm event consumer = true ↔
      e.realm = realm ∧ e.event = event ∧ e.consumer.getD [] = consumer := by
  simp [isIn]

end Entry

/-! ### Calls -/

/-- The entry that a message becomes.
Kind: D -/
def queued [LinearOrder T] [Zero T] [Clock T D] (defaultTtl : D) (now : T) (realm event : Text)
    (message : Message π D) (generated : Text) : Entry π T where
  id := message.idOr generated
  realm := realmOr realm
  event := event
  consumer := some message.recipient
  message := message.payload
  producer := orNull message.producer
  created_at := now
  expires_at := Clock.expiresAt defaultTtl message.ttl now

section Record

variable [LinearOrder T] [Zero T] [Clock T D]

/-- The messages that are there after a call, expired or not.
Kind: D -/
def record (defaultTtl : D) (L : List (Entry π T)) (c : Call π T D) : List (Entry π T) :=
  match c.op with
  | .enqueue realm event message generated =>
      L ++ [queued defaultTtl c.now realm event message generated]
  | .ack msgId | .deadLetter msgId _ => L.filter fun e => e.id ≠ msgId
  | .purgeRealm realm => L.filter fun e => e.realm ≠ realm
  | .dequeue _ _ _ | .listDlq _ | .discardDlq _ _ | .countQueued _ _ _ => L

/-- The messages that have been queued and not acknowledged, dead-lettered or purged since, in the
order in which they were queued.
Kind: D -/
def survivors (defaultTtl : D) (calls : List (Call π T D)) : List (Entry π T) :=
  calls.foldl (record defaultTtl) []

/-- The messages that are in the table of SQLite after a call: giving up a message whose expiry cannot be
read fails, and leaves it there.
Kind: D -/
def recordTable (defaultTtl : D) (L : List (Entry π T)) (c : Call π T D) : List (Entry π T) :=
  match c.op with
  | .deadLetter msgId _ => L.filter fun e => e.id ≠ msgId || !e.readable
  | _ => record defaultTtl L c

/-- The messages that are in the table of SQLite.
Kind: D -/
def tableSurvivors (defaultTtl : D) (calls : List (Call π T D)) : List (Entry π T) :=
  calls.foldl (recordTable defaultTtl) []

end Record

/-- The ids that a call gives to messages.
Kind: D -/
def Call.newIds (c : Call π T D) : List Text :=
  match c.op with
  | .enqueue _ _ message generated => [message.idOr generated]
  | _ => []

/-- The ids that have been given to messages.
Kind: D -/
def ids (calls : List (Call π T D)) : List Text := calls.flatMap Call.newIds

/-- The last reading of the clock.
Kind: D -/
def clock [Zero T] (calls : List (Call π T D)) : T := (calls.getLast?.map Call.now).getD 0

/-- The clock does not run backwards and has left the epoch behind, and no two messages have the same
id.
Kind: D -/
structure Proper [LinearOrder T] [Zero T] (calls : List (Call π T D)) : Prop where
  /-- The readings do not decrease. -/
  chronological : (calls.map Call.now).Pairwise (· ≤ ·)
  /-- They are positive. -/
  positive : ∀ c ∈ calls, 0 < c.now
  /-- The ids are distinct. -/
  distinct : (ids calls).Nodup

theorem ids_append (calls : List (Call π T D)) (c : Call π T D) :
    ids (calls ++ [c]) = ids calls ++ c.newIds := by
  rw [ids, List.flatMap_append, List.flatMap_singleton, ids]

theorem encoded_orElse (t other : Text) : encoded (orElse t other) = orElse (encoded t) (encoded other) := by
  unfold orElse
  rw [apply_ite encoded]
  exact if_congr encoded_eq_nil.symm rfl rfl

/-- The ids of calls as they are written are the ids in UTF-8.
Kind: L -/
theorem ids_written (copy : π → π) (calls : List (Call π T D)) :
    ids (calls.map (Call.written copy)) = (ids calls).map encoded := by
  rw [ids, ids, List.flatMap_map, List.map_flatMap]
  refine List.flatMap_congr fun c _ => ?_
  obtain ⟨now, op⟩ := c
  cases op with
  | enqueue realm event message generated =>
      exact congrArg (fun id => [id]) (encoded_orElse message.id generated).symm
  | _ => rfl

theorem clock_append [Zero T] (calls : List (Call π T D)) (c : Call π T D) : clock (calls ++ [c]) = c.now := by
  simp [clock]

/-- In a proper run each call comes no earlier than the ones before, and its ids are new.
Kind: L -/
theorem Proper.of_append [LinearOrder T] [Zero T] {calls : List (Call π T D)} {c : Call π T D}
    (h : Proper (calls ++ [c])) :
    Proper calls ∧ clock calls ≤ c.now ∧ 0 < c.now ∧ ∀ id ∈ c.newIds, id ∉ ids calls := by
  obtain ⟨hchron, hpos, hdistinct⟩ := h
  rw [List.map_append, List.pairwise_append] at hchron
  rw [ids_append, List.nodup_append] at hdistinct
  have hpos' : 0 < c.now := hpos c (by simp)
  refine ⟨⟨hchron.1, fun c' hc' => hpos c' (by simp [hc']), hdistinct.1⟩, ?_, hpos', ?_⟩
  · rcases List.eq_nil_or_concat calls with rfl | ⟨init, last, rfl⟩
    · exact hpos'.le
    · rw [List.concat_eq_append, clock_append]
      exact hchron.2.2 last.now (by simp) c.now (by simp)
  · exact fun id hid hid' => hdistinct.2.2 id hid' id hid rfl

/-- What a store has at the start, and what each call keeps when it comes no earlier than the last and
its ids are new, it has after every proper run, whatever record is kept of the messages beside it.
Kind: L -/
theorem run_invariant [LinearOrder T] [Zero T] (S : Store π σ T D)
    (keep : List (Entry π T) → Call π T D → List (Entry π T))
    {I : List (Entry π T) → List Text → T → σ → Prop} (hinit : I [] [] 0 S.init)
    (hstep : ∀ L seen t s (c : Call π T D), I L seen t s → t ≤ c.now → 0 < c.now →
      (∀ id ∈ c.newIds, id ∉ seen) → I (keep L c) (seen ++ c.newIds) c.now (S.step s c))
    {calls : List (Call π T D)} (h : Proper calls) :
    I (calls.foldl keep []) (ids calls) (clock calls) (S.run calls) := by
  induction calls using List.reverseRecOn with
  | nil => exact hinit
  | append_singleton calls c ih =>
      obtain ⟨hcalls, hle, hpos, hnew⟩ := h.of_append
      rw [List.foldl_append, ids_append, clock_append, S.run_append]
      exact hstep _ _ _ _ c (ih hcalls) hle hpos hnew

/-! ### The survivors of a run -/

/-- What every run makes of its survivors, given the ids it has used and its last reading of the clock.
Kind: D -/
structure Orderly [LinearOrder T] [Zero T] (L : List (Entry π T)) (seen : List Text) (t : T) : Prop where
  /-- Their ids are among those used. -/
  seen : ∀ e ∈ L, e.id ∈ seen
  /-- They are distinct. -/
  nodup : (L.map Entry.id).Nodup
  /-- They come in the order in which they were queued. -/
  sorted : L.Pairwise fun e e' => e.created_at ≤ e'.created_at
  /-- None comes from the future. -/
  past : ∀ e ∈ L, e.created_at ≤ t
  /-- Expiry times are positive. -/
  positive : ∀ e ∈ L, ∀ x ∈ e.expires_at, 0 < x
  /-- Each has a consumer, if only the empty one. -/
  consumer : ∀ e ∈ L, e.consumer.isSome

namespace Orderly

variable [LinearOrder T] [Zero T] {L L' : List (Entry π T)} {seen : List Text} {t now : T}

theorem init : Orderly ([] : List (Entry π T)) [] 0 :=
  ⟨by simp, by simp, by simp, by simp, by simp, by simp⟩

/-- Fewer survivors, later.
Kind: L -/
theorem sublist (h : Orderly L seen t) (hsub : L'.Sublist L) (hle : t ≤ now) :
    Orderly L' seen now where
  seen e he := h.seen e (hsub.subset he)
  nodup := h.nodup.sublist (hsub.map _)
  sorted := h.sorted.sublist hsub
  past e he := (h.past e (hsub.subset he)).trans hle
  positive e he := h.positive e (hsub.subset he)
  consumer e he := h.consumer e (hsub.subset he)

/-- One survivor more.
Kind: L -/
theorem queued [Clock T D] (h : Orderly L seen t) (hle : t ≤ now) (hpos : 0 < now) {defaultTtl : D}
    {realm event : Text} {message : Message π D} {generated : Text}
    (hnew : message.idOr generated ∉ seen) :
    Orderly (L ++ [queued defaultTtl now realm event message generated])
      (seen ++ [message.idOr generated]) now where
  seen e he := by
    rcases List.mem_append.mp he with he | he
    · exact List.mem_append_left _ (h.seen e he)
    · rw [List.mem_singleton.mp he]
      exact List.mem_append_right _ (List.mem_singleton_self _)
  nodup := by
    rw [List.map_append, List.nodup_append]
    refine ⟨h.nodup, List.nodup_singleton _, fun id hid id' hid' heq => hnew ?_⟩
    obtain ⟨e, he, rfl⟩ := List.mem_map.mp hid
    rw [List.map_singleton, List.mem_singleton] at hid'
    have : e.id = message.idOr generated := heq.trans hid'
    exact this ▸ h.seen e he
  sorted := by
    rw [List.pairwise_append]
    refine ⟨h.sorted, List.pairwise_singleton _ _, fun e he e' he' => ?_⟩
    rw [List.mem_singleton.mp he']
    exact (h.past e he).trans hle
  past e he := by
    rcases List.mem_append.mp he with he | he
    · exact (h.past e he).trans hle
    · rw [List.mem_singleton.mp he]
      exact le_refl _
  positive e he x hx := by
    rcases List.mem_append.mp he with he | he
    · exact h.positive e he x hx
    · rw [List.mem_singleton.mp he] at hx
      exact Clock.expiresAt_pos hpos x hx
  consumer e he := by
    rcases List.mem_append.mp he with he | he
    · exact h.consumer e he
    · rw [List.mem_singleton.mp he]
      rfl

/-- Every call keeps the survivors orderly.
Kind: P -/
theorem record [Clock T D] (h : Orderly L seen t) (defaultTtl : D) {c : Call π T D} (hle : t ≤ c.now)
    (hpos : 0 < c.now) (hnew : ∀ id ∈ c.newIds, id ∉ seen) :
    Orderly (record defaultTtl L c) (seen ++ c.newIds) c.now := by
  obtain ⟨now, op⟩ := c
  cases op with
  | enqueue realm event message generated =>
      exact h.queued hle hpos (hnew _ (List.mem_singleton_self _))
  | ack | deadLetter | purgeRealm =>
      rw [Call.newIds, List.append_nil]
      exact h.sublist List.filter_sublist hle
  | dequeue | listDlq | discardDlq | countQueued =>
      rw [Call.newIds, List.append_nil]
      exact h.sublist (List.Sublist.refl _) hle

/-- The same with what SQLite records.
Kind: P -/
theorem recordTable [Clock T D] (h : Orderly L seen t) (defaultTtl : D) {c : Call π T D}
    (hle : t ≤ c.now) (hpos : 0 < c.now) (hnew : ∀ id ∈ c.newIds, id ∉ seen) :
    Orderly (recordTable defaultTtl L c) (seen ++ c.newIds) c.now := by
  obtain ⟨now, op⟩ := c
  cases op with
  | deadLetter msgId reason =>
      rw [Call.newIds, List.append_nil]
      exact h.sublist List.filter_sublist hle
  | _ => exact h.record defaultTtl hle hpos hnew

/-- Distinct survivors have distinct ids.
Kind: L -/
theorem eq_of_id (h : Orderly L seen t) {e e' : Entry π T} (he : e ∈ L) (he' : e' ∈ L)
    (hid : e.id = e'.id) : e = e' :=
  List.inj_on_of_nodup_map h.nodup he he' hid

end Orderly

/-! ### The answer a queue should give -/

/-- The messages in a queue that have not expired, of those in a list.
Kind: D -/
def queueOf [LinearOrder T] (L : List (Entry π T)) (now : T) (realm event consumer : Text) :
    List (Entry π T) :=
  L.filter fun e => e.isIn (realmOr realm) event consumer && e.alive now

/-- The survivors in a queue that have not expired.
Kind: D -/
def expected [LinearOrder T] [Zero T] [Clock T D] (defaultTtl : D) (calls : List (Call π T D)) (now : T)
    (realm event consumer : Text) : List (Entry π T) :=
  queueOf (survivors defaultTtl calls) now realm event consumer

/-- Do two lists hold the same messages in the same order, from some time on, as far as they have not
expired?
Kind: D -/
def SameAlive [LinearOrder T] (t : T) (l L : List (Entry π T)) : Prop :=
  ∀ now, t ≤ now → l.filter (Entry.alive now) = L.filter (Entry.alive now)

namespace SameAlive

variable [LinearOrder T] {l L : List (Entry π T)} {t now : T}

theorem mono (h : SameAlive t l L) (hle : t ≤ now) : SameAlive now l L := fun now' hle' =>
  h now' (hle.trans hle')

theorem append (h : SameAlive t l L) (e : Entry π T) : SameAlive t (l ++ [e]) (L ++ [e]) :=
  fun now hle => by rw [List.filter_append, List.filter_append, h now hle]

/-- Taking the same messages out of both.
Kind: L -/
theorem filter (h : SameAlive t l L) (p : Entry π T → Bool) :
    SameAlive t (l.filter p) (L.filter p) := fun now hle => by
  rw [List.filter_filter, List.filter_filter, ← List.filter_congr fun e _ => Bool.and_comm _ _,
    ← List.filter_filter, h now hle, List.filter_filter]
  exact List.filter_congr fun e _ => Bool.and_comm _ _

/-- Taking the expired messages out of one.
Kind: L -/
theorem purge (h : SameAlive t l L) (hle : t ≤ now) :
    SameAlive now (l.filter (Entry.alive now)) L := fun now' hle' => by
  rw [← h now' (hle.trans hle'), List.filter_filter]
  apply List.filter_congr
  intro e _
  rcases halive : e.alive now' with _ | _
  · rfl
  · exact (Bool.true_and _).trans (Entry.alive_mono halive hle')

end SameAlive

end TyoMq.Storage
