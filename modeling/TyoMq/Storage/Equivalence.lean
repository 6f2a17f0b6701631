import TyoMq.Lib.Runs
import TyoMq.Storage.TableOrder

/-!
# Durable messages: the in-process store and SQLite

The two stores answer a run of calls alike (`Agree.answers`), as long as the messages have ids of their own
and what is asked for can be read from the table as it was written (`Legible`): the array is the table as a
scan shows it, message by message and dead letter by dead letter (`Agree`), where a missing consumer is
`null` in one and empty in the other, and a payload is in the table as its JSON text says.

* The times may be numbers of any kind (`Clock`).
* The empty realm is listed differently: to the array it means every realm, to the table none.
-/

namespace TyoMq.Storage

open TyoMq.Lib

variable {π σ : Type*} {T D : Type}

/-! ### Answers -/

/-- What a call returns, `none` for an exception.
Kind: D -/
inductive Answer (π : Type*) (T : Type := ℤ)
  /-- Nothing. -/
  | done
  /-- The id of the message that has been queued. -/
  | id (msgId : Option Text)
  /-- The id of the message that has been given up, if there was one. -/
  | dead (msgId : Option (Option Text))
  /-- Messages. -/
  | entries (l : Option (List (Entry π T)))
  /-- Dead letters. -/
  | letters (l : Option (List (DeadLetter π T)))
  /-- How many messages there are. -/
  | count (n : Option ℕ)
  /-- How many messages and dead letters are gone. -/
  | purged (n : ℕ)
  deriving DecidableEq

/-- A dead letter with its consumer `null` where it is empty.
Kind: D -/
def DeadLetter.toNull (d : DeadLetter π T) : DeadLetter π T := { d with entry := d.entry.toNull }

/-- An answer with the consumers `null` where they are empty.
Kind: D -/
def Answer.toNull : Answer π T → Answer π T
  | .entries l => .entries (l.map (List.map Entry.toNull))
  | .letters l => .letters (l.map (List.map DeadLetter.toNull))
  | answer => answer

/-- What a store answers to a call.
Kind: D -/
def Store.answer (S : Store π σ T D) (s : σ) (c : Call π T D) : Answer π T :=
  match c.op with
  | .enqueue realm event message generated => .id (S.enqueue s c.now realm event message generated).2
  | .dequeue realm event consumer => .entries (S.dequeue s c.now realm event consumer).2
  | .ack _ => .done
  | .deadLetter msgId reason => .dead (S.deadLetter s c.now msgId reason).2
  | .listDlq realm => .letters (S.listDlq s c.now realm).2
  | .discardDlq _ _ => .done
  | .countQueued realm event consumer => .count (S.countQueued s c.now realm event consumer).2
  | .purgeRealm realm => .purged (S.purgeRealm s c.now realm).2

/-- What a store answers to some calls, one after the other.
Kind: D -/
def Store.answers (S : Store π σ T D) (s : σ) : List (Call π T D) → List (Answer π T)
  | [] => []
  | c :: calls => S.answer s c :: S.answers (S.step s c) calls

/-! ### Payloads in JSON -/

section Copied

variable {copy : π → π}

/-- The entry with the payload that its JSON text says.
Kind: D -/
def Entry.copied (copy : π → π) (e : Entry π T) : Entry π T := { e with message := copy e.message }

/-- The dead letter with the payload that its JSON text says.
Kind: D -/
def DeadLetter.copied (copy : π → π) (d : DeadLetter π T) : DeadLetter π T :=
  { d with entry := d.entry.copied copy }

/-- A payload that JSON leaves alone.
Kind: L -/
theorem Entry.copied_eq_self {e : Entry π T} (h : copy e.message = e.message) : e.copied copy = e := by
  rw [copied, h]

theorem DeadLetter.copied_eq_self {d : DeadLetter π T} (h : copy d.entry.message = d.entry.message) :
    d.copied copy = d := by
  rw [copied, Entry.copied_eq_self h]

/-- An operation with the payload that its JSON text says.
Kind: D -/
def Op.copied (copy : π → π) : Op π D → Op π D
  | .enqueue realm event message generated =>
      .enqueue realm event { message with payload := copy message.payload } generated
  | op => op

/-- A call whose strings are well formed is written with its texts as they are.
Kind: L -/
theorem Call.written_eq {c : Call π T D} (h : c.written id = c) :
    c.written copy = ⟨c.now, c.op.copied copy⟩ := by
  obtain ⟨now, op⟩ := c
  have hop : op.written id = op := congrArg Call.op h
  suffices hcopied : op.written copy = op.copied copy from congrArg (Call.mk now) hcopied
  cases op with
  | enqueue realm event message generated =>
      obtain ⟨id, consumer, consumer_id, payload, producer, ttl⟩ := message
      simp only [Op.written, Message.written, Op.enqueue.injEq, Message.mk.injEq] at hop
      obtain ⟨hrealm, hevent, ⟨hid, hconsumer, hconsumer_id, -, hproducer, -⟩, hgenerated⟩ := hop
      simp only [Op.written, Message.written, Op.copied, hrealm, hevent, hid, hconsumer,
        hconsumer_id, hproducer, hgenerated]
  | _ => exact hop

end Copied

/-- Two lists with the same image stay so when what the image tells apart goes from both.
Kind: L -/
theorem map_filter_eq {α β γ : Type*} {f : α → γ} {g : β → γ} {l : List α} {l' : List β}
    (h : l.map f = l'.map g) (q : γ → Bool) {p : α → Bool} {r : β → Bool}
    (hp : ∀ a ∈ l, q (f a) = p a) (hr : ∀ b ∈ l', q (g b) = r b) :
    (l.filter p).map f = (l'.filter r).map g := by
  calc (l.filter p).map f
      = (l.map f).filter q := by
        rw [List.filter_map]
        exact congrArg _ (List.filter_congr fun a ha => (hp a ha).symm)
    _ = (l'.map g).filter q := by rw [h]
    _ = (l'.filter r).map g := by
        rw [List.filter_map]
        exact congrArg _ (List.filter_congr fun b hb => hr b hb)

theorem Entry.legible_copied [LinearOrder T] [Zero T] [Clock T D] {copy : π → π} {e : Entry π T} :
    (e.copied copy).Legible ↔ e.Legible := by
  rw [legible_iff, legible_iff]
  exact Iff.rfl

theorem Entry.legible_toNull [LinearOrder T] [Zero T] [Clock T D] {e : Entry π T} :
    e.toNull.Legible ↔ e.Legible := by
  rw [legible_iff, legible_iff]
  have hconsumer : (∀ c ∈ orNull (e.consumer.getD []), 0 ∉ c) ↔ ∀ c ∈ e.consumer, 0 ∉ c := by
    rcases e.consumer with _ | c
    · simp [orNull]
    · simp only [Option.getD_some, orNull]
      split_ifs with h <;> simp [h]
  simp only [toNull, hconsumer]
  rfl

/-! ### The simulation -/

section Simulation

variable [LinearOrder T] [Zero T] [Clock T D] {copy : π → π}

/-- The message that a dead letter is made of.
Source: `lib/storage/memory.js`, `MemoryStore.prototype.deadLetter`
Kind: D -/
def MemoryStore.found (s : MemoryStore π T) (msgId : Text) : Option (Entry π T) :=
  (s.messages.filter fun e => e.id = msgId).getLast?

/-- The message that a dead letter is made of.
Source: `lib/storage/sqlite.js`, `SQLiteStore.prototype.deadLetter`
Kind: D -/
def SQLiteStore.found (s : SQLiteStore π T) (msgId : Text) : Option (Entry π T) :=
  s.messages.scan.find? fun e => e.id = msgId

/-- What a call asks the table to read can be read as it was written: the messages of a queue that have
not expired, the message with an id, or the dead letters of a realm.
Kind: D -/
def Legible (copy : π → π) (m : MemoryStore π T) (c : Call π T D) : Prop :=
  match c.op with
  | .dequeue realm event consumer =>
      ∀ e ∈ m.messages, (e.expires_at.all fun t => t = 0 ∨ c.now < t) = true →
        e.isIn (realmOr realm) event consumer = true → e.Legible ∧ copy e.message = e.message
  | .deadLetter msgId _ => ∀ e ∈ m.messages, e.id = msgId → e.Legible
  | .listDlq realm =>
      realm ≠ some [] ∧ ∀ d ∈ m.dlq, (∀ r ∈ realm, d.entry.realm = r) →
        (∀ reason ∈ d.reason, 0 ∉ reason) ∧ copy d.entry.message = d.entry.message
  | _ => True

/-- The array is the table.
Kind: D -/
structure Agree (copy : π → π) (seen : List Text) (m : MemoryStore π T) (s : SQLiteStore π T) :
    Prop where
  /-- The messages are the same. -/
  messages : m.messages.map (Entry.copied copy) = s.messages.scan.map Entry.toNull
  /-- The dead letters are the same. -/
  dlq : m.dlq.map (DeadLetter.copied copy) = s.dlq.scan.map DeadLetter.toNull
  /-- Every row has a consumer. -/
  consumer : ∀ e ∈ s.messages.scan, e.consumer.isSome = true
  /-- None expires at time zero. -/
  positive : ∀ e ∈ s.messages.scan, ∀ x ∈ e.expires_at, 0 < x
  /-- The rows have ids that have been used. -/
  used : ∀ e ∈ s.messages.scan, e.id ∈ seen
  /-- No two have the same. -/
  distinct : (s.messages.scan.map fun e => e.id).Nodup
  /-- A dead letter has an id that has been used, and that no row has. -/
  dead : ∀ d ∈ s.dlq.scan, d.entry.id ∈ seen ∧ ∀ e ∈ s.messages.scan, e.id ≠ d.entry.id
  /-- It has been read before it was filed. -/
  letters : ∀ d ∈ s.dlq.scan, d.entry.Legible

namespace Agree

variable {seen : List Text} {m : MemoryStore π T} {s : SQLiteStore π T} {now : T}

theorem init : Agree copy [] (MemoryStore.init : MemoryStore π T) SQLiteStore.init := by
  refine ⟨rfl, rfl, ?_, ?_, ?_, List.nodup_nil, ?_, ?_⟩ <;>
    exact fun _ h => absurd h List.not_mem_nil

/-- A message of the array is a row, as far as it is the same for both.
Kind: L -/
theorem exists_row (h : Agree copy seen m s) {e : Entry π T} (he : e ∈ m.messages) :
    ∃ row ∈ s.messages.scan, row.toNull = e.copied copy := by
  have hmem := List.mem_map_of_mem (f := Entry.copied copy) he
  rw [h.messages] at hmem
  exact List.mem_map.mp hmem

/-- Messages go from both.
Kind: L -/
theorem filter (h : Agree copy seen m s) {m' : MemoryStore π T} {s' : SQLiteStore π T}
    {p : Entry π T → Bool} (hcopy : ∀ e, p (e.copied copy) = p e) (hnull : ∀ e, p e.toNull = p e)
    (hm : m'.messages = m.messages.filter p) (hs : s'.messages.scan = s.messages.scan.filter p)
    (hmdlq : m'.dlq = m.dlq) (hsdlq : s'.dlq = s.dlq) : Agree copy seen m' s' where
  messages := by
    rw [hm, hs]
    exact map_filter_eq h.messages p (fun e _ => hcopy e) fun e _ => hnull e
  dlq := by rw [hmdlq, hsdlq, h.dlq]
  consumer e he := by
    rw [hs] at he
    exact h.consumer e (List.mem_of_mem_filter he)
  positive e he := by
    rw [hs] at he
    exact h.positive e (List.mem_of_mem_filter he)
  used e he := by
    rw [hs] at he
    exact h.used e (List.mem_of_mem_filter he)
  distinct := by
    rw [hs]
    exact h.distinct.sublist (List.filter_sublist.map _)
  dead d hd := by
    rw [hsdlq] at hd
    rw [hs]
    exact ⟨(h.dead d hd).1, fun e he => (h.dead d hd).2 e (List.mem_of_mem_filter he)⟩
  letters d hd := by
    rw [hsdlq] at hd
    exact h.letters d hd

/-- Expired messages go from both.
Kind: L -/
theorem purgeExpired (h : Agree copy seen m s) (now : T) :
    Agree copy seen (m.purgeExpired now) (s.purgeExpired now) := by
  apply h.filter (p := Entry.alive now) (fun _ => rfl) (fun _ => rfl)
  · apply MemoryStore.purgeExpired_messages
    intro e he
    obtain ⟨row, hrow, heq⟩ := h.exists_row he
    have hexpires : row.expires_at = e.expires_at := congrArg (fun e => e.expires_at) heq
    rw [← hexpires]
    exact h.positive row hrow
  · exact SQLiteStore.purgeExpired_scan s now
  · rfl
  · rfl

/-- A message comes to both.
Kind: L -/
theorem append (h : Agree copy seen m s) {m' : MemoryStore π T} {s' : SQLiteStore π T}
    {e row : Entry π T} (heq : e.copied copy = row.toNull) (hnew : row.id ∉ seen)
    (hconsumer : row.consumer.isSome = true) (hpos : ∀ x ∈ row.expires_at, 0 < x)
    (hm : m'.messages = m.messages ++ [e]) (hs : s'.messages.scan = s.messages.scan ++ [row])
    (hmdlq : m'.dlq = m.dlq) (hsdlq : s'.dlq = s.dlq) : Agree copy (seen ++ [row.id]) m' s' := by
  have hmem : ∀ e' ∈ s'.messages.scan, e' ∈ s.messages.scan ∨ e' = row := by
    intro e' he'
    rw [hs, List.mem_append, List.mem_singleton] at he'
    exact he'
  refine ⟨?_, ?_, fun e' he' => ?_, fun e' he' => ?_, fun e' he' => ?_, ?_, fun d hd => ⟨?_, ?_⟩,
    fun d hd => ?_⟩
  · rw [hm, hs, List.map_append, List.map_append, h.messages, List.map_singleton, List.map_singleton,
      heq]
  · rw [hmdlq, hsdlq, h.dlq]
  · rcases hmem e' he' with hold | rfl
    · exact h.consumer e' hold
    · exact hconsumer
  · rcases hmem e' he' with hold | rfl
    · exact h.positive e' hold
    · exact hpos
  · rcases hmem e' he' with hold | rfl
    · exact List.mem_append_left _ (h.used e' hold)
    · exact List.mem_append_right _ (List.mem_singleton_self _)
  · rw [hs, List.map_append, List.map_singleton]
    apply h.distinct.append (List.nodup_singleton _)
    intro id hid heq'
    obtain ⟨e', he', rfl⟩ := List.mem_map.mp hid
    exact hnew (List.mem_singleton.mp heq' ▸ h.used e' he')
  · rw [hsdlq] at hd
    exact List.mem_append_left _ (h.dead d hd).1
  · rw [hsdlq] at hd
    intro e' he'
    rcases hmem e' he' with hold | rfl
    · exact (h.dead d hd).2 e' hold
    · rintro hid
      exact hnew (hid ▸ (h.dead d hd).1)
  · rw [hsdlq] at hd
    exact h.letters d hd

/-- Dead letters go from both.
Kind: L -/
theorem filter_dlq (h : Agree copy seen m s) {m' : MemoryStore π T} {s' : SQLiteStore π T}
    {p : DeadLetter π T → Bool} (hcopy : ∀ d, p (d.copied copy) = p d) (hnull : ∀ d, p d.toNull = p d)
    (hm : m'.messages = m.messages) (hs : s'.messages = s.messages) (hmdlq : m'.dlq = m.dlq.filter p)
    (hsdlq : s'.dlq.scan = s.dlq.scan.filter p) : Agree copy seen m' s' := by
  obtain ⟨hmessages, hdlq, hconsumer, hpositive, hused, hdistinct, hdead, hletters⟩ := h
  rw [← hs] at hmessages hconsumer hpositive hused hdistinct hdead
  refine ⟨hm ▸ hmessages, ?_, hconsumer, hpositive, hused, hdistinct, fun d hd => ?_, fun d hd => ?_⟩
  · rw [hmdlq, hsdlq]
    exact map_filter_eq hdlq p (fun d _ => hcopy d) fun d _ => hnull d
  · rw [hsdlq] at hd
    exact hdead d (List.mem_of_mem_filter hd)
  · rw [hsdlq] at hd
    exact hletters d (List.mem_of_mem_filter hd)

/-- A dead letter comes to both.
Kind: L -/
theorem append_dlq (h : Agree copy seen m s) {m' : MemoryStore π T} {s' : SQLiteStore π T}
    {d row : DeadLetter π T} (heq : d.copied copy = row.toNull) (hused : row.entry.id ∈ seen)
    (hgone : ∀ e ∈ s.messages.scan, e.id ≠ row.entry.id) (hlegible : row.entry.Legible)
    (hm : m'.messages = m.messages) (hs : s'.messages = s.messages)
    (hmdlq : m'.dlq = m.dlq ++ [d]) (hsdlq : s'.dlq.scan = s.dlq.scan ++ [row]) :
    Agree copy seen m' s' := by
  obtain ⟨hmessages, hdlq, hconsumer, hpositive, hused', hdistinct, hdead, hletters⟩ := h
  rw [← hs] at hmessages hconsumer hpositive hused' hdistinct hdead hgone
  refine ⟨hm ▸ hmessages, ?_, hconsumer, hpositive, hused', hdistinct, fun d' hd' => ?_,
    fun d' hd' => ?_⟩
  · rw [hmdlq, hsdlq, List.map_append, List.map_append, hdlq, List.map_singleton,
      List.map_singleton, heq]
  · rw [hsdlq, List.mem_append, List.mem_singleton] at hd'
    rcases hd' with hold | rfl
    · exact hdead d' hold
    · exact ⟨hused, hgone⟩
  · rw [hsdlq, List.mem_append, List.mem_singleton] at hd'
    rcases hd' with hold | rfl
    · exact hletters d' hold
    · exact hlegible

/-! ### One call -/

theorem enqueue (h : Agree copy seen m s) (defaultTtl : D) (hpos : 0 < now) (realm event : Text)
    {message : Message π D} {generated : Text} (hnew : message.idOr generated ∉ seen) :
    Agree copy (seen ++ [message.idOr generated])
        (m.enqueue defaultTtl now realm event message generated).1
        (s.enqueue defaultTtl now realm event { message with payload := copy message.payload }
          generated).1 ∧
      (m.enqueue defaultTtl now realm event message generated).2 =
        (s.enqueue defaultTtl now realm event { message with payload := copy message.payload }
          generated).2 := by
  have hpurged := h.purgeExpired now
  have hfree : ((s.purgeExpired now).messages.scan.any fun row =>
      row.id = message.idOr generated) = false := by
    rw [List.any_eq_false]
    intro row hrow hid
    exact hnew (of_decide_eq_true hid ▸ hpurged.used row hrow)
  have henqueue : s.enqueue defaultTtl now realm event
      { message with payload := copy message.payload } generated =
      ({ s.purgeExpired now with
          messages := (s.purgeExpired now).messages.insert (queued defaultTtl now realm event
            { message with payload := copy message.payload } generated) },
        some (message.idOr generated)) :=
    if_neg (ne_true_of_eq_false hfree)
  rw [henqueue]
  have hrow : (queued defaultTtl now realm event { message with payload := copy message.payload }
      generated).id ∉ seen := hnew
  refine ⟨hpurged.append ?_ hrow rfl ?_ rfl (RowTable.scan_insert _ _) rfl rfl, rfl⟩
  · rw [queued, Entry.toNull, Option.getD_some]
    rfl
  · exact Clock.expiresAt_pos hpos

theorem ack (h : Agree copy seen m s) (msgId : Text) : Agree copy seen (m.ack msgId) (s.ack msgId) := by
  apply h.filter (p := fun e => e.id ≠ msgId) (fun _ => rfl) (fun _ => rfl) rfl
  · rw [SQLiteStore.ack, RowTable.scan_deleteWhere]
    exact List.filter_congr fun e _ => by simp
  · rfl
  · rfl

/-- A queue is counted and listed alike.
Kind: L -/
theorem filter_isIn (h : Agree copy seen m s) {p q : Entry π T → Bool}
    (hcopy : ∀ e, p (e.copied copy) = p e)
    (hpq : ∀ e : Entry π T, e.consumer.isSome = true → p e.toNull = q e) :
    (m.messages.filter p).map (Entry.copied copy) = (s.messages.scan.filter q).map Entry.toNull := by
  exact map_filter_eq h.messages p (fun e _ => hcopy e) fun e he => hpq e (h.consumer e he)

theorem dequeue (h : Agree copy seen m s) {realm event consumer : Text}
    (hlegible : ∀ e ∈ (m.dequeue now realm event consumer).2, e.Legible ∧ copy e.message = e.message) :
    Agree copy seen (m.dequeue now realm event consumer).1 (s.dequeue now realm event consumer).1 ∧
      some (m.dequeue now realm event consumer).2 =
        (s.dequeue now realm event consumer).2.map (List.map Entry.toNull) := by
  have hpurged := h.purgeExpired now
  refine ⟨hpurged, ?_⟩
  set rows := (s.purgeExpired now).messages.scan.filter fun row =>
    row.realm = realmOr realm ∧ row.event = event ∧ row.consumer = some consumer with hrows
  have hsame : (m.dequeue now realm event consumer).2 = rows.map Entry.toNull := by
    have hfilter := hpurged.filter_isIn (p := Entry.isIn (realmOr realm) event consumer)
      (q := fun row => row.realm = realmOr realm ∧ row.event = event ∧ row.consumer = some consumer)
      (fun _ => rfl) fun e he => by
        obtain ⟨c, hc⟩ := Option.isSome_iff_exists.mp he
        simp [Entry.isIn, Entry.toNull, orNull_getD, hc]
    have hself : (m.dequeue now realm event consumer).2.map (Entry.copied copy) =
        (m.dequeue now realm event consumer).2 :=
      (List.map_congr_left (g := id) fun e he => Entry.copied_eq_self (hlegible e he).2).trans
        (List.map_id _)
    rw [← hself, hrows, ← hfilter]
    rfl
  have hread : Sqlite.readAll Entry.read rows = some rows := by
    rw [Sqlite.readAll_eq_self_iff]
    intro row hrow
    have hmem : row.toNull ∈ (m.dequeue now realm event consumer).2 := by
      rw [hsame]
      exact List.mem_map_of_mem hrow
    exact Entry.read_eq_self_iff.mpr (Entry.legible_toNull.mp (hlegible _ hmem).1)
  rw [hsame, SQLiteStore.dequeue, ← hrows, hread]
  rfl

theorem countQueued (h : Agree copy seen m s) (now : T) (realm : Text) (event consumer : Option Text) :
    Agree copy seen (m.countQueued now realm event consumer).1
        (s.countQueued now realm event consumer).1 ∧
      (m.countQueued now realm event consumer).2 = (s.countQueued now realm event consumer).2 := by
  have hpurged := h.purgeExpired now
  have hsame := hpurged.filter_isIn
    (p := fun entry => entry.realm = realmOr realm ∧ (event.all fun e => entry.event = e) ∧
      consumer.all fun c => entry.consumer.getD [] = c)
    (q := fun row => row.realm = realmOr realm ∧ (event.all fun e => row.event = e) ∧
      consumer.all fun c => row.consumer = some c) (fun _ => rfl) fun e he => by
        obtain ⟨c, hc⟩ := Option.isSome_iff_exists.mp he
        simp [Entry.toNull, orNull_getD, hc]
  refine ⟨hpurged, congrArg some ?_⟩
  have hlength := congrArg List.length hsame
  rwa [List.length_map, List.length_map] at hlength

/-- The rows with an id, when no two have the same.
Kind: L -/
theorem filter_id (h : Agree copy seen m s) (msgId : Text) :
    s.messages.scan.filter (fun e => e.id = msgId) = (s.found msgId).toList := by
  have hgeneral : ∀ l : List (Entry π T), (l.map fun e => e.id).Nodup →
      l.filter (fun e => e.id = msgId) = (l.find? fun e => e.id = msgId).toList := by
    intro l hl
    induction l with
    | nil => rfl
    | cons e l ih =>
        obtain ⟨he, hl⟩ := List.nodup_cons.mp hl
        by_cases hid : e.id = msgId
        · have hrest : l.filter (fun e => e.id = msgId) = [] := by
            rw [List.filter_eq_nil_iff]
            intro e' he' heq
            apply he
            show e.id ∈ _
            rw [hid, ← of_decide_eq_true heq]
            exact List.mem_map_of_mem he'
          simp [hid, hrest]
        · simp [hid, ih hl]
  exact hgeneral _ h.distinct

/-- The same message is found to be given up.
Kind: L -/
theorem found (h : Agree copy seen m s) (msgId : Text) :
    (m.found msgId).map (Entry.copied copy) = (s.found msgId).map Entry.toNull := by
  have hsame : (m.messages.filter fun e => e.id = msgId).map (Entry.copied copy) =
      (s.messages.scan.filter fun e => e.id = msgId).map Entry.toNull :=
    map_filter_eq h.messages (fun e => e.id = msgId) (fun _ _ => rfl) fun _ _ => rfl
  rw [MemoryStore.found, ← List.getLast?_map, hsame, h.filter_id]
  rcases s.found msgId with _ | row
  · rfl
  · rfl

theorem deadLetter (h : Agree copy seen m s) (now : T) {msgId : Text} (reason : Text)
    (hlegible : ∀ e ∈ m.found msgId, e.Legible) :
    Agree copy seen (m.deadLetter now msgId reason).1 (s.deadLetter now msgId reason).1 ∧
      some (m.deadLetter now msgId reason).2 = (s.deadLetter now msgId reason).2 := by
  have hsame := h.found msgId
  rw [MemoryStore.deadLetter, SQLiteStore.deadLetter, ← MemoryStore.found, ← SQLiteStore.found]
  rcases hrow : s.found msgId with _ | row
  · rw [hrow, Option.map_none, Option.map_eq_none_iff] at hsame
    rw [hsame]
    refine ⟨h.filter (p := fun e => e.id ≠ msgId) (fun _ => rfl) (fun _ => rfl) rfl ?_ rfl rfl, rfl⟩
    refine (List.filter_eq_self.mpr fun e he => ?_).symm
    simpa using List.find?_eq_none.mp hrow e he
  · rw [hrow, Option.map_some, Option.map_eq_some_iff] at hsame
    obtain ⟨e, he, heq⟩ := hsame
    obtain rfl : row.id = msgId := by simpa using List.find?_some hrow
    have hmem := List.mem_of_find?_eq_some hrow
    have hrowlegible : row.Legible := by
      rw [← Entry.legible_toNull, ← heq, Entry.legible_copied]
      exact hlegible e he
    have hgone : ∀ e ∈ s.messages.scan.filter (fun e => !decide (e.id = row.id)), e.id ≠ row.id := by
      intro e he
      simpa using (List.mem_filter.mp he).2
    have hrest : Agree copy seen ⟨m.messages.filter fun e => e.id ≠ row.id, m.dlq⟩
        ⟨s.messages.deleteWhere fun e => e.id = row.id, s.dlq⟩ := by
      refine h.filter (p := fun e => e.id ≠ row.id) (fun _ => rfl) (fun _ => rfl) rfl ?_ rfl rfl
      rw [RowTable.scan_deleteWhere]
      exact List.filter_congr fun e _ => by simp
    rw [he]
    dsimp only
    rw [Entry.read_eq_self_iff.mpr hrowlegible]
    have hcopied : (⟨e, orNull reason, now⟩ : DeadLetter π T).copied copy =
        (⟨row, orNull reason, now⟩ : DeadLetter π T).toNull := by
      rw [DeadLetter.copied, DeadLetter.toNull, heq]
    refine ⟨hrest.append_dlq hcopied (h.used row hmem) ?_ hrowlegible rfl rfl rfl ?_, ?_⟩
    · rw [RowTable.scan_deleteWhere]
      exact hgone
    · apply RowTable.scan_replaceWhere_of_new
      intro d hd
      exact decide_eq_false ((h.dead d hd).2 row hmem).symm
    · have hid : e.id = row.id := congrArg (fun e => e.id) heq
      exact congrArg (fun id => some (some id)) hid

theorem listDlq (h : Agree copy seen m s) {realm : Option Text} (harg : realm ≠ some [])
    (hlegible : ∀ d ∈ m.listDlq realm,
      (∀ reason ∈ d.reason, 0 ∉ reason) ∧ copy d.entry.message = d.entry.message) :
    some (m.listDlq realm) = (s.listDlq realm).map (List.map DeadLetter.toNull) := by
  set rows := s.dlq.scan.filter fun d => realm.all fun r => d.entry.realm = r with hrows
  have hsame : m.listDlq realm = rows.map DeadLetter.toNull := by
    have hfilter : (m.listDlq realm).map (DeadLetter.copied copy) = rows.map DeadLetter.toNull := by
      refine map_filter_eq h.dlq (fun d => realm.all fun r => d.entry.realm = r) (fun d _ => ?_)
        fun _ _ => rfl
      rcases realm with _ | realm
      · rfl
      · have hne : realm ≠ [] := fun heq => harg (congrArg some heq)
        show decide (d.entry.realm = realm) = decide (realm = [] ∨ d.entry.realm = realm)
        simp only [hne, false_or]
    have hself : (m.listDlq realm).map (DeadLetter.copied copy) = m.listDlq realm :=
      (List.map_congr_left (g := id) fun d hd => DeadLetter.copied_eq_self (hlegible d hd).2).trans
        (List.map_id _)
    rw [← hself, hfilter]
  have hread : Sqlite.readAll DeadLetter.read rows = some rows := by
    rw [Sqlite.readAll_eq_self_iff]
    intro row hrow
    have hmem : row.toNull ∈ m.listDlq realm := by
      rw [hsame]
      exact List.mem_map_of_mem hrow
    have hreason : row.reason.map Sqlite.cut = row.reason :=
      map_cut_eq_self_iff.mpr (hlegible _ hmem).1
    rw [DeadLetter.read, Entry.read_eq_self_iff.mpr (h.letters row (List.mem_of_mem_filter hrow)),
      Option.map_some, hreason]
  rw [hsame, SQLiteStore.listDlq, ← hrows, hread]
  rfl

theorem discardDlq (h : Agree copy seen m s) (msgId : Text) :
    Agree copy seen (m.discardDlq msgId) (s.discardDlq msgId) := by
  refine h.filter_dlq (p := fun d => d.entry.id ≠ msgId) (fun _ => rfl) (fun _ => rfl) rfl rfl rfl ?_
  rw [SQLiteStore.discardDlq, RowTable.scan_deleteWhere]
  exact List.filter_congr fun d _ => by simp

/-- As many go as are in the realm.
Kind: L -/
theorem length_filter_realm {ρ : Type*} (l : List ρ) (p : ρ → Bool) :
    l.length - (l.filter fun r => !p r).length = (l.filter p).length := by
  have h := List.length_eq_length_filter_add (l := l) p
  omega

theorem purgeRealm (h : Agree copy seen m s) (realm : Text) :
    Agree copy seen (m.purgeRealm realm).1 (s.purgeRealm realm).1 ∧
      (m.purgeRealm realm).2 = (s.purgeRealm realm).2 := by
  have hmessages : Agree copy seen ⟨m.messages.filter fun e => e.realm ≠ realm, m.dlq⟩
      ⟨s.messages.deleteWhere fun e => e.realm = realm, s.dlq⟩ := by
    refine h.filter (p := fun e => e.realm ≠ realm) (fun _ => rfl) (fun _ => rfl) rfl ?_ rfl rfl
    rw [RowTable.scan_deleteWhere]
    exact List.filter_congr fun e _ => by simp
  constructor
  · refine hmessages.filter_dlq (p := fun d => d.entry.realm ≠ realm) (fun _ => rfl) (fun _ => rfl)
      rfl rfl rfl ?_
    rw [SQLiteStore.purgeRealm, RowTable.scan_deleteWhere]
    exact List.filter_congr fun d _ => by simp
  · have hgone := length_filter_realm m.messages fun e => decide (e.realm = realm)
    have hgone' := length_filter_realm m.dlq fun d => decide (d.entry.realm = realm)
    have hle := List.length_filter_le (fun e => !decide (e.realm = realm)) m.messages
    have hle' := List.length_filter_le (fun d => !decide (d.entry.realm = realm)) m.dlq
    have hmemory : (m.purgeRealm realm).2 = (m.messages.filter fun e => e.realm = realm).length +
        (m.dlq.filter fun d => d.entry.realm = realm).length := by
      simp only [MemoryStore.purgeRealm, ne_eq, decide_not]
      omega
    have hqueued : (m.messages.filter fun e => e.realm = realm).map (Entry.copied copy) =
        (s.messages.scan.filter fun e => e.realm = realm).map Entry.toNull :=
      map_filter_eq h.messages (fun e => e.realm = realm) (fun _ _ => rfl) fun _ _ => rfl
    have hdead : (m.dlq.filter fun d => d.entry.realm = realm).map (DeadLetter.copied copy) =
        (s.dlq.scan.filter fun d => d.entry.realm = realm).map DeadLetter.toNull :=
      map_filter_eq h.dlq (fun d => d.entry.realm = realm) (fun _ _ => rfl) fun _ _ => rfl
    rw [hmemory, SQLiteStore.purgeRealm, ← List.length_map (Entry.copied copy), hqueued,
      List.length_map, ← List.length_map (DeadLetter.copied copy), hdead, List.length_map]

/-- Every call keeps them the same, and is answered alike, when what it reads is legible.
Kind: P -/
theorem step (h : Agree copy seen m s) (defaultTtl : D) {c : Call π T D} (hpos : 0 < c.now)
    (hnew : ∀ id ∈ c.newIds, id ∉ seen) (hwell : c.written id = c) (hlegible : Legible copy m c) :
    Agree copy (seen ++ c.newIds) ((MemoryStore.store defaultTtl).step m c)
        ((SQLiteStore.store defaultTtl).step s (c.written copy)) ∧
      (MemoryStore.store defaultTtl).answer m c =
        ((SQLiteStore.store defaultTtl).answer s (c.written copy)).toNull := by
  rw [Call.written_eq hwell]
  obtain ⟨now, op⟩ := c
  cases op with
  | enqueue realm event message generated =>
      have hcall := h.enqueue defaultTtl hpos realm event (hnew _ (List.mem_singleton_self _))
      exact ⟨hcall.1, congrArg Answer.id hcall.2⟩
  | dequeue realm event consumer =>
      have hread : ∀ e ∈ (m.dequeue now realm event consumer).2,
          e.Legible ∧ copy e.message = e.message := by
        intro e he
        obtain ⟨hkept, hqueue⟩ := List.mem_filter.mp he
        obtain ⟨hmem, hunexpired⟩ := List.mem_filter.mp hkept
        exact hlegible e hmem hunexpired hqueue
      have hcall := h.dequeue hread
      rw [Call.newIds, List.append_nil]
      exact ⟨hcall.1, congrArg Answer.entries hcall.2⟩
  | ack msgId =>
      rw [Call.newIds, List.append_nil]
      exact ⟨h.ack msgId, rfl⟩
  | deadLetter msgId reason =>
      have hread : ∀ e ∈ m.found msgId, e.Legible := by
        intro e he
        obtain ⟨hmem, hid⟩ := List.mem_filter.mp (List.mem_of_getLast? he)
        exact hlegible e hmem (of_decide_eq_true hid)
      have hcall := h.deadLetter now reason hread
      rw [Call.newIds, List.append_nil]
      exact ⟨hcall.1, congrArg Answer.dead hcall.2⟩
  | listDlq realm =>
      have hread : ∀ d ∈ m.listDlq realm,
          (∀ reason ∈ d.reason, 0 ∉ reason) ∧ copy d.entry.message = d.entry.message := by
        intro d hd
        obtain ⟨hmem, hrealm⟩ := List.mem_filter.mp hd
        refine hlegible.2 d hmem ?_
        rintro r rfl
        exact (of_decide_eq_true hrealm).resolve_left fun hnil => hlegible.1 (congrArg some hnil)
      rw [Call.newIds, List.append_nil]
      exact ⟨h, congrArg Answer.letters (h.listDlq hlegible.1 hread)⟩
  | discardDlq msgId realm =>
      rw [Call.newIds, List.append_nil]
      exact ⟨h.discardDlq msgId, rfl⟩
  | countQueued realm event consumer =>
      have hcall := h.countQueued now realm event consumer
      rw [Call.newIds, List.append_nil]
      exact ⟨hcall.1, congrArg Answer.count hcall.2⟩
  | purgeRealm realm =>
      have hcall := h.purgeRealm realm
      rw [Call.newIds, List.append_nil]
      exact ⟨hcall.1, congrArg Answer.purged hcall.2⟩

/-- They answer every run alike from there.
Kind: P -/
theorem answers (h : Agree copy seen m s) (defaultTtl : D) {calls : List (Call π T D)}
    (hpos : ∀ c ∈ calls, 0 < c.now) (hdistinct : (seen ++ ids calls).Nodup)
    (hwell : ∀ c ∈ calls, c.written id = c)
    (hlegible : EachStep (MemoryStore.store defaultTtl).step (Legible copy) m calls) :
    (MemoryStore.store defaultTtl).answers m calls =
      ((SQLiteStore.store defaultTtl).answers s (calls.map (Call.written copy))).map
        Answer.toNull := by
  induction calls generalizing seen m s with
  | nil => rfl
  | cons c calls ih =>
      rw [ids, List.flatMap_cons, ← ids] at hdistinct
      have hnew : ∀ id ∈ c.newIds, id ∉ seen := by
        intro id hid hseen
        exact (List.nodup_append.mp hdistinct).2.2 id hseen id (List.mem_append_left _ hid) rfl
      obtain ⟨hnext, hanswer⟩ := h.step defaultTtl (hpos c (List.mem_cons_self ..)) hnew
        (hwell c (List.mem_cons_self ..)) hlegible.1
      rw [← List.append_assoc] at hdistinct
      have hrest := ih hnext (fun c' hc' => hpos c' (List.mem_cons_of_mem _ hc')) hdistinct
        (fun c' hc' => hwell c' (List.mem_cons_of_mem _ hc')) hlegible.2
      rw [List.map_cons, Store.answers, Store.answers, List.map_cons, hanswer, hrest]

end Agree

end Simulation

end TyoMq.Storage
