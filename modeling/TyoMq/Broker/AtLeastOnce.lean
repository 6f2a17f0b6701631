import TyoMq.Broker.Reliable

/-!
# Reliable delivery: a message is not given up before it has been handed over

What the server reports, against what it has reported before (`Justified`): a message leaves the queue only
when it has been handed over, has spent its attempts, has expired or belongs to a realm that is removed.

* `justified_after`: so it is in every run, however deliveries, acknowledgements, timers, connections and
  the manager's commands interleave.
-/

namespace TyoMq.Broker

open Lib Storage

variable {π κ ς : Type*}

/-! ### Attempts -/

/-- An attempt that has timed out.
Kind: D -/
structure Try where
  /-- The socket that the message was sent to. -/
  socket : Text
  /-- The limit on the attempts at the time. -/
  maxAttempts : Num

/-- The reports of some attempts, one after the other, that come after the first `n`.
Kind: D -/
def trail (id : Text) (content : Content π) (n : ℕ) : List Try → List (Effect π)
  | [] => []
  | t :: tries =>
      .consume t.socket content (some (id, n + 1)) :: .timedOut id (n + 1) t.maxAttempts ::
        trail id content (n + 1) tries

theorem trail_append (id : Text) (content : Content π) (n : ℕ) (tries tries' : List Try) :
    trail id content n (tries ++ tries') =
      trail id content n tries ++ trail id content (n + tries.length) tries' := by
  induction tries generalizing n with
  | nil => simp [trail]
  | cons t tries ih =>
      have hn : n + 1 + tries.length = n + (tries.length + 1) := by omega
      simp only [List.cons_append, trail, ih, List.length_cons, hn]

/-- Each of the attempts was made under a limit that it did not reach.
Kind: D -/
def Short (tries : List Try) : Prop :=
  ∀ n t, tries[n]? = some t → ((n + 1 : ℕ) : Num) < t.maxAttempts

/-- The first attempts, this many, have been made and have timed out without reaching their limit.
Kind: D -/
def TimedOut (log : List (Effect π)) (id : Text) (content : Content π) (attempts : ℕ) : Prop :=
  ∃ tries, tries.length = attempts ∧ Short tries ∧ (trail id content 0 tries).Sublist log

/-- This attempt has been made, to the socket, after all the ones before it.
Kind: D -/
def Sent (log : List (Effect π)) (id : Text) (content : Content π) (attempt : ℕ) : Prop :=
  ∃ socket tries, tries.length + 1 = attempt ∧ Short tries ∧
    (trail id content 0 tries ++ [Effect.consume socket content (some (id, attempt))]).Sublist log

/-- All attempts have been made, and have timed out, and the last one reached the limit.
Kind: D -/
def Exhausted (log : List (Effect π)) (id : Text) (content : Content π) (attempts : ℕ)
    (maxAttempts : Num) : Prop :=
  ∃ tries t, tries.length + 1 = attempts ∧ Short tries ∧ t.maxAttempts = maxAttempts ∧
    maxAttempts ≤ (attempts : Num) ∧ (trail id content 0 (tries ++ [t])).Sublist log

/-! ### What a report takes -/

/-- What has to come before a report.
Kind: D -/
def Justified (before : List (Effect π)) : Effect π → Prop
  | .enqueued _ content => content.producer ≠ some []
  | .consume _ _ none => True
  | .consume _ content (some (id, attempt)) =>
      .enqueued id content ∈ before ∧ ∃ n, attempt = n + 1 ∧ TimedOut before id content n
  | .timedOut id attempt _ => ∃ content, .enqueued id content ∈ before ∧ Sent before id content attempt
  | .answered socket id code =>
      code = 200 → ∃ content attempt, .consume socket content (some (id, attempt)) ∈ before
  | .left id (.acked socket) =>
      ∃ content attempt, .enqueued id content ∈ before ∧
        .consume socket content (some (id, attempt)) ∈ before
  | .left id (.replayed socket) =>
      ∃ content, .enqueued id content ∈ before ∧ .consume socket content none ∈ before
  | .left id (.exhausted attempts maxAttempts) =>
      ∃ content, .enqueued id content ∈ before ∧ Exhausted before id content attempts maxAttempts
  | .left id .expired | .left id .purged => ∃ content, .enqueued id content ∈ before
  | .removed id (.requeued newId) =>
      ∃ content, .enqueued id content ∈ before ∧ .enqueued newId content ∈ before
  | .removed id .discarded | .removed id .purged => ∃ content, .enqueued id content ∈ before

section mono

variable {log log' : List (Effect π)} {id : Text} {content : Content π} {n : ℕ}

theorem TimedOut.mono (h : TimedOut log id content n) (hlog : log.Sublist log') :
    TimedOut log' id content n := by
  obtain ⟨tries, hlen, hshort, hsub⟩ := h
  exact ⟨tries, hlen, hshort, hsub.trans hlog⟩

theorem Sent.mono (h : Sent log id content n) (hlog : log.Sublist log') : Sent log' id content n := by
  obtain ⟨socket, tries, hlen, hshort, hsub⟩ := h
  exact ⟨socket, tries, hlen, hshort, hsub.trans hlog⟩

theorem timedOut_zero : TimedOut log id content 0 :=
  ⟨[], rfl, by simp [Short], List.nil_sublist _⟩

/-- The next attempt.
Kind: L -/
theorem TimedOut.sent (h : TimedOut log id content n) (socket : Text) :
    Sent (log ++ [.consume socket content (some (id, n + 1))]) id content (n + 1) := by
  obtain ⟨tries, hlen, hshort, hsub⟩ := h
  exact ⟨socket, tries, by rw [hlen], hshort, hsub.append (List.Sublist.refl _)⟩

/-- The reports of an attempt that has been made and then has timed out.
Kind: L -/
theorem trail_concat_sublist {tries : List Try} {t : Try} (hlen : tries.length + 1 = n)
    (hsub : (trail id content 0 tries ++ [Effect.consume t.socket content (some (id, n))]).Sublist log) :
    (trail id content 0 (tries ++ [t])).Sublist (log ++ [.timedOut id n t.maxAttempts]) := by
  have htrail : trail id content 0 (tries ++ [t]) =
      trail id content 0 tries ++ [.consume t.socket content (some (id, n))] ++
        [.timedOut id n t.maxAttempts] := by
    rw [trail_append, Nat.zero_add]
    simp only [trail, hlen, List.append_assoc, List.cons_append, List.nil_append]
  rw [htrail]
  exact hsub.append (List.Sublist.refl _)

/-- An attempt times out that does not reach the limit.
Kind: L -/
theorem Sent.timedOut (h : Sent log id content n) {maxAttempts : Num} (hmax : (n : Num) < maxAttempts) :
    TimedOut (log ++ [.timedOut id n maxAttempts]) id content n := by
  obtain ⟨socket, tries, hlen, hshort, hsub⟩ := h
  refine ⟨tries ++ [⟨socket, maxAttempts⟩], by simpa using hlen, ?_, ?_⟩
  · intro i t ht
    rcases Nat.lt_trichotomy i tries.length with hi | rfl | hi
    · rw [List.getElem?_append_left hi] at ht
      exact hshort i t ht
    · rw [List.getElem?_concat_length] at ht
      obtain rfl := Option.some.inj ht
      rw [hlen]
      exact hmax
    · rw [List.getElem?_eq_none (by simpa using Nat.succ_le_of_lt hi)] at ht
      exact absurd ht (by simp)
  · exact trail_concat_sublist hlen hsub

/-- An attempt times out that reaches the limit.
Kind: L -/
theorem Sent.exhausted (h : Sent log id content n) {maxAttempts : Num} (hmax : maxAttempts ≤ (n : Num)) :
    Exhausted (log ++ [.timedOut id n maxAttempts]) id content n maxAttempts := by
  obtain ⟨socket, tries, hlen, hshort, hsub⟩ := h
  exact ⟨tries, ⟨socket, maxAttempts⟩, hlen, hshort, rfl, hmax, trail_concat_sublist hlen hsub⟩

theorem Justified.mono {x : Effect π} (h : Justified log x) (hlog : log.Sublist log') :
    Justified log' x := by
  have hmem : ∀ {y}, y ∈ log → y ∈ log' := fun hy => hlog.subset hy
  rcases x with ⟨id, content⟩ | ⟨socket, content, _ | ⟨id, attempt⟩⟩ | ⟨id, attempt, maxAttempts⟩ |
    ⟨socket, id, code⟩ | ⟨id, how⟩ | ⟨id, how⟩
  · exact h
  · exact h
  · obtain ⟨hid, n, rfl, hout⟩ := h
    exact ⟨hmem hid, n, rfl, hout.mono hlog⟩
  · obtain ⟨content, hid, hsent⟩ := h
    exact ⟨content, hmem hid, hsent.mono hlog⟩
  · intro hcode
    obtain ⟨content, attempt, hconsume⟩ := h hcode
    exact ⟨content, attempt, hmem hconsume⟩
  · rcases how with socket | socket | ⟨attempts, maxAttempts⟩ | _ | _
    · obtain ⟨content, attempt, hid, hconsume⟩ := h
      exact ⟨content, attempt, hmem hid, hmem hconsume⟩
    · obtain ⟨content, hid, hconsume⟩ := h
      exact ⟨content, hmem hid, hmem hconsume⟩
    · obtain ⟨content, hid, tries, t, hlen, hshort, ht, hmax, hsub⟩ := h
      exact ⟨content, hmem hid, tries, t, hlen, hshort, ht, hmax, hsub.trans hlog⟩
    · obtain ⟨content, hid⟩ := h
      exact ⟨content, hmem hid⟩
    · obtain ⟨content, hid⟩ := h
      exact ⟨content, hmem hid⟩
  · rcases how with _ | newId | _
    · obtain ⟨content, hid⟩ := h
      exact ⟨content, hmem hid⟩
    · obtain ⟨content, hid, hnew⟩ := h
      exact ⟨content, hmem hid, hmem hnew⟩
    · obtain ⟨content, hid⟩ := h
      exact ⟨content, hmem hid⟩

end mono

/-- Reports that are justified by what comes before all of them.
Kind: L -/
theorem justified_of_forall {log new : List (Effect π)} (h : ∀ x ∈ new, Justified log x)
    (before : List (Effect π)) (x : Effect π) (after : List (Effect π)) (heq : new = before ++ x :: after) :
    Justified (log ++ before) x :=
  (h x (by rw [heq]; simp)).mono (List.sublist_append_left ..)

/-! ### What every run keeps -/

/-- What a task takes of what has been done.
Kind: D -/
def TaskKept (log : List (Effect π)) : Task π κ ς → Prop
  | .enqueued d => .enqueued d.id d.content ∈ log ∧ d.attempt = 1
  | .dequeued entries _ _ => ∀ e ∈ entries, .enqueued e.id (contentOf e) ∈ log
  | .ackTimeout d _ => .enqueued d.id d.content ∈ log ∧ Sent log d.id d.content d.attempt
  | .retry d => .enqueued d.id d.content ∈ log ∧ TimedOut log d.id d.content d.attempt
  | .listed _ entries => ∀ d ∈ entries, .enqueued d.entry.id (contentOf d.entry) ∈ log
  | .requeued letter newId =>
      .enqueued letter.entry.id (contentOf letter.entry) ∈ log ∧
        .enqueued newId (contentOf letter.entry) ∈ log

theorem TaskKept.mono {log log' : List (Effect π)} {t : Task π κ ς} (h : TaskKept log t)
    (hlog : log.Sublist log') : TaskKept log' t := by
  rcases t with d | ⟨entries, subscription, consumer⟩ | ⟨d, maxAttempts⟩ | d | ⟨id, entries⟩ | ⟨letter, id⟩
  · exact ⟨hlog.subset h.1, h.2⟩
  · exact fun e he => hlog.subset (h e he)
  · exact ⟨hlog.subset h.1, h.2.mono hlog⟩
  · exact ⟨hlog.subset h.1, h.2.mono hlog⟩
  · exact fun d hd => hlog.subset (h d hd)
  · exact ⟨hlog.subset h.1, hlog.subset h.2⟩

/-- What the server holds has been queued, and what it has sent, and each of its reports is justified.
Kind: D -/
structure Kept (s : Server π κ ς) (log : List (Effect π)) : Prop where
  /-- The reports are justified. -/
  grounded : Grounded Justified log
  /-- What is in the queue was put there. -/
  messages : ∀ e ∈ s.store.messages, .enqueued e.id (contentOf e) ∈ log
  /-- The dead letters were in the queue. -/
  letters : ∀ d ∈ s.store.dlq, .enqueued d.entry.id (contentOf d.entry) ∈ log
  /-- What waits for an acknowledgement has been sent. -/
  pending : ∀ id p, s.pendingAcks.get id = some p → ∃ content, .enqueued id content ∈ log ∧
    .consume p.socket content (some (id, p.attempt)) ∈ log
  /-- The tasks have what they take. -/
  tasks : ∀ i t, s.agenda.get i = some t → TaskKept log t

/-- A dead letter was one before, or comes from the queue.
Kind: L -/
theorem mem_dlq_deadLetter {st : MemoryStore π} {now : ℤ} {msgId reason : Text} {d : DeadLetter π}
    (h : d ∈ (st.deadLetter now msgId reason).1.dlq) : d ∈ st.dlq ∨ d.entry ∈ st.messages := by
  unfold MemoryStore.deadLetter at h
  dsimp only at h
  split at h
  · exact Or.inl h
  · next found hlast =>
    rcases List.mem_append.mp h with h | h
    · exact Or.inl h
    · obtain rfl := List.mem_singleton.mp h
      exact Or.inr (List.mem_filter.mp (List.mem_of_getLast? hlast)).1

namespace Kept

variable {s s' : Server π κ ς} {log : List (Effect π)}

/-- Justified reports, and a state in which everything was there before or has what it takes.
Kind: L -/
theorem report (h : Kept s log) {new : List (Effect π)}
    (hnew : ∀ before x after, new = before ++ x :: after → Justified (log ++ before) x)
    (hmessages : ∀ e ∈ s'.store.messages,
      e ∈ s.store.messages ∨ .enqueued e.id (contentOf e) ∈ log ++ new)
    (hletters : ∀ d ∈ s'.store.dlq,
      d ∈ s.store.dlq ∨ .enqueued d.entry.id (contentOf d.entry) ∈ log ++ new)
    (hpending : ∀ id p, s'.pendingAcks.get id = some p → s.pendingAcks.get id = some p ∨
      ∃ content, .enqueued id content ∈ log ++ new ∧
        .consume p.socket content (some (id, p.attempt)) ∈ log ++ new)
    (htasks : ∀ i t, s'.agenda.get i = some t → s.agenda.get i = some t ∨ TaskKept (log ++ new) t) :
    Kept s' (log ++ new) where
  grounded := h.grounded.append hnew
  messages e he := (hmessages e he).elim (fun he => List.mem_append_left _ (h.messages e he)) id
  letters d hd := (hletters d hd).elim (fun hd => List.mem_append_left _ (h.letters d hd)) id
  pending id p hp := by
    rcases hpending id p hp with hp | hp
    · obtain ⟨content, hid, hconsume⟩ := h.pending id p hp
      exact ⟨content, List.mem_append_left _ hid, List.mem_append_left _ hconsume⟩
    · exact hp
  tasks i t ht := (htasks i t ht).elim
    (fun ht => (h.tasks i t ht).mono (List.sublist_append_left ..)) id

/-- A step that reports nothing.
Kind: L -/
theorem silent (h : Kept s log) (hstore : s'.store = s.store)
    (hpending : ∀ id p, s'.pendingAcks.get id = some p → s.pendingAcks.get id = some p)
    (htasks : ∀ i t, s'.agenda.get i = some t → s.agenda.get i = some t ∨ TaskKept log t) :
    Kept s' log := by
  have hreport : Kept s' (log ++ []) := by
    refine h.report (by simp) (fun e he => Or.inl (hstore ▸ he)) (fun d hd => Or.inl (hstore ▸ hd))
      (fun id p hp => Or.inl (hpending id p hp)) fun i t ht => ?_
    rw [List.append_nil]
    exact htasks i t ht
  rwa [List.append_nil] at hreport

/-- Work is put off that has what it takes.
Kind: L -/
theorem post (h : Kept s log) {t : Task π κ ς} (ht : TaskKept log t) :
    Kept { s with agenda := s.agenda.post t } log := by
  refine h.silent rfl (fun _ _ hp => hp) fun i t' ht' => ?_
  rw [Agenda.get_post] at ht'
  by_cases hi : i = s.agenda.next
  · rw [if_pos hi] at ht'
    obtain rfl := Option.some.inj ht'
    exact Or.inr ht
  · rw [if_neg hi] at ht'
    exact Or.inl ht'

theorem cancel (h : Kept s log) (i : ℕ) : Kept { s with agenda := s.agenda.cancel i } log :=
  h.silent rfl (fun _ _ hp => hp) fun _ _ ht => Or.inl (Agenda.get_of_get_cancel ht).2

theorem deletePending (h : Kept s log) (msgId : Text) :
    Kept { s with pendingAcks := s.pendingAcks.delete msgId } log := by
  refine h.silent rfl (fun id p hp => ?_) fun _ _ ht => Or.inl ht
  rw [JsMap.delete_eq_deleteWhere, JsMap.get_deleteWhere_key] at hp
  split_ifs at hp
  exact hp

/-- What is reported of the messages with an id.
Kind: L -/
theorem justified_leave (h : Kept s log) {msgId : Text} {how : Departure}
    (hhow : ∀ content, .enqueued msgId content ∈ log → Justified log (.left msgId how)) :
    ∀ x ∈ s.leave msgId how, Justified log x := by
  intro x hx
  obtain ⟨e, he, rfl⟩ := List.mem_map.mp hx
  obtain ⟨hin, hid⟩ := List.mem_filter.mp he
  obtain rfl : e.id = msgId := by simpa using hid
  exact hhow _ (h.messages e hin)

/-- A message leaves the queue with a reason.
Kind: L -/
theorem ackStore (h : Kept s log) (msgId : Text) (how : Departure)
    (hhow : ∀ content, .enqueued msgId content ∈ log → Justified log (.left msgId how)) :
    Kept (s.ackStore msgId how).1 (log ++ (s.ackStore msgId how).2) := by
  refine h.report (justified_of_forall (h.justified_leave hhow)) (fun e he => Or.inl ?_)
    (fun d hd => Or.inl hd) (fun _ _ hp => Or.inl hp) fun _ _ ht => Or.inl ht
  exact (List.mem_filter.mp he).1

/-- Some messages expire.
Kind: L -/
theorem expire (h : Kept s log) (now : ℤ) :
    Kept { s with store := s.store.purgeExpired now } (log ++ s.expire now) := by
  refine h.report (justified_of_forall fun x hx => ?_) (fun e he => Or.inl ?_)
    (fun d hd => Or.inl hd) (fun _ _ hp => Or.inl hp) fun _ _ ht => Or.inl ht
  · obtain ⟨e, he, rfl⟩ := List.mem_map.mp hx
    exact ⟨_, h.messages e (List.mem_filter.mp he).1⟩
  · exact (List.mem_filter.mp he).1

/-- A message is queued.
Kind: L -/
theorem enqueue (h : Kept s log) (defaultTtl : Ttl) (now : ℤ) (realm event consumer : Text) (message : π)
    (producer : Text) (ttl : Option Ttl) (generated : Text) :
    Kept (s.enqueue defaultTtl now realm event consumer message producer ttl generated).1
      (log ++ (s.enqueue defaultTtl now realm event consumer message producer ttl generated).2) := by
  have hproducer : orNull producer ≠ some [] := by
    unfold orNull
    split_ifs with hnil
    · simp
    · simpa using hnil
  have hexpire := h.expire now
  simp only [Server.enqueue, ← List.append_assoc]
  refine hexpire.report (justified_of_forall fun x hx => ?_) (fun e he => ?_)
    (fun d hd => Or.inl hd) (fun _ _ hp => Or.inl hp) fun _ _ ht => Or.inl ht
  · obtain rfl := List.mem_singleton.mp hx
    exact hproducer
  · rcases List.mem_append.mp he with he | he
    · exact Or.inl he
    · obtain rfl := List.mem_singleton.mp he
      exact Or.inr (by simp [contentOf, Message.idOr, orElse])

/-- A message is read again that has been queued under this content.
Kind: L -/
theorem producer_ne_nil (h : Kept s log) {id : Text} {content : Content π}
    (hid : .enqueued id content ∈ log) : content.producer ≠ some [] := by
  obtain ⟨before, after, heq⟩ := List.append_of_mem hid
  exact h.grounded before _ after heq

/-- A message becomes a dead letter that has been sent as often as the limit allows.
Kind: L -/
theorem deadLetterMessage (h : Kept s log) (now : ℤ) (msgId reason : Text) (attempts : ℕ)
    (maxAttempts : Num) (hout : ∀ content, .enqueued msgId content ∈ log →
      Justified log (.left msgId (.exhausted attempts maxAttempts))) :
    Kept (s.deadLetterMessage now msgId reason attempts maxAttempts).1
      (log ++ (s.deadLetterMessage now msgId reason attempts maxAttempts).2) := by
  refine h.report (justified_of_forall (h.justified_leave hout)) (fun e he => Or.inl ?_)
    (fun d hd => ?_) (fun _ _ hp => Or.inl hp) fun _ _ ht => Or.inl ht
  · simp only [Server.deadLetterMessage, MemoryStore.messages_deadLetter] at he
    exact (List.mem_filter.mp he).1
  · rcases mem_dlq_deadLetter hd with hd | hd
    · exact Or.inl hd
    · exact Or.inr (List.mem_append_left _ (h.messages _ hd))

/-- Some dead letters are removed with a reason.
Kind: L -/
theorem discardDlq (h : Kept s log) {msgId : Text} {how : Removal}
    (hhow : ∀ content, .enqueued msgId content ∈ log → Justified log (.removed msgId how)) :
    Kept { s with store := s.store.discardDlq msgId } (log ++ s.remove msgId how) := by
  refine h.report (justified_of_forall fun x hx => ?_) (fun e he => Or.inl he)
    (fun d hd => Or.inl (List.mem_filter.mp hd).1) (fun _ _ hp => Or.inl hp) fun _ _ ht => Or.inl ht
  obtain ⟨d, hd, rfl⟩ := List.mem_map.mp hx
  obtain ⟨hin, hid⟩ := List.mem_filter.mp hd
  obtain rfl : d.entry.id = msgId := by simpa using hid
  exact hhow _ (h.letters d hin)

/-! ### Deliveries -/

/-- A message is sent whose earlier attempts have all timed out.
Kind: L -/
theorem deliverDurableEntry (h : Kept s log) {d : Delivery π κ ς} {n : ℕ} (hn : d.attempt = n + 1)
    (hid : .enqueued d.id d.content ∈ log) (hout : TimedOut log d.id d.content n) :
    Kept (s.deliverDurableEntry d).1 (log ++ (s.deliverDurableEntry d).2) := by
  rcases hsocket : s.socketOf d.consumer with _ | socket
  · simpa only [Server.deliverDurableEntry, hsocket, List.append_nil] using h
  simp only [Server.deliverDurableEntry, hsocket]
  have hclear : Kept (s.clearTimeout d.id) log := by
    unfold Server.clearTimeout
    rcases s.pendingAcks.get d.id with _ | pending
    · exact h
    · exact h.cancel _
  have hsent : Sent (log ++ [.consume socket d.content (some (d.id, d.attempt))]) d.id d.content
      d.attempt := by
    rw [hn]
    exact hout.sent socket
  have hid' : .enqueued d.id d.content ∈ log ++ [.consume socket d.content (some (d.id, d.attempt))] :=
    List.mem_append_left _ hid
  refine hclear.report (justified_of_forall fun x hx => ?_) (fun e he => Or.inl he)
    (fun e he => Or.inl he) (fun id p hp => ?_) fun i t ht => ?_
  · obtain rfl := List.mem_singleton.mp hx
    exact ⟨hid, n, hn, hout⟩
  · simp only [Server.scheduleAckTimeout, JsMap.get_set] at hp
    split_ifs at hp with hkey
    · obtain rfl := Option.some.inj hp
      rw [hkey]
      exact Or.inr ⟨d.content, hid', by simp⟩
    · exact Or.inl hp
  · simp only [Server.scheduleAckTimeout, Agenda.get_post] at ht
    split_ifs at ht with hi
    · obtain rfl := Option.some.inj ht
      exact Or.inr ⟨hid', hsent⟩
    · exact Or.inl ht

/-- One of the messages that have been read is sent.
Kind: L -/
theorem replayEntry (h : Kept s log) {subscription : ς} {consumer : κ} {e : Entry π}
    (he : .enqueued e.id (contentOf e) ∈ log) :
    Kept (s.replayEntry subscription consumer e).1 (log ++ (s.replayEntry subscription consumer e).2) := by
  rcases hsocket : s.socketOf consumer with _ | socket
  · simpa only [Server.replayEntry, hsocket, List.append_nil] using h
  simp only [Server.replayEntry, hsocket]
  split_ifs with hack
  · exact h.deliverDurableEntry rfl he timedOut_zero
  · have hsend : Kept s (log ++ [.consume socket (contentOf e) none]) :=
      h.report (justified_of_forall (by simp [Justified])) (fun _ he => Or.inl he)
        (fun _ hd => Or.inl hd) (fun _ _ hp => Or.inl hp) fun _ _ ht => Or.inl ht
    have hacked := hsend.ackStore e.id (.replayed socket) fun _ _ =>
      ⟨contentOf e, List.mem_append_left _ he, by simp⟩
    simpa only [List.append_assoc, List.singleton_append] using hacked

/-- The messages that have been read are sent.
Kind: L -/
theorem dequeued (h : Kept s log) {subscription : ς} {consumer : κ} {entries : List (Entry π)}
    (hentries : ∀ e ∈ entries, .enqueued e.id (contentOf e) ∈ log) :
    Kept (scan (Server.replayEntry subscription consumer) s entries).1
      (log ++ (scan (Server.replayEntry subscription consumer) s entries).2) := by
  have hall := scan_induction (f := Server.replayEntry subscription consumer) (l := entries)
    (I := fun s log' => Kept s log' ∧ log.Sublist log') (fun e he s' log' hs' => ?_)
    ⟨h, List.Sublist.refl _⟩
  · exact hall.1
  · have hin := hs'.2.subset (hentries e he)
    exact ⟨hs'.1.replayEntry hin, hs'.2.trans (List.sublist_append_left ..)⟩

/-- The messages for a subscription are read.
Kind: L -/
theorem replayDurableMessages (h : Kept s log) (now : ℤ) (realm event : Text) (subscription : ς)
    (consumer : κ) :
    Kept (s.replayDurableMessages now realm event subscription consumer).1
      (log ++ (s.replayDurableMessages now realm event subscription consumer).2) := by
  rcases hsocket : s.socketOf consumer with _ | socket
  · simpa only [Server.replayDurableMessages, hsocket, List.append_nil] using h
  simp only [Server.replayDurableMessages, hsocket]
  refine (h.expire now).post fun e he => ?_
  exact List.mem_append_left _ (h.messages e (List.mem_filter.mp (List.mem_filter.mp he).1).1)

/-- A message that has been queued is to be sent.
Kind: L -/
theorem postEnqueued (h : Kept s log) {defaultTtl : Ttl} {now : ℤ} {realm event consumer : Text}
    {message : π} {producer : Text} {ttl : Option Ttl} {generated : Text} {t : Task π κ ς}
    (ht : ∀ log', .enqueued generated ⟨event, message, orNull producer⟩ ∈ log' → log.Sublist log' →
      TaskKept log' t) :
    Kept { (s.enqueue defaultTtl now realm event consumer message producer ttl generated).1 with
        agenda := s.agenda.post t }
      (log ++ (s.enqueue defaultTtl now realm event consumer message producer ttl generated).2) := by
  have hqueued := h.enqueue defaultTtl now realm event consumer message producer ttl generated
  refine hqueued.post (ht _ ?_ (List.sublist_append_left ..))
  simp [Server.enqueue]

theorem deliverToSubscription (h : Kept s log) {defaultTtl : Ttl} {now : ℤ} {realm event : Text}
    {message : π} {producer : Text} {subscription : ς} {consumer : κ} {guaranteed : Bool}
    {ttl : Option Ttl} {generated : Text} :
    Kept (s.deliverToSubscription defaultTtl now realm event message producer subscription consumer
        guaranteed ttl generated).1
      (log ++ (s.deliverToSubscription defaultTtl now realm event message producer subscription consumer
        guaranteed ttl generated).2) := by
  rcases hsocket : s.socketOf consumer with _ | socket
  · simp only [Server.deliverToSubscription, hsocket]
    split_ifs
    · exact h.enqueue ..
    · simpa only [List.append_nil] using h
  · simp only [Server.deliverToSubscription, hsocket]
    split_ifs
    · exact h.postEnqueued fun _ hlog _ => ⟨hlog, rfl⟩
    · simpa only [List.append_nil] using h
    · exact h.report (justified_of_forall (by simp [Justified])) (fun _ he => Or.inl he)
        (fun _ hd => Or.inl hd) (fun _ _ hp => Or.inl hp) fun _ _ ht => Or.inl ht

/-! ### Sockets -/

/-- An answer is reported.
Kind: L -/
theorem answer (h : Kept s log) (socket msgId : Text) (code : ℕ)
    (hcode : Justified log (.answered socket msgId code)) :
    Kept s (log ++ [.answered socket msgId code]) :=
  h.report (justified_of_forall (by simpa using hcode)) (fun _ he => Or.inl he)
    (fun _ hd => Or.inl hd) (fun _ _ hp => Or.inl hp) fun _ _ ht => Or.inl ht

theorem ack (h : Kept s log) (socket msgId : Text) :
    Kept (s.ack socket msgId).1 (log ++ (s.ack socket msgId).2) := by
  rcases hpending : s.pendingAcks.get msgId with _ | pending
  · simp only [Server.ack, hpending]
    exact h.answer _ _ _ (by simp [Justified])
  simp only [Server.ack, hpending]
  split_ifs with hsocket
  · exact h.answer _ _ _ (by simp [Justified])
  obtain rfl : pending.socket = socket := not_not.mp hsocket
  obtain ⟨content, hid, hconsume⟩ := h.pending msgId pending hpending
  have hacked := ((h.cancel pending.timer).deletePending msgId).ackStore msgId
    (.acked pending.socket) fun _ _ => ⟨content, pending.attempt, hid, hconsume⟩
  have hanswer := hacked.answer pending.socket msgId 200 fun _ =>
    ⟨content, pending.attempt, List.mem_append_left _ hconsume⟩
  simpa only [List.append_assoc] using hanswer

theorem disconnect [DecidableEq κ] (h : Kept s log) (socket : Text) (consumer : Option κ) :
    Kept (s.disconnect socket consumer) log := by
  refine h.silent rfl (fun id p hp => ?_) fun i t ht => Or.inl (Agenda.get_of_get_cancelAll ht).2
  simp only [Server.disconnect, JsMap.get_deleteWhere] at hp
  exact (Option.filter_eq_some_iff.mp hp).1

/-! ### Tasks -/

/-- The time for an acknowledgement is up.
Kind: L -/
theorem ackTimedOut (h : Kept s log) {now : ℤ} {d : Delivery π κ ς} {maxAttempts : Num}
    (hid : .enqueued d.id d.content ∈ log) (hsent : Sent log d.id d.content d.attempt) :
    Kept (s.ackTimedOut now d maxAttempts).1 (log ++ (s.ackTimedOut now d maxAttempts).2) := by
  have hreport : Kept { s with pendingAcks := s.pendingAcks.delete d.id }
      (log ++ [.timedOut d.id d.attempt maxAttempts]) :=
    (h.deletePending d.id).report
      (justified_of_forall (by simpa [Justified] using ⟨d.content, hid, hsent⟩))
      (fun _ he => Or.inl he) (fun _ hd => Or.inl hd) (fun _ _ hp => Or.inl hp) fun _ _ ht => Or.inl ht
  unfold Server.ackTimedOut
  dsimp only
  split_ifs with hmax
  · have hdead := hreport.deadLetterMessage now d.id
      (ascii ("ack timeout after " ++ toString d.attempt ++ " attempt(s)")) d.attempt maxAttempts fun _ _ =>
        ⟨d.content, List.mem_append_left _ hid, hsent.exhausted hmax⟩
    simpa only [List.append_assoc, List.singleton_append] using hdead
  · exact hreport.post ⟨List.mem_append_left _ hid, hsent.timedOut (not_le.mp hmax)⟩

/-- A dead letter is queued again.
Kind: L -/
theorem requeue (h : Kept s log) {defaultTtl : Ttl} {now : ℤ} {msgId : Text}
    {entries : List (DeadLetter π)} {generated : Text}
    (hentries : ∀ d ∈ entries, .enqueued d.entry.id (contentOf d.entry) ∈ log) :
    Kept (s.requeue defaultTtl now msgId entries generated).1
      (log ++ (s.requeue defaultTtl now msgId entries generated).2) := by
  rcases hfind : entries.find? (fun d => d.entry.id = msgId) with _ | letter
  · simpa only [Server.requeue, hfind, List.append_nil] using h
  simp only [Server.requeue, hfind]
  have hletter := hentries letter (List.mem_of_find?_eq_some hfind)
  have hproducer : orNull (letter.entry.producer.getD []) = letter.entry.producer := by
    have hne : letter.entry.producer ≠ some [] := h.producer_ne_nil hletter
    rcases hp : letter.entry.producer with _ | producer
    · rfl
    · have hnil : producer ≠ [] := fun hnil => hne (by rw [hp, hnil])
      simp [orNull, hnil]
  refine h.postEnqueued fun log' hlog hsub => ⟨hsub.subset hletter, ?_⟩
  rw [hproducer] at hlog
  exact hlog

theorem runTask (h : Kept s log) (defaultTtl : Ttl) (now : ℤ) (generated : Text) {t : Task π κ ς}
    (ht : TaskKept log t) :
    Kept (s.runTask defaultTtl now generated t).1
      (log ++ (s.runTask defaultTtl now generated t).2) := by
  rcases t with d | ⟨entries, subscription, consumer⟩ | ⟨d, maxAttempts⟩ | d | ⟨msgId, entries⟩ |
    ⟨letter, newId⟩
  · exact h.deliverDurableEntry (n := 0) ht.2 ht.1 timedOut_zero
  · exact h.dequeued ht
  · exact h.ackTimedOut ht.1 ht.2
  · exact h.deliverDurableEntry (d := { d with attempt := d.attempt + 1 }) rfl ht.1 ht.2
  · exact h.requeue ht
  · exact h.discardDlq fun _ _ => ⟨_, ht⟩

/-! ### Runs -/

theorem step [DecidableEq κ] [DecidableEq ς] (h : Kept s log) (defaultTtl : Ttl) (e : Server.Event π κ ς) :
    Kept (s.step defaultTtl e).1 (log ++ (s.step defaultTtl e).2) := by
  rcases e with ⟨now, realm, event, message, producer, subscription, consumer, guaranteed, ttl, generated⟩ |
    ⟨now, realm, event, subscription, consumer⟩ | ⟨now, number, generated⟩ | ⟨socket, msgId⟩ |
    ⟨socket, consumer⟩ | ⟨consumer, socket⟩ | ⟨subscription, fields⟩ | ⟨realm, msgId⟩ | msgId | realm
  · exact h.deliverToSubscription
  · exact h.replayDurableMessages ..
  · rcases htask : s.agenda.get number with _ | t
    · simpa only [Server.step, htask, List.append_nil] using h
    · simp only [Server.step, htask]
      exact (h.cancel number).runTask defaultTtl now generated (h.tasks number t htask)
  · exact h.ack socket msgId
  · simpa only [Server.step, List.append_nil] using h.disconnect socket consumer
  · simp only [Server.step, List.append_nil]
    exact h.silent rfl (fun _ _ hp => hp) fun _ _ ht => Or.inl ht
  · simp only [Server.step, List.append_nil]
    exact h.silent rfl (fun _ _ hp => hp) fun _ _ ht => Or.inl ht
  · simp only [Server.step, List.append_nil]
    exact h.post fun d hd => h.letters d (List.mem_filter.mp hd).1
  · exact h.discardDlq fun content hid => ⟨content, hid⟩
  · refine h.report (justified_of_forall fun x hx => ?_) (fun e he => Or.inl (List.mem_filter.mp he).1)
      (fun d hd => Or.inl (List.mem_filter.mp hd).1) (fun _ _ hp => Or.inl hp) fun _ _ ht => Or.inl ht
    rcases List.mem_append.mp hx with hx | hx
    · obtain ⟨e, he, rfl⟩ := List.mem_map.mp hx
      exact ⟨_, h.messages e (List.mem_filter.mp he).1⟩
    · obtain ⟨d, hd, rfl⟩ := List.mem_map.mp hx
      exact ⟨_, h.letters d (List.mem_filter.mp hd).1⟩

theorem init (subscriptionOf : ς → Subscription) :
    Kept (Server.init subscriptionOf : Server π κ ς) [] where
  grounded := grounded_nil _
  messages e he := absurd he (List.not_mem_nil)
  letters d hd := absurd hd (List.not_mem_nil)
  pending id p hp := absurd hp (by simp [Server.init])
  tasks i t ht := absurd ht (by simp [Server.init])

theorem after [DecidableEq κ] [DecidableEq ς] (defaultTtl : Ttl) (subscriptionOf : ς → Subscription)
    (events : List (Server.Event π κ ς)) :
    Kept (Server.after defaultTtl subscriptionOf events).1
      (Server.after defaultTtl subscriptionOf events).2 := by
  have hall : EachStep (journaled (Server.step defaultTtl)) (fun _ _ => True)
      ((Server.init subscriptionOf : Server π κ ς), []) events := eachStep_of_forall fun _ _ _ => trivial
  exact invariant_run (I := fun st => Kept st.1 st.2) (fun st e hst _ => hst.step defaultTtl e)
    (Kept.init subscriptionOf) hall

end Kept

end TyoMq.Broker
