import TyoMq.Broker.AtLeastOnce

/-!
# Reliable delivery: a delivery is settled once

A message that has been sent under its id is settled by an acknowledgement or by a timeout. The timers that
are set are those of the deliveries that wait (`Timed`), so each delivery is settled at most once, before
the message is sent again, and an acknowledgement counts from the socket of the latest delivery only.

* `settled`: so it is in every run.
-/

namespace TyoMq.Broker

open Lib Storage

variable {π κ ς : Type*}

/-! ### The latest delivery -/

/-- Is this about the delivery of a message? It is when the message is sent, acknowledged or timed out.
Kind: D -/
def Effect.concerns (id : Text) : Effect π → Bool
  | .consume _ _ (some (id', _)) => id' = id
  | .timedOut id' _ _ => id' = id
  | .answered _ id' code => id' = id ∧ code = 200
  | _ => false

/-- The last that was reported of the delivery of a message is that it was sent to the socket, in this
attempt.
Kind: D -/
def Awaiting (log : List (Effect π)) (id socket : Text) (attempt : ℕ) : Prop :=
  ∃ content, (log.filter (Effect.concerns id)).getLast? = some (.consume socket content (some (id, attempt)))

/-- What settles a delivery settles the latest one, which has not been settled before; an acknowledgement
does so from its socket.
Kind: D -/
def Settles (before : List (Effect π)) : Effect π → Prop
  | .timedOut id attempt _ => ∃ socket, Awaiting before id socket attempt
  | .answered socket id code => code = 200 → ∃ attempt, Awaiting before id socket attempt
  | _ => True

section awaiting

variable {log new : List (Effect π)} {id socket : Text} {attempt : ℕ}

/-- Other reports change nothing.
Kind: L -/
theorem Awaiting.append (h : Awaiting log id socket attempt)
    (hnew : ∀ x ∈ new, Effect.concerns id x = false) : Awaiting (log ++ new) id socket attempt := by
  obtain ⟨content, hlast⟩ := h
  have hnil : new.filter (Effect.concerns id) = [] :=
    List.filter_eq_nil_iff.mpr fun x hx => by simp [hnew x hx]
  exact ⟨content, by rw [List.filter_append, hnil, List.append_nil, hlast]⟩

theorem awaiting_concat (log : List (Effect π)) (id socket : Text) (content : Content π) (attempt : ℕ) :
    Awaiting (log ++ [.consume socket content (some (id, attempt))]) id socket attempt :=
  ⟨content, by simp [List.filter_append, Effect.concerns]⟩

/-- A report about no delivery settles none.
Kind: L -/
theorem settles_of_silent {x : Effect π} (h : ∀ id, Effect.concerns id x = false) : Settles log x := by
  rcases x with ⟨id, content⟩ | ⟨socket, content, delivery⟩ | ⟨id, attempt, maxAttempts⟩ |
    ⟨socket, id, code⟩ | ⟨id, how⟩ | ⟨id, how⟩
  · exact trivial
  · exact trivial
  · simpa [Effect.concerns] using h id
  · intro hcode
    simpa [Effect.concerns, hcode] using h id
  · exact trivial
  · exact trivial

theorem concerns_leave (s : Server π κ ς) (msgId : Text) (how : Departure) :
    ∀ x ∈ s.leave msgId how, ∀ id, Effect.concerns id x = false := by
  intro x hx id
  obtain ⟨e, -, rfl⟩ := List.mem_map.mp hx
  rfl

theorem concerns_expire (s : Server π κ ς) (now : ℤ) :
    ∀ x ∈ s.expire now, ∀ id, Effect.concerns id x = false := by
  intro x hx id
  obtain ⟨e, -, rfl⟩ := List.mem_map.mp hx
  rfl

end awaiting

/-! ### The timers -/

/-- The timers that are set are those of the deliveries that wait.
Kind: D -/
structure Timed (s : Server π κ ς) : Prop where
  /-- The timer of a delivery that waits is set. -/
  armed : ∀ id p, s.pendingAcks.get id = some p → ∃ d maxAttempts,
    s.agenda.get p.timer = some (.ackTimeout d maxAttempts) ∧ d.id = id ∧ d.attempt = p.attempt
  /-- A timer that is set is that of the delivery of its message that waits. -/
  owned : ∀ i d maxAttempts, s.agenda.get i = some (.ackTimeout d maxAttempts) →
    ∃ p, s.pendingAcks.get d.id = some p ∧ p.timer = i

namespace Timed

variable {s s' : Server π κ ς}

/-- No two deliveries have the same timer.
Kind: L -/
theorem timer_injective (h : Timed s) {id id' : Text} {p p' : PendingAck}
    (hp : s.pendingAcks.get id = some p) (hp' : s.pendingAcks.get id' = some p')
    (htimer : p.timer = p'.timer) : id = id' := by
  obtain ⟨d, m, hd, rfl, -⟩ := h.armed id p hp
  obtain ⟨d', m', hd', rfl, -⟩ := h.armed id' p' hp'
  rw [htimer, hd'] at hd
  cases hd
  rfl

/-- Nothing changes but what is not about timers.
Kind: L -/
theorem congr (h : Timed s) (hagenda : s'.agenda = s.agenda) (hpending : s'.pendingAcks = s.pendingAcks) :
    Timed s' :=
  ⟨by rw [hagenda, hpending]; exact h.armed, by rw [hagenda, hpending]; exact h.owned⟩

/-- Other work is put off.
Kind: L -/
theorem post (h : Timed s) {t : Task π κ ς} (ht : ∀ d maxAttempts, t ≠ .ackTimeout d maxAttempts) :
    Timed { s with agenda := s.agenda.post t } where
  armed id p hp := by
    obtain ⟨d, m, hd, hid, hattempt⟩ := h.armed id p hp
    refine ⟨d, m, ?_, hid, hattempt⟩
    have hne : p.timer ≠ s.agenda.next := (Agenda.lt_next_of_get hd).ne
    rw [Agenda.get_post, if_neg hne, hd]
  owned i d m hd := by
    rw [Agenda.get_post] at hd
    split_ifs at hd
    · exact absurd (Option.some.inj hd) (ht d m)
    · exact h.owned i d m hd

/-- Other work is taken up.
Kind: L -/
theorem cancel (h : Timed s) {i : ℕ} {t : Task π κ ς} (hi : s.agenda.get i = some t)
    (ht : ∀ d maxAttempts, t ≠ .ackTimeout d maxAttempts) :
    Timed { s with agenda := s.agenda.cancel i } where
  armed id p hp := by
    obtain ⟨d, m, hd, hid, hattempt⟩ := h.armed id p hp
    refine ⟨d, m, ?_, hid, hattempt⟩
    have hne : p.timer ≠ i := by
      rintro rfl
      rw [hd] at hi
      exact ht d m (Option.some.inj hi).symm
    rw [Agenda.get_cancel, if_neg hne, hd]
  owned j d m hd := h.owned j d m (Agenda.get_of_get_cancel hd).2

/-- A delivery no longer waits, and its timer is called off.
Kind: L -/
theorem settle (h : Timed s) {id : Text} {pending : PendingAck}
    (hpending : s.pendingAcks.get id = some pending) :
    Timed { s with agenda := s.agenda.cancel pending.timer, pendingAcks := s.pendingAcks.delete id } where
  armed id' p hp := by
    by_cases hid : id' = id
    · rw [hid, JsMap.get_delete_self] at hp
      exact absurd hp (by simp)
    · rw [JsMap.get_delete_of_ne _ hid] at hp
      obtain ⟨d, m, hd, hid', hattempt⟩ := h.armed id' p hp
      have hne : p.timer ≠ pending.timer := fun heq => hid (h.timer_injective hp hpending heq)
      exact ⟨d, m, by rw [Agenda.get_cancel, if_neg hne, hd], hid', hattempt⟩
  owned i d m hd := by
    obtain ⟨hne, hd⟩ := Agenda.get_of_get_cancel hd
    obtain ⟨p, hp, rfl⟩ := h.owned i d m hd
    refine ⟨p, ?_, rfl⟩
    have hid : d.id ≠ id := by
      rintro rfl
      rw [hpending] at hp
      exact hne (by rw [Option.some.inj hp])
    rw [JsMap.get_delete_of_ne _ hid, hp]

/-- A timer is called off where one is set, and the delivery forgotten.
Kind: L -/
theorem clearTimeout (h : Timed s) (id : Text) :
    Timed { s.clearTimeout id with pendingAcks := s.pendingAcks.delete id } := by
  rcases hpending : s.pendingAcks.get id with _ | pending
  · have hdelete : ∀ id', (s.pendingAcks.delete id).get id' = s.pendingAcks.get id' := by
      intro id'
      by_cases hid : id' = id
      · rw [hid, JsMap.get_delete_self, hpending]
      · rw [JsMap.get_delete_of_ne _ hid]
    simp only [Server.clearTimeout, hpending]
    refine ⟨fun id' p hp => h.armed id' p (by rwa [hdelete] at hp), fun i d m hd => ?_⟩
    obtain ⟨p, hp, htimer⟩ := h.owned i d m hd
    exact ⟨p, by rwa [hdelete], htimer⟩
  · simp only [Server.clearTimeout, hpending]
    exact h.settle hpending

/-- A delivery is sent, and waits.
Kind: L -/
theorem deliverDurableEntry (h : Timed s) (d : Delivery π κ ς) : Timed (s.deliverDurableEntry d).1 := by
  rcases hsocket : s.socketOf d.consumer with _ | socket
  · simpa only [Server.deliverDurableEntry, hsocket] using h
  simp only [Server.deliverDurableEntry, hsocket]
  have hclear := h.clearTimeout d.id
  have hpending : (s.clearTimeout d.id).pendingAcks = s.pendingAcks := by
    unfold Server.clearTimeout
    split <;> rfl
  refine ⟨fun id p hp => ?_, fun i d' m hd => ?_⟩
  · simp only [Server.scheduleAckTimeout, JsMap.get_set, Agenda.get_post] at hp ⊢
    split_ifs at hp with hid
    · obtain rfl := Option.some.inj hp
      exact ⟨d, _, if_pos rfl, hid.symm, rfl⟩
    · have hp' : (s.pendingAcks.delete d.id).get id = some p := by
        rw [JsMap.get_delete_of_ne _ hid, ← hpending, hp]
      obtain ⟨d', m, hd, hid', hattempt⟩ := hclear.armed id p hp'
      have hne : p.timer ≠ (s.clearTimeout d.id).agenda.next := (Agenda.lt_next_of_get hd).ne
      exact ⟨d', m, by rw [if_neg hne]; exact hd, hid', hattempt⟩
  · simp only [Server.scheduleAckTimeout, JsMap.get_set, Agenda.get_post] at hd ⊢
    split_ifs at hd with hi
    · obtain ⟨rfl, -⟩ := Task.ackTimeout.inj (Option.some.inj hd)
      exact ⟨_, if_pos rfl, hi.symm⟩
    · obtain ⟨p, hp, htimer⟩ := hclear.owned i d' m hd
      have hid : d'.id ≠ d.id := by
        rintro heq
        rw [heq, JsMap.get_delete_self] at hp
        exact absurd hp (by simp)
      rw [JsMap.get_delete_of_ne _ hid] at hp
      exact ⟨p, by rw [if_neg hid, hpending, hp], htimer⟩

/-- A connection ends.
Kind: L -/
theorem disconnect [DecidableEq κ] (h : Timed s) (socket : Text) (consumer : Option κ) :
    Timed (s.disconnect socket consumer) := by
  have hmem : ∀ id p, s.pendingAcks.get id = some p →
      (p.timer ∈ (s.pendingAcks.entries.filter fun e => e.2.socket = socket).map (fun e => e.2.timer) ↔
        p.socket = socket) := by
    intro id p hp
    constructor
    · intro hin
      obtain ⟨⟨id', p'⟩, hin', htimer⟩ := List.mem_map.mp hin
      obtain ⟨hget, hsocket⟩ := List.mem_filter.mp hin'
      have hp' := JsMap.mem_entries_iff.mp hget
      obtain rfl := h.timer_injective hp' hp htimer
      rw [hp] at hp'
      obtain rfl := Option.some.inj hp'
      simpa using hsocket
    · intro hsocket
      exact List.mem_map.mpr ⟨(id, p), List.mem_filter.mpr ⟨JsMap.mem_entries_iff.mpr hp, by simpa using hsocket⟩,
        rfl⟩
  refine ⟨fun id p hp => ?_, fun i d m hd => ?_⟩
  · simp only [Server.disconnect, JsMap.get_deleteWhere, Option.filter_eq_some_iff] at hp
    obtain ⟨hp, hsocket⟩ := hp
    obtain ⟨d, m, hd, hid, hattempt⟩ := h.armed id p hp
    refine ⟨d, m, ?_, hid, hattempt⟩
    have hnot : ¬ p.socket = socket := by simpa using hsocket
    simp only [Server.disconnect, Agenda.get_cancelAll]
    rw [if_neg fun hin => hnot ((hmem id p hp).mp hin), hd]
  · simp only [Server.disconnect] at hd
    obtain ⟨hi, hd⟩ := Agenda.get_of_get_cancelAll hd
    obtain ⟨p, hp, rfl⟩ := h.owned i d m hd
    refine ⟨p, ?_, rfl⟩
    have hnot : ¬ p.socket = socket := fun hsocket => hi ((hmem _ p hp).mpr hsocket)
    simp only [Server.disconnect, JsMap.get_deleteWhere, Option.filter_eq_some_iff]
    exact ⟨hp, by simpa using hnot⟩

end Timed

/-! ### Runs -/

/-- Deliveries have been settled once, and the timers are those of the others, of which each is the latest
of its message.
Kind: D -/
structure Settled (s : Server π κ ς) (log : List (Effect π)) : Prop where
  /-- What has been settled. -/
  grounded : Grounded Settles log
  /-- What waits has been sent last. -/
  awaiting : ∀ id p, s.pendingAcks.get id = some p → Awaiting log id p.socket p.attempt
  /-- The timers. -/
  timed : Timed s

namespace Settled

variable {s s' : Server π κ ς} {log new : List (Effect π)}

/-- Nothing is reported of a delivery.
Kind: L -/
theorem quiet (h : Settled s log) (htimed : Timed s')
    (hpending : ∀ id p, s'.pendingAcks.get id = some p → s.pendingAcks.get id = some p)
    (hnew : ∀ x ∈ new, ∀ id, Effect.concerns id x = false) : Settled s' (log ++ new) where
  grounded := h.grounded.append fun before x after heq =>
    settles_of_silent (hnew x (by rw [heq]; simp))
  awaiting id p hp := (h.awaiting id p (hpending id p hp)).append fun x hx => hnew x hx id
  timed := htimed

/-- Nothing is reported.
Kind: L -/
theorem silent (h : Settled s log) (htimed : Timed s')
    (hpending : ∀ id p, s'.pendingAcks.get id = some p → s.pendingAcks.get id = some p) :
    Settled s' log := by
  have hquiet : Settled s' (log ++ []) := h.quiet htimed hpending (by simp)
  rwa [List.append_nil] at hquiet

theorem enqueue (h : Settled s log) (defaultTtl : Ttl) (now : ℤ) (realm event consumer : Text)
    (message : π) (producer : Text) (ttl : Option Ttl) (generated : Text) :
    Settled (s.enqueue defaultTtl now realm event consumer message producer ttl generated).1
      (log ++ (s.enqueue defaultTtl now realm event consumer message producer ttl generated).2) := by
  refine h.quiet (h.timed.congr rfl rfl) (fun _ _ hp => hp) fun x hx => ?_
  rcases List.mem_append.mp hx with hx | hx
  · exact concerns_expire s now x hx
  · obtain rfl := List.mem_singleton.mp hx
    exact fun _ => rfl

/-- A message is queued, and other work put off.
Kind: L -/
theorem postEnqueued (h : Settled s log) {defaultTtl : Ttl} {now : ℤ} {realm event consumer : Text}
    {message : π} {producer : Text} {ttl : Option Ttl} {generated : Text} {t : Task π κ ς}
    (ht : ∀ d maxAttempts, t ≠ .ackTimeout d maxAttempts) :
    Settled { (s.enqueue defaultTtl now realm event consumer message producer ttl generated).1 with
        agenda := s.agenda.post t }
      (log ++ (s.enqueue defaultTtl now realm event consumer message producer ttl generated).2) := by
  have hqueued := h.enqueue defaultTtl now realm event consumer message producer ttl generated
  exact hqueued.silent (hqueued.timed.post ht) fun _ _ hp => hp

/-- A message is sent under its id.
Kind: L -/
theorem deliverDurableEntry (h : Settled s log) (d : Delivery π κ ς) :
    Settled (s.deliverDurableEntry d).1 (log ++ (s.deliverDurableEntry d).2) := by
  have htimed := h.timed.deliverDurableEntry d
  rcases hsocket : s.socketOf d.consumer with _ | socket
  · simpa only [Server.deliverDurableEntry, hsocket, List.append_nil] using h
  simp only [Server.deliverDurableEntry, hsocket] at htimed ⊢
  have hpending : (s.clearTimeout d.id).pendingAcks = s.pendingAcks := by
    unfold Server.clearTimeout
    split <;> rfl
  refine ⟨h.grounded.append_singleton trivial, fun id p hp => ?_, htimed⟩
  simp only [Server.scheduleAckTimeout, JsMap.get_set, hpending] at hp
  split_ifs at hp with hid
  · obtain rfl := Option.some.inj hp
    rw [hid]
    exact awaiting_concat ..
  · refine (h.awaiting id p hp).append fun x hx => ?_
    obtain rfl := List.mem_singleton.mp hx
    simpa [Effect.concerns] using Ne.symm hid

theorem replayEntry (h : Settled s log) (subscription : ς) (consumer : κ) (e : Entry π) :
    Settled (s.replayEntry subscription consumer e).1
      (log ++ (s.replayEntry subscription consumer e).2) := by
  rcases hsocket : s.socketOf consumer with _ | socket
  · simpa only [Server.replayEntry, hsocket, List.append_nil] using h
  simp only [Server.replayEntry, hsocket]
  split_ifs with hack
  · exact h.deliverDurableEntry _
  · refine h.quiet (h.timed.congr rfl rfl) (fun _ _ hp => hp) fun x hx => ?_
    rcases List.mem_cons.mp hx with rfl | hx
    · exact fun _ => rfl
    · exact concerns_leave s e.id (.replayed socket) x hx

theorem replayDurableMessages (h : Settled s log) (now : ℤ) (realm event : Text) (subscription : ς)
    (consumer : κ) :
    Settled (s.replayDurableMessages now realm event subscription consumer).1
      (log ++ (s.replayDurableMessages now realm event subscription consumer).2) := by
  rcases hsocket : s.socketOf consumer with _ | socket
  · simpa only [Server.replayDurableMessages, hsocket, List.append_nil] using h
  simp only [Server.replayDurableMessages, hsocket]
  have hposted := h.timed.post (t := .dequeued (s.store.dequeue now realm event
    (s.subscriptionOf subscription).queue).2 subscription consumer) fun _ _ => by simp
  exact h.quiet (hposted.congr rfl rfl) (fun _ _ hp => hp) (concerns_expire s now)

theorem deliverToSubscription (h : Settled s log) {defaultTtl : Ttl} {now : ℤ} {realm event : Text}
    {message : π} {producer : Text} {subscription : ς} {consumer : κ} {guaranteed : Bool}
    {ttl : Option Ttl} {generated : Text} :
    Settled (s.deliverToSubscription defaultTtl now realm event message producer subscription consumer
        guaranteed ttl generated).1
      (log ++ (s.deliverToSubscription defaultTtl now realm event message producer subscription consumer
        guaranteed ttl generated).2) := by
  rcases hsocket : s.socketOf consumer with _ | socket
  · simp only [Server.deliverToSubscription, hsocket]
    split_ifs
    · exact h.enqueue ..
    · simpa only [List.append_nil] using h
  · simp only [Server.deliverToSubscription, hsocket]
    split_ifs
    · exact h.postEnqueued fun _ _ => by simp
    · simpa only [List.append_nil] using h
    · exact h.quiet h.timed (fun _ _ hp => hp) (by simp [Effect.concerns])

theorem ack (h : Settled s log) (socket msgId : Text) :
    Settled (s.ack socket msgId).1 (log ++ (s.ack socket msgId).2) := by
  rcases hpending : s.pendingAcks.get msgId with _ | pending
  · simp only [Server.ack, hpending]
    exact h.quiet h.timed (fun _ _ hp => hp) (by simp [Effect.concerns])
  simp only [Server.ack, hpending]
  split_ifs with hsocket
  · exact h.quiet h.timed (fun _ _ hp => hp) (by simp [Effect.concerns])
  obtain rfl : pending.socket = socket := not_not.mp hsocket
  have hleft : ∀ x ∈ s.leave msgId (.acked pending.socket), ∀ id, Effect.concerns id x = false :=
    concerns_leave s msgId _
  have hawaiting := (h.awaiting msgId pending hpending).append fun x hx => hleft x hx msgId
  have hsettled : Timed { s with
      store := s.store.ack msgId
      agenda := s.agenda.cancel pending.timer
      pendingAcks := s.pendingAcks.delete msgId } := (h.timed.settle hpending).congr rfl rfl
  rw [← List.append_assoc]
  refine ⟨Grounded.append_singleton ?_ fun _ => ⟨pending.attempt, hawaiting⟩, fun id p hp => ?_, hsettled⟩
  · refine h.grounded.append fun before x after heq => ?_
    have hx : x ∈ before ++ x :: after := by simp
    rw [← heq] at hx
    exact settles_of_silent (hleft x hx)
  · have hid : id ≠ msgId := by
      rintro rfl
      exact absurd hp (by simp [Server.ackStore])
    have hp' : (s.pendingAcks.delete msgId).get id = some p := hp
    rw [JsMap.get_delete_of_ne _ hid] at hp'
    refine ((h.awaiting id p hp').append fun x hx => hleft x hx id).append fun x hx => ?_
    obtain rfl := List.mem_singleton.mp hx
    simpa [Effect.concerns] using Ne.symm hid

/-- The time for an acknowledgement is up.
Kind: L -/
theorem ackTimedOut (h : Settled s log) {i : ℕ} {d : Delivery π κ ς} {maxAttempts : Num}
    (hi : s.agenda.get i = some (.ackTimeout d maxAttempts)) (now : ℤ) :
    Settled (Server.ackTimedOut { s with agenda := s.agenda.cancel i } now d maxAttempts).1
      (log ++ (Server.ackTimedOut { s with agenda := s.agenda.cancel i } now d maxAttempts).2) := by
  obtain ⟨pending, hpending, rfl⟩ := h.timed.owned i d maxAttempts hi
  have hattempt : pending.attempt = d.attempt := by
    obtain ⟨d', m, hd, -, hattempt⟩ := h.timed.armed d.id pending hpending
    rw [hi] at hd
    obtain ⟨rfl, -⟩ := Task.ackTimeout.inj (Option.some.inj hd)
    exact hattempt.symm
  have hawaiting := h.awaiting d.id pending hpending
  rw [hattempt] at hawaiting
  have hreport : Settled { s with
      agenda := s.agenda.cancel pending.timer
      pendingAcks := s.pendingAcks.delete d.id } (log ++ [.timedOut d.id d.attempt maxAttempts]) := by
    refine ⟨h.grounded.append_singleton ⟨pending.socket, hawaiting⟩, fun id p hp => ?_,
      h.timed.settle hpending⟩
    have hid : id ≠ d.id := by
      rintro rfl
      exact absurd hp (by simp)
    rw [JsMap.get_delete_of_ne _ hid] at hp
    refine (h.awaiting id p hp).append fun x hx => ?_
    obtain rfl := List.mem_singleton.mp hx
    simpa [Effect.concerns] using Ne.symm hid
  unfold Server.ackTimedOut
  dsimp only
  split_ifs with hmax
  · have htimed : Timed (Server.deadLetterMessage { s with
        agenda := s.agenda.cancel pending.timer
        pendingAcks := s.pendingAcks.delete d.id } now d.id
        (ascii ("ack timeout after " ++ toString d.attempt ++ " attempt(s)")) d.attempt maxAttempts).1 :=
      hreport.timed.congr rfl rfl
    have hdead := hreport.quiet htimed (fun _ _ hp => hp)
      (concerns_leave s d.id (.exhausted d.attempt maxAttempts))
    rw [List.append_assoc] at hdead
    exact hdead
  · exact hreport.silent (hreport.timed.post fun _ _ => by simp) fun _ _ hp => hp

theorem requeue (h : Settled s log) {defaultTtl : Ttl} {now : ℤ} {msgId : Text}
    {entries : List (DeadLetter π)} {generated : Text} :
    Settled (s.requeue defaultTtl now msgId entries generated).1
      (log ++ (s.requeue defaultTtl now msgId entries generated).2) := by
  rcases hfind : entries.find? (fun d => d.entry.id = msgId) with _ | letter
  · simpa only [Server.requeue, hfind, List.append_nil] using h
  · simp only [Server.requeue, hfind]
    exact h.postEnqueued fun _ _ => by simp

/-- A task is taken up.
Kind: L -/
theorem task (h : Settled s log) (defaultTtl : Ttl) (now : ℤ) (generated : Text) {i : ℕ} {t : Task π κ ς}
    (hi : s.agenda.get i = some t) :
    Settled (Server.runTask defaultTtl { s with agenda := s.agenda.cancel i } now generated t).1
      (log ++ (Server.runTask defaultTtl { s with agenda := s.agenda.cancel i } now generated t).2) := by
  have hcancel : (∀ d maxAttempts, t ≠ .ackTimeout d maxAttempts) →
      Settled { s with agenda := s.agenda.cancel i } log := fun ht =>
    h.silent (h.timed.cancel hi ht) fun _ _ hp => hp
  rcases t with d | ⟨entries, subscription, consumer⟩ | ⟨d, maxAttempts⟩ | d | ⟨msgId, entries⟩ |
    ⟨letter, newId⟩
  · exact (hcancel fun _ _ => by simp).deliverDurableEntry d
  · exact scan_induction (fun e _ s log hs => hs.replayEntry subscription consumer e)
      (hcancel fun _ _ => by simp)
  · exact h.ackTimedOut hi now
  · exact (hcancel fun _ _ => by simp).deliverDurableEntry _
  · exact (hcancel fun _ _ => by simp).requeue
  · have hother := hcancel fun _ _ => by simp
    refine hother.quiet (hother.timed.congr rfl rfl) (fun _ _ hp => hp) fun x hx => ?_
    obtain ⟨e, -, rfl⟩ := List.mem_map.mp hx
    exact fun _ => rfl

theorem step [DecidableEq κ] [DecidableEq ς] (h : Settled s log) (defaultTtl : Ttl)
    (e : Server.Event π κ ς) :
    Settled (s.step defaultTtl e).1 (log ++ (s.step defaultTtl e).2) := by
  rcases e with ⟨now, realm, event, message, producer, subscription, consumer, guaranteed, ttl, generated⟩ |
    ⟨now, realm, event, subscription, consumer⟩ | ⟨now, number, generated⟩ | ⟨socket, msgId⟩ |
    ⟨socket, consumer⟩ | ⟨consumer, socket⟩ | ⟨subscription, fields⟩ | ⟨realm, msgId⟩ | msgId | realm
  · exact h.deliverToSubscription
  · exact h.replayDurableMessages ..
  · rcases htask : s.agenda.get number with _ | t
    · simpa only [Server.step, htask, List.append_nil] using h
    · simp only [Server.step, htask]
      exact h.task defaultTtl now generated htask
  · exact h.ack socket msgId
  · simp only [Server.step, List.append_nil]
    refine h.silent (h.timed.disconnect socket consumer) fun id p hp => ?_
    simp only [Server.disconnect, JsMap.get_deleteWhere] at hp
    exact (Option.filter_eq_some_iff.mp hp).1
  · simp only [Server.step, List.append_nil]
    exact h.silent (h.timed.congr rfl rfl) fun _ _ hp => hp
  · simp only [Server.step, List.append_nil]
    exact h.silent (h.timed.congr rfl rfl) fun _ _ hp => hp
  · simp only [Server.step, List.append_nil]
    exact h.silent (h.timed.post fun _ _ => by simp) fun _ _ hp => hp
  · refine h.quiet (h.timed.congr rfl rfl) (fun _ _ hp => hp) fun x hx => ?_
    obtain ⟨e, -, rfl⟩ := List.mem_map.mp hx
    exact fun _ => rfl
  · refine h.quiet (h.timed.congr rfl rfl) (fun _ _ hp => hp) fun x hx => ?_
    rcases List.mem_append.mp hx with hx | hx
    · obtain ⟨e, -, rfl⟩ := List.mem_map.mp hx
      exact fun _ => rfl
    · obtain ⟨d, -, rfl⟩ := List.mem_map.mp hx
      exact fun _ => rfl

theorem init (subscriptionOf : ς → Subscription) :
    Settled (Server.init subscriptionOf : Server π κ ς) [] where
  grounded := grounded_nil _
  awaiting id p hp := absurd hp (by simp [Server.init])
  timed := ⟨by simp [Server.init], by simp [Server.init]⟩

end Settled

/-- **Each delivery is settled once**: in every run, an acknowledgement that is accepted and a timeout are
of the latest delivery of their message, which nothing has settled before; the acknowledgement comes from
the socket it went to; and the timers that are set are those of the deliveries that still wait.
Kind: P -/
theorem settled [DecidableEq κ] [DecidableEq ς] (defaultTtl : Ttl) (subscriptionOf : ς → Subscription)
    (events : List (Server.Event π κ ς)) :
    Settled (Server.after defaultTtl subscriptionOf events).1
      (Server.after defaultTtl subscriptionOf events).2 := by
  have hall : EachStep (journaled (Server.step defaultTtl)) (fun _ _ => True)
      ((Server.init subscriptionOf : Server π κ ς), []) events := eachStep_of_forall fun _ _ _ => trivial
  exact invariant_run (I := fun st => Settled st.1 st.2) (fun st e hst _ => hst.step defaultTtl e)
    (Settled.init subscriptionOf) hall

end TyoMq.Broker
