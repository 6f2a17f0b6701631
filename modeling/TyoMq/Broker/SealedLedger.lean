import TyoMq.Broker.Sealed
import TyoMq.Lib.Books

/-!
# Sealed delivery: where the messages are

Three books of the server of sealed messages: of the messages that may be sent, of those in the queues, and
of the dead letters.

* `Accounts`: the three balance over some steps.
* `accounted`: they balance over every run in which no two messages get the same id.
-/

namespace TyoMq.Broker.Sealed

open Lib Storage

/-! ### The books -/

/-- A message that may be sent.
Kind: D -/
def Effect.sent : Effect → Option (Recipient × Frame)
  | .accepted dest frame _ => some (dest, frame)
  | _ => none

/-- A message that is in the hands of its recipient or of the queue, or of nobody because there is no room.
Kind: D -/
def Effect.settled : Effect → Option (Recipient × Frame)
  | .forgotten dest frame => some (dest, frame)
  | .acknowledged dest frame _ => some (dest, frame)
  | .answered dest frame .full => some (dest, frame)
  | .enqueued dest e => some (dest, e.message)
  | _ => none

/-- A message that the server still has to see to.
Kind: D -/
def Task.underway : Task → Option (Recipient × Frame)
  | .online dest frame _ => some (dest, frame)
  | .realmCounted dest frame _ => some (dest, frame)
  | .recipientCounted dest frame _ => some (dest, frame)
  | _ => none

/-- A message that is queued.
Kind: D -/
def Effect.queued : Effect → Option (Entry Frame)
  | .enqueued _ e => some e
  | _ => none

/-- A message that leaves the queue.
Kind: D -/
def Effect.departed : Effect → Option (Entry Frame)
  | .left e _ => some e
  | _ => none

/-- A message that becomes a dead letter.
Kind: D -/
def Effect.buried : Effect → Option (Entry Frame)
  | .left e (.refused _) => some e
  | _ => none

/-- A dead letter that is removed.
Kind: D -/
def Effect.gone : Effect → Option (Entry Frame)
  | .removed e => some e
  | _ => none

/-- The book of the messages that may be sent.
Kind: D -/
def sendBook : Book Server Effect (Recipient × Frame) :=
  ⟨fun s => s.agenda.works.filterMap Task.underway, Effect.sent, Effect.settled⟩

/-- The book of the queues.
Kind: D -/
def queueBook : Book Server Effect (Entry Frame) :=
  ⟨fun s => s.store.messages, Effect.queued, Effect.departed⟩

/-- The book of the dead letters.
Kind: D -/
def deadBook : Book Server Effect (Entry Frame) :=
  ⟨fun s => s.store.dlq.map DeadLetter.entry, Effect.buried, Effect.gone⟩

/-- The books balance, where the server owes some messages.
Kind: D -/
structure Accounts (owed : List (Recipient × Frame)) (s s' : Server) (new : List Effect) : Prop where
  /-- The messages that may be sent. -/
  sends : sendBook.Balances owed s s' new
  /-- The queues. -/
  queues : queueBook.Balances [] s s' new
  /-- The dead letters. -/
  dead : deadBook.Balances [] s s' new

variable {s s' s'' : Server} {new new' : List Effect} {owed owed' : List (Recipient × Frame)}

namespace Accounts

theorem refl (s : Server) : Accounts [] s s [] := ⟨.refl .., .refl .., .refl ..⟩

theorem trans (h : Accounts owed s s' new) (h' : Accounts owed' s' s'' new') :
    Accounts (owed ++ owed') s s'' (new ++ new') :=
  ⟨h.sends.trans h'.sends, h.queues.trans h'.queues, h.dead.trans h'.dead⟩

/-- Reports that are in no book.
Kind: D -/
def Unbooked (x : Effect) : Prop :=
  x.sent = none ∧ x.settled = none ∧ x.queued = none ∧ x.departed = none ∧ x.buried = none ∧ x.gone = none

theorem filterMap_eq_nil {β : Type} {f : Effect → Option β} (h : ∀ x ∈ new, f x = none) :
    new.filterMap f = [] := List.filterMap_eq_nil_iff.mpr h

/-- Nothing is put off, and nothing moves.
Kind: L -/
theorem quiet (hworks : s'.agenda.works.filterMap Task.underway = s.agenda.works.filterMap Task.underway)
    (hstore : s'.store = s.store) (hnew : ∀ x ∈ new, Unbooked x) : Accounts [] s s' new := by
  have hmessages : s'.store.messages = s.store.messages := by rw [hstore]
  have hdlq : s'.store.dlq.map DeadLetter.entry = s.store.dlq.map DeadLetter.entry := by rw [hstore]
  refine ⟨.quiet hworks ?_ ?_, .quiet hmessages ?_ ?_, .quiet hdlq ?_ ?_⟩ <;> apply filterMap_eq_nil
  · exact fun x hx => (hnew x hx).1
  · exact fun x hx => (hnew x hx).2.1
  · exact fun x hx => (hnew x hx).2.2.1
  · exact fun x hx => (hnew x hx).2.2.2.1
  · exact fun x hx => (hnew x hx).2.2.2.2.1
  · exact fun x hx => (hnew x hx).2.2.2.2.2

/-- Some messages leave the queue, and none becomes a dead letter.
Kind: L -/
theorem filterQueue (p : Entry Frame → Bool) {how : Departure} (hhow : ∀ socket, how ≠ .refused socket)
    (hworks : s'.agenda = s.agenda) (hmessages : s'.store.messages = s.store.messages.filter p)
    (hdlq : s'.store.dlq = s.store.dlq) :
    Accounts [] s s' ((s.store.messages.filter fun e => !p e).map fun e => .left e how) := by
  have hburied : ∀ e, (Effect.left e how).buried = none := by
    intro e
    cases how with
    | refused socket => exact absurd rfl (hhow socket)
    | _ => rfl
  have hnone : ∀ {f : Effect → Option (Entry Frame)}, (∀ e, f (.left e how) = none) →
      ((s.store.messages.filter fun e => !p e).map fun e => .left e how).filterMap f = [] := by
    intro f hf
    apply filterMap_eq_nil
    intro x hx
    obtain ⟨e, -, rfl⟩ := List.mem_map.mp hx
    exact hf e
  refine ⟨.quiet ?_ ?_ ?_, .filter p hmessages (hnone fun _ => rfl) ?_, .quiet ?_ (hnone hburied)
    (hnone fun _ => rfl)⟩
  · exact congrArg (fun a : Agenda Task => a.works.filterMap Task.underway) hworks
  · apply filterMap_eq_nil
    intro x hx
    obtain ⟨e, -, rfl⟩ := List.mem_map.mp hx
    rfl
  · apply filterMap_eq_nil
    intro x hx
    obtain ⟨e, -, rfl⟩ := List.mem_map.mp hx
    rfl
  · rw [List.filterMap_map]
    exact List.filterMap_some
  · exact congrArg (List.map DeadLetter.entry) hdlq

/-- Some messages expire.
Kind: L -/
theorem expire (s : Server) (now : ℤ) :
    Accounts [] s { s with store := s.store.purgeExpired now } (s.expire now) :=
  filterQueue (fun e => e.expires_at.all fun t => t = 0 ∨ now < t) (fun _ => by simp) rfl rfl rfl

/-- A message is queued that was owed.
Kind: L -/
theorem enqueueSealedForRecipient (c : Config) (s : Server) (now : ℤ) (dest : Recipient) (frame : Frame)
    (generated : Text) :
    Accounts [(dest, frame)] s (s.enqueueSealedForRecipient c now dest frame generated).1
      (s.enqueueSealedForRecipient c now dest frame generated).2 := by
  have hlast : Accounts [(dest, frame)] { s with store := s.store.purgeExpired now }
      (s.enqueueSealedForRecipient c now dest frame generated).1
      [.enqueued dest (Server.sealedEntry c now dest frame generated)] := by
    exact ⟨.pay rfl rfl rfl, .receive rfl rfl, .quiet rfl rfl rfl⟩
  exact (expire s now).trans hlast

/-- Other work is put off.
Kind: L -/
theorem post {t : Task} (ht : t.underway = none) (s : Server) :
    Accounts [] s { s with agenda := s.agenda.post t } [] := by
  apply quiet
  · rw [Agenda.works_post, List.filterMap_append, List.filterMap_cons_none ht]
    exact List.append_nil _
  · rfl
  · exact fun x hx => absurd hx List.not_mem_nil

/-- And then other work is put off.
Kind: L -/
theorem thenPost (h : Accounts owed s s' new) {t : Task} (ht : t.underway = none) :
    Accounts owed s { s' with agenda := s'.agenda.post t } new := by
  have hposted := h.trans (post ht s')
  rwa [List.append_nil, List.append_nil] at hposted

/-- What is owed is put off.
Kind: L -/
theorem postpone {t : Task} {x : Recipient × Frame} (ht : t.underway = some x) (s : Server) :
    Accounts [x] s { s with agenda := s.agenda.post t } [] := by
  refine ⟨.deposit ?_ rfl rfl, .quiet rfl rfl rfl, .quiet rfl rfl rfl⟩
  unfold sendBook
  dsimp only
  rw [Agenda.works_post, List.filterMap_append, List.filterMap_cons_some ht]
  rfl

/-- What is owed is settled.
Kind: L -/
theorem settle {a : Effect} {x : Recipient × Frame} (hsettled : a.settled = some x) (hsent : a.sent = none)
    (hqueued : a.queued = none) (hdeparted : a.departed = none) (hburied : a.buried = none)
    (hgone : a.gone = none) (s : Server) : Accounts [x] s s [a] :=
  ⟨.pay rfl (List.filterMap_cons_none hsent) (List.filterMap_cons_some hsettled),
    .quiet rfl (List.filterMap_cons_none hqueued) (List.filterMap_cons_none hdeparted),
    .quiet rfl (List.filterMap_cons_none hburied) (List.filterMap_cons_none hgone)⟩

/-- A report that is in no book.
Kind: L -/
theorem report {x : Effect} (hx : Unbooked x) (s : Server) : Accounts [] s s [x] :=
  quiet rfl rfl (by simpa using hx)

/-! ### Sending -/

theorem doSealedEnqueue (c : Config) (s : Server) (now : ℤ) (dest : Recipient) (frame : Frame)
    (generated : Text) :
    Accounts [(dest, frame)] s (s.doSealedEnqueue c now dest frame generated).1
      (s.doSealedEnqueue c now dest frame generated).2 :=
  (enqueueSealedForRecipient c s now dest frame generated).thenPost rfl

/-- Something is counted, and the count is put off.
Kind: L -/
theorem count {t : Task} {x : Recipient × Frame} (ht : t.underway = some x) (s : Server) (now : ℤ) :
    Accounts [x] s { s with store := s.store.purgeExpired now, agenda := s.agenda.post t }
      (s.expire now) := by
  have hposted := (expire s now).trans (postpone ht _)
  rwa [List.append_nil] at hposted

theorem route (c : Config) (s : Server) (now : ℤ) (dest : Recipient) (frame : Frame) (generated : Text) :
    Accounts [(dest, frame)] s (s.route c now dest frame generated).1
      (s.route c now dest frame generated).2 := by
  unfold Server.route
  rcases (s.socketOf dest).filter s.connected with _ | socket
  · dsimp only
    split_ifs
    · exact count rfl s now
    · exact postpone rfl s
    · exact doSealedEnqueue ..
  · dsimp only
    have hanswered : Unbooked (.answered dest frame .online) := ⟨rfl, rfl, rfl, rfl, rfl, rfl⟩
    have hemitted : Unbooked (.emitted socket frame none) := ⟨rfl, rfl, rfl, rfl, rfl, rfl⟩
    split_ifs
    · have hposted : Accounts [(dest, frame)] s { s with agenda := s.agenda.post (.online dest frame socket) } [] :=
        postpone rfl s
      exact (hposted.trans (report hemitted _)).trans (report hanswered _)
    · have hforgotten : Accounts [(dest, frame)] s s [.forgotten dest frame] :=
        settle rfl rfl rfl rfl rfl rfl s
      exact ((report hemitted s).trans hforgotten).trans (report hanswered s)

theorem deliver (c : Config) (s : Server) (now : ℤ) (dest : Recipient) (frame : Frame)
    (presented generated : Text) :
    Accounts [] s (s.deliver c now dest frame presented generated).1
      (s.deliver c now dest frame presented generated).2 := by
  have hrefused : Accounts [] s s [.answered dest frame .refused] :=
    report ⟨rfl, rfl, rfl, rfl, rfl, rfl⟩ s
  unfold Server.deliver
  rcases s.sealedUak dest with _ | access
  · exact hrefused
  · dsimp only
    split_ifs
    · exact hrefused
    · obtain ⟨hsends, hqueues, hdead⟩ := route c s now dest frame generated
      refine ⟨hsends.accept rfl rfl, ?_, ?_⟩
      · exact Book.Balances.trans (.quiet rfl rfl rfl : queueBook.Balances [] s s [.accepted dest frame presented])
          hqueues
      · exact Book.Balances.trans (.quiet rfl rfl rfl : deadBook.Balances [] s s [.accepted dest frame presented])
          hdead

/-- A sender is told that there is no room.
Kind: L -/
theorem full (dest : Recipient) (frame : Frame) (s : Server) :
    Accounts [(dest, frame)] s s [.answered dest frame .full] :=
  settle rfl rfl rfl rfl rfl rfl s

theorem realmCounted (c : Config) (s : Server) (now : ℤ) (dest : Recipient) (frame : Frame)
    (count : Option ℕ) (generated : Text) :
    Accounts [(dest, frame)] s (s.realmCounted c now dest frame count generated).1
      (s.realmCounted c now dest frame count generated).2 := by
  unfold Server.realmCounted
  dsimp only
  split_ifs
  · exact full dest frame s
  · exact Accounts.count rfl s now
  · exact doSealedEnqueue ..

theorem recipientCounted (c : Config) (s : Server) (now : ℤ) (dest : Recipient) (frame : Frame)
    (count : Option ℕ) (generated : Text) :
    Accounts [(dest, frame)] s (s.recipientCounted c now dest frame count generated).1
      (s.recipientCounted c now dest frame count generated).2 := by
  unfold Server.recipientCounted
  split_ifs
  · exact full dest frame s
  · exact doSealedEnqueue ..

/-! ### Draining -/

/-- A queue is read, and what is to be done with it put off.
Kind: L -/
theorem read {t : Task} (ht : t.underway = none) {s s' : Server} {now : ℤ}
    (hstore : s'.store = s.store.purgeExpired now) (hagenda : s'.agenda = s.agenda.post t) :
    Accounts [] s s' (s.expire now) := by
  have hsame : Accounts [] { s with store := s.store.purgeExpired now, agenda := s.agenda.post t } s' [] := by
    apply quiet
    · rw [hagenda]
    · exact hstore
    · exact fun x hx => absurd hx List.not_mem_nil
  have hread := ((expire s now).thenPost ht).trans hsame
  rw [List.append_nil, List.append_nil] at hread
  exact hread

theorem subscribe (c : Config) (s : Server) (now : ℤ) (socket identity : Text) (ack : Bool) :
    Accounts [] s (s.subscribe c now socket identity ack).1 (s.subscribe c now socket identity ack).2 := by
  have hrefused : ∀ code, Unbooked (.drainRefused socket identity code) :=
    fun _ => ⟨rfl, rfl, rfl, rfl, rfl, rfl⟩
  unfold Server.subscribe
  dsimp only
  split_ifs
  · exact quiet rfl rfl (by simp [hrefused])
  · exact quiet rfl rfl (by simp [hrefused])
  · exact read rfl rfl rfl
  · exact read rfl rfl rfl

theorem drainNext (s : Server) (d : Drain) : Accounts [] s (s.drainNext d).1 (s.drainNext d).2 := by
  have hdrained : ∀ more, Unbooked (.drained d.socket d.owner d.replayed d.dead d.pending more) :=
    fun _ => ⟨rfl, rfl, rfl, rfl, rfl, rfl⟩
  unfold Server.drainNext
  split
  · exact quiet rfl rfl (by simp [hdrained])
  · rename_i e rest _
    have hemitted : Unbooked (.emitted d.socket e.message (some e.id)) := ⟨rfl, rfl, rfl, rfl, rfl, rfl⟩
    split_ifs
    · exact (post rfl s).trans (report hemitted _)
    · exact post rfl s

/-- A message is acknowledged.
Kind: L -/
theorem ack (s : Server) (msgId : Text) (how : Departure) (hhow : ∀ socket, how ≠ .refused socket) :
    Accounts [] s { s with store := s.store.ack msgId } (s.leave msgId how) := by
  have hleave : Accounts [] s { s with store := s.store.ack msgId }
      ((s.store.messages.filter fun e => !decide (e.id ≠ msgId)).map fun e => .left e how) :=
    filterQueue (fun e => e.id ≠ msgId) hhow rfl rfl rfl
  simpa [Server.leave] using hleave

/-- A message becomes a dead letter.
Kind: L -/
theorem deadLetter (s : Server) (hids : (s.store.messages.map Entry.id).Nodup) (now : ℤ)
    (msgId reason socket : Text) :
    Accounts [] s { s with store := (s.store.deadLetter now msgId reason).1 }
      (s.leave msgId (.refused socket)) := by
  have hall : ∀ {f : Effect → Option (Entry Frame)}, (∀ e, f (.left e (.refused socket)) = some e) →
      (s.leave msgId (.refused socket)).filterMap f = s.store.messages.filter fun e => e.id = msgId := by
    intro f hf
    have hsome : f ∘ (fun e => .left e (.refused socket)) = some := funext hf
    unfold Server.leave
    rw [List.filterMap_map, hsome]
    exact List.filterMap_some
  have hnone : ∀ {β : Type} {f : Effect → Option β}, (∀ e, f (.left e (.refused socket)) = none) →
      (s.leave msgId (.refused socket)).filterMap f = [] := by
    intro β f hf
    apply filterMap_eq_nil
    intro x hx
    obtain ⟨e, -, rfl⟩ := List.mem_map.mp hx
    exact hf e
  refine ⟨.quiet rfl (hnone fun _ => rfl) (hnone fun _ => rfl),
    .filter (fun e => e.id ≠ msgId) (s.store.messages_deadLetter now msgId reason) (hnone fun _ => rfl) ?_,
    .receive ?_ (hnone fun _ => rfl)⟩
  · exact (hall fun _ => rfl).trans (List.filter_congr fun e _ => by simp)
  · exact (MemoryStore.dlq_deadLetter hids now msgId reason).trans
      (congrArg _ (hall (f := Effect.buried) fun _ => rfl).symm)

theorem drainReply (s : Server) (hids : (s.store.messages.map Entry.id).Nodup) (now : ℤ) (d : Drain)
    (e : Entry Frame) (ok : Bool) :
    Accounts [] s (s.drainReply now d e ok).1 (s.drainReply now d e ok).2 := by
  unfold Server.drainReply
  split_ifs
  · exact (ack s e.id (.confirmed d.socket) (by simp)).thenPost rfl
  · exact (deadLetter s hids now e.id (ascii "client refused sealed blob") d.socket).thenPost rfl

theorem replayEntry (socket : Text) (s : Server) (e : Entry Frame) :
    Accounts [] s (Server.replayEntry socket s e).1 (Server.replayEntry socket s e).2 := by
  have hemitted : Unbooked (.emitted socket e.message (some e.id)) := ⟨rfl, rfl, rfl, rfl, rfl, rfl⟩
  have hfirst : Accounts [] s s
      (if s.connected socket then [.emitted socket e.message (some e.id)] else []) := by
    split_ifs
    · exact report hemitted s
    · exact refl s
  exact hfirst.trans (ack s e.id (.replayed socket) (by simp))

/-! ### Steps -/

/-- A task is run, with what it has to see to.
Kind: L -/
theorem runTask (c : Config) (s : Server) (now : ℤ) (generated : Text) (t : Task) :
    Accounts t.underway.toList s (Server.runTask c s now generated t).1
      (Server.runTask c s now generated t).2 := by
  rcases t with ⟨dest, frame, socket⟩ | ⟨dest, frame, count⟩ | ⟨dest, frame, count⟩ | ⟨dest, frame⟩ | d | d |
    ⟨d, e⟩ | ⟨socket, owner, entries⟩
  · have hlost : Unbooked (.timedOut dest frame socket) := ⟨rfl, rfl, rfl, rfl, rfl, rfl⟩
    exact (report hlost s).trans (enqueueSealedForRecipient c s now dest frame generated)
  · exact realmCounted c s now dest frame count generated
  · exact recipientCounted c s now dest frame count generated
  · exact report ⟨rfl, rfl, rfl, rfl, rfl, rfl⟩ s
  · exact post rfl s
  · exact drainNext s d
  · exact post rfl s
  · refine ⟨Book.balances_scan (fun s e => ?_) s _, Book.balances_scan (fun s e => ?_) s _,
      Book.balances_scan (fun s e => ?_) s _⟩
    · exact (replayEntry socket s e).sends
    · exact (replayEntry socket s e).queues
    · exact (replayEntry socket s e).dead

/-- A task is taken up.
Kind: L -/
theorem takeUp {i : ℕ} {t : Task} (ht : s.agenda.get i = some t)
    (h : Accounts t.underway.toList { s with agenda := s.agenda.cancel i } s' new) :
    Accounts [] s s' new := by
  refine ⟨h.sends.release ?_, h.queues, h.dead⟩
  have hworks := (Agenda.works_cancel ht).filterMap Task.underway
  unfold sendBook
  rcases hunderway : t.underway with _ | x
  · rwa [List.filterMap_cons_none hunderway] at hworks
  · rwa [List.filterMap_cons_some hunderway] at hworks

theorem reply (s : Server) (hids : (s.store.messages.map Entry.id).Nodup) (now : ℤ) (number : ℕ)
    (ok : Bool) : Accounts [] s (s.reply now number ok).1 (s.reply now number ok).2 := by
  unfold Server.reply
  dsimp only
  split
  · rename_i dest frame socket ht
    split_ifs
    · exact takeUp ht (settle rfl rfl rfl rfl rfl rfl _)
    · exact refl s
  · rename_i d e ht
    split_ifs
    · exact takeUp ht (drainReply { s with agenda := s.agenda.cancel number } hids now d e ok)
    · exact refl s
  · exact refl s

theorem removeRealm (c : Config) (s : Server) (realm : Text) :
    Accounts [] s (s.step c (.removeRealm realm)).1 (s.step c (.removeRealm realm)).2 := by
  have hmessages : Accounts [] s
      { s with store := ⟨s.store.messages.filter fun e => e.realm ≠ realm, s.store.dlq⟩ }
      ((s.store.messages.filter fun e => !decide (e.realm ≠ realm)).map fun e => .left e .purged) :=
    filterQueue (fun e => e.realm ≠ realm) (by simp) rfl rfl rfl
  have hdead : Accounts []
      { s with store := ⟨s.store.messages.filter fun e => e.realm ≠ realm, s.store.dlq⟩ }
      (s.step c (.removeRealm realm)).1
      ((s.store.dlq.filter fun d => d.entry.realm = realm).map fun d => .removed d.entry) := by
    have hnone : ∀ {β : Type} {f : Effect → Option β}, (∀ e, f (.removed e) = none) →
        ((s.store.dlq.filter fun d => d.entry.realm = realm).map fun d =>
          Effect.removed d.entry).filterMap f = [] := by
      intro β f hf
      apply filterMap_eq_nil
      intro x hx
      obtain ⟨d, -, rfl⟩ := List.mem_map.mp hx
      exact hf d.entry
    refine ⟨.quiet rfl (hnone fun _ => rfl) (hnone fun _ => rfl),
      .quiet rfl (hnone fun _ => rfl) (hnone fun _ => rfl),
      .filter (fun e => e.realm ≠ realm) ?_ (hnone fun _ => rfl) ?_⟩
    · exact (List.filter_map (p := fun e : Entry Frame => decide (e.realm ≠ realm))).symm
    · have hgone : ((s.store.dlq.filter fun d => d.entry.realm = realm).map fun d =>
          Effect.removed d.entry).filterMap Effect.gone =
          (s.store.dlq.filter fun d => d.entry.realm = realm).map DeadLetter.entry := by
        rw [List.filterMap_map]
        exact congrFun List.filterMap_eq_map _
      refine hgone.trans ?_
      unfold deadBook
      dsimp only
      rw [List.filter_map]
      exact congrArg _ (List.filter_congr fun d _ => by simp)
  have hboth := hmessages.trans hdead
  simpa [Server.step] using hboth

/-- One step.
Kind: L -/
theorem step (c : Config) (s : Server) (hids : (s.store.messages.map Entry.id).Nodup) (e : Server.Event) :
    Accounts [] s (s.step c e).1 (s.step c e).2 := by
  rcases e with ⟨dest, socket⟩ | ⟨socket, up⟩ | ⟨socket, realm⟩ | ⟨socket, identity⟩ |
    ⟨socket, identity, access⟩ | ⟨now, dest, frame, presented, generated⟩ | ⟨now, socket, identity, ack⟩ |
    ⟨now, number, ok⟩ | ⟨now, number, generated⟩ | realm
  · rcases socket with _ | socket
    · exact quiet rfl rfl (fun x hx => absurd hx List.not_mem_nil)
    · refine quiet rfl rfl fun x hx => ?_
      obtain rfl := List.mem_singleton.mp hx
      exact ⟨rfl, rfl, rfl, rfl, rfl, rfl⟩
  · exact quiet rfl rfl (fun x hx => absurd hx List.not_mem_nil)
  · refine quiet rfl rfl fun x hx => ?_
    obtain rfl := List.mem_singleton.mp hx
    exact ⟨rfl, rfl, rfl, rfl, rfl, rfl⟩
  · refine quiet rfl rfl fun x hx => ?_
    obtain rfl := List.mem_singleton.mp hx
    exact ⟨rfl, rfl, rfl, rfl, rfl, rfl⟩
  · simp only [Server.step, Server.uakSet]
    split_ifs
    · refine quiet rfl rfl fun x hx => ?_
      obtain rfl := List.mem_singleton.mp hx
      exact ⟨rfl, rfl, rfl, rfl, rfl, rfl⟩
    · exact refl s
  · exact deliver c s now dest frame presented generated
  · exact subscribe c s now socket identity ack
  · exact reply s hids now number ok
  · simp only [Server.step]
    rcases ht : s.agenda.get number with _ | t
    · exact refl s
    · exact takeUp ht (runTask c { s with agenda := s.agenda.cancel number } now generated t)
  · exact removeRealm c s realm

end Accounts

/-! ### Runs -/

theorem after_append (c : Config) (sealedUak : Recipient → Option Access) (realmOf : Text → Text)
    (events : List Server.Event) (e : Server.Event) :
    Server.after c sealedUak realmOf (events ++ [e]) =
      journaled (Server.step c) (Server.after c sealedUak realmOf events) e := by
  rw [Server.after, runFrom_append]
  rfl

/-- Where no two messages that have been queued have the same id, no two in the queue have.
Kind: L -/
theorem Accounts.nodup (h : Accounts [] s s' new) (hempty : s.store.messages = [])
    (hids : ((new.filterMap Effect.queued).map Entry.id).Nodup) :
    (s'.store.messages.map Entry.id).Nodup := by
  have hqueues : (s.store.messages ++ new.filterMap Effect.queued).Perm
      (s'.store.messages ++ new.filterMap Effect.departed) := h.queues
  rw [hempty] at hqueues
  have hall := (hqueues.map Entry.id).nodup_iff.mp hids
  rw [List.map_append] at hall
  exact hall.sublist (List.sublist_append_left ..)

/-- **No sealed message is lost, and none is in two places**: after every run in which no two messages get
the same id,
* a message that may be sent was sent to a client that acknowledges nothing, or was acknowledged, or found
  no room, or was queued, or the server still has to see to it;
* a message that was queued is in the queue or has left it;
* a message that its recipient refused is among the dead letters or has been removed from there with its
  realm;
each of these once.
Kind: P -/
theorem accounted (c : Config) (sealedUak : Recipient → Option Access) (realmOf : Text → Text)
    (events : List Server.Event) :
    let st := Server.after c sealedUak realmOf events
    ((st.2.filterMap Effect.queued).map Entry.id).Nodup →
      (st.2.filterMap Effect.sent).Perm
          (st.1.agenda.works.filterMap Task.underway ++ st.2.filterMap Effect.settled) ∧
        (st.2.filterMap Effect.queued).Perm (st.1.store.messages ++ st.2.filterMap Effect.departed) ∧
        (st.2.filterMap Effect.buried).Perm
          (st.1.store.dlq.map DeadLetter.entry ++ st.2.filterMap Effect.gone) := by
  intro st hids
  have haccounts : Accounts [] (Server.init sealedUak realmOf) st.1 st.2 := by
    revert hids
    induction events using List.reverseRecOn with
    | nil => exact fun _ => Accounts.refl _
    | append_singleton events e ih =>
        intro hids
        simp only [st, after_append, journaled, List.filterMap_append, List.map_append] at hids
        have hbefore := ih (hids.sublist (List.sublist_append_left ..))
        have hnodup := hbefore.nodup rfl (hids.sublist (List.sublist_append_left ..))
        have hstep := hbefore.trans (Accounts.step c _ hnodup e)
        simp only [st, after_append, journaled]
        exact hstep
  exact ⟨haccounts.sends, haccounts.queues, haccounts.dead⟩

/-- A broker where sealed messages are allowed, without limits.
Kind: D -/
def exampleConfig : Config := ⟨fun _ => true, fun _ => none, fun _ => none, some 1000, some 1000, 10⟩

/-- A recipient.
Kind: D -/
def exampleRecipient : Recipient := ⟨ascii "r", ascii "b"⟩

/-- Two messages are queued, of which the recipient drains one.
Kind: D -/
def exampleRun : List Server.Event :=
  [.deliver 1 exampleRecipient ⟨ascii "x", []⟩ (ascii "k") (ascii "1"),
    .deliver 2 exampleRecipient ⟨ascii "y", []⟩ (ascii "k") (ascii "2"),
    .deliver 3 exampleRecipient ⟨ascii "z", []⟩ (ascii "no") (ascii "3"),
    .connect (ascii "s") true, .register (ascii "s") (ascii "b"), .subscribe 4 (ascii "s") (ascii "b") true,
    .task 5 2 [], .task 5 3 [], .reply 6 4 true]

theorem accounted_exampleRun :
    let st := Server.after exampleConfig (fun _ => some (.requireUak (ascii "k"))) (fun _ => ascii "r") exampleRun
    (st.2.filterMap Effect.sent).length = 2 ∧ st.1.store.messages.length = 1 ∧
      (st.2.filterMap Effect.queued).Perm (st.1.store.messages ++ st.2.filterMap Effect.departed) := by
  intro st
  have hsent : (st.2.filterMap Effect.sent).length = 2 := by decide +kernel
  have hlength : st.1.store.messages.length = 1 := by decide +kernel
  have hids : ((st.2.filterMap Effect.queued).map Entry.id).Nodup := by decide +kernel
  exact ⟨hsent, hlength, (accounted exampleConfig _ _ exampleRun hids).2.1⟩

end TyoMq.Broker.Sealed
