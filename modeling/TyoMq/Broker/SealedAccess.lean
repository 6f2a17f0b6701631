import TyoMq.Broker.Sealed

/-!
# Sealed delivery: who gets what

What the server of sealed messages does has its reason in what it has done before (`Justified`): a message is
accepted under the key of its recipient, it is sent where the directory has the recipient or to a socket that
drains the recipient's queue and owns the name in the realm, and it leaves the queue when the client that it
was sent to has answered for it.

* `Kept`: the invariant that carries this, and one lemma for each handler.
* `sealed_justified`: in every run.
-/

namespace TyoMq.Broker.Sealed

open Lib Storage

/-! ### Reasons -/

/-- What a report says of who may send to a recipient.
Kind: D -/
def Effect.access (dest : Recipient) : Effect → Option Access
  | .uakSet _ owner access => if owner = dest then some access else none
  | _ => none

/-- Who may send to a recipient, by what was set last or else by the records on disk.
Kind: D -/
def granted (sealedUak : Recipient → Option Access) (log : List Effect) (dest : Recipient) : Option Access :=
  (latest (Effect.access dest) log).or (sealedUak dest)

/-- The socket has registered the name and been in the realm.
Kind: D -/
def Owns (realmOf : Text → Text) (log : List Effect) (socket : Text) (owner : Recipient) : Prop :=
  .registered socket owner.identity ∈ log ∧
    (owner.realm = realmOf socket ∨ .authenticated socket owner.realm ∈ log)

/-- The message was accepted, and the directory had the socket for its recipient.
Kind: D -/
def Sent (log : List Effect) (dest : Recipient) (frame : Frame) (socket : Text) : Prop :=
  (∃ presented, .accepted dest frame presented ∈ log) ∧ .bound dest socket ∈ log

/-- The message was queued for the owner of a queue.
Kind: D -/
def QueuedFor (log : List Effect) (owner : Recipient) (e : Entry Frame) : Prop :=
  ∃ dest, .enqueued dest e ∈ log ∧ dest.identity = owner.identity ∧ realmOr dest.realm = realmOr owner.realm

/-- What has to come before a report.
Kind: D -/
def Justified (sealedUak : Recipient → Option Access) (realmOf : Text → Text) (before : List Effect) :
    Effect → Prop
  | .uakSet socket owner _ => Owns realmOf before socket owner
  | .accepted dest _ presented => ∃ access, granted sealedUak before dest = some access ∧
      access.admits presented = true
  | .emitted socket frame none => ∃ dest, Sent before dest frame socket
  | .emitted socket frame (some queue_id) => ∃ owner e, Owns realmOf before socket owner ∧
      QueuedFor before owner e ∧ e.id = queue_id ∧ e.message = frame
  | .forgotten dest frame => ∃ socket, Sent before dest frame socket ∧ .emitted socket frame none ∈ before
  | .acknowledged dest frame socket => Sent before dest frame socket ∧ .emitted socket frame none ∈ before
  | .timedOut dest frame socket => Sent before dest frame socket ∧ .emitted socket frame none ∈ before
  | .enqueued dest e => ∃ presented, .accepted dest e.message presented ∈ before
  | .answered dest frame .online =>
      ∃ socket, Sent before dest frame socket ∧ .emitted socket frame none ∈ before
  | .answered dest frame .queued => ∃ e, .enqueued dest e ∈ before ∧ e.message = frame
  | .left e (.confirmed socket) =>
      (∃ dest, .enqueued dest e ∈ before) ∧ ∃ frame, .emitted socket frame (some e.id) ∈ before
  | .left e (.refused socket) =>
      (∃ dest, .enqueued dest e ∈ before) ∧ ∃ frame, .emitted socket frame (some e.id) ∈ before
  | .left e _ => ∃ dest, .enqueued dest e ∈ before
  | .removed e => ∃ socket, .left e (.refused socket) ∈ before
  | _ => True

section mono

variable {log log' : List Effect} {realmOf : Text → Text} {socket : Text} {owner dest : Recipient}
  {frame : Frame} {e : Entry Frame}

theorem Owns.mono (h : Owns realmOf log socket owner) (hlog : log ⊆ log') :
    Owns realmOf log' socket owner :=
  ⟨hlog h.1, h.2.imp_right fun hrealm => hlog hrealm⟩

theorem Sent.mono (h : Sent log dest frame socket) (hlog : log ⊆ log') : Sent log' dest frame socket := by
  obtain ⟨⟨presented, haccepted⟩, hbound⟩ := h
  exact ⟨⟨presented, hlog haccepted⟩, hlog hbound⟩

theorem QueuedFor.mono (h : QueuedFor log owner e) (hlog : log ⊆ log') : QueuedFor log' owner e := by
  obtain ⟨dest, hqueued, howner⟩ := h
  exact ⟨dest, hlog hqueued, howner⟩

end mono

/-! ### The invariant -/

/-- A drain is of a queue that its socket owns, and what is left of it is of that queue.
Kind: D -/
def DrainKept (realmOf : Text → Text) (log : List Effect) (d : Drain) : Prop :=
  Owns realmOf log d.socket d.owner ∧ ∀ e ∈ d.rest, QueuedFor log d.owner e

/-- What is put off has its reason.
Kind: D -/
def TaskKept (realmOf : Text → Text) (log : List Effect) : Task → Prop
  | .online dest frame socket => Sent log dest frame socket ∧ .emitted socket frame none ∈ log
  | .realmCounted dest frame _ => ∃ presented, .accepted dest frame presented ∈ log
  | .recipientCounted dest frame _ => ∃ presented, .accepted dest frame presented ∈ log
  | .stored dest frame => ∃ e, .enqueued dest e ∈ log ∧ e.message = frame
  | .read d => DrainKept realmOf log d
  | .next d => DrainKept realmOf log d
  | .awaiting d e => DrainKept realmOf log d ∧ QueuedFor log d.owner e ∧
      .emitted d.socket e.message (some e.id) ∈ log
  | .legacy socket owner entries => Owns realmOf log socket owner ∧ ∀ e ∈ entries, QueuedFor log owner e

/-- A message is where the queue has it.
Kind: D -/
def Filed (log : List Effect) (e : Entry Frame) : Prop :=
  ∃ dest, .enqueued dest e ∈ log ∧ e.event = Server.sealedEvent dest.identity ∧
    e.realm = realmOr dest.realm

theorem Filed.mono {log log' : List Effect} {e : Entry Frame} (h : Filed log e) (hlog : log ⊆ log') :
    Filed log' e := by
  obtain ⟨dest, hqueued, hwhere⟩ := h
  exact ⟨dest, hlog hqueued, hwhere⟩

theorem DrainKept.mono {realmOf : Text → Text} {log log' : List Effect} {d : Drain}
    (h : DrainKept realmOf log d) (hlog : log ⊆ log') : DrainKept realmOf log' d :=
  ⟨h.1.mono hlog, fun e he => (h.2 e he).mono hlog⟩

theorem TaskKept.mono {realmOf : Text → Text} {log log' : List Effect} {t : Task}
    (h : TaskKept realmOf log t) (hlog : log ⊆ log') : TaskKept realmOf log' t := by
  cases t with
  | online dest frame socket => exact ⟨h.1.mono hlog, hlog h.2⟩
  | realmCounted dest frame count =>
      obtain ⟨presented, haccepted⟩ := h
      exact ⟨presented, hlog haccepted⟩
  | recipientCounted dest frame count =>
      obtain ⟨presented, haccepted⟩ := h
      exact ⟨presented, hlog haccepted⟩
  | stored dest frame =>
      obtain ⟨e, hqueued, hmessage⟩ := h
      exact ⟨e, hlog hqueued, hmessage⟩
  | read d => exact DrainKept.mono h hlog
  | next d => exact DrainKept.mono h hlog
  | awaiting d e => exact ⟨h.1.mono hlog, h.2.1.mono hlog, hlog h.2.2⟩
  | legacy socket owner entries => exact ⟨h.1.mono hlog, fun e he => (h.2 e he).mono hlog⟩

variable {sealedUak : Recipient → Option Access} {realmOf : Text → Text}

/-- What the server has and what it has put off has its reason in what it has done.
Kind: D -/
structure Kept (sealedUak : Recipient → Option Access) (realmOf : Text → Text) (s : Server)
    (log : List Effect) : Prop where
  /-- So has what it has done. -/
  grounded : Grounded (Justified sealedUak realmOf) log
  /-- Who may send. -/
  access : ∀ dest a, s.sealedUak dest = some a → granted sealedUak log dest = some a
  /-- The names. -/
  identities : ∀ p ∈ s.identities, .registered p.1 p.2 ∈ log
  /-- The realms. -/
  realms : ∀ socket, s.realmOf socket = realmOf socket ∨ .authenticated socket (s.realmOf socket) ∈ log
  /-- The directory. -/
  sockets : ∀ dest socket, s.socketOf dest = some socket → .bound dest socket ∈ log
  /-- The queues. -/
  messages : ∀ e ∈ s.store.messages, Filed log e
  /-- The dead letters. -/
  dlq : ∀ d ∈ s.store.dlq, ∃ socket, .left d.entry (.refused socket) ∈ log
  /-- The tasks. -/
  tasks : ∀ i t, s.agenda.get i = some t → TaskKept realmOf log t

namespace Kept

variable {s s' : Server} {log new : List Effect}

theorem init (sealedUak : Recipient → Option Access) (realmOf : Text → Text) :
    Kept sealedUak realmOf (Server.init sealedUak realmOf) [] where
  grounded := grounded_nil _
  access _ _ h := h
  identities _ hp := absurd hp List.not_mem_nil
  realms _ := Or.inl rfl
  sockets _ _ h := nomatch h
  messages _ he := absurd he List.not_mem_nil
  dlq _ hd := absurd hd List.not_mem_nil
  tasks _ _ ht := nomatch ht

/-- No report says who may send.
Kind: D -/
def Silent (new : List Effect) : Prop := ∀ x ∈ new, ∀ dest, Effect.access dest x = none

theorem granted_append {dest : Recipient} (hnew : Silent new) :
    granted sealedUak (log ++ new) dest = granted sealedUak log dest := by
  unfold granted
  induction new using List.reverseRecOn with
  | nil => rw [List.append_nil]
  | append_singleton new x ih =>
      have hx : Effect.access dest x = none := hnew x (by simp) dest
      rw [← List.append_assoc, latest_append_of_none hx]
      exact ih fun y hy => hnew y (List.mem_append_left _ hy)

/-- The directory and the access records are the same.
Kind: D -/
structure Same (s s' : Server) : Prop where
  /-- Who may send. -/
  sealedUak : s'.sealedUak = s.sealedUak
  /-- The names. -/
  identities : s'.identities = s.identities
  /-- The realms. -/
  realmOf : s'.realmOf = s.realmOf
  /-- The sockets. -/
  socketOf : s'.socketOf = s.socketOf

/-- Some work is done.
Kind: L -/
theorem work (h : Kept sealedUak realmOf s log) (hsame : Same s s') (hsilent : Silent new)
    (hnew : ∀ before x after, new = before ++ x :: after → Justified sealedUak realmOf (log ++ before) x)
    (hmessages : ∀ e ∈ s'.store.messages, e ∈ s.store.messages ∨ Filed (log ++ new) e)
    (hdlq : ∀ d ∈ s'.store.dlq, d ∈ s.store.dlq ∨ ∃ socket, .left d.entry (.refused socket) ∈ new)
    (htasks : ∀ i t, s'.agenda.get i = some t → s.agenda.get i = some t ∨ TaskKept realmOf (log ++ new) t) :
    Kept sealedUak realmOf s' (log ++ new) where
  grounded := h.grounded.append hnew
  access dest a ha := by
    rw [hsame.sealedUak] at ha
    rw [granted_append hsilent]
    exact h.access dest a ha
  identities p hp := by
    rw [hsame.identities] at hp
    exact List.mem_append_left _ (h.identities p hp)
  realms socket := by
    rw [hsame.realmOf]
    exact (h.realms socket).imp_right fun hrealm => List.mem_append_left _ hrealm
  sockets dest socket hsocket := by
    rw [hsame.socketOf] at hsocket
    exact List.mem_append_left _ (h.sockets dest socket hsocket)
  messages e he := by
    rcases hmessages e he with he | he
    · exact (h.messages e he).mono (List.subset_append_left ..)
    · exact he
  dlq d hd := by
    rcases hdlq d hd with hd | ⟨socket, hd⟩
    · obtain ⟨socket, hleft⟩ := h.dlq d hd
      exact ⟨socket, List.mem_append_left _ hleft⟩
    · exact ⟨socket, List.mem_append_right _ hd⟩
  tasks i t ht := by
    rcases htasks i t ht with ht | ht
    · exact (h.tasks i t ht).mono (List.subset_append_left ..)
    · exact ht

/-- Something is reported.
Kind: L -/
theorem report (h : Kept sealedUak realmOf s log) {x : Effect} (hx : Justified sealedUak realmOf log x)
    (hsilent : ∀ dest, Effect.access dest x = none) : Kept sealedUak realmOf s (log ++ [x]) := by
  refine h.work ⟨rfl, rfl, rfl, rfl⟩ ?_ (fun before y after heq => ?_) (fun _ he => Or.inl he)
    (fun _ hd => Or.inl hd) fun _ _ ht => Or.inl ht
  · simpa [Silent] using hsilent
  · rcases before with _ | ⟨z, before⟩
    · obtain ⟨rfl, -⟩ := List.cons.inj heq
      rwa [List.append_nil]
    · simp at heq

/-- Some work is put off.
Kind: L -/
theorem post (h : Kept sealedUak realmOf s log) {t : Task} (ht : TaskKept realmOf log t) :
    Kept sealedUak realmOf { s with agenda := s.agenda.post t } log := by
  refine ⟨h.grounded, h.access, h.identities, h.realms, h.sockets, h.messages, h.dlq, fun i t' ht' => ?_⟩
  rw [Agenda.get_post] at ht'
  split_ifs at ht'
  · obtain rfl := Option.some.inj ht'
    exact ht
  · exact h.tasks i t' ht'

/-- Some work is taken up.
Kind: L -/
theorem cancel (h : Kept sealedUak realmOf s log) (i : ℕ) :
    Kept sealedUak realmOf { s with agenda := s.agenda.cancel i } log :=
  ⟨h.grounded, h.access, h.identities, h.realms, h.sockets, h.messages, h.dlq, fun j t ht =>
    h.tasks j t (Agenda.get_of_get_cancel ht).2⟩

/-! ### The store -/

/-- Some messages leave the queue, each with its reason.
Kind: L -/
theorem leave (h : Kept sealedUak realmOf s log) (store : MemoryStore Frame) (l : List (Entry Frame))
    (how : Departure) (hl : ∀ e ∈ l, Justified sealedUak realmOf log (.left e how))
    (hmessages : ∀ e ∈ store.messages, e ∈ s.store.messages)
    (hdlq : ∀ d ∈ store.dlq, d ∈ s.store.dlq ∨ d.entry ∈ l ∧ ∃ socket, how = .refused socket) :
    Kept sealedUak realmOf { s with store := store } (log ++ l.map fun e => .left e how) := by
  have hmono : ∀ before e, Justified sealedUak realmOf log (.left e how) →
      Justified sealedUak realmOf (log ++ before) (.left e how) := by
    intro before e he
    cases how with
    | confirmed socket | refused socket =>
        obtain ⟨⟨dest, hqueued⟩, frame, hemitted⟩ := he
        exact ⟨⟨dest, List.mem_append_left _ hqueued⟩, frame, List.mem_append_left _ hemitted⟩
    | replayed socket | expired | purged =>
        obtain ⟨dest, hqueued⟩ := he
        exact ⟨dest, List.mem_append_left _ hqueued⟩
  refine h.work ⟨rfl, rfl, rfl, rfl⟩ (fun x hx dest => ?_) (fun before x after heq => ?_)
    (fun e he => Or.inl (hmessages e he)) (fun d hd => ?_) fun i t ht => Or.inl ht
  · obtain ⟨e, -, rfl⟩ := List.mem_map.mp hx
    rfl
  · have hx : x ∈ l.map fun e => Effect.left e how := by rw [heq]; simp
    obtain ⟨e, he, rfl⟩ := List.mem_map.mp hx
    exact hmono before e (hl e he)
  · rcases hdlq d hd with hd | ⟨hd, socket, rfl⟩
    · exact Or.inl hd
    · exact Or.inr ⟨socket, List.mem_map.mpr ⟨d.entry, hd, rfl⟩⟩

theorem expire (h : Kept sealedUak realmOf s log) (now : ℤ) :
    Kept sealedUak realmOf { s with store := s.store.purgeExpired now } (log ++ s.expire now) := by
  refine h.leave _ _ .expired (fun e he => ?_) (fun e he => ?_) fun d hd => Or.inl hd
  · obtain ⟨dest, hqueued, -⟩ := h.messages e (List.mem_filter.mp he).1
    exact ⟨dest, hqueued⟩
  · exact (List.mem_filter.mp he).1

theorem ack (h : Kept sealedUak realmOf s log) (msgId : Text) (how : Departure)
    (hhow : ∀ e ∈ s.store.messages, e.id = msgId → Justified sealedUak realmOf log (.left e how)) :
    Kept sealedUak realmOf { s with store := s.store.ack msgId } (log ++ s.leave msgId how) := by
  refine h.leave _ _ how (fun e he => ?_) (fun e he => ?_) fun d hd => Or.inl hd
  · obtain ⟨hin, hid⟩ := List.mem_filter.mp he
    exact hhow e hin (by simpa using hid)
  · exact (List.mem_filter.mp he).1

theorem deadLetter (h : Kept sealedUak realmOf s log) (now : ℤ) (msgId reason socket : Text)
    (hhow : ∃ frame, .emitted socket frame (some msgId) ∈ log) :
    Kept sealedUak realmOf { s with store := (s.store.deadLetter now msgId reason).1 }
      (log ++ s.leave msgId (.refused socket)) := by
  refine h.leave _ _ (.refused socket) (fun e he => ?_) (fun e he => ?_) fun d hd => ?_
  · obtain ⟨hin, hid⟩ := List.mem_filter.mp he
    obtain rfl : e.id = msgId := by simpa using hid
    obtain ⟨dest, hqueued, -⟩ := h.messages e hin
    exact ⟨⟨dest, hqueued⟩, hhow⟩
  · rw [MemoryStore.messages_deadLetter] at he
    exact (List.mem_filter.mp he).1
  · unfold MemoryStore.deadLetter at hd
    dsimp only at hd
    rcases hlast : (s.store.messages.filter fun e => e.id = msgId).getLast? with _ | found
    · rw [hlast] at hd
      exact Or.inl hd
    · rw [hlast] at hd
      rcases List.mem_append.mp hd with hd | hd
      · exact Or.inl hd
      · obtain rfl := List.mem_singleton.mp hd
        exact Or.inr ⟨List.mem_of_getLast? hlast, socket, rfl⟩

theorem enqueueSealedForRecipient (h : Kept sealedUak realmOf s log) (c : Config) (now : ℤ)
    {dest : Recipient} {frame : Frame} (hsent : ∃ presented, .accepted dest frame presented ∈ log)
    (generated : Text) :
    Kept sealedUak realmOf (s.enqueueSealedForRecipient c now dest frame generated).1
      (log ++ (s.enqueueSealedForRecipient c now dest frame generated).2) := by
  obtain ⟨presented, hsent⟩ := hsent
  have hqueued := (h.expire now).report (x := .enqueued dest (Server.sealedEntry c now dest frame generated))
    ⟨presented, List.mem_append_left _ hsent⟩ fun _ => rfl
  rw [List.append_assoc] at hqueued
  refine ⟨hqueued.grounded, hqueued.access, hqueued.identities, hqueued.realms, hqueued.sockets,
    fun e he => ?_, hqueued.dlq, hqueued.tasks⟩
  rcases List.mem_append.mp he with he | he
  · exact hqueued.messages e he
  · obtain rfl := List.mem_singleton.mp he
    exact ⟨dest, List.mem_append_right _ (List.mem_append_right _ (List.mem_singleton.mpr rfl)), rfl, rfl⟩

/-! ### Sending -/

theorem doSealedEnqueue (h : Kept sealedUak realmOf s log) (c : Config) (now : ℤ) {dest : Recipient}
    {frame : Frame} (hsent : ∃ presented, .accepted dest frame presented ∈ log) (generated : Text) :
    Kept sealedUak realmOf (s.doSealedEnqueue c now dest frame generated).1
      (log ++ (s.doSealedEnqueue c now dest frame generated).2) := by
  refine (h.enqueueSealedForRecipient c now hsent generated).post ?_
  exact ⟨Server.sealedEntry c now dest frame generated,
    List.mem_append_right _ (List.mem_append_right _ (List.mem_singleton.mpr rfl)), rfl⟩

/-- Something is counted, and the count put off.
Kind: L -/
theorem count (h : Kept sealedUak realmOf s log) (now : ℤ) {t : Task}
    (ht : ∀ new, TaskKept realmOf (log ++ new) t) :
    Kept sealedUak realmOf { s with store := s.store.purgeExpired now, agenda := s.agenda.post t }
      (log ++ s.expire now) := (h.expire now).post (ht _)

theorem route (h : Kept sealedUak realmOf s log) (c : Config) (now : ℤ) {dest : Recipient}
    {frame : Frame} (hsent : ∃ presented, .accepted dest frame presented ∈ log) (generated : Text) :
    Kept sealedUak realmOf (s.route c now dest frame generated).1
      (log ++ (s.route c now dest frame generated).2) := by
  have hlater : ∀ new, ∃ presented, .accepted dest frame presented ∈ log ++ new := by
    obtain ⟨presented, haccepted⟩ := hsent
    exact fun new => ⟨presented, List.mem_append_left _ haccepted⟩
  unfold Server.route
  rcases hsocket : (s.socketOf dest).filter s.connected with _ | socket
  · dsimp only
    split_ifs
    · exact h.count now hlater
    · rw [List.append_nil]
      exact h.post hsent
    · exact h.doSealedEnqueue c now hsent generated
  · have hbound := h.sockets dest socket (Option.filter_eq_some_iff.mp hsocket).1
    have hemitted := h.report (x := .emitted socket frame none) ⟨dest, hsent, hbound⟩ fun _ => rfl
    have hwhere : Sent (log ++ [.emitted socket frame none]) dest frame socket :=
      ⟨hlater _, List.mem_append_left _ hbound⟩
    have hin : Effect.emitted socket frame none ∈ log ++ [.emitted socket frame none] := by simp
    dsimp only
    split_ifs
    · have hanswered := (hemitted.post (t := .online dest frame socket) ⟨hwhere, hin⟩).report
        (x := .answered dest frame .online) ⟨socket, hwhere, hin⟩ fun _ => rfl
      rwa [List.append_assoc] at hanswered
    · have hforgotten := hemitted.report (x := .forgotten dest frame) ⟨socket, hwhere, hin⟩ fun _ => rfl
      have hanswered := hforgotten.report (x := .answered dest frame .online)
        ⟨socket, hwhere.mono (List.subset_append_left ..), List.mem_append_left _ hin⟩ fun _ => rfl
      rwa [List.append_assoc, List.append_assoc] at hanswered

theorem deliver (h : Kept sealedUak realmOf s log) (c : Config) (now : ℤ) (dest : Recipient) (frame : Frame)
    (presented generated : Text) :
    Kept sealedUak realmOf (s.deliver c now dest frame presented generated).1
      (log ++ (s.deliver c now dest frame presented generated).2) := by
  unfold Server.deliver
  rcases huak : s.sealedUak dest with _ | access
  · exact h.report trivial fun _ => rfl
  · dsimp only
    split_ifs with hno
    · exact h.report trivial fun _ => rfl
    · have hadmits : access.admits presented = true := by
        by_contra hbad
        exact hno (Or.inr (by simpa using hbad))
      have haccepted := h.report (x := .accepted dest frame presented)
        ⟨access, h.access dest access huak, hadmits⟩ fun _ => rfl
      have hsent : ∃ key, .accepted dest frame key ∈ log ++ [.accepted dest frame presented] :=
        ⟨presented, by simp⟩
      have hrouted := haccepted.route c now hsent generated
      rwa [List.append_assoc] at hrouted

theorem realmCounted (h : Kept sealedUak realmOf s log) (c : Config) (now : ℤ) {dest : Recipient}
    {frame : Frame} (hsent : ∃ presented, .accepted dest frame presented ∈ log) (count : Option ℕ)
    (generated : Text) :
    Kept sealedUak realmOf (s.realmCounted c now dest frame count generated).1
      (log ++ (s.realmCounted c now dest frame count generated).2) := by
  unfold Server.realmCounted
  dsimp only
  split_ifs
  · exact h.report trivial fun _ => rfl
  · refine h.count now fun new => ?_
    obtain ⟨presented, haccepted⟩ := hsent
    exact ⟨presented, List.mem_append_left _ haccepted⟩
  · exact h.doSealedEnqueue c now hsent generated

theorem recipientCounted (h : Kept sealedUak realmOf s log) (c : Config) (now : ℤ) {dest : Recipient}
    {frame : Frame} (hsent : ∃ presented, .accepted dest frame presented ∈ log) (count : Option ℕ)
    (generated : Text) :
    Kept sealedUak realmOf (s.recipientCounted c now dest frame count generated).1
      (log ++ (s.recipientCounted c now dest frame count generated).2) := by
  unfold Server.recipientCounted
  split_ifs
  · exact h.report trivial fun _ => rfl
  · exact h.doSealedEnqueue c now hsent generated

/-! ### Draining -/

/-- What is read of a queue was queued for its owner.
Kind: L -/
theorem queuedFor_of_read (h : Kept sealedUak realmOf s log) {now : ℤ} (owner : Recipient) {e : Entry Frame}
    (he : e ∈ (s.store.dequeue now owner.realm (Server.sealedEvent owner.identity) owner.identity).2) :
    QueuedFor log owner e := by
  obtain ⟨hin, hwhere⟩ := List.mem_filter.mp he
  obtain ⟨dest, hqueued, hevent, hrealm⟩ := h.messages e (List.mem_filter.mp hin).1
  have hmatch : e.realm = realmOr owner.realm ∧ e.event = Server.sealedEvent owner.identity ∧
      e.consumer.getD [] = owner.identity := by simpa using hwhere
  refine ⟨dest, hqueued, ?_, hrealm.symm.trans hmatch.1⟩
  exact List.append_cancel_left (hevent.symm.trans hmatch.2.1)

/-- A socket that has registered a name owns it in the realm where it is.
Kind: L -/
theorem owns (h : Kept sealedUak realmOf s log) {socket identity : Text}
    (hname : (socket, identity) ∈ s.identities) : Owns realmOf log socket ⟨s.realmOf socket, identity⟩ :=
  ⟨h.identities _ hname, h.realms socket⟩

theorem subscribe (h : Kept sealedUak realmOf s log) (c : Config) (now : ℤ) (socket identity : Text)
    (ack : Bool) :
    Kept sealedUak realmOf (s.subscribe c now socket identity ack).1
      (log ++ (s.subscribe c now socket identity ack).2) := by
  have hcapable : Kept sealedUak realmOf { s with ackCapable := Function.update s.ackCapable socket true } log :=
    ⟨h.grounded, h.access, h.identities, h.realms, h.sockets, h.messages, h.dlq, h.tasks⟩
  have hread : ∀ draining, (socket, identity) ∈ s.identities → ∀ t,
      (∀ log', log ⊆ log' → Owns realmOf log' socket ⟨s.realmOf socket, identity⟩ →
        (∀ e ∈ (s.store.dequeue now (s.realmOf socket) (Server.sealedEvent identity) identity).2,
          QueuedFor log' ⟨s.realmOf socket, identity⟩ e) → TaskKept realmOf log' t) →
      ∀ ackCapable, Kept sealedUak realmOf { s with
        store := s.store.purgeExpired now
        ackCapable := ackCapable
        draining := draining
        agenda := s.agenda.post t } (log ++ s.expire now) := by
    intro draining hname t ht ackCapable
    have hsub : log ⊆ log ++ s.expire now := List.subset_append_left ..
    have hposted := (h.expire now).post (ht _ hsub ((h.owns hname).mono hsub) fun e he =>
      QueuedFor.mono (h.queuedFor_of_read ⟨s.realmOf socket, identity⟩ he) hsub)
    exact ⟨hposted.grounded, hposted.access, hposted.identities, hposted.realms, hposted.sockets,
      hposted.messages, hposted.dlq, hposted.tasks⟩
  unfold Server.subscribe
  dsimp only
  split_ifs with hno hack hdraining
  · exact h.report trivial fun _ => rfl
  · exact hcapable.report trivial fun _ => rfl
  · have hname : (socket, identity) ∈ s.identities := by
      by_contra hnot
      exact hno (Or.inl (by simpa using hnot))
    refine hread _ hname (.read _) (fun log' _ howns hqueued => ?_) _
    exact ⟨howns, hqueued⟩
  · have hname : (socket, identity) ∈ s.identities := by
      by_contra hnot
      exact hno (Or.inl (by simpa using hnot))
    refine hread _ hname (.legacy ..) (fun log' _ howns hqueued => ?_) _
    exact ⟨howns, hqueued⟩

theorem drainNext (h : Kept sealedUak realmOf s log) {d : Drain} (hd : DrainKept realmOf log d) :
    Kept sealedUak realmOf (s.drainNext d).1 (log ++ (s.drainNext d).2) := by
  unfold Server.drainNext
  split
  · have hreport := h.report
      (x := .drained d.socket d.owner d.replayed d.dead d.pending (d.more ∨ 0 < d.pending)) trivial fun _ => rfl
    exact ⟨hreport.grounded, hreport.access, hreport.identities, hreport.realms, hreport.sockets,
      hreport.messages, hreport.dlq, hreport.tasks⟩
  · rename_i e rest hrest
    have hqueued : QueuedFor log d.owner e := hd.2 e (by rw [hrest]; simp)
    have hleft : ∀ e ∈ rest, QueuedFor log d.owner e := fun e he => hd.2 e (by rw [hrest]; simp [he])
    split_ifs
    · have hemitted := h.report (x := .emitted d.socket e.message (some e.id))
        ⟨d.owner, e, hd.1, hqueued, rfl, rfl⟩ fun _ => rfl
      refine hemitted.post ⟨⟨hd.1.mono (List.subset_append_left ..), fun e he =>
        (hleft e he).mono (List.subset_append_left ..)⟩, hqueued.mono (List.subset_append_left ..), by simp⟩
    · rw [List.append_nil]
      exact h.post ⟨hd.1, hleft⟩

theorem drainReply (h : Kept sealedUak realmOf s log) (now : ℤ) {d : Drain} {e : Entry Frame}
    (hd : DrainKept realmOf log d) (hemitted : .emitted d.socket e.message (some e.id) ∈ log) (ok : Bool) :
    Kept sealedUak realmOf (s.drainReply now d e ok).1 (log ++ (s.drainReply now d e ok).2) := by
  unfold Server.drainReply
  split_ifs
  · refine (h.ack e.id (.confirmed d.socket) fun e' he' hid => ?_).post (hd.mono (List.subset_append_left ..))
    obtain ⟨dest, hqueued, -⟩ := h.messages e' he'
    exact ⟨⟨dest, hqueued⟩, e.message, by rwa [hid]⟩
  · exact (h.deadLetter now e.id (ascii "client refused sealed blob") d.socket ⟨e.message, hemitted⟩).post
      (hd.mono (List.subset_append_left ..))

theorem replayEntry (h : Kept sealedUak realmOf s log) {socket : Text} {owner : Recipient} {e : Entry Frame}
    (howns : Owns realmOf log socket owner) (he : QueuedFor log owner e) :
    Kept sealedUak realmOf (Server.replayEntry socket s e).1 (log ++ (Server.replayEntry socket s e).2) := by
  have hleave : ∀ log', log ⊆ log' → Kept sealedUak realmOf s log' →
      Kept sealedUak realmOf { s with store := s.store.ack e.id } (log' ++ s.leave e.id (.replayed socket)) := by
    intro log' hsub hkept
    refine hkept.ack e.id (.replayed socket) fun e' he' _ => ?_
    obtain ⟨dest, hqueued, -⟩ := hkept.messages e' he'
    exact ⟨dest, hqueued⟩
  unfold Server.replayEntry
  dsimp only
  split_ifs
  · have hemitted := h.report (x := .emitted socket e.message (some e.id)) ⟨owner, e, howns, he, rfl, rfl⟩
      fun _ => rfl
    have hleft := hleave _ (List.subset_append_left ..) hemitted
    rwa [List.append_assoc] at hleft
  · exact hleave log (List.Subset.refl _) h

/-! ### Steps -/

theorem runTask (h : Kept sealedUak realmOf s log) (c : Config) (now : ℤ) (generated : Text) {t : Task}
    (ht : TaskKept realmOf log t) :
    Kept sealedUak realmOf (Server.runTask c s now generated t).1
      (log ++ (Server.runTask c s now generated t).2) := by
  cases t with
  | online dest frame socket =>
      have hlost := h.report (x := .timedOut dest frame socket) ht fun _ => rfl
      obtain ⟨⟨⟨presented, haccepted⟩, -⟩, -⟩ := ht
      have hqueued := hlost.enqueueSealedForRecipient c now
        ⟨presented, List.mem_append_left _ haccepted⟩ generated
      rwa [List.append_assoc] at hqueued
  | realmCounted dest frame count => exact h.realmCounted c now ht count generated
  | recipientCounted dest frame count => exact h.recipientCounted c now ht count generated
  | stored dest frame => exact h.report ht fun _ => rfl
  | read d =>
      rw [Server.runTask, List.append_nil]
      exact h.post ⟨ht.1, fun e he => ht.2 e (List.mem_of_mem_take he)⟩
  | next d => exact h.drainNext ht
  | awaiting d e =>
      rw [Server.runTask, List.append_nil]
      exact h.post ht.1
  | legacy socket owner entries =>
      have hall := scan_induction (f := Server.replayEntry socket) (l := entries.take c.SEALED_REPLAY_BATCH)
        (I := fun s log' => Kept sealedUak realmOf s log' ∧ log ⊆ log') (fun e he s' log' hs' => ?_)
        ⟨h, List.Subset.refl _⟩
      · exact hall.1
      · have hqueued := (ht.2 e (List.mem_of_mem_take he)).mono hs'.2
        exact ⟨hs'.1.replayEntry (ht.1.mono hs'.2) hqueued, List.Subset.trans hs'.2 (List.subset_append_left ..)⟩

theorem reply (h : Kept sealedUak realmOf s log) (now : ℤ) (number : ℕ) (ok : Bool) :
    Kept sealedUak realmOf (s.reply now number ok).1 (log ++ (s.reply now number ok).2) := by
  unfold Server.reply
  dsimp only
  split
  · rename_i dest frame socket ht
    split_ifs
    · exact (h.cancel number).report (h.tasks number _ ht) fun _ => rfl
    · rwa [List.append_nil]
  · rename_i d e ht
    obtain ⟨hd, -, hemitted⟩ := h.tasks number _ ht
    split_ifs
    · exact (h.cancel number).drainReply now hd hemitted ok
    · rwa [List.append_nil]
  · rwa [List.append_nil]

/-- A client says who may send to it.
Kind: L -/
theorem uakSet (h : Kept sealedUak realmOf s log) (c : Config) (socket identity : Text) (a : Access) :
    Kept sealedUak realmOf (s.uakSet c socket identity a).1 (log ++ (s.uakSet c socket identity a).2) := by
  unfold Server.uakSet
  dsimp only
  split_ifs with hname
  · have hregistered : (socket, identity) ∈ s.identities := by simpa using hname.1
    have howns := h.owns hregistered
    have hsub : log ⊆ log ++ [.uakSet socket ⟨s.realmOf socket, identity⟩ a] := List.subset_append_left ..
    refine ⟨h.grounded.append_singleton howns, fun dest a' ha' => ?_, fun p hp => hsub (h.identities p hp),
      fun socket => (h.realms socket).imp_right fun hrealm => hsub hrealm,
      fun dest socket hsocket => hsub (h.sockets dest socket hsocket),
      fun e he => (h.messages e he).mono hsub, fun d hd => ?_, fun i t ht => (h.tasks i t ht).mono hsub⟩
    · unfold granted
      dsimp only at ha'
      by_cases hdest : dest = ⟨s.realmOf socket, identity⟩
      · rw [hdest, Function.update_self] at ha'
        have hsome : Effect.access dest (.uakSet socket ⟨s.realmOf socket, identity⟩ a) = some a :=
          if_pos hdest.symm
        rw [latest_append_of_some hsome, Option.some_or, ha']
      · rw [Function.update_of_ne hdest] at ha'
        have hnone : Effect.access dest (.uakSet socket ⟨s.realmOf socket, identity⟩ a) = none :=
          if_neg (Ne.symm hdest)
        rw [latest_append_of_none hnone]
        exact h.access dest a' ha'
    · obtain ⟨socket, hleft⟩ := h.dlq d hd
      exact ⟨socket, hsub hleft⟩
  · rwa [List.append_nil]

theorem removeRealm (h : Kept sealedUak realmOf s log) (c : Config) (realm : Text) :
    Kept sealedUak realmOf (s.step c (.removeRealm realm)).1
      (log ++ (s.step c (.removeRealm realm)).2) := by
  have hleft := h.leave (s.store.purgeRealm realm).1 (s.store.messages.filter fun e => e.realm = realm)
    .purged (fun e he => ?_) (fun e he => (List.mem_filter.mp he).1)
    fun d hd => Or.inl (List.mem_filter.mp hd).1
  · have hremoved : ∀ l : List (DeadLetter Frame), (∀ d ∈ l, d ∈ s.store.dlq) → ∀ log',
        (∀ d ∈ s.store.dlq, ∃ socket, .left d.entry (.refused socket) ∈ log') →
        Kept sealedUak realmOf { s with store := (s.store.purgeRealm realm).1 } log' →
        Kept sealedUak realmOf { s with store := (s.store.purgeRealm realm).1 }
          (log' ++ l.map fun d => .removed d.entry) := by
      intro l hl
      induction l with
      | nil =>
          intro log' _ hkept
          rwa [List.map_nil, List.append_nil]
      | cons d l ih =>
          intro log' hdlq hkept
          have hone := hkept.report (x := .removed d.entry) (hdlq d (hl d (List.mem_cons_self ..))) fun _ => rfl
          have hrest := ih (fun d' hd' => hl d' (List.mem_cons_of_mem _ hd')) _ (fun d' hd' => ?_) hone
          · rwa [List.append_assoc] at hrest
          · obtain ⟨socket, hin⟩ := hdlq d' hd'
            exact ⟨socket, List.mem_append_left _ hin⟩
    have hall := hremoved (s.store.dlq.filter fun d => d.entry.realm = realm)
      (fun d hd => (List.mem_filter.mp hd).1) _ (fun d hd => ?_) hleft
    · rw [List.append_assoc] at hall
      refine ⟨hall.grounded, fun dest a ha => hall.access dest a ?_, hall.identities, hall.realms,
        fun dest socket hsocket => hall.sockets dest socket ?_, hall.messages, hall.dlq, hall.tasks⟩
      · simp only [Server.step] at ha
        split_ifs at ha
        exact ha
      · simp only [Server.step] at hsocket
        split_ifs at hsocket
        exact hsocket
    · obtain ⟨socket, hin⟩ := h.dlq d hd
      exact ⟨socket, List.mem_append_left _ hin⟩
  · obtain ⟨dest, hqueued, -⟩ := h.messages e (List.mem_filter.mp he).1
    exact ⟨dest, hqueued⟩

/-- One step.
Kind: L -/
theorem step (h : Kept sealedUak realmOf s log) (c : Config) (e : Server.Event) :
    Kept sealedUak realmOf (s.step c e).1 (log ++ (s.step c e).2) := by
  rcases e with ⟨dest, socket⟩ | ⟨socket, up⟩ | ⟨socket, realm⟩ | ⟨socket, identity⟩ |
    ⟨socket, identity, access⟩ | ⟨now, dest, frame, presented, generated⟩ | ⟨now, socket, identity, ack⟩ |
    ⟨now, number, ok⟩ | ⟨now, number, generated⟩ | realm
  · have hbound : Kept sealedUak realmOf s (log ++ socket.toList.map (.bound dest)) := by
      rcases socket with _ | socket
      · rwa [Option.toList_none, List.map_nil, List.append_nil]
      · exact h.report trivial fun _ => rfl
    refine ⟨hbound.grounded, hbound.access, hbound.identities, hbound.realms, fun dest' socket' hsocket => ?_,
      hbound.messages, hbound.dlq, hbound.tasks⟩
    by_cases hdest : dest' = dest
    · simp only [Server.step] at hsocket
      rw [hdest, Function.update_self] at hsocket
      rw [hdest, hsocket]
      simp [Server.step]
    · simp only [Server.step] at hsocket
      rw [Function.update_of_ne hdest] at hsocket
      exact hbound.sockets dest' socket' hsocket
  · rw [Server.step, List.append_nil]
    exact ⟨h.grounded, h.access, h.identities, h.realms, h.sockets, h.messages, h.dlq, h.tasks⟩
  · have hreport := h.report (x := .authenticated socket realm) trivial fun _ => rfl
    refine ⟨hreport.grounded, hreport.access, hreport.identities, fun socket' => ?_, hreport.sockets,
      hreport.messages, hreport.dlq, hreport.tasks⟩
    by_cases hsocket : socket' = socket
    · right
      simp [Server.step, hsocket]
    · simp only [Server.step]
      rw [Function.update_of_ne hsocket]
      exact hreport.realms socket'
  · have hreport := h.report (x := .registered socket identity) trivial fun _ => rfl
    refine ⟨hreport.grounded, hreport.access, fun p hp => ?_, hreport.realms, hreport.sockets,
      hreport.messages, hreport.dlq, hreport.tasks⟩
    rcases List.mem_cons.mp hp with rfl | hp
    · simp [Server.step]
    · exact hreport.identities p hp
  · exact h.uakSet c socket identity access
  · exact h.deliver c now dest frame presented generated
  · exact h.subscribe c now socket identity ack
  · exact h.reply now number ok
  · simp only [Server.step]
    rcases ht : s.agenda.get number with _ | t
    · rwa [List.append_nil]
    · exact (h.cancel number).runTask c now generated (h.tasks number t ht)
  · exact h.removeRealm c realm

end Kept

end TyoMq.Broker.Sealed
