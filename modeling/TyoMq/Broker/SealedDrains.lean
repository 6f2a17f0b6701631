import TyoMq.Broker.Sealed

/-!
# Sealed delivery: one drain at a time

`one_in_flight`: a socket drains the queue of a name at most once at a time, and at most one message of the
drain waits for its acknowledgement.
-/

namespace TyoMq.Broker.Sealed

open Lib Storage

/-- The socket and the name of the drain that a task belongs to.
Kind: D -/
def Task.drain : Task → Option (Text × Text)
  | .read d => some (d.socket, d.owner.identity)
  | .next d => some (d.socket, d.owner.identity)
  | .awaiting d _ => some (d.socket, d.owner.identity)
  | _ => none

/-- The drains under way, each with its one task.
Kind: D -/
structure Exclusive (s : Server) : Prop where
  /-- No drain is there twice. -/
  nodup : s.draining.Nodup
  /-- They are those that have a task. -/
  tasks : (s.agenda.works.filterMap Task.drain).Perm s.draining

namespace Exclusive

variable {s s' : Server}

/-- Neither the drains nor the tasks are others.
Kind: L -/
theorem congr (h : Exclusive s) (hdraining : s'.draining = s.draining) (hagenda : s'.agenda = s.agenda) :
    Exclusive s' := by
  refine ⟨?_, ?_⟩
  · rw [hdraining]
    exact h.nodup
  · rw [hdraining, hagenda]
    exact h.tasks

/-- Some work is put off that belongs to no drain.
Kind: L -/
theorem post (h : Exclusive s) {t : Task} (ht : t.drain = none) (hdraining : s'.draining = s.draining)
    (hagenda : s'.agenda = s.agenda.post t) : Exclusive s' := by
  refine ⟨?_, ?_⟩
  · rw [hdraining]
    exact h.nodup
  · rw [hdraining, hagenda, Agenda.works_post, List.filterMap_append, List.filterMap_cons_none ht]
    exact (List.append_nil _).symm ▸ h.tasks

/-- What a task that is taken up leaves: its drain, if it belongs to one, has no task.
Kind: D -/
structure TakenUp (k : Option (Text × Text)) (s : Server) : Prop where
  /-- No drain is there twice. -/
  nodup : s.draining.Nodup
  /-- The others have their tasks. -/
  tasks : (k.toList ++ s.agenda.works.filterMap Task.drain).Perm s.draining

theorem takeUp (h : Exclusive s) {i : ℕ} {t : Task} (ht : s.agenda.get i = some t) :
    TakenUp t.drain { s with agenda := s.agenda.cancel i } := by
  refine ⟨h.nodup, ?_⟩
  have hworks := (Agenda.works_cancel ht).filterMap Task.drain
  rcases hdrain : t.drain with _ | k
  · rw [List.filterMap_cons_none hdrain] at hworks
    exact hworks.symm.trans h.tasks
  · rw [List.filterMap_cons_some hdrain] at hworks
    exact hworks.symm.trans h.tasks

/-- A task that belongs to no drain is taken up, and no drain is touched.
Kind: L -/
theorem TakenUp.congr (h : TakenUp none s) (hdraining : s'.draining = s.draining)
    (hagenda : s'.agenda = s.agenda) : Exclusive s' := by
  have hbefore : Exclusive s := ⟨h.nodup, h.tasks⟩
  exact hbefore.congr hdraining hagenda

/-- The drain gets its next task.
Kind: L -/
theorem TakenUp.post {k : Text × Text} (h : TakenUp (some k) s) {t : Task} (ht : t.drain = some k)
    (hdraining : s'.draining = s.draining) (hagenda : s'.agenda = s.agenda.post t) : Exclusive s' := by
  refine ⟨?_, ?_⟩
  · rw [hdraining]
    exact h.nodup
  · rw [hdraining, hagenda, Agenda.works_post, List.filterMap_append, List.filterMap_cons_some ht]
    exact List.perm_append_comm.trans h.tasks

/-- The drain is over.
Kind: L -/
theorem TakenUp.finish {k : Text × Text} (h : TakenUp (some k) s)
    (hdraining : s'.draining = s.draining.filter fun p => p ≠ k) (hagenda : s'.agenda = s.agenda) :
    Exclusive s' := by
  have hnodup : (k :: s.agenda.works.filterMap Task.drain).Nodup := (h.tasks.nodup_iff).mpr h.nodup
  have hfresh : k ∉ s.agenda.works.filterMap Task.drain := (List.nodup_cons.mp hnodup).1
  refine ⟨?_, ?_⟩
  · rw [hdraining]
    exact h.nodup.filter _
  · have hfilter := h.tasks.filter fun p => p ≠ k
    have hall : (s.agenda.works.filterMap Task.drain).filter (fun p => p ≠ k) =
        s.agenda.works.filterMap Task.drain := by
      rw [List.filter_eq_self]
      intro p hp
      have hne : p ≠ k := fun heq => hfresh (heq ▸ hp)
      simpa using hne
    rw [Option.toList_some, List.singleton_append, List.filter_cons_of_neg (by simp), hall] at hfilter
    rw [hdraining, hagenda]
    exact hfilter

/-! ### Steps -/

theorem doSealedEnqueue (h : Exclusive s) (c : Config) (now : ℤ) (dest : Recipient) (frame : Frame)
    (generated : Text) : Exclusive (s.doSealedEnqueue c now dest frame generated).1 := by
  apply h.post (t := .stored dest frame)
  · rfl
  · rfl
  · rfl

theorem deliver (h : Exclusive s) (c : Config) (now : ℤ) (dest : Recipient) (frame : Frame)
    (presented generated : Text) : Exclusive (s.deliver c now dest frame presented generated).1 := by
  unfold Server.deliver
  rcases s.sealedUak dest with _ | access
  · exact h
  · dsimp only
    split_ifs
    · exact h
    · unfold Server.route
      rcases (s.socketOf dest).filter s.connected with _ | socket
      · dsimp only
        split_ifs
        · exact h.post rfl rfl rfl
        · exact h.post rfl rfl rfl
        · exact h.doSealedEnqueue c now dest frame generated
      · dsimp only
        split_ifs
        · exact h.post rfl rfl rfl
        · exact h

theorem subscribe (h : Exclusive s) (c : Config) (now : ℤ) (socket identity : Text) (ack : Bool) :
    Exclusive (s.subscribe c now socket identity ack).1 := by
  unfold Server.subscribe
  dsimp only
  split_ifs with hno hack hdraining
  · exact h
  · exact h.congr rfl rfl
  · have hfresh : (socket, identity) ∉ s.draining := by simpa using hdraining
    refine ⟨?_, ?_⟩
    · exact List.nodup_append.mpr ⟨h.nodup, List.nodup_singleton _, fun p hp q hq => by
        rintro rfl
        exact hfresh (List.mem_singleton.mp hq ▸ hp)⟩
    · dsimp only
      rw [Agenda.works_post, List.filterMap_append]
      exact h.tasks.append_right _
  · exact h.post rfl rfl rfl

theorem TakenUp.drainNext {d : Drain} (h : TakenUp (some (d.socket, d.owner.identity)) s) :
    Exclusive (s.drainNext d).1 := by
  unfold Server.drainNext
  split
  · exact h.finish rfl rfl
  · rename_i e rest _
    split_ifs
    · exact h.post (t := .awaiting { d with rest := rest } e) rfl rfl rfl
    · exact h.post (t := .next { d with rest := rest, pending := d.pending + 1 }) rfl rfl rfl

theorem TakenUp.drainReply {d : Drain} (h : TakenUp (some (d.socket, d.owner.identity)) s) (now : ℤ)
    (e : Entry Frame) (ok : Bool) : Exclusive (s.drainReply now d e ok).1 := by
  unfold Server.drainReply
  split_ifs
  · exact h.post (t := .next { d with replayed := d.replayed + 1 }) rfl rfl rfl
  · exact h.post (t := .next { d with dead := d.dead + 1 }) rfl rfl rfl

theorem replay (socket : Text) (entries : List (Entry Frame)) (s : Server) :
    (scan (Server.replayEntry socket) s entries).1.draining = s.draining ∧
      (scan (Server.replayEntry socket) s entries).1.agenda = s.agenda := by
  induction entries generalizing s with
  | nil => exact ⟨rfl, rfl⟩
  | cons e entries ih => exact ih (Server.replayEntry socket s e).1

theorem TakenUp.runTask {t : Task} (h : TakenUp t.drain s) (c : Config) (now : ℤ) (generated : Text) :
    Exclusive (Server.runTask c s now generated t).1 := by
  cases t with
  | online dest frame socket => exact h.congr rfl rfl
  | realmCounted dest frame count =>
      have hbefore : Exclusive s := h.congr rfl rfl
      simp only [Server.runTask, Server.realmCounted]
      split_ifs
      · exact hbefore
      · exact hbefore.post rfl rfl rfl
      · exact hbefore.doSealedEnqueue c now dest frame generated
  | recipientCounted dest frame count =>
      have hbefore : Exclusive s := h.congr rfl rfl
      simp only [Server.runTask, Server.recipientCounted]
      split_ifs
      · exact hbefore
      · exact hbefore.doSealedEnqueue c now dest frame generated
  | stored dest frame => exact h.congr rfl rfl
  | read d => exact h.post rfl rfl rfl
  | next d => exact h.drainNext
  | awaiting d e => exact h.post rfl rfl rfl
  | legacy socket owner entries =>
      obtain ⟨hdraining, hagenda⟩ := replay socket (entries.take c.SEALED_REPLAY_BATCH) s
      exact h.congr hdraining hagenda

/-- One step.
Kind: L -/
theorem step (h : Exclusive s) (c : Config) (e : Server.Event) : Exclusive (s.step c e).1 := by
  rcases e with ⟨dest, socket⟩ | ⟨socket, up⟩ | ⟨socket, realm⟩ | ⟨socket, identity⟩ |
    ⟨socket, identity, access⟩ | ⟨now, dest, frame, presented, generated⟩ | ⟨now, socket, identity, ack⟩ |
    ⟨now, number, ok⟩ | ⟨now, number, generated⟩ | realm
  · exact h.congr rfl rfl
  · exact h.congr rfl rfl
  · exact h.congr rfl rfl
  · exact h.congr rfl rfl
  · simp only [Server.step, Server.uakSet]
    split_ifs
    · exact h.congr rfl rfl
    · exact h
  · exact h.deliver c now dest frame presented generated
  · exact h.subscribe c now socket identity ack
  · simp only [Server.step, Server.reply]
    split
    · rename_i dest frame socket ht
      split_ifs
      · exact (h.takeUp ht).congr rfl rfl
      · exact h
    · rename_i d e ht
      split_ifs
      · exact (h.takeUp ht).drainReply now e ok
      · exact h
    · exact h
  · simp only [Server.step]
    rcases ht : s.agenda.get number with _ | t
    · exact h
    · exact (h.takeUp ht).runTask c now generated
  · exact h.congr rfl rfl

end Exclusive

/-- **A drain is stop and wait**: after every run, whatever the clients, the timers and the store's answers
do, the drains under way are of different queues or by different sockets, and each of them has one task. So at
most one message of a drain waits for its acknowledgement, and the next is sent only when that has come or its
time is up.
Kind: P -/
theorem one_in_flight (c : Config) (sealedUak : Recipient → Option Access) (realmOf : Text → Text)
    (events : List Server.Event) :
    let s := (Server.after c sealedUak realmOf events).1
    s.draining.Nodup ∧ (s.agenda.works.filterMap Task.drain).Perm s.draining := by
  intro s
  have hall : EachStep (journaled (Server.step c)) (fun _ _ => True) (Server.init sealedUak realmOf, [])
      events := eachStep_of_forall fun _ _ _ => trivial
  have hexclusive : Exclusive s := by
    apply invariant_run (I := fun st : Server × List Effect => Exclusive st.1) _ _ hall
    · exact fun st e hst _ => hst.step c e
    · exact ⟨List.nodup_nil, List.Perm.refl _⟩
  exact ⟨hexclusive.nodup, hexclusive.tasks⟩

/-- A client that asks twice for its queue is sent the first message of it, and no other until it answers. -/
example :
    let s := Server.after ⟨fun _ => true, fun _ => none, fun _ => none, some 1000, some 1000, 10⟩
      (fun _ => some .unrestricted) (fun _ => ascii "r")
      [.deliver 1 ⟨ascii "r", ascii "b"⟩ ⟨ascii "x", []⟩ [] (ascii "1"),
        .deliver 2 ⟨ascii "r", ascii "b"⟩ ⟨ascii "y", []⟩ [] (ascii "2"),
        .connect (ascii "s") true, .register (ascii "s") (ascii "b"),
        .subscribe 4 (ascii "s") (ascii "b") true, .subscribe 4 (ascii "s") (ascii "b") true,
        .task 5 2 [], .task 5 3 []]
    (s.2.filter fun x => x = .emitted (ascii "s") ⟨ascii "x", []⟩ (some (ascii "1"))).length = 1 ∧
      .emitted (ascii "s") ⟨ascii "y", []⟩ (some (ascii "2")) ∉ s.2 ∧
      .drainRefused (ascii "s") (ascii "b") 409 ∈ s.2 := by
  decide +kernel

end TyoMq.Broker.Sealed
