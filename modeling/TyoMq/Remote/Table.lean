import TyoMq.Lib.Runs
import TyoMq.Remote.Namespace

/-!
# Remote sessions: the session table

What the table says of a session against the roles that the connected sockets hold (`Reported`).

* **Exactly when the table is right** (`reported_iff`): in every state of a run, exactly when no socket
  leaves a session that has another agent, and none takes a role while it holds another one, unless
  the session it leaves has another agent.
* The handler of `disconnect` clears the agent without a look at who it is, so a replaced agent that
  disconnects late takes its successor out of the table (`not_reported_reconnect`); and a socket that
  presents a second ticket is never taken out of its first session.
-/

namespace TyoMq.Remote

open TyoMq.Lib

variable {π : Type*} {ns : Namespace} {id id' S : JsString} {held next : RemoteSession}

namespace Namespace

/-! ### Roles -/

/-- The role that a connected socket holds.
Kind: D -/
def heldBy (ns : Namespace) (id : JsString) : Option RemoteSession :=
  (ns.sockets.get id).bind Socket.remoteSession

/-- The connected sockets that hold a role.
Kind: D -/
def holders (ns : Namespace) (held : RemoteSession) : List JsString :=
  (ns.sockets.entries.filter fun e => e.2.remoteSession = some held).map Prod.fst

theorem mem_holders : id ∈ ns.holders held ↔ ns.heldBy id = some held := by
  simp only [holders, heldBy, List.mem_map, List.mem_filter, decide_eq_true_eq, Prod.exists,
    JsMap.mem_entries_iff, Option.bind_eq_some_iff]
  constructor
  · rintro ⟨id', socket, ⟨hget, hheld⟩, rfl⟩
    exact ⟨socket, hget, hheld⟩
  · rintro ⟨socket, hget, hheld⟩
    exact ⟨id, socket, ⟨hget, hheld⟩, rfl⟩

theorem nodup_holders (ns : Namespace) (held : RemoteSession) : (ns.holders held).Nodup :=
  ns.sockets.nodup_filter _

/-- What the table has for a session, nobody when it has no entry.
Kind: D -/
def seats (ns : Namespace) (S : JsString) : Session := (ns.sessions.get S).getD ⟨none, ∅⟩

/-! ### The claim of the table -/

/-- The table is right about a session.
Kind: D -/
structure Reported (ns : Namespace) (S : JsString) : Prop where
  /-- There is an entry exactly when a connected socket holds a role of the session. -/
  entry : (ns.getSession S).isSome ↔ ∃ id role, ns.heldBy id = some ⟨S, role⟩
  /-- It has an agent exactly when a connected socket is its agent. -/
  agent : ∀ p ∈ ns.getSession S, p.agent_connected = true ↔ ∃ id, ns.heldBy id = some ⟨S, .agent⟩
  /-- Its viewers are the connected sockets that are. -/
  viewers : ∀ session ∈ ns.sessions.get S, ∀ id,
    id ∈ session.viewers ↔ ns.heldBy id = some ⟨S, .viewer⟩
  /-- They are counted. -/
  count : ∀ p ∈ ns.getSession S, p.viewer_count = (ns.holders ⟨S, .viewer⟩).length

/-- The seats are taken by those who hold the roles, and an entry has somebody.
Kind: D -/
structure Seated (ns : Namespace) (S : JsString) : Prop where
  /-- The agent's seat. -/
  agent : (ns.seats S).agent.isSome ↔ ∃ id, ns.heldBy id = some ⟨S, .agent⟩
  /-- The viewers' seats. -/
  viewers : ∀ id, id ∈ (ns.seats S).viewers ↔ ns.heldBy id = some ⟨S, .viewer⟩
  /-- There is no entry for nobody. -/
  tidy : (ns.sessions.get S).isSome →
    (ns.seats S).agent.isSome ∨ ∃ id, id ∈ (ns.seats S).viewers

/-- The table is right about a session without an entry exactly when the seats are.
Kind: L -/
theorem reported_iff_seated_of_none (hget : ns.sessions.get S = none) :
    ns.Reported S ↔ ns.Seated S := by
  have hseats : ns.seats S = ⟨none, ∅⟩ := by rw [seats, hget]; rfl
  have hnone : ns.getSession S = none := by rw [getSession, hget]; rfl
  constructor
  · intro h
    have hnobody : ¬ ∃ id role, ns.heldBy id = some ⟨S, role⟩ := by
      rw [← h.entry, hnone]
      simp
    refine ⟨?_, fun id => ?_, fun h => ?_⟩
    · rw [hseats]
      simp only [Option.isSome_none, Bool.false_eq_true, false_iff]
      rintro ⟨id, hid⟩
      exact hnobody ⟨id, _, hid⟩
    · rw [hseats]
      simp only [Finset.notMem_empty, false_iff]
      exact fun hid => hnobody ⟨id, _, hid⟩
    · rw [hget] at h
      simp at h
  · intro h
    refine ⟨?_, by simp [hnone], by simp [hget], by simp [hnone]⟩
    rw [hnone]
    simp only [Option.isSome_none, Bool.false_eq_true, false_iff]
    rintro ⟨id, role | role, hid⟩
    · have hagent := h.agent.mpr ⟨id, hid⟩
      rw [hseats] at hagent
      simp at hagent
    · have hviewer := (h.viewers id).mpr hid
      rw [hseats] at hviewer
      simp at hviewer

/-- The table is right about a session with an entry exactly when the seats are.
Kind: L -/
theorem reported_iff_seated_of_some {session : Session} (hget : ns.sessions.get S = some session) :
    ns.Reported S ↔ ns.Seated S := by
  have hseats : ns.seats S = session := by rw [seats, hget]; rfl
  have hsome : ns.getSession S = some (publicSession S session) := by rw [getSession, hget]; rfl
  constructor
  · intro h
    have hagent := h.agent _ hsome
    have hviewers := h.viewers session hget
    refine ⟨hseats ▸ hagent, hseats ▸ hviewers, fun _ => ?_⟩
    obtain ⟨id, role | role, hid⟩ := h.entry.mp (by rw [hsome]; rfl)
    · rw [hseats]
      exact Or.inl (hagent.mpr ⟨id, hid⟩)
    · rw [hseats]
      exact Or.inr ⟨id, (hviewers id).mpr hid⟩
  · intro h
    have hviewers : ∀ id, id ∈ session.viewers ↔ ns.heldBy id = some ⟨S, .viewer⟩ :=
      hseats ▸ h.viewers
    refine ⟨?_, ?_, ?_, ?_⟩
    · rw [hsome]
      simp only [Option.isSome_some, true_iff]
      rcases h.tidy (by rw [hget]; rfl) with hagent | ⟨id, hid⟩
      · obtain ⟨id, hid⟩ := h.agent.mp hagent
        exact ⟨id, _, hid⟩
      · exact ⟨id, _, (h.viewers id).mp hid⟩
    · intro p hp
      obtain rfl : publicSession S session = p := Option.some.inj (hsome.symm.trans hp)
      have hagent := h.agent
      rw [hseats] at hagent
      exact hagent
    · intro session' hsession'
      obtain rfl : session = session' := Option.some.inj (hget.symm.trans hsession')
      exact hviewers
    · intro p hp
      obtain rfl : publicSession S session = p := Option.some.inj (hsome.symm.trans hp)
      have hset : session.viewers = (ns.holders ⟨S, .viewer⟩).toFinset := by
        ext id
        rw [hviewers, List.mem_toFinset, mem_holders]
      rw [publicSession, hset, List.toFinset_card_of_nodup (ns.nodup_holders _)]

/-- The table is right about a session exactly when the seats are.
Kind: L -/
theorem reported_iff_seated : ns.Reported S ↔ ns.Seated S := by
  rcases hget : ns.sessions.get S with _ | session
  · exact reported_iff_seated_of_none hget
  · exact reported_iff_seated_of_some hget

/-! ### What the handlers make of the seats -/

/-- The seats depend on the table and the sockets only.
Kind: L -/
theorem Seated.congr {ns' : Namespace} (hsessions : ns'.sessions = ns.sessions)
    (hheldBy : ∀ id, ns'.heldBy id = ns.heldBy id) : ns'.Seated S ↔ ns.Seated S := by
  have hseats : ns'.seats S = ns.seats S := by rw [seats, seats, hsessions]
  constructor
  · rintro ⟨hagent, hviewers, htidy⟩
    simp only [hseats, hheldBy, hsessions] at hagent hviewers htidy
    exact ⟨hagent, hviewers, htidy⟩
  · rintro ⟨hagent, hviewers, htidy⟩
    refine ⟨?_, ?_, ?_⟩
    · simpa only [hseats, hheldBy] using hagent
    · simpa only [hseats, hheldBy] using hviewers
    · simpa only [hseats, hsessions] using htidy

/-- A socket may go when its session does not lose sight of another agent.
Kind: D -/
def MayLeave (ns : Namespace) (id : JsString) : Prop :=
  ∀ held ∈ ns.heldBy id, held.role = .agent → ∀ id' ∈ ns.holders held, id' = id

/-- A socket may take a role when it holds none, or this one, or leaves an agent behind.
Kind: D -/
def MayTake (ns : Namespace) (id : JsString) (next : RemoteSession) : Prop :=
  ∀ held ∈ ns.heldBy id, held = next ∨ held.role = .agent ∧ ∃ id' ∈ ns.holders held, id' ≠ id

instance (ns : Namespace) (id : JsString) : Decidable (ns.MayLeave id) :=
  inferInstanceAs (Decidable (∀ held ∈ ns.heldBy id, _))

instance (ns : Namespace) (id : JsString) (next : RemoteSession) : Decidable (ns.MayTake id next) :=
  inferInstanceAs (Decidable (∀ held ∈ ns.heldBy id, _))

theorem heldBy_disconnect :
    (ns.disconnect id).heldBy id' = if id' = id then none else ns.heldBy id' := by
  rw [heldBy, disconnect]
  split_ifs with h
  · rw [h, JsMap.get_delete_self]
    rfl
  · rw [JsMap.get_delete_of_ne _ h, heldBy]

/-- The seats after somebody has left.
Kind: L -/
theorem seats_disconnect (hheld : ns.heldBy id = some held) : (ns.disconnect id).seats S =
    if S = held.session_id then (ns.seats S).vacate id held.role else ns.seats S := by
  have hsessions : (ns.disconnect id).sessions = ns.leave id held := by
    rw [heldBy] at hheld
    simp only [disconnect, hheld]
  rw [seats, hsessions, leave]
  rcases hget : ns.sessions.get held.session_id with _ | session
  · split_ifs with hS
    · rw [seats, hS, hget]
      cases held.role <;> rfl
    · rfl
  · dsimp only
    split_ifs with hnil hS hS
    · rw [hS, JsMap.get_delete_self, seats, hget, Option.getD_some]
      obtain ⟨hagent, hviewers⟩ := hnil
      rw [Finset.card_eq_zero] at hviewers
      rw [Option.getD_none, ← hagent, ← hviewers]
    · rw [JsMap.get_delete_of_ne _ hS, seats]
    · rw [hS, JsMap.get_set_self, seats, hget]
      rfl
    · rw [JsMap.get_set_of_ne _ hS, seats]

/-- A socket without a role leaves the table alone.
Kind: L -/
theorem sessions_disconnect (hheld : ns.heldBy id = none) :
    (ns.disconnect id).sessions = ns.sessions := by
  rw [heldBy] at hheld
  simp only [disconnect, hheld]

/-- The agent's seat after somebody has left.
Kind: L -/
theorem agent_seats_disconnect (hheld : ns.heldBy id = some held) :
    ((ns.disconnect id).seats S).agent =
      if held = ⟨S, .agent⟩ then none else (ns.seats S).agent := by
  rw [seats_disconnect hheld]
  obtain ⟨S', role⟩ := held
  by_cases hS : S = S'
  · cases role with
    | agent => simp [hS, Session.vacate]
    | viewer => simp [hS, Session.vacate]
  · simp [hS, Ne.symm hS]

/-- The viewers' seats after somebody has left.
Kind: L -/
theorem viewers_seats_disconnect (hheld : ns.heldBy id = some held) :
    ((ns.disconnect id).seats S).viewers =
      if held = ⟨S, .viewer⟩ then (ns.seats S).viewers.erase id else (ns.seats S).viewers := by
  rw [seats_disconnect hheld]
  obtain ⟨S', role⟩ := held
  by_cases hS : S = S'
  · cases role with
    | agent => simp [hS, Session.vacate]
    | viewer => simp [hS, Session.vacate]
  · simp [hS, Ne.symm hS]

/-- No entry is left for nobody.
Kind: L -/
theorem tidy_disconnect (hheld : ns.heldBy id = some held)
    (h : (ns.sessions.get S).isSome → (ns.seats S).agent.isSome ∨ ∃ id, id ∈ (ns.seats S).viewers)
    (hsome : ((ns.disconnect id).sessions.get S).isSome) :
    ((ns.disconnect id).seats S).agent.isSome ∨ ∃ id', id' ∈ ((ns.disconnect id).seats S).viewers := by
  rw [seats_disconnect hheld]
  have hsessions : (ns.disconnect id).sessions = ns.leave id held := by
    rw [heldBy] at hheld
    simp only [disconnect, hheld]
  rw [hsessions, leave] at hsome
  split_ifs with hS
  · subst hS
    rcases hget : ns.sessions.get held.session_id with _ | session
    · rw [hget] at hsome
      dsimp only at hsome
      rw [hget] at hsome
      simp at hsome
    · rw [hget] at hsome
      dsimp only at hsome
      rw [seats, hget, Option.getD_some]
      split_ifs at hsome with hnil
      · rw [JsMap.get_delete_self] at hsome
        simp at hsome
      · rw [not_and_or, Finset.card_eq_zero] at hnil
        exact hnil.imp Option.isSome_iff_ne_none.mpr Finset.nonempty_iff_ne_empty.mpr
  · apply h
    rcases hget : ns.sessions.get held.session_id with _ | session
    · rwa [hget] at hsome
    · rw [hget] at hsome
      dsimp only at hsome
      split_ifs at hsome
      · rwa [JsMap.get_delete_of_ne _ hS] at hsome
      · rwa [JsMap.get_set_of_ne _ hS] at hsome

/-- A socket that was an agent leaves no agent behind in its session.
Kind: L -/
theorem mayLeave_of_seated (hafter : ∀ S, (ns.disconnect id).Seated S) : ns.MayLeave id := by
  intro held hheld hrole id' hid'
  by_contra hne
  have hagent : ((ns.disconnect id).seats held.session_id).agent.isSome := by
    apply (hafter held.session_id).agent.mpr
    refine ⟨id', ?_⟩
    rw [heldBy_disconnect, if_neg hne, mem_holders.mp hid', ← hrole]
  rw [agent_seats_disconnect hheld, if_pos (by rw [← hrole])] at hagent
  simp at hagent

/-- A socket that may go leaves the table right.
Kind: L -/
theorem seated_disconnect_of_mayLeave (h : ns.Seated S) (hmay : ns.MayLeave id) :
    (ns.disconnect id).Seated S := by
  rcases hheld : ns.heldBy id with _ | held
  · refine (Seated.congr (sessions_disconnect hheld) fun id' => ?_).mpr h
    rw [heldBy_disconnect]
    split_ifs with hid'
    · rw [hid', hheld]
    · rfl
  · refine ⟨?_, fun id' => ?_, fun hsome => tidy_disconnect hheld h.tidy hsome⟩
    · rw [agent_seats_disconnect hheld]
      split_ifs with hagent
      · simp only [Option.isSome_none, Bool.false_eq_true, false_iff]
        rintro ⟨id', hid'⟩
        rw [heldBy_disconnect] at hid'
        split_ifs at hid' with hne
        rw [hagent] at hheld
        exact hne (hmay _ hheld rfl id' (mem_holders.mpr hid'))
      · rw [h.agent]
        refine exists_congr fun id' => ?_
        rw [heldBy_disconnect]
        split_ifs with hid'
        · simp [hid', hheld, hagent]
        · rfl
    · rw [viewers_seats_disconnect hheld, heldBy_disconnect]
      split_ifs with hviewer hid' hid'
      · simp [hid']
      · rw [Finset.mem_erase, h.viewers]
        exact and_iff_right hid'
      · rw [h.viewers, hid', hheld]
        simp [hviewer]
      · exact h.viewers id'

/-- **A socket that goes leaves the table right** exactly when it may go.
Kind: P -/
theorem seated_disconnect (h : ∀ S, ns.Seated S) :
    (∀ S, (ns.disconnect id).Seated S) ↔ ns.MayLeave id :=
  ⟨mayLeave_of_seated, fun hmay S => seated_disconnect_of_mayLeave (h S) hmay⟩

theorem heldBy_enter {socket : Socket} {entry : Ticket} : (ns.enter id socket entry).heldBy id' =
    if id' = id then some ⟨entry.session_id, entry.role⟩ else ns.heldBy id' := by
  rw [heldBy, enter]
  split_ifs with h
  · rw [h, JsMap.get_set_self]
    rfl
  · rw [JsMap.get_set_of_ne _ h, heldBy]

/-- The seats after somebody has come.
Kind: L -/
theorem seats_enter {socket : Socket} {entry : Ticket} : (ns.enter id socket entry).seats S =
    if S = entry.session_id then (ns.seats S).seat id entry.role else ns.seats S := by
  rw [seats, enter, JsMap.get_set]
  split_ifs with hS
  · rw [hS]
    rfl
  · rfl

/-- The agent's seat after somebody has come.
Kind: L -/
theorem agent_seats_enter {socket : Socket} {entry : Ticket} :
    ((ns.enter id socket entry).seats S).agent =
      if (⟨entry.session_id, entry.role⟩ : RemoteSession) = ⟨S, .agent⟩ then some id
      else (ns.seats S).agent := by
  rw [seats_enter]
  obtain ⟨S', role, expires⟩ := entry
  by_cases hS : S = S'
  · cases role with
    | agent => simp [hS, Session.seat]
    | viewer => simp [hS, Session.seat]
  · simp [hS, Ne.symm hS]

/-- The viewers' seats after somebody has come.
Kind: L -/
theorem viewers_seats_enter {socket : Socket} {entry : Ticket} :
    ((ns.enter id socket entry).seats S).viewers =
      if (⟨entry.session_id, entry.role⟩ : RemoteSession) = ⟨S, .viewer⟩ then
        insert id (ns.seats S).viewers
      else (ns.seats S).viewers := by
  rw [seats_enter]
  obtain ⟨S', role, expires⟩ := entry
  by_cases hS : S = S'
  · cases role with
    | agent => simp [hS, Session.seat]
    | viewer => simp [hS, Session.seat]
  · simp [hS, Ne.symm hS]

/-- No entry is for nobody after somebody has come.
Kind: L -/
theorem tidy_enter {socket : Socket} {entry : Ticket}
    (h : (ns.sessions.get S).isSome → (ns.seats S).agent.isSome ∨ ∃ id, id ∈ (ns.seats S).viewers)
    (hsome : ((ns.enter id socket entry).sessions.get S).isSome) :
    ((ns.enter id socket entry).seats S).agent.isSome ∨
      ∃ id', id' ∈ ((ns.enter id socket entry).seats S).viewers := by
  rw [seats_enter]
  split_ifs with hS
  · cases entry.role with
    | agent => exact Or.inl rfl
    | viewer => exact Or.inr ⟨id, Finset.mem_insert_self _ _⟩
  · rw [enter, JsMap.get_set_of_ne _ hS] at hsome
    exact h hsome

/-- A socket that takes a role leaves none that the table keeps to its name.
Kind: L -/
theorem mayTake_of_seated {socket : Socket} {entry : Ticket} (h : ∀ S, ns.Seated S)
    (hafter : ∀ S, (ns.enter id socket entry).Seated S) :
    ns.MayTake id ⟨entry.session_id, entry.role⟩ := by
  rintro ⟨S, role⟩ hheld
  by_contra hnot
  rw [not_or] at hnot
  obtain ⟨hne, hnot⟩ := hnot
  cases role with
  | viewer =>
      -- its seat among the viewers stays taken
      have hseat : id ∈ ((ns.enter id socket entry).seats S).viewers := by
        rw [viewers_seats_enter, if_neg (Ne.symm hne)]
        exact ((h S).viewers id).mpr hheld
      have hnow := ((hafter S).viewers id).mp hseat
      rw [heldBy_enter, if_pos rfl] at hnow
      exact hne (Option.some.inj hnow).symm
  | agent =>
      -- the agent's seat stays taken, and by nobody who is there
      have hseat : ((ns.enter id socket entry).seats S).agent.isSome := by
        rw [agent_seats_enter, if_neg (Ne.symm hne)]
        exact (h S).agent.mpr ⟨id, hheld⟩
      obtain ⟨id', hid'⟩ := (hafter S).agent.mp hseat
      rw [heldBy_enter] at hid'
      split_ifs at hid' with heq
      · exact hne (Option.some.inj hid').symm
      · exact hnot ⟨rfl, id', mem_holders.mpr hid', heq⟩

/-- A socket that takes a role that it may take leaves the table right.
Kind: L -/
theorem seated_enter_of_mayTake {socket : Socket} {entry : Ticket} (h : ns.Seated S)
    (hmay : ns.MayTake id ⟨entry.session_id, entry.role⟩) :
    (ns.enter id socket entry).Seated S := by
  refine ⟨?_, fun id' => ?_, fun hsome => tidy_enter h.tidy hsome⟩
  · rw [agent_seats_enter]
    split_ifs with hagent
    · exact ⟨fun _ => ⟨id, by rw [heldBy_enter, if_pos rfl, hagent]⟩, fun _ => rfl⟩
    · rw [h.agent]
      constructor
      · rintro ⟨id', hid'⟩
        by_cases heq : id' = id
        · subst heq
          rcases hmay _ hid' with hnext | ⟨-, id'', hid'', hne⟩
          · exact absurd hnext.symm hagent
          · exact ⟨id'', by rw [heldBy_enter, if_neg hne, mem_holders.mp hid'']⟩
        · exact ⟨id', by rw [heldBy_enter, if_neg heq, hid']⟩
      · rintro ⟨id', hid'⟩
        rw [heldBy_enter] at hid'
        split_ifs at hid' with heq
        · exact absurd (Option.some.inj hid') hagent
        · exact ⟨id', hid'⟩
  · rw [viewers_seats_enter, heldBy_enter]
    split_ifs with hviewer hid' hid'
    · simp [hid', hviewer]
    · rw [Finset.mem_insert, h.viewers]
      exact or_iff_right hid'
    · subst hid'
      rw [h.viewers]
      constructor
      · intro hheld
        rcases hmay _ hheld with hnext | ⟨hrole, -⟩
        · exact congrArg some hnext.symm
        · exact absurd hrole (by simp)
      · intro hnext
        exact absurd (Option.some.inj hnext) hviewer
    · exact h.viewers id'

/-- **A socket that takes a role leaves the table right** exactly when it may take it.
Kind: P -/
theorem seated_enter (socket : Socket) {entry : Ticket} (h : ∀ S, ns.Seated S) :
    (∀ S, (ns.enter id socket entry).Seated S) ↔ ns.MayTake id ⟨entry.session_id, entry.role⟩ :=
  ⟨mayTake_of_seated h, fun hmay S => seated_enter_of_mayTake (h S) hmay⟩

/-! ### Runs -/

/-- Does the event keep the table right?
Kind: D -/
def KeepsTable (ns : Namespace) : Event π → Prop
  | .auth id data now =>
      match ns.accepts data now with
      | none => ns.MayLeave id
      | some (_, entry) => ns.MayTake id ⟨entry.session_id, entry.role⟩
  | .disconnect id => ns.MayLeave id
  | _ => True

instance (ns : Namespace) : ∀ e : Event π, Decidable (ns.KeepsTable e)
  | .auth id data now =>
      match h : ns.accepts data now with
      | none => decidable_of_iff (ns.MayLeave id) (by rw [KeepsTable, h])
      | some (_, entry) =>
          decidable_of_iff (ns.MayTake id ⟨entry.session_id, entry.role⟩) (by rw [KeepsTable, h])
  | .disconnect id => inferInstanceAs (Decidable (ns.MayLeave id))
  | .issueTicket .. => isTrue trivial
  | .cleanup _ => isTrue trivial
  | .connect _ => isTrue trivial
  | .send .. => isTrue trivial

/-- **One step keeps the table right** exactly under the condition.
Kind: P -/
theorem seated_step (ticketTtlMs : ℚ) (ns : Namespace) (e : Event π) (h : ∀ S, ns.Seated S) :
    (∀ S, (step ticketTtlMs ns e).Seated S) ↔ ns.KeepsTable e := by
  have hsame : ∀ {ns' : Namespace}, ns'.sessions = ns.sessions →
      (∀ id, ns'.heldBy id = ns.heldBy id) → ((∀ S, ns'.Seated S) ↔ True) := by
    intro ns' hsessions hheldBy
    exact iff_true_intro fun S => (Seated.congr hsessions hheldBy).mpr (h S)
  cases e with
  | issueTicket session_id role ticket now =>
      rcases session_id with _ | session_id
      · exact hsame rfl fun _ => rfl
      · exact hsame rfl fun _ => rfl
  | cleanup ticket => exact hsame rfl fun _ => rfl
  | connect id =>
      rw [step]
      split_ifs with hnew
      · exact hsame rfl fun _ => rfl
      · refine hsame rfl fun id' => ?_
        rw [heldBy, connect, JsMap.get_set]
        split_ifs with hid
        · rw [heldBy, hid, Option.not_isSome_iff_eq_none.mp hnew]
          rfl
        · rw [heldBy]
  | auth id data now =>
      rw [step]
      rcases hget : ns.sockets.get id with _ | socket
      · have hnone : ns.heldBy id = none := by rw [heldBy, hget]; rfl
        refine (hsame rfl fun _ => rfl).trans (iff_of_true trivial ?_)
        rw [KeepsTable]
        split
        · intro held hheld
          exact absurd (hnone.symm.trans hheld) (by simp)
        · intro held hheld
          exact absurd (hnone.symm.trans hheld) (by simp)
      · dsimp only
        rcases ns.auth_cases id socket data now with ⟨hno, tickets, hauth, -⟩ |
          ⟨ticket, entry, hyes, -, -, -, hauth⟩
        · rw [hauth, KeepsTable, hno]
          refine Iff.trans (forall_congr' fun S => ?_) (seated_disconnect h)
          exact Seated.congr rfl fun _ => rfl
        · rw [hauth, KeepsTable, hyes]
          refine Iff.trans (forall_congr' fun S => ?_) (seated_enter socket h)
          exact Seated.congr rfl fun _ => rfl
  | send id event args config now =>
      rw [step]
      rcases ns.sockets.get id with _ | socket
      · exact hsame rfl fun _ => rfl
      · obtain ⟨relayCache, -, hdispatch⟩ := ns.dispatch_fst socket event args config now
        dsimp only
        rw [hdispatch]
        exact hsame rfl fun _ => rfl
  | disconnect id => exact seated_disconnect h

end Namespace

/-- **The table is right in every state of a run** exactly when every step keeps it so.
Kind: P -/
theorem reported_iff (ticketTtlMs : ℚ) (l : List (Event π)) :
    (∀ l₁ l₂, l₁ ++ l₂ = l →
      ∀ S, (runFrom (step ticketTtlMs) Namespace.init l₁).Reported S) ↔
      EachStep (step ticketTtlMs) Namespace.KeepsTable Namespace.init l := by
  simp only [Namespace.reported_iff_seated]
  apply everyState_iff (I := fun ns => ∀ S, Namespace.Seated ns S)
  · exact fun ns e h => Namespace.seated_step ticketTtlMs ns e h
  · intro S
    refine ⟨?_, ?_, ?_⟩ <;> simp [Namespace.seats, Namespace.init, Namespace.heldBy]

/-- The agent of a session reconnects, and its old socket disconnects after that.
Kind: D -/
def reconnect : List (Event Unit) :=
  [.connect (js "old"), .issueTicket (some (js "desk")) none (js "t1") 0,
    .auth (js "old") ⟨some (js "t1"), none, none⟩ 1,
    .connect (js "new"), .issueTicket (some (js "desk")) none (js "t2") 2,
    .auth (js "new") ⟨some (js "t2"), none, none⟩ 3, .disconnect (js "old")]

/-- The session is gone although its new agent is there.
Kind: P -/
theorem not_reported_reconnect :
    (runFrom (step 60000) Namespace.init reconnect).getSession (js "desk") = none ∧
      (runFrom (step 60000) Namespace.init reconnect).heldBy (js "new") =
        some ⟨js "desk", .agent⟩ ∧
      ¬ (runFrom (step 60000) Namespace.init reconnect).Reported (js "desk") := by
  have hgone : (runFrom (step 60000) Namespace.init reconnect).getSession (js "desk") = none := by
    decide +kernel
  have hheld : (runFrom (step 60000) Namespace.init reconnect).heldBy (js "new") =
      some ⟨js "desk", .agent⟩ := by decide +kernel
  refine ⟨hgone, hheld, fun h => ?_⟩
  have hentry := h.entry.mpr ⟨_, _, hheld⟩
  rw [hgone] at hentry
  exact absurd hentry (by simp)

end TyoMq.Remote
