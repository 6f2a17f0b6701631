import TyoMq.Lib.Runs
import TyoMq.Remote.Namespace

/-!
# Remote sessions: isolation

Whom an event may reach. A run is traced with what the sockets have redeemed (`Traced`), and every room
a socket is in is its own or one that it was admitted to (`Vouched`).

* **Isolation** (`isolated`): an event goes from the holder of a role of a session to the holders of the
  role that the rule names, in the same session, and a ticket admits no more sockets than it was issued
  times.
* The parts of a room's name are never confused (`room_inj`): whatever the session is called, the last
  colon is followed by the side.
-/

namespace TyoMq.Remote

open TyoMq.Lib

variable {π : Type*}

/-! ### Rooms -/

/-- The name of a room tells its session and its side.
Kind: P -/
theorem room_inj {S S' side side' : JsString} (h : unit ':' ∉ side) (h' : unit ':' ∉ side') :
    room S side = room S' side' ↔ S = S' ∧ side = side' := by
  constructor
  · intro heq
    have hcolon : js ":" = [unit ':'] := rfl
    simp only [room, hcolon, List.append_assoc, List.singleton_append] at heq
    have hparts := List.append_cancel_left heq
    have hlast := congrArg (fun s => lastIndexOf s (unit ':')) hparts
    simp only [lastIndexOf_append_cons h, lastIndexOf_append_cons h', Option.some.injEq] at hlast
    obtain ⟨hS, hside⟩ := List.append_inj hparts hlast
    exact ⟨hS, (List.cons.inj hside).2⟩
  · rintro ⟨rfl, rfl⟩
    rfl

theorem Role.colon_notMem (role : Role) : unit ':' ∉ role.side := by
  cases role <;> decide

/-- The two sides of a session have rooms of their own, and no two sessions share one.
Kind: C -/
theorem room_side_inj {S S' : JsString} {role role' : Role} :
    room S role.side = room S' role'.side ↔ S = S' ∧ role = role' := by
  rw [room_inj role.colon_notMem role'.colon_notMem]
  refine and_congr_right fun _ => ⟨fun h => ?_, congrArg _⟩
  cases role <;> cases role' <;> first | rfl | exact absurd h (by decide)

/-! ### Rules -/

/-- A rule names a destination that can be the end of a room's name.
Kind: L -/
theorem colon_notMem_of_normalize {config : Option RuleConfig} {sender : From} {dest : Destination}
    {binary : Bool} (h : normalizeRelayRule config = some (.relay sender dest binary)) :
    unit ':' ∉ dest.text := by
  rcases config with _ | rule
  · exact absurd h (by simp [normalizeRelayRule])
  · rw [normalizeRelayRule] at h
    split_ifs at h with hdis hvalid
    · exact absurd h (by simp)
    · obtain ⟨-, rfl, -⟩ := RelayRule.relay.inj (Option.some.inj h)
      rw [← ne_eq, JsObject.lookup_ne_undefined_iff] at hvalid
      rcases JsObject.has_assignAll hvalid with hproto | hlist
      · have hall : ∀ k ∈ objectPrototype, unit ':' ∉ k := by decide
        exact hall _ (by simpa [JsObject.has] using hproto)
      · have hall : ∀ k ∈ [js "agent", js "viewers", js "opposite"], unit ':' ∉ k := by decide
        exact hall _ hlist

/-- So does every rule of a merged table.
Kind: L -/
theorem colon_notMem_of_rule {config : Options} {event : JsString} {sender : From}
    {dest : Destination} {binary : Bool}
    (h : (mergeRelay config).rule event = some (.relay sender dest binary)) :
    unit ':' ∉ dest.text := by
  rw [RelayConfig.rule] at h
  split at h
  · rename_i rule hrule
    rw [JsObject.lookup_eq_own_iff] at hrule
    subst h
    rcases JsObject.get_own_assignAll hrule with hdefault | hover
    · rcases JsObject.get_own_assignAll hdefault with hempty | hdefault
      · exact absurd hempty (by simp)
      · have hall : ∀ e ∈ defaultRelay, ∀ sender dest binary, e.2 = .relay sender dest binary →
            unit ':' ∉ dest.text := by
          simp only [defaultRelay, List.forall_mem_cons, RelayRule.relay.injEq, and_imp]
          simp only [List.not_mem_nil, false_implies, implies_true, and_true]
          refine ⟨?_, ?_, ?_, ?_, ?_, ?_, ?_, ?_, ?_⟩ <;> rintro _ _ _ - rfl - <;> decide
        obtain ⟨e, he, heq⟩ := List.mem_map.mp hdefault
        exact hall e he _ _ _ (Option.some.inj (Prod.mk.inj heq).2)
    · obtain ⟨e, -, heq⟩ := List.mem_map.mp hover
      exact colon_notMem_of_normalize (Prod.mk.inj heq).2
  · exact absurd h (by simp)
  · split_ifs at h
    simp only [Option.some.injEq, RelayRule.relay.injEq] at h
    obtain ⟨-, rfl, -⟩ := h
    decide

theorem colon_notMem_destination {role : Role} {dest : Destination} (h : unit ':' ∉ dest.text) :
    unit ':' ∉ destination role dest := by
  unfold destination
  split_ifs
  · cases role
    · exact Role.viewer.colon_notMem
    · exact Role.agent.colon_notMem
  · exact h

/-! ### Traces -/

/-- The admission of a socket with a ticket.
Kind: D -/
structure Admission where
  /-- The socket. -/
  socket : JsString
  /-- The ticket. -/
  ticket : JsString
  /-- What the ticket was good for. -/
  entry : Ticket
  /-- When it was redeemed. -/
  now : ℚ

/-- The admission that an event makes.
Kind: D -/
def admission (ns : Namespace) : Event π → Option Admission
  | .auth id data now =>
      (ns.sockets.get id).bind fun _ =>
        (ns.accepts data now).map fun t => ⟨id, t.1, t.2, now⟩
  | _ => none

/-- The namespace with what has happened to it.
Kind: D -/
structure Traced where
  /-- The namespace. -/
  ns : Namespace
  /-- The admissions of each socket since it connected. -/
  redeemed : List Admission
  /-- The options that have been live when an event was sent. -/
  configs : List Options
  /-- The tickets that have been issued. -/
  issued : List JsString
  /-- The tickets with which a socket has been admitted. -/
  admitted : List JsString

namespace Traced

/-- The start of a trace.
Kind: D -/
def init : Traced := ⟨Namespace.init, [], [], [], []⟩

/-- The trace after an event: a socket that connects has redeemed nothing yet.
Kind: D -/
def step (ticketTtlMs : ℚ) (t : Traced) (e : Event π) : Traced where
  ns := Remote.step ticketTtlMs t.ns e
  redeemed :=
    match e with
    | .connect id =>
        if (t.ns.sockets.get id).isSome then t.redeemed
        else t.redeemed.filter fun a => a.socket ≠ id
    | e => t.redeemed ++ (admission t.ns e).toList
  configs :=
    match e with
    | .send _ _ _ config _ => t.configs ++ [config]
    | _ => t.configs
  issued :=
    match e with
    | .issueTicket (some _) _ ticket _ => t.issued ++ [ticket]
    | _ => t.issued
  admitted := t.admitted ++ ((admission t.ns e).map Admission.ticket).toList

/-- The trace of a run.
Kind: D -/
def ofRun (ticketTtlMs : ℚ) (l : List (Event π)) : Traced := runFrom (step ticketTtlMs) init l

/-- It traces the run.
Kind: P -/
theorem ns_ofRun (ticketTtlMs : ℚ) (l : List (Event π)) :
    (ofRun ticketTtlMs l).ns = runFrom (Remote.step ticketTtlMs) Namespace.init l := by
  have hgeneral : ∀ (l : List (Event π)) (t : Traced),
      (runFrom (step ticketTtlMs) t l).ns = runFrom (Remote.step ticketTtlMs) t.ns l := by
    intro l
    induction l with
    | nil => exact fun _ => rfl
    | cons e l ih => exact fun t => ih (t.step ticketTtlMs e)
  exact hgeneral l init

end Traced

/-- The role and the rooms of a socket are vouched for by its admissions.
Kind: D -/
structure Vouched (redeemed : List Admission) (id : JsString) (socket : Socket) : Prop where
  /-- Its role. -/
  role : ∀ held ∈ socket.remoteSession, ∃ a ∈ redeemed, a.socket = id ∧
    a.entry.session_id = held.session_id ∧ a.entry.role = held.role
  /-- Its rooms, the one of its own id apart. -/
  rooms : ∀ r ∈ socket.rooms, r = id ∨ ∃ a ∈ redeemed, a.socket = id ∧
    r = room a.entry.session_id a.entry.role.side

/-- More admissions vouch for as much.
Kind: L -/
theorem Vouched.mono {redeemed redeemed' : List Admission} {id : JsString} {socket : Socket}
    (h : Vouched redeemed id socket)
    (hsub : ∀ a ∈ redeemed, a.socket = id → a ∈ redeemed') : Vouched redeemed' id socket where
  role held hheld := by
    obtain ⟨a, ha, hsocket, hrest⟩ := h.role held hheld
    exact ⟨a, hsub a ha hsocket, hsocket, hrest⟩
  rooms r hr := by
    rcases h.rooms r hr with hown | ⟨a, ha, hsocket, hroom⟩
    · exact Or.inl hown
    · exact Or.inr ⟨a, hsub a ha hsocket, hsocket, hroom⟩

/-- What holds on every trace.
Kind: D -/
structure Sound (t : Traced) : Prop where
  /-- Every connected socket is vouched for. -/
  vouched : ∀ id, ∀ socket ∈ t.ns.sockets.get id, Vouched t.redeemed id socket
  /-- No connected socket has the id of a session's room. -/
  named : ∀ id, ∀ _socket ∈ t.ns.sockets.get id, ¬ js "session:" <+: id
  /-- Tickets are redeemed before they expire. -/
  fresh : ∀ a ∈ t.redeemed, a.now ≤ a.entry.expires
  /-- The cached table is that of options that have been live. -/
  cached : ∀ r ∈ t.ns.relayCache, ∃ config ∈ t.configs, r.1 = mergeRelay config

theorem getRelayConfig_cases (relayCache : Option (RelayConfig × ℚ)) (config : Options) (now : ℚ) :
    getRelayConfig relayCache config now = (mergeRelay config, now) ∨
      relayCache = some (getRelayConfig relayCache config now) := by
  rcases relayCache with _ | ⟨cached, relayCacheAt⟩
  · exact Or.inl rfl
  · rw [getRelayConfig]
    split_ifs
    · exact Or.inr rfl
    · exact Or.inl rfl

namespace Sound

variable {t : Traced} {ticketTtlMs : ℚ}

theorem init : Sound Traced.init := by
  refine ⟨?_, ?_, ?_, ?_⟩ <;> simp [Traced.init, Namespace.init]

/-- Nothing happens to the sockets.
Kind: L -/
theorem of_same (h : Sound t) {t' : Traced} (hsockets : t'.ns.sockets = t.ns.sockets)
    (hcache : t'.ns.relayCache = t.ns.relayCache) (hredeemed : t'.redeemed = t.redeemed)
    (hconfigs : t'.configs = t.configs) : Sound t' := by
  obtain ⟨hvouched, hnamed, hfresh, hcached⟩ := h
  rw [← hredeemed] at hfresh
  rw [← hsockets, ← hredeemed] at hvouched
  rw [← hsockets] at hnamed
  rw [← hcache, ← hconfigs] at hcached
  exact ⟨hvouched, hnamed, hfresh, hcached⟩

/-- A socket goes.
Kind: L -/
theorem disconnect (h : Sound t) (id : JsString) {t' : Traced}
    (hsockets : t'.ns.sockets = t.ns.sockets.delete id)
    (hcache : t'.ns.relayCache = t.ns.relayCache) (hredeemed : t'.redeemed = t.redeemed)
    (hconfigs : t'.configs = t.configs) : Sound t' := by
  have hold : ∀ id', ∀ socket ∈ t'.ns.sockets.get id', t.ns.sockets.get id' = some socket := by
    intro id' socket hget
    rw [hsockets] at hget
    by_cases hid : id' = id
    · rw [hid, JsMap.get_delete_self] at hget
      exact absurd hget (by simp)
    · rwa [JsMap.get_delete_of_ne _ hid] at hget
  refine ⟨fun id' socket hget => ?_, fun id' socket hget => ?_, ?_, ?_⟩
  · rw [hredeemed]
    exact h.vouched id' socket (hold id' socket hget)
  · exact h.named id' socket (hold id' socket hget)
  · rw [hredeemed]
    exact h.fresh
  · rw [hcache, hconfigs]
    exact h.cached

/-- A socket comes.
Kind: L -/
theorem connect (h : Sound t) {id : JsString} (hid : ¬ js "session:" <+: id) :
    Sound (t.step ticketTtlMs (.connect id : Event π)) := by
  simp only [Traced.step, Remote.step]
  split_ifs with hthere
  · exact h.of_same rfl rfl rfl rfl
  · have hget : ∀ id', ∀ socket ∈ (t.ns.connect id).sockets.get id',
        id' = id ∧ socket = ⟨none, {id}⟩ ∨ id' ≠ id ∧ t.ns.sockets.get id' = some socket := by
      intro id' socket hget
      rw [Namespace.connect, JsMap.get_set] at hget
      split_ifs at hget with hid'
      · exact Or.inl ⟨hid', (Option.some.inj hget).symm⟩
      · exact Or.inr ⟨hid', hget⟩
    refine ⟨fun id' socket hsocket => ?_, fun id' socket hsocket => ?_, fun a ha => ?_, h.cached⟩
    · rcases hget id' socket hsocket with ⟨rfl, rfl⟩ | ⟨hne, hold⟩
      · exact ⟨by simp, fun r hr => Or.inl (Finset.mem_singleton.mp hr)⟩
      · apply (h.vouched id' socket hold).mono
        intro a ha hsocket'
        exact List.mem_filter.mpr ⟨ha, decide_eq_true (hsocket' ▸ hne)⟩
    · rcases hget id' socket hsocket with ⟨rfl, -⟩ | ⟨-, hold⟩
      · exact hid
      · exact h.named id' socket hold
    · exact h.fresh a (List.mem_of_mem_filter ha)

/-- A socket is admitted.
Kind: L -/
theorem enter (h : Sound t) {id : JsString} {socket : Socket}
    (hget : t.ns.sockets.get id = some socket) (ticket : JsString) {entry : Ticket} {now : ℚ}
    (hle : now ≤ entry.expires) {t' : Traced}
    (hsockets : t'.ns.sockets = (t.ns.enter id socket entry).sockets)
    (hcache : t'.ns.relayCache = t.ns.relayCache)
    (hredeemed : t'.redeemed = t.redeemed ++ [⟨id, ticket, entry, now⟩])
    (hconfigs : t'.configs = t.configs) : Sound t' := by
  have hget' : ∀ id', ∀ socket' ∈ t'.ns.sockets.get id',
      id' = id ∧ socket' = ⟨some ⟨entry.session_id, entry.role⟩,
        insert (room entry.session_id entry.role.side) socket.rooms⟩ ∨
      id' ≠ id ∧ t.ns.sockets.get id' = some socket' := by
    intro id' socket' hsocket'
    rw [hsockets, Namespace.enter, JsMap.get_set] at hsocket'
    split_ifs at hsocket' with hid'
    · exact Or.inl ⟨hid', (Option.some.inj hsocket').symm⟩
    · exact Or.inr ⟨hid', hsocket'⟩
  have hmem : ∀ a ∈ t.redeemed, a ∈ t'.redeemed := by
    intro a ha
    rw [hredeemed]
    exact List.mem_append_left _ ha
  have hnew : (⟨id, ticket, entry, now⟩ : Admission) ∈ t'.redeemed := by
    rw [hredeemed]
    exact List.mem_append_right _ (List.mem_singleton_self _)
  refine ⟨fun id' socket' hsocket' => ?_, fun id' socket' hsocket' => ?_, fun a ha => ?_, ?_⟩
  · rcases hget' id' socket' hsocket' with ⟨rfl, rfl⟩ | ⟨-, hold⟩
    · refine ⟨fun held hheld => ?_, fun r hr => ?_⟩
      · obtain rfl := Option.some.inj hheld
        exact ⟨_, hnew, rfl, rfl, rfl⟩
      · rcases Finset.mem_insert.mp hr with rfl | hr
        · exact Or.inr ⟨_, hnew, rfl, rfl⟩
        · exact ((h.vouched _ socket hget).mono fun a ha _ => hmem a ha).rooms r hr
    · exact (h.vouched id' socket' hold).mono fun a ha _ => hmem a ha
  · rcases hget' id' socket' hsocket' with ⟨rfl, -⟩ | ⟨-, hold⟩
    · exact h.named _ socket hget
    · exact h.named id' socket' hold
  · rw [hredeemed] at ha
    rcases List.mem_append.mp ha with ha | ha
    · exact h.fresh a ha
    · rw [List.mem_singleton.mp ha]
      exact hle
  · rw [hcache, hconfigs]
    exact h.cached

/-- An event is sent.
Kind: L -/
theorem send (h : Sound t) (id event : JsString) (args : List (Arg π)) (config : Options) (now : ℚ) :
    Sound (t.step ticketTtlMs (.send id event args config now)) := by
  have hconfigs : ∀ r ∈ t.ns.relayCache, ∃ config' ∈ t.configs ++ [config],
      r.1 = mergeRelay config' := by
    intro r hr
    obtain ⟨config', hmem, heq⟩ := h.cached r hr
    exact ⟨config', List.mem_append_left _ hmem, heq⟩
  have hredeemed : (t.step ticketTtlMs (.send id event args config now)).redeemed = t.redeemed :=
    List.append_nil _
  rcases hget : t.ns.sockets.get id with _ | socket
  · have hns : (t.step ticketTtlMs (.send id event args config now)).ns = t.ns := by
      simp only [Traced.step, Remote.step, hget]
    refine ⟨?_, ?_, ?_, ?_⟩
    · rw [hns, hredeemed]
      exact h.vouched
    · rw [hns]
      exact h.named
    · rw [hredeemed]
      exact h.fresh
    · rw [hns]
      exact hconfigs
  · obtain ⟨relayCache, hcache, hdispatch⟩ := t.ns.dispatch_fst socket event args config now
    have hns : (t.step ticketTtlMs (.send id event args config now)).ns =
        { t.ns with relayCache := relayCache } := by
      simp only [Traced.step, Remote.step, hget]
      exact hdispatch
    refine ⟨?_, ?_, ?_, ?_⟩
    · rw [hns, hredeemed]
      exact h.vouched
    · rw [hns]
      exact h.named
    · rw [hredeemed]
      exact h.fresh
    · rw [hns]
      rcases hcache with rfl | rfl
      · exact hconfigs
      · intro r hr
        obtain rfl := Option.some.inj hr
        rcases getRelayConfig_cases t.ns.relayCache config now with heq | heq
        · rw [heq]
          exact ⟨config, List.mem_append_right _ (List.mem_singleton_self _), rfl⟩
        · exact hconfigs _ heq

/-- Every event keeps the trace sound.
Kind: P -/
theorem step (h : Sound t) (e : Event π) (hid : ∀ id, e = .connect id → ¬ js "session:" <+: id) :
    Sound (t.step ticketTtlMs e) := by
  cases e with
  | issueTicket session_id role ticket now =>
      rcases session_id with _ | session_id
      · exact h.of_same rfl rfl (List.append_nil _) rfl
      · exact h.of_same rfl rfl (List.append_nil _) rfl
  | cleanup ticket => exact h.of_same rfl rfl (List.append_nil _) rfl
  | connect id => exact h.connect (hid id rfl)
  | auth id data now =>
      rcases hget : t.ns.sockets.get id with _ | socket
      · apply h.of_same
        · simp only [Traced.step, Remote.step, hget]
        · simp only [Traced.step, Remote.step, hget]
        · simp [Traced.step, admission, hget]
        · rfl
      · rcases t.ns.auth_cases id socket data now with ⟨hno, tickets, hauth, -⟩ |
          ⟨ticket, entry, hyes, -, -, hle, hauth⟩
        · apply h.disconnect id
          · simp only [Traced.step, Remote.step, hget, hauth]
            rfl
          · simp only [Traced.step, Remote.step, hget, hauth]
            rfl
          · simp [Traced.step, admission, hget, hno]
          · rfl
        · apply h.enter hget ticket hle
          · simp only [Traced.step, Remote.step, hget, hauth]
            rfl
          · simp only [Traced.step, Remote.step, hget, hauth]
            rfl
          · simp only [Traced.step, admission, hget, hyes, Option.bind_some, Option.map_some,
              Option.toList_some]
          · rfl
  | send id event args config now => exact h.send id event args config now
  | disconnect id => exact h.disconnect id rfl rfl (List.append_nil _) rfl

end Sound

/-! ### Tickets -/

/-- Is the ticket there to be redeemed?
Kind: D -/
def Traced.outstanding (t : Traced) (ticket : JsString) : ℕ :=
  if (t.ns.tickets.get ticket).isSome then 1 else 0

/-- A ticket has admitted no more sockets than it was issued times, and one less while it is there.
Kind: D -/
def Traced.Balanced (t : Traced) : Prop :=
  ∀ ticket, t.admitted.count ticket + t.outstanding ticket ≤ t.issued.count ticket

namespace Traced

variable {t : Traced} {ticketTtlMs : ℚ} {ticket ticket' : JsString}

/-- A ticket that has been deleted is not there, and the others are as before.
Kind: L -/
theorem outstanding_delete {t' : Traced} (h : t'.ns.tickets = t.ns.tickets.delete ticket) :
    t'.outstanding ticket' = if ticket' = ticket then 0 else t.outstanding ticket' := by
  rw [outstanding, h, outstanding]
  by_cases heq : ticket' = ticket
  · rw [heq, JsMap.get_delete_self, if_pos rfl]
    rfl
  · rw [JsMap.get_delete_of_ne _ heq, if_neg heq]

/-- Tickets are lost.
Kind: L -/
theorem Balanced.of_le (h : t.Balanced) (t' : Traced) (hissued : t'.issued = t.issued)
    (hadmitted : t'.admitted = t.admitted)
    (htickets : t'.ns.tickets = t.ns.tickets ∨ ∃ ticket, t'.ns.tickets = t.ns.tickets.delete ticket) :
    t'.Balanced := by
  intro ticket'
  have hle : t'.outstanding ticket' ≤ t.outstanding ticket' := by
    rcases htickets with hsame | ⟨ticket, hdelete⟩
    · rw [outstanding, hsame, outstanding]
    · rw [outstanding_delete hdelete]
      split_ifs
      · exact Nat.zero_le _
      · exact le_refl _
  rw [hissued, hadmitted]
  have := h ticket'
  omega

/-- A ticket is issued.
Kind: L -/
theorem Balanced.issue (h : t.Balanced) (session_id : JsString) (role : Option JsString)
    (ticket : JsString) (now : ℚ) :
    (t.step ticketTtlMs (.issueTicket (some session_id) role ticket now : Event π)).Balanced := by
  intro ticket'
  have hold := h ticket'
  simp only [Traced.step, admission, Option.map_none, Option.toList_none, List.append_nil,
    List.count_append, List.count_singleton, outstanding, Remote.step, Namespace.issueTicket,
    JsMap.get_set] at hold ⊢
  by_cases heq : ticket' = ticket
  · simp only [heq, if_true, Option.isSome_some, beq_self_eq_true] at hold ⊢
    omega
  · simp only [heq, if_false, beq_iff_eq, Ne.symm heq] at hold ⊢
    exact hold

/-- A ticket that is there is redeemed.
Kind: L -/
theorem Balanced.redeem (h : t.Balanced) {t' : Traced} (hticket : (t.ns.tickets.get ticket).isSome = true)
    (htickets : t'.ns.tickets = t.ns.tickets.delete ticket) (hadmitted : t'.admitted = t.admitted ++ [ticket])
    (hissued : t'.issued = t.issued) : t'.Balanced := by
  intro ticket'
  have hold := h ticket'
  rw [outstanding_delete htickets, hadmitted, hissued, List.count_append, List.count_singleton]
  by_cases heq : ticket' = ticket
  · have hone : t.outstanding ticket' = 1 := by
      rw [outstanding, heq, if_pos hticket]
    simp only [heq, if_true, beq_self_eq_true] at hold hone ⊢
    omega
  · simp only [heq, if_false, beq_iff_eq, Ne.symm heq]
    exact hold

/-- Every event keeps the tickets balanced.
Kind: P -/
theorem Balanced.step (h : t.Balanced) (e : Event π) : (t.step ticketTtlMs e).Balanced := by
  cases e with
  | issueTicket session_id role ticket now =>
      rcases session_id with _ | session_id
      · exact h.of_le _ rfl (List.append_nil _) (Or.inl rfl)
      · exact h.issue session_id role ticket now
  | cleanup ticket => exact h.of_le _ rfl (List.append_nil _) (Or.inr ⟨ticket, rfl⟩)
  | connect id =>
      refine h.of_le _ rfl (List.append_nil _) (Or.inl ?_)
      simp only [Traced.step, Remote.step]
      split_ifs <;> rfl
  | auth id data now =>
      rcases hget : t.ns.sockets.get id with _ | socket
      · refine h.of_le _ rfl ?_ ?_
        · simp [Traced.step, admission, hget]
        · exact Or.inl (by simp only [Traced.step, Remote.step, hget])
      · rcases t.ns.auth_cases id socket data now with ⟨hno, tickets, hauth, htickets⟩ |
          ⟨ticket, entry, hyes, -, hticket, -, hauth⟩
        · refine h.of_le _ rfl ?_ ?_
          · simp [Traced.step, admission, hget, hno]
          · simp only [Traced.step, Remote.step, hget, hauth]
            exact htickets
        · apply h.redeem
          · rw [hticket, Option.isSome_some]
          · simp only [Traced.step, Remote.step, hget, hauth]
            rfl
          · simp only [Traced.step, admission, hget, hyes, Option.bind_some, Option.map_some,
              Option.toList_some]
          · rfl
  | send id event args config now =>
      refine h.of_le _ rfl (List.append_nil _) (Or.inl ?_)
      simp only [Traced.step, Remote.step]
      rcases t.ns.sockets.get id with _ | socket
      · rfl
      · obtain ⟨relayCache, -, hdispatch⟩ := t.ns.dispatch_fst socket event args config now
        dsimp only
        rw [hdispatch]
  | disconnect id => exact h.of_le _ rfl (List.append_nil _) (Or.inl rfl)

end Traced

/-! ### Isolation -/

/-- An event of a socket reaches another socket.
Kind: D -/
def Reaches (ns : Namespace) (id event : JsString) (args : List (Arg π)) (config : Options) (now : ℚ)
    (receiver : JsString) : Prop :=
  ∃ socket ∈ ns.sockets.get id, ∃ emission ∈ (ns.dispatch socket event args config now).2,
    receiver ∈ ns.receivers id emission.room

instance (ns : Namespace) (id event : JsString) (args : List (Arg π)) (config : Options) (now : ℚ)
    (receiver : JsString) : Decidable (Reaches ns id event args config now receiver) :=
  inferInstanceAs (Decidable (∃ socket ∈ ns.sockets.get id,
    ∃ emission ∈ (ns.dispatch socket event args config now).2,
      receiver ∈ ns.receivers id emission.room))

/-- What it takes for an event to reach a socket: the sender has redeemed a ticket in time, the receiver
one for the same session and the side that the rule names, the rule lets the sender through, and the
event is not reserved.
Kind: D -/
structure Allowed (t : Traced) (event : JsString) (config : Options) (now : ℚ) (a b : Admission) :
    Prop where
  /-- The sender's ticket was good. -/
  sender : a ∈ t.redeemed ∧ a.now ≤ a.entry.expires
  /-- So was the receiver's. -/
  receiver : b ∈ t.redeemed ∧ b.now ≤ b.entry.expires
  /-- They were for one session. -/
  session : b.entry.session_id = a.entry.session_id
  /-- There is a rule for the event, from options that are live or have been when another event was
  sent; it lets the sender's role through, and names the receiver's side. -/
  rule : ∃ config' ∈ t.configs ++ [config],
    (getRelayConfig t.ns.relayCache config now).1 = mergeRelay config' ∧
      ∃ sender dest binary, (mergeRelay config').rule event = some (.relay sender dest binary) ∧
        sender.admits a.entry.role = true ∧ destination a.entry.role dest = b.entry.role.side
  /-- The event is none of ours, nor of Socket.IO's. -/
  event : event ∉ reservedNames

/-- The ids under which sockets connect in a run.
Kind: D -/
def connectIds (l : List (Event π)) : List JsString :=
  l.filterMap fun e =>
    match e with
    | .connect id => some id
    | _ => none

namespace Traced

variable {ticketTtlMs : ℚ}

/-- Every run in which no socket connects under the name of a room is traced soundly.
Kind: P -/
theorem sound_ofRun {l : List (Event π)} (hids : ∀ id ∈ connectIds l, ¬ js "session:" <+: id) :
    Sound (ofRun ticketTtlMs l) := by
  apply invariant_run (P := fun _ e => ∀ id, e = .connect id → ¬ js "session:" <+: id)
  · exact fun t e h hid => h.step e hid
  · exact Sound.init
  · apply eachStep_of_forall
    rintro e he - id rfl
    exact hids id (List.mem_filterMap.mpr ⟨_, he, rfl⟩)

/-- Every run keeps the tickets balanced.
Kind: P -/
theorem balanced_ofRun (l : List (Event π)) : (ofRun ticketTtlMs l).Balanced := by
  apply invariant_run (P := fun _ _ => True)
  · exact fun t e h _ => h.step e
  · exact fun _ => Nat.le_refl 0
  · exact eachStep_of_forall fun _ _ _ => trivial

end Traced

theorem notMem_reservedNames {event : JsString} (h : reservedEvents.lookup event = .undefined) :
    event ∉ reservedNames := by
  have hall : ∀ e ∈ reservedNames, reservedEvents.has e = true := by decide +kernel
  exact fun hmem => JsObject.lookup_ne_undefined_iff.mpr (hall event hmem) h

/-- The table that an event is relayed by is that of options that are live, or have been.
Kind: L -/
theorem Sound.config {t : Traced} (h : Sound t) (config : Options) (now : ℚ) :
    ∃ config' ∈ t.configs ++ [config],
      (getRelayConfig t.ns.relayCache config now).1 = mergeRelay config' := by
  rcases getRelayConfig_cases t.ns.relayCache config now with hfresh | hcached
  · rw [hfresh]
    exact ⟨config, List.mem_append_right _ (List.mem_singleton_self _), rfl⟩
  · obtain ⟨config', hmem, heq⟩ := h.cached _ hcached
    exact ⟨config', List.mem_append_left _ hmem, heq⟩

/-- What a sound trace lets through.
Kind: P -/
theorem Sound.allowed {t : Traced} (h : Sound t) {id event : JsString} {args : List (Arg π)}
    {config : Options} {now : ℚ} {receiver : JsString}
    (hreaches : Reaches t.ns id event args config now receiver) :
    ∃ a b, a.socket = id ∧ b.socket = receiver ∧ Allowed t event config now a b := by
  obtain ⟨socket, hsocket, emission, hemission, hreceiver⟩ := hreaches
  obtain ⟨held, sender, dest, binary, hheld, hreserved, hrule, hadmits, hroom, -, -⟩ :=
    Namespace.of_dispatch_snd hemission
  obtain ⟨a, ha, haid, hasession, harole⟩ := (h.vouched id socket hsocket).role held hheld
  obtain ⟨config', hconfig', htable⟩ := h.config config now
  rw [htable] at hrule
  -- the receiver is in the room, and not because of its id
  obtain ⟨⟨_, other⟩, hmem, rfl⟩ := List.mem_map.mp hreceiver
  rw [List.mem_filter, decide_eq_true_eq] at hmem
  obtain ⟨hother, -, hin⟩ := hmem
  have hget := JsMap.mem_entries_iff.mp hother
  rcases (h.vouched _ other hget).rooms _ hin with hown | ⟨b, hb, hbid, hbroom⟩
  · exfalso
    apply h.named _ other hget
    rw [← hown, hroom, room, List.append_assoc, List.append_assoc]
    exact List.prefix_append _ _
  · have hdest : unit ':' ∉ destination held.role dest :=
      colon_notMem_destination (colon_notMem_of_rule hrule)
    rw [hroom, room_inj hdest b.entry.role.colon_notMem] at hbroom
    refine ⟨a, b, haid, hbid, ⟨ha, h.fresh a ha⟩, ⟨hb, h.fresh b hb⟩, ?_, ?_, ?_⟩
    · rw [hasession, hbroom.1]
    · rw [harole]
      exact ⟨config', hconfig', htable, sender, dest, binary, hrule, hadmits, hbroom.2⟩
    · exact notMem_reservedNames hreserved

/-- **Isolation.** In every run an event reaches a socket only when it may, a ticket admits no more
sockets than it was issued times, and no two sides of sessions share a room.
Kind: P -/
theorem isolated (ticketTtlMs : ℚ) (l : List (Event π))
    (hids : ∀ id ∈ connectIds l, ¬ js "session:" <+: id) :
    (∀ (id event : JsString) (args : List (Arg π)) (config : Options) (now : ℚ)
      (receiver : JsString),
      Reaches (Traced.ofRun ticketTtlMs l).ns id event args config now receiver →
        ∃ a b, a.socket = id ∧ b.socket = receiver ∧
          Allowed (Traced.ofRun ticketTtlMs l) event config now a b) ∧
      (∀ ticket, (Traced.ofRun ticketTtlMs l).admitted.count ticket ≤
        (Traced.ofRun ticketTtlMs l).issued.count ticket) ∧
      ∀ (S S' : JsString) (role role' : Role),
        room S role.side = room S' role'.side ↔ S = S' ∧ role = role' := by
  refine ⟨fun id event args config now receiver hreaches => ?_, fun ticket => ?_, ?_⟩
  · exact (Traced.sound_ofRun hids).allowed hreaches
  · exact (Nat.le_add_right _ _).trans (Traced.balanced_ofRun l ticket)
  · exact fun S S' role role' => room_side_inj

/-- An agent and a viewer meet in a session.
Kind: D -/
def meeting : List (Event Unit) :=
  [.connect (js "desktop"), .issueTicket (some (js "desk:1")) none (js "t1") 0,
    .auth (js "desktop") ⟨some (js "t1"), none, none⟩ 1,
    .connect (js "phone"), .issueTicket (some (js "desk:1")) (some (js "viewer")) (js "t2") 2,
    .auth (js "phone") ⟨some (js "t2"), some (js "desk:1"), none⟩ 3]

theorem isolated_meeting :
    Reaches (Traced.ofRun 60000 meeting).ns (js "desktop") (js "frame") [.buffer ()]
      ⟨JsMap.empty, none, none⟩ 4 (js "phone") ∧
      ∃ a b, a.socket = js "desktop" ∧ b.socket = js "phone" ∧
        Allowed (Traced.ofRun 60000 meeting) (js "frame") ⟨JsMap.empty, none, none⟩ 4 a b := by
  have hids : ∀ id ∈ connectIds meeting, ¬ js "session:" <+: id := by decide +kernel
  have hreaches : Reaches (Traced.ofRun 60000 meeting).ns (js "desktop") (js "frame") [.buffer ()]
      ⟨JsMap.empty, none, none⟩ 4 (js "phone") := by decide +kernel
  exact ⟨hreaches, (isolated 60000 meeting hids).1 _ _ _ _ _ _ hreaches⟩

end TyoMq.Remote
