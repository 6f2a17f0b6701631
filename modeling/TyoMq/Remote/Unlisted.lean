import TyoMq.Remote.Isolation

/-!
# Remote sessions: events without a rule

What the dispatcher does with an event that no rule is about, when such events are relayed: it goes to the
other side of the sender's session as it is.

* **Every name but those of `Object.prototype`** (`relayed_iff`). Under these the lookup among the reserved
  names finds what the object inherits, so that the event is dropped, whatever the table says.
* The table that is in force is that of options that are live, or were when it was merged
  (`relayed_iff_of_live`).
-/

namespace TyoMq.Remote

open TyoMq.Lib

variable {π : Type*}

/-! ### The reference -/

/-- The other role.
Kind: D -/
def Role.opposite : Role → Role
  | .agent => .viewer
  | .viewer => .agent

/-- The arguments that are not functions, or one empty object when there are none.
Kind: D -/
def forwarded (args : List (Arg π)) : List (Arg π) :=
  if ∀ a ∈ args, a.isCallback = true then [.empty] else args.filter fun a => !a.isCallback

/-- The options have no entry for the event, and do not turn off what is not listed.
Kind: D -/
structure Options.LeavesUnlisted (config : Options) (event : JsString) : Prop where
  /-- No entry. -/
  entry : config.relay.get event = none
  /-- `relay_unlisted` is at its default. -/
  unlisted : (config.relay_unlisted.or config.relayUnlisted).getD false = false

instance (config : Options) (event : JsString) : Decidable (config.LeavesUnlisted event) :=
  decidable_of_iff (config.relay.get event = none ∧
      (config.relay_unlisted.or config.relayUnlisted).getD false = false)
    ⟨fun h => ⟨h.1, h.2⟩, fun h => ⟨h.entry, h.unlisted⟩⟩

/-- The event is emitted once, to the other side of the session, with its arguments.
Kind: D -/
def Relayed (ns : Namespace) (id : JsString) (socket : Socket) (held : RemoteSession) (event : JsString)
    (args : List (Arg π)) (config : Options) (now : ℚ) : Prop :=
  (ns.dispatch socket event args config now).2 =
      some ⟨room held.session_id held.role.opposite.side, event, forwarded args⟩ ∧
    ∀ receiver, Reaches ns id event args config now receiver ↔
      receiver ∈ ns.receivers id (room held.session_id held.role.opposite.side)

/-! ### Lookups -/

section Lookups

variable {event : JsString} {c : Options}

/-- What is found among the reserved names.
Kind: L -/
theorem lookup_reservedEvents_ne_iff :
    reservedEvents.lookup event ≠ .undefined ↔ event ∈ reservedNames ∨ event ∈ objectPrototype := by
  rw [JsObject.lookup_ne_undefined_iff]
  constructor
  · intro h
    rcases JsObject.has_assignAll h with hempty | hname
    · right
      simpa [JsObject.has] using hempty
    · left
      simpa [List.map_map, Function.comp_def] using hname
  · rintro (hname | hproto)
    · have hall : ∀ e ∈ reservedNames, reservedEvents.has e = true := by decide +kernel
      exact hall event hname
    · exact JsObject.has_iff.mpr (Or.inr hproto)

/-- A table from options without an entry has just the rules that are built in.
Kind: L -/
theorem lookup_table (hc : c.LeavesUnlisted event) (hbuiltin : event ∉ defaultRelay.map Prod.fst)
    (hproto : event ∉ objectPrototype) : (mergeRelay c).table.lookup event = .undefined := by
  by_contra hfound
  rcases JsObject.has_assignAll (JsObject.lookup_ne_undefined_iff.mp hfound) with hdefault | hoverride
  · rcases JsObject.has_assignAll hdefault with hempty | hname
    · apply hproto
      simpa [JsObject.has] using hempty
    · apply hbuiltin
      simpa [List.map_map, Function.comp_def] using hname
  · obtain ⟨_, he, rfl⟩ := List.mem_map.mp hoverride
    obtain ⟨⟨event, rule⟩, hmem, rfl⟩ := List.mem_map.mp he
    have hget := JsMap.mem_entries_iff.mp (List.mem_filter.mp hmem).1
    rw [hc.entry] at hget
    exact absurd hget (by simp)

/-- The rule for an event that has none.
Kind: L -/
theorem rule_of_unlisted (hc : c.LeavesUnlisted event) (hbuiltin : event ∉ defaultRelay.map Prod.fst)
    (hproto : event ∉ objectPrototype) :
    (mergeRelay c).rule event = some (.relay .any ⟨js "opposite", true⟩ false) := by
  have hoff : (mergeRelay c).unlistedOff = false := hc.unlisted
  rw [RelayConfig.rule, lookup_table hc hbuiltin hproto, hoff]
  rfl

theorem destination_opposite (role : Role) :
    destination role ⟨js "opposite", true⟩ = role.opposite.side := by
  cases role <;> rfl

theorem payload_false (args : List (Arg π)) : payload false args = some (forwarded args) := by
  have hempty : (args.filter fun a => !a.isCallback).isEmpty = true ↔
      ∀ a ∈ args, a.isCallback = true := by
    simp [List.isEmpty_iff, List.filter_eq_nil_iff]
  unfold payload forwarded
  simp only [Bool.false_eq_true, if_false, hempty]

end Lookups

/-! ### Main result -/

section Relayed

variable {ns : Namespace} {id : JsString} {socket : Socket} {held : RemoteSession} {event : JsString}
  {args : List (Arg π)} {config c : Options} {now : ℚ}

/-- What reaches the others is what is emitted.
Kind: L -/
theorem reaches_iff (hget : ns.sockets.get id = some socket) {emission : Emission π}
    (hemission : (ns.dispatch socket event args config now).2 = some emission) (receiver : JsString) :
    Reaches ns id event args config now receiver ↔ receiver ∈ ns.receivers id emission.room := by
  constructor
  · rintro ⟨socket', hsocket', emission', hemission', hreceiver⟩
    obtain rfl : socket = socket' := Option.some.inj (hget.symm.trans hsocket')
    obtain rfl : emission = emission' := Option.some.inj (hemission.symm.trans hemission')
    exact hreceiver
  · exact fun hreceiver => ⟨socket, hget, emission, hemission, hreceiver⟩

/-- **Events without a rule**: when the table in force has none for an event, the event is relayed to the
other side exactly when its name is not one that every object inherits.
Kind: C -/
theorem relayed_iff (hget : ns.sockets.get id = some socket) (hheld : socket.remoteSession = some held)
    (hreserved : event ∉ reservedNames) (hbuiltin : event ∉ defaultRelay.map Prod.fst)
    (htable : (getRelayConfig ns.relayCache config now).1 = mergeRelay c)
    (hc : c.LeavesUnlisted event) (args : List (Arg π)) :
    Relayed ns id socket held event args config now ↔ event ∉ objectPrototype := by
  constructor
  · rintro ⟨hemission, -⟩ hproto
    obtain ⟨-, -, -, -, -, hlookup, -⟩ := Namespace.of_dispatch_snd hemission
    exact lookup_reservedEvents_ne_iff.mpr (Or.inr hproto) hlookup
  · intro hproto
    have hlookup : ¬ reservedEvents.lookup event ≠ .undefined := by
      rw [lookup_reservedEvents_ne_iff]
      exact not_or.mpr ⟨hreserved, hproto⟩
    have hemission : (ns.dispatch socket event args config now).2 =
        some ⟨room held.session_id held.role.opposite.side, event, forwarded args⟩ := by
      unfold Namespace.dispatch
      rw [hheld]
      simp only [if_neg hlookup, htable, rule_of_unlisted hc hbuiltin hproto]
      rw [if_pos (show From.any.admits held.role = true from rfl), destination_opposite, payload_false]
      rfl
    exact ⟨hemission, reaches_iff hget hemission⟩

/-- The agent of `meeting` has redeemed its ticket.
Kind: L -/
theorem agent_meeting : ∃ socket, (Traced.ofRun 60000 meeting).ns.sockets.get (js "desktop") = some socket ∧
    socket.remoteSession = some ⟨js "desk:1", .agent⟩ := by
  have hheld : ((Traced.ofRun 60000 meeting).ns.sockets.get (js "desktop")).bind Socket.remoteSession =
      some ⟨js "desk:1", .agent⟩ := by decide +kernel
  exact Option.bind_eq_some_iff.mp hheld

/-- Nothing has been sent in it, and so no table has been merged.
Kind: L -/
theorem table_meeting (config : Options) (now : ℚ) :
    (getRelayConfig (Traced.ofRun 60000 meeting).ns.relayCache config now).1 = mergeRelay config := by
  have hnone : (Traced.ofRun 60000 meeting).ns.relayCache.isNone = true := by decide +kernel
  rw [Option.isNone_iff_eq_none.mp hnone]
  rfl

/-- One event goes to the viewer, and one named as a member of `Object.prototype` does not.
Kind: C -/
theorem relayed_iff_note :
    ∃ socket, (Traced.ofRun 60000 meeting).ns.sockets.get (js "desktop") = some socket ∧
      Relayed (Traced.ofRun 60000 meeting).ns (js "desktop") socket ⟨js "desk:1", .agent⟩
        (js "note") [.buffer (), .callback] ⟨JsMap.empty, none, none⟩ 4 ∧
      ¬ Relayed (Traced.ofRun 60000 meeting).ns (js "desktop") socket ⟨js "desk:1", .agent⟩
        (js "constructor") [.buffer (), .callback] ⟨JsMap.empty, none, none⟩ 4 := by
  obtain ⟨socket, hget, hheld⟩ := agent_meeting
  have hrelayed : ∀ event, event ∉ reservedNames → event ∉ defaultRelay.map Prod.fst →
      (Relayed (Traced.ofRun 60000 meeting).ns (js "desktop") socket ⟨js "desk:1", .agent⟩ event
        [.buffer (), .callback] ⟨JsMap.empty, none, none⟩ 4 ↔ event ∉ objectPrototype) :=
    fun event hreserved hbuiltin =>
      relayed_iff hget hheld hreserved hbuiltin (table_meeting _ _) ⟨rfl, rfl⟩ _
  refine ⟨socket, hget, (hrelayed _ ?_ ?_).mpr ?_, fun h => (hrelayed _ ?_ ?_).mp h ?_⟩
  all_goals decide

theorem not_relayed_constructor :
    ¬ ∀ (ns : Namespace) (id : JsString) (socket : Socket) (held : RemoteSession) (event : JsString)
      (args : List (Arg Unit)) (config : Options) (now : ℚ), ns.sockets.get id = some socket →
      socket.remoteSession = some held → event ∉ reservedNames → event ∉ defaultRelay.map Prod.fst →
      (getRelayConfig ns.relayCache config now).1 = mergeRelay config → config.LeavesUnlisted event →
      Relayed ns id socket held event args config now := by
  intro h
  obtain ⟨socket, hget, hheld⟩ := agent_meeting
  have hrelayed := h _ _ _ _ (js "constructor") [.buffer ()] ⟨JsMap.empty, none, none⟩ 4 hget hheld
    (by decide) (by decide) (table_meeting _ _) ⟨rfl, rfl⟩
  have hlookup : reservedEvents.lookup (js "constructor") ≠ .undefined := by decide +kernel
  have hnothing : ((Traced.ofRun 60000 meeting).ns.dispatch socket (js "constructor") [.buffer ()]
      ⟨JsMap.empty, none, none⟩ 4).2 = none := by
    rw [Namespace.dispatch, hheld]
    simp only [if_pos hlookup]
  rw [Relayed, hnothing] at hrelayed
  exact absurd hrelayed.1 (by simp)

end Relayed

/-! ### Runs -/

section Runs

/-- The options that were live when an event was sent.
Kind: D -/
def liveOptions (l : List (Event π)) : List Options :=
  l.filterMap fun e =>
    match e with
    | .send _ _ _ config _ => some config
    | _ => none

/-- No event but one that is sent touches the cached table.
Kind: L -/
theorem relayCache_step (ticketTtlMs : ℚ) (ns : Namespace) (e : Event π) :
    (step ticketTtlMs ns e).relayCache = ns.relayCache ∨
      ∃ id event args config now, e = .send id event args config now ∧
        (step ticketTtlMs ns e).relayCache = some (getRelayConfig ns.relayCache config now) := by
  cases e with
  | issueTicket session_id role ticket now =>
      left
      cases session_id <;> rfl
  | cleanup ticket => exact Or.inl rfl
  | connect id =>
      left
      rw [step]
      split_ifs <;> rfl
  | auth id data now =>
      left
      rw [step]
      split
      · rfl
      · rename_i socket _
        rcases ns.auth_cases id socket data now with ⟨-, tickets, heq, -⟩ | ⟨_, _, -, -, -, -, heq⟩
        · rw [heq]
          rfl
        · rw [heq]
          rfl
  | send id event args config now =>
      rw [step]
      split
      · exact Or.inl rfl
      · rename_i socket _
        obtain ⟨relayCache, hcache, heq⟩ := ns.dispatch_fst socket event args config now
        rw [heq]
        rcases hcache with hold | hnew
        · exact Or.inl hold
        · exact Or.inr ⟨id, event, args, config, now, rfl, hnew⟩
  | disconnect id => exact Or.inl rfl

/-- The cached table is that of options that were live.
Kind: P -/
theorem cached_of_run (ticketTtlMs : ℚ) (l : List (Event π)) :
    ∀ r ∈ (runFrom (step ticketTtlMs) Namespace.init l).relayCache,
      ∃ c ∈ liveOptions l, r.1 = mergeRelay c := by
  induction l using List.reverseRecOn with
  | nil => exact fun r hr => absurd hr (by simp [Namespace.init])
  | append_singleton l e ih =>
      intro r hr
      rw [runFrom_append, runFrom_cons, runFrom_nil] at hr
      have hlater : ∀ c ∈ liveOptions l, c ∈ liveOptions (l ++ [e]) := by
        intro c hc
        rw [liveOptions, List.filterMap_append]
        exact List.mem_append_left _ hc
      rcases relayCache_step ticketTtlMs (runFrom (step ticketTtlMs) Namespace.init l) e with
        hsame | ⟨id, event, args, config, now, rfl, hmerged⟩
      · rw [hsame] at hr
        obtain ⟨c, hc, heq⟩ := ih r hr
        exact ⟨c, hlater c hc, heq⟩
      · rw [hmerged] at hr
        obtain rfl := Option.some.inj hr
        rcases getRelayConfig_cases (runFrom (step ticketTtlMs) Namespace.init l).relayCache config now
          with hfresh | hcached
        · refine ⟨config, ?_, by rw [hfresh]⟩
          rw [liveOptions, List.filterMap_append]
          exact List.mem_append_right _ (List.mem_singleton_self _)
        · obtain ⟨c, hc, heq⟩ := ih _ hcached
          exact ⟨c, hlater c hc, heq⟩

/-- In a run in which no options that were live have an entry for the event, it is relayed exactly when its
name is not one that every object inherits.
Kind: P -/
theorem relayed_iff_of_live (ticketTtlMs : ℚ) (l : List (Event π)) {id : JsString} {socket : Socket}
    {held : RemoteSession} {event : JsString} {config : Options} {now : ℚ}
    (hget : (runFrom (step ticketTtlMs) Namespace.init l).sockets.get id = some socket)
    (hheld : socket.remoteSession = some held) (hreserved : event ∉ reservedNames)
    (hbuiltin : event ∉ defaultRelay.map Prod.fst)
    (hlive : ∀ c ∈ config :: liveOptions l, c.LeavesUnlisted event) (args : List (Arg π)) :
    Relayed (runFrom (step ticketTtlMs) Namespace.init l) id socket held event args config now ↔
      event ∉ objectPrototype := by
  rcases getRelayConfig_cases (runFrom (step ticketTtlMs) Namespace.init l).relayCache config now
    with hfresh | hcached
  · have htable := congrArg Prod.fst hfresh
    exact relayed_iff hget hheld hreserved hbuiltin htable (hlive config List.mem_cons_self) args
  · obtain ⟨c, hc, htable⟩ := cached_of_run ticketTtlMs l _ hcached
    exact relayed_iff hget hheld hreserved hbuiltin htable (hlive c (List.mem_cons_of_mem _ hc)) args

end Runs

end TyoMq.Remote
