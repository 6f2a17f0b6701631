import Mathlib.Algebra.Order.Ring.Rat
import Mathlib.Data.Finset.Card
import TyoMq.Lib.JsObject

/-!
# Remote sessions

`lib/remote-namespace.js`: the `/remote` namespace. A ticket admits a socket to one side of a session,
the agent's or the viewers', and every later event of the socket is relayed to a room of its session
by a table of rules.

* Socket.IO is modelled as far as the namespace relies on it: a connected socket is in the room of its
  own id and in those it has joined, a broadcast to a room goes to the other sockets in it, and
  `disconnect(true)` runs the handler of `disconnect` before it returns.
* A value from outside is given as the source looks at it: a missing or falsy `session_id` or `role` is
  `none`, and otherwise its text.
-/

namespace TyoMq.Remote

open TyoMq.Lib

/-- The side a socket is on.
Kind: D -/
inductive Role
  | agent
  | viewer
  deriving DecidableEq

/-- The role as the clients write it.
Kind: D -/
def Role.name : Role → JsString
  | .agent => js "agent"
  | .viewer => js "viewer"

/-- The last part of the name of the role's room.
Kind: D -/
def Role.side : Role → JsString
  | .agent => js "agent"
  | .viewer => js "viewers"

/-! ### Relay rules -/

/-- The senders that a rule lets through.
Kind: D -/
inductive From
  | agent
  | viewer
  | any
  deriving DecidableEq

/-- Does the rule let the role through?
Kind: D -/
def From.admits : From → Role → Bool
  | .any, _ => true
  | .agent, role => role = .agent
  | .viewer, role => role = .viewer

/-- The destination that a rule names: its text, which is all that a property key or a room name
takes of it, and whether it is a string itself.
Kind: D -/
structure Destination where
  /-- `String(to)`. -/
  text : JsString
  /-- `typeof to === 'string'`. -/
  isString : Bool
  deriving DecidableEq

/-- A rule object as an operator writes it.
Kind: D -/
structure RuleConfig where
  /-- `enabled` is `false`. -/
  disabled : Bool
  /-- `from`, when it is a string. -/
  «from» : Option JsString
  /-- `to`. -/
  «to» : Destination
  /-- `binary` is truthy. -/
  binary : Bool

/-- A rule after normalization.
Kind: D -/
inductive RelayRule
  /-- `{enabled: false}`. -/
  | disabled
  /-- `{from, to, binary}`. -/
  | relay («from» : From) («to» : Destination) (binary : Bool)

/-- Source: `lib/remote-namespace.js`, `DEFAULT_RELAY`
Kind: D -/
def defaultRelay : List (JsString × RelayRule) :=
  [(js "frame", .relay .agent ⟨js "viewers", true⟩ true),
    (js "input.mouse", .relay .viewer ⟨js "agent", true⟩ false),
    (js "input.keyboard", .relay .viewer ⟨js "agent", true⟩ false),
    (js "input.sas", .relay .viewer ⟨js "agent", true⟩ false),
    (js "remote.setmonitor", .relay .viewer ⟨js "agent", true⟩ false),
    (js "rtc.offer", .relay .agent ⟨js "viewers", true⟩ false),
    (js "rtc.answer", .relay .viewer ⟨js "agent", true⟩ false),
    (js "rtc.ready", .relay .viewer ⟨js "agent", true⟩ false),
    (js "rtc.ice", .relay .any ⟨js "opposite", true⟩ false)]

/-- The names that are never relayed.
Kind: D -/
def reservedNames : List JsString :=
  [js "auth", js "auth_ok", js "auth_error", js "connect", js "connect_error", js "disconnect",
    js "disconnecting", js "newListener", js "removeListener"]

/-- Source: `lib/remote-namespace.js`, `RESERVED_EVENTS`
Kind: D -/
def reservedEvents : JsObject Unit := JsObject.empty.assignAll (reservedNames.map fun e => (e, ()))

/-- Source: `lib/remote-namespace.js`, `VALID_DESTINATIONS`
Kind: D -/
def validDestinations : JsObject Unit :=
  JsObject.empty.assignAll [(js "agent", ()), (js "viewers", ()), (js "opposite", ())]

/-- The senders that a rule object lets through: everybody, unless it names a role.
Source: `lib/remote-namespace.js`, `normalizeRelayRule`
Kind: D -/
def RuleConfig.sender (rule : RuleConfig) : From :=
  if rule.from = some (js "agent") then .agent
  else if rule.from = some (js "viewer") then .viewer
  else .any

/-- A rule that is no object, or names no destination, becomes `null`.
Source: `lib/remote-namespace.js`, `normalizeRelayRule`
Kind: D -/
def normalizeRelayRule : Option RuleConfig → Option RelayRule
  | none => none
  | some rule =>
      if rule.disabled then some .disabled
      else if validDestinations.lookup rule.«to».text = .undefined then none
      else some (.relay rule.sender rule.«to» rule.binary)

/-- The live options of the namespace that the relay reads.
Kind: D -/
structure Options where
  /-- The overrides, `none` for a value that is no object. -/
  relay : JsMap JsString (Option RuleConfig)
  /-- `relay_unlisted`, when it is given: is it `'off'` or `false`? -/
  relay_unlisted : Option Bool
  /-- `relayUnlisted`, in the same way. -/
  relayUnlisted : Option Bool

/-- The merged rule table.
Kind: D -/
structure RelayConfig where
  /-- The rules, `none` for `null`. -/
  table : JsObject (Option RelayRule)
  /-- Are events without a rule dropped? -/
  unlistedOff : Bool

/-- The rule table that the options make.
Source: `lib/remote-namespace.js`, `getRelayConfig`
Kind: D -/
def mergeRelay (config : Options) : RelayConfig where
  table :=
    (JsObject.empty.assignAll (defaultRelay.map fun e => (e.1, some e.2))).assignAll
      ((config.relay.entries.filter fun e => reservedEvents.lookup e.1 = .undefined).map fun e =>
        (e.1, normalizeRelayRule e.2))
  unlistedOff := (config.relay_unlisted.or config.relayUnlisted).getD false

/-- The table is merged again when the last one is a second old.
Source: `lib/remote-namespace.js`, `getRelayConfig`
Kind: D -/
def getRelayConfig (relayCache : Option (RelayConfig × ℚ)) (config : Options) (now : ℚ) :
    RelayConfig × ℚ :=
  match relayCache with
  | none => (mergeRelay config, now)
  | some (cached, relayCacheAt) =>
      if now - relayCacheAt < 1000 then (cached, relayCacheAt) else (mergeRelay config, now)

/-- The rule for an event. What the table inherits is no rule: its `from` is no role.
Source: `lib/remote-namespace.js`, the dispatcher in `attachRemoteNamespace`
Kind: D -/
def RelayConfig.rule (relay : RelayConfig) (event : JsString) : Option RelayRule :=
  match relay.table.lookup event with
  | .own rule => rule
  | .inherited => none
  | .undefined => if relay.unlistedOff then none else some (.relay .any ⟨js "opposite", true⟩ false)

/-- The last part of the name of the room that a rule sends a role's events to.
Source: `lib/remote-namespace.js`, the dispatcher in `attachRemoteNamespace`
Kind: D -/
def destination (role : Role) («to» : Destination) : JsString :=
  if «to» = ⟨js "opposite", true⟩ then
    match role with
    | .agent => Role.viewer.side
    | .viewer => Role.agent.side
  else «to».text

/-- The name of a room.
Kind: D -/
def room (sessionId side : JsString) : JsString := js "session:" ++ sessionId ++ js ":" ++ side

/-! ### Payloads -/

/-- An argument of an event.
Kind: D -/
inductive Arg (π : Type*)
  /-- A buffer. -/
  | buffer (bytes : π)
  /-- Another value and, when it has a `frame`, the bytes that this encodes. -/
  | value (v : π) (frame : Option π)
  /-- `{}`. -/
  | empty
  /-- An acknowledgement callback. -/
  | callback

/-- Is it a function?
Kind: D -/
def Arg.isCallback {π : Type*} : Arg π → Bool
  | .callback => true
  | _ => false

/-- What is sent on for the arguments of an event, if anything.
Source: `lib/remote-namespace.js`, the dispatcher in `attachRemoteNamespace`
Kind: D -/
def payload {π : Type*} (binary : Bool) (args : List (Arg π)) : Option (List (Arg π)) :=
  if binary then
    match args with
    | .buffer bytes :: _ => some [.buffer bytes]
    | .value _ (some bytes) :: _ => some [.buffer bytes]
    | _ => none
  else
    let payload := args.filter fun a => !a.isCallback
    some (if payload.isEmpty then [.empty] else payload)

/-! ### The state -/

/-- Source: `lib/remote-namespace.js`, `tickets`
Kind: D -/
structure Ticket where
  /-- The session it is for. -/
  session_id : JsString
  /-- The side it admits to. -/
  role : Role
  /-- The last moment at which it is good. -/
  expires : ℚ

/-- Source: `lib/remote-namespace.js`, `socket.remoteSession`
Kind: D -/
structure RemoteSession where
  /-- The session the socket is in. -/
  session_id : JsString
  /-- The side it is on. -/
  role : Role
  deriving DecidableEq

/-- A connected socket.
Kind: D -/
structure Socket where
  /-- What its last ticket gave it. -/
  remoteSession : Option RemoteSession
  /-- The rooms it is in. -/
  rooms : Finset JsString

/-- An entry of the session table: socket ids.
Source: `lib/remote-namespace.js`, `sessions`
Kind: D -/
structure Session where
  /-- The agent. -/
  agent : Option JsString
  /-- The viewers. -/
  viewers : Finset JsString

/-- The entry when a socket leaves a role. The agent's seat is cleared whoever has it.
Source: `lib/remote-namespace.js`, the handler of `disconnect`
Kind: D -/
def Session.vacate (session : Session) (id : JsString) : Role → Session
  | .agent => { session with agent := none }
  | .viewer => { session with viewers := session.viewers.erase id }

/-- The entry when a socket takes a role.
Source: `lib/remote-namespace.js`, the handler of `auth`
Kind: D -/
def Session.seat (session : Session) (id : JsString) : Role → Session
  | .agent => { session with agent := some id }
  | .viewer => { session with viewers := insert id session.viewers }

/-- Source: `lib/remote-namespace.js`, `attachRemoteNamespace`
Kind: D -/
structure Namespace where
  /-- The tickets that have not been redeemed. -/
  tickets : JsMap JsString Ticket
  /-- The session table. -/
  sessions : JsMap JsString Session
  /-- The connected sockets, by their ids. -/
  sockets : JsMap JsString Socket
  /-- The merged rule table and the time when it was merged. -/
  relayCache : Option (RelayConfig × ℚ)

/-- What `getSession` returns for a session.
Source: `lib/remote-namespace.js`, `publicSession`
Kind: D -/
structure PublicSession where
  /-- The session. -/
  session_id : JsString
  /-- Has it an agent? -/
  agent_connected : Bool
  /-- How many viewers it has. -/
  viewer_count : ℕ
  deriving DecidableEq

/-- What is sent back to a socket that presents a ticket.
Kind: D -/
inductive Reply
  | auth_error (message : JsString)
  | auth_ok (session_id : JsString) (role : Role)

/-- The data of an `auth` event.
Kind: D -/
structure AuthData where
  /-- `ticket`, when it is a string. -/
  ticket : Option JsString
  /-- `session_id`, when it is truthy. -/
  session_id : Option JsString
  /-- `role`, when it is truthy. -/
  role : Option JsString

/-- Does the event name another session than the ticket's?
Kind: D -/
def AuthData.otherSession (data : AuthData) (entry : Ticket) : Bool :=
  data.session_id.any fun s => s ≠ entry.session_id

/-- Does it name another role?
Kind: D -/
def AuthData.otherRole (data : AuthData) (entry : Ticket) : Bool :=
  data.role.any fun r => r ≠ entry.role.name

/-- A broadcast.
Kind: D -/
structure Emission (π : Type*) where
  /-- The room it goes to. -/
  room : JsString
  /-- The event. -/
  event : JsString
  /-- The arguments. -/
  payload : List (Arg π)

namespace Namespace

/-- The namespace just attached.
Kind: D -/
def init : Namespace := ⟨JsMap.empty, JsMap.empty, JsMap.empty, none⟩

/-- Source: `lib/remote-namespace.js`, `issueTicket`
Kind: D -/
def issueTicket (ticketTtlMs : ℚ) (ns : Namespace) (session_id role : Option JsString)
    (ticket : JsString) (now : ℚ) : Except JsString (Namespace × JsString) :=
  match session_id with
  | none => .error (js "session_id is required")
  | some session_id =>
      let role := if role = some (js "viewer") then Role.viewer else Role.agent
      .ok ({ ns with tickets := ns.tickets.set ticket ⟨session_id, role, now + ticketTtlMs⟩ }, ticket)

/-- Source: `lib/remote-namespace.js`, `publicSession`
Kind: D -/
def publicSession (sessionId : JsString) (session : Session) : PublicSession :=
  ⟨sessionId, session.agent.isSome, session.viewers.card⟩

/-- Source: `lib/remote-namespace.js`, `getSession`
Kind: D -/
def getSession (ns : Namespace) (sessionId : JsString) : Option PublicSession :=
  (ns.sessions.get sessionId).map (publicSession sessionId)

/-- Source: `lib/remote-namespace.js`, `listSessions`
Kind: D -/
def listSessions (ns : Namespace) : List PublicSession :=
  ns.sessions.entries.map fun e => publicSession e.1 e.2

/-- A socket connects.
Kind: D -/
def connect (ns : Namespace) (id : JsString) : Namespace :=
  { ns with sockets := ns.sockets.set id ⟨none, {id}⟩ }

/-- The session table after a socket that held a role is gone.
Source: `lib/remote-namespace.js`, the handler of `disconnect`
Kind: D -/
def leave (ns : Namespace) (id : JsString) (held : RemoteSession) : JsMap JsString Session :=
  match ns.sessions.get held.session_id with
  | none => ns.sessions
  | some session =>
      let session := session.vacate id held.role
      if session.agent = none ∧ session.viewers.card = 0 then ns.sessions.delete held.session_id
      else ns.sessions.set held.session_id session

/-- A socket disconnects, or is disconnected.
Source: `lib/remote-namespace.js`, the handler of `disconnect`
Kind: D -/
def disconnect (ns : Namespace) (id : JsString) : Namespace :=
  let sessions :=
    match (ns.sockets.get id).bind Socket.remoteSession with
    | none => ns.sessions
    | some held => ns.leave id held
  { ns with sessions := sessions, sockets := ns.sockets.delete id }

/-- The ticket that an `auth` event redeems, if it is there and has not expired.
Source: `lib/remote-namespace.js`, the handler of `auth`
Kind: D -/
def ticketFor (ns : Namespace) (data : AuthData) (now : ℚ) : Option (JsString × Ticket) :=
  data.ticket.bind fun ticket =>
    (ns.tickets.get ticket).bind fun entry => if entry.expires < now then none else some (ticket, entry)

/-- A socket takes the role of its ticket.
Source: `lib/remote-namespace.js`, the handler of `auth`
Kind: D -/
def enter (ns : Namespace) (id : JsString) (socket : Socket) (entry : Ticket) : Namespace :=
  let session := (ns.sessions.get entry.session_id).getD ⟨none, ∅⟩
  { ns with
    sessions := ns.sessions.set entry.session_id (session.seat id entry.role)
    sockets := ns.sockets.set id
      ⟨some ⟨entry.session_id, entry.role⟩,
        insert (room entry.session_id entry.role.side) socket.rooms⟩ }

/-- A connected socket presents a ticket. It is redeemed even when the rest of the data does not fit.
Source: `lib/remote-namespace.js`, the handler of `auth`
Kind: D -/
def auth (ns : Namespace) (id : JsString) (socket : Socket) (data : AuthData) (now : ℚ) :
    Namespace × Reply :=
  match ns.ticketFor data now with
  | none => (ns.disconnect id, .auth_error (js "Invalid or expired ticket"))
  | some (ticket, entry) =>
      let ns := { ns with tickets := ns.tickets.delete ticket }
      if data.otherSession entry then
        (ns.disconnect id, .auth_error (js "Ticket session mismatch"))
      else if data.otherRole entry then
        (ns.disconnect id, .auth_error (js "Ticket role mismatch"))
      else (ns.enter id socket entry, .auth_ok entry.session_id entry.role)

/-- The ticket that admits a socket: one that is good, and fits the rest of the data.
Kind: D -/
def accepts (ns : Namespace) (data : AuthData) (now : ℚ) : Option (JsString × Ticket) :=
  (ns.ticketFor data now).filter fun t => !data.otherSession t.2 && !data.otherRole t.2

/-- A socket that presents a ticket is disconnected, or admitted with it.
Kind: L -/
theorem auth_cases (ns : Namespace) (id : JsString) (socket : Socket) (data : AuthData) (now : ℚ) :
    (ns.accepts data now = none ∧ ∃ tickets,
        (ns.auth id socket data now).1 = { ns.disconnect id with tickets := tickets } ∧
        (tickets = ns.tickets ∨ ∃ ticket, tickets = ns.tickets.delete ticket)) ∨
      ∃ ticket entry, ns.accepts data now = some (ticket, entry) ∧ data.ticket = some ticket ∧
        ns.tickets.get ticket = some entry ∧ now ≤ entry.expires ∧
        (ns.auth id socket data now).1 =
          { ns with tickets := ns.tickets.delete ticket }.enter id socket entry := by
  rcases hticket : ns.ticketFor data now with _ | ⟨ticket, entry⟩
  · refine Or.inl ⟨by simp [accepts, hticket], ns.tickets, ?_, Or.inl rfl⟩
    simp only [auth, hticket]
    rfl
  · have haccepts : ns.accepts data now =
        if data.otherSession entry then none
        else if data.otherRole entry then none else some (ticket, entry) := by
      rw [accepts, hticket, Option.filter]
      cases data.otherSession entry <;> cases data.otherRole entry <;> rfl
    have hdrop : ns.tickets.delete ticket = ns.tickets ∨
        ∃ t, ns.tickets.delete ticket = ns.tickets.delete t := Or.inr ⟨ticket, rfl⟩
    simp only [auth, hticket]
    rw [haccepts]
    split_ifs with hsession hrole
    · exact Or.inl ⟨rfl, _, rfl, hdrop⟩
    · exact Or.inl ⟨rfl, _, rfl, hdrop⟩
    · simp only [ticketFor, Option.bind_eq_some_iff, Option.ite_none_left_eq_some, not_lt,
        Option.some.injEq, Prod.mk.injEq] at hticket
      obtain ⟨_, hdata, _, hget, hle, rfl, rfl⟩ := hticket
      exact Or.inr ⟨_, _, rfl, hdata, hget, hle, rfl⟩

/-- A connected socket sends an event.
Source: `lib/remote-namespace.js`, the dispatcher in `attachRemoteNamespace`
Kind: D -/
def dispatch {π : Type*} (ns : Namespace) (socket : Socket) (event : JsString) (args : List (Arg π))
    (config : Options) (now : ℚ) : Namespace × Option (Emission π) :=
  match socket.remoteSession with
  | none => (ns, none)
  | some session =>
      if reservedEvents.lookup event ≠ .undefined then (ns, none)
      else
        let relay := getRelayConfig ns.relayCache config now
        let ns := { ns with relayCache := some relay }
        match relay.1.rule event with
        | none | some .disabled => (ns, none)
        | some (.relay sender «to» binary) =>
            if sender.admits session.role then
              (ns, (payload binary args).map fun payload =>
                ⟨room session.session_id (destination session.role «to»), event, payload⟩)
            else (ns, none)

/-- Sending an event changes nothing but the cached rule table.
Kind: L -/
theorem dispatch_fst {π : Type*} (ns : Namespace) (socket : Socket) (event : JsString)
    (args : List (Arg π)) (config : Options) (now : ℚ) : ∃ relayCache,
      (relayCache = ns.relayCache ∨
        relayCache = some (getRelayConfig ns.relayCache config now)) ∧
      (ns.dispatch socket event args config now).1 = { ns with relayCache := relayCache } := by
  unfold dispatch
  split
  · exact ⟨_, Or.inl rfl, rfl⟩
  · split_ifs
    · exact ⟨_, Or.inl rfl, rfl⟩
    · dsimp only
      split
      · exact ⟨_, Or.inr rfl, rfl⟩
      · exact ⟨_, Or.inr rfl, rfl⟩
      · split_ifs <;> exact ⟨_, Or.inr rfl, rfl⟩

/-- What is relayed follows a rule that lets the sender's role through.
Kind: L -/
theorem of_dispatch_snd {π : Type*} {ns : Namespace} {socket : Socket} {event : JsString}
    {args : List (Arg π)} {config : Options} {now : ℚ} {emission : Emission π}
    (h : (ns.dispatch socket event args config now).2 = some emission) :
    ∃ session sender dest binary, socket.remoteSession = some session ∧
      reservedEvents.lookup event = .undefined ∧
      (getRelayConfig ns.relayCache config now).1.rule event =
        some (.relay sender dest binary) ∧
      sender.admits session.role = true ∧
      emission.room = room session.session_id (destination session.role dest) ∧
      emission.event = event ∧ payload binary args = some emission.payload := by
  unfold dispatch at h
  split at h
  · exact absurd h (by simp)
  · rename_i session hsession
    split_ifs at h with hreserved
    · dsimp only at h
      split at h
      · exact absurd h (by simp)
      · exact absurd h (by simp)
      · rename_i sender dest binary hrule
        split_ifs at h with hadmits
        · obtain ⟨payload, hpayload, rfl⟩ := Option.map_eq_some_iff.mp h
          exact ⟨session, sender, dest, binary, hsession, not_not.mp hreserved, hrule, hadmits, rfl,
            rfl, hpayload⟩

/-- The sockets that a broadcast of a socket to a room reaches: the others in the room.
Kind: D -/
def receivers (ns : Namespace) (id room : JsString) : List JsString :=
  (ns.sockets.entries.filter fun e => e.1 ≠ id ∧ room ∈ e.2.rooms).map Prod.fst

end Namespace

/-! ### Steps -/

/-- What happens to the namespace.
Kind: D -/
inductive Event (π : Type*)
  /-- A ticket is issued. -/
  | issueTicket (session_id role : Option JsString) (ticket : JsString) (now : ℚ)
  /-- The timer of a ticket deletes it. -/
  | cleanup (ticket : JsString)
  /-- A socket connects. -/
  | connect (id : JsString)
  /-- A socket presents a ticket. -/
  | auth (id : JsString) (data : AuthData) (now : ℚ)
  /-- A socket sends another event, with these options being live. -/
  | send (id event : JsString) (args : List (Arg π)) (config : Options) (now : ℚ)
  /-- A socket disconnects. -/
  | disconnect (id : JsString)

variable {π : Type*}

/-- The namespace after an event. Only connected sockets have handlers, and none connects under an id
that is in use.
Kind: D -/
def step (ticketTtlMs : ℚ) (ns : Namespace) : Event π → Namespace
  | .issueTicket session_id role ticket now =>
      match ns.issueTicket ticketTtlMs session_id role ticket now with
      | .error _ => ns
      | .ok (ns, _) => ns
  | .cleanup ticket => { ns with tickets := ns.tickets.delete ticket }
  | .connect id => if (ns.sockets.get id).isSome then ns else ns.connect id
  | .auth id data now =>
      match ns.sockets.get id with
      | none => ns
      | some socket => (ns.auth id socket data now).1
  | .send id event args config now =>
      match ns.sockets.get id with
      | none => ns
      | some socket => (ns.dispatch socket event args config now).1
  | .disconnect id => ns.disconnect id

end TyoMq.Remote
