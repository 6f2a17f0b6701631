import TyoMq.Http.CatchUp
import TyoMq.Lib.Agenda
import TyoMq.Lib.Journal
import TyoMq.Storage.Memory

/-!
# Event streams

The part of `lib/server.js` that streams messages to clients over HTTP: who may open a stream, what is written
to it, and what a client is sent that comes back.

* A stream is a `sink` of `lib/server.js`, with a number. One that is removed does nothing more and is
  forgotten, so that `removed` and `alive` say whether it is there. The streams of a realm and an event are in
  the order in which they were opened.
* A call of the store takes effect when it is made, as it does in the in-process store, and what the server
  does when it returns is a task. So is what it does when a chunk has been flushed. Tasks are run in any order.
* A frame is its JSON text, and a text its UTF-8 bytes.
* What the server does is reported (`Effect`).
-/

namespace TyoMq.Http

open Lib Storage

/-- Source: `lib/server.js`, `SSE_MAX_PER_REALM`
Kind: D -/
def SSE_MAX_PER_REALM : ℕ := 50

/-- Source: `lib/server.js`, `SSE_MAX_PER_IP`
Kind: D -/
def SSE_MAX_PER_IP : ℕ := 10

/-- Source: `lib/server.js`, `SSE_TICKET_TTL_MS`
Kind: D -/
def SSE_TICKET_TTL_MS : ℤ := 60000

/-- How many bytes may wait for a slow reader.
Source: `lib/server.js`, `SSE_MAX_PENDING_BYTES`
Kind: D -/
def SSE_MAX_PENDING_BYTES : ℕ := 1024 * 1024

/-- Who the history is kept for in the store.
Source: `lib/server.js`, `SSE_HISTORY_CONSUMER`
Kind: D -/
def SSE_HISTORY_CONSUMER : Text := ascii "__http_sse__"

/-- Source: `lib/server.js`, `mapCountInc`
Kind: D -/
def mapCountInc (map : JsMap Text ℕ) (key : Text) : JsMap Text ℕ := map.set key ((map.get key).getD 0 + 1)

/-- Source: `lib/server.js`, `mapCountDec`
Kind: D -/
def mapCountDec (map : JsMap Text ℕ) (key : Text) : JsMap Text ℕ :=
  let n := (map.get key).getD 0 - 1
  if n = 0 then map.delete key else map.set key n

/-- Source: `lib/server.js`, `isUnsafePubKey`
Kind: D -/
def isUnsafePubKey (key : Text) : Bool :=
  key = ascii "__proto__" ∨ key = ascii "constructor" ∨ key = ascii "prototype"

/-- What the settings say.
Kind: D -/
structure Config where
  /-- Is there an HTTP surface? Source: `lib/server.js`, `getHttpPublishConfig` -/
  httpPublish : Bool
  /-- How long the store keeps what does not say. -/
  defaultTtl : Ttl

/-- A stream.
Source: `lib/server.js`, `openSseStream`
Kind: D -/
structure Sink where
  /-- The client's address. -/
  ip : Text
  /-- The realm. -/
  realm : Text
  /-- The event. -/
  event : Text
  /-- How many bytes have not been flushed. -/
  pending : ℕ
  /-- Is it to be sent the history first? -/
  replaying : Bool
  /-- What it is sent after that. -/
  buffer : List Item
  /-- How many bytes that is. -/
  bufferBytes : ℕ
  /-- What it has been sent of the history. -/
  replayedIds : List Text
  deriving DecidableEq

/-- A ticket, which opens one stream.
Source: `lib/server.js`, `sseTickets`
Kind: D -/
structure Ticket where
  /-- The realm. -/
  realm : Text
  /-- How long it is valid. -/
  expires : ℤ
  deriving DecidableEq

/-- What a client shows for itself.
Kind: D -/
inductive Credential
  /-- A token in the header, and the status it is refused with, if it is. -/
  | bearer (refusal : Option ℕ)
  /-- A token in the address. -/
  | token
  /-- A ticket. -/
  | ticket (ticket : Text)
  /-- Nothing. -/
  | nothing

/-- A client asks for a stream.
Kind: D -/
structure Request where
  /-- The realm. -/
  realm : Text
  /-- The event. -/
  event : Text
  /-- The client's address. -/
  ip : Text
  /-- The `last-event-id` of the header. -/
  lastEventId : Text
  /-- The `since` of the address. -/
  since : Text
  /-- What the client shows. -/
  credential : Credential

/-- A message that is routed. A client without a realm is in the default one, so there is one.
Source: `lib/server.js`, `routeProducedMessage`
Kind: D -/
structure Publication where
  /-- The realm. -/
  realm : Text
  /-- The event. -/
  event : Text
  /-- The producer's id for it. -/
  id : Text
  /-- The id generated for it in case it has none. -/
  generated : Text
  /-- The frame that the streams are sent. -/
  frame : Text
  /-- The producer. -/
  producer : Text
  /-- Is it guaranteed? -/
  guaranteed : Bool
  /-- How long it is kept. -/
  ttl : Option Ttl
  /-- There is a realm. -/
  realm_ne_nil : realm ≠ []

/-- Source: `lib/server.js`, `routeProducedMessage`
Kind: D -/
def Publication.deliveryId (p : Publication) : Text := orElse p.id (ascii "m-" ++ p.generated)

theorem Publication.deliveryId_ne_nil (p : Publication) : p.deliveryId ≠ [] := by
  unfold deliveryId orElse
  split_ifs with h
  · exact List.cons_ne_nil _ _
  · exact h

/-- What the server has put off.
Kind: D -/
inductive Task
  /-- The history is to be read for a stream. -/
  | read (sink : ℕ) (realm event resumeId : Text)
  /-- It has been. -/
  | replay (sink : ℕ) (resumeId : Text) (entries : List (Entry Text))
  /-- Some bytes have been flushed. -/
  | flushed (sink bytes : ℕ)

/-- What the server does.
Kind: D -/
inductive Effect
  /-- A message is published, or comes from a peer. -/
  | published (realm event : Text) (item : Item)
  /-- A message is kept in the history. -/
  | recorded (e : Entry Text)
  /-- A message of the history expires. -/
  | expired (now : ℤ) (e : Entry Text)
  /-- The history of a realm is removed. -/
  | purged (realm : Text)
  /-- A ticket is issued. -/
  | issued (ticket realm : Text) (expires : ℤ)
  /-- A ticket is used up. -/
  | used (ticket : Text) (now : ℤ)
  /-- A request is refused. -/
  | refused (status : ℕ)
  /-- A stream is opened, with a ticket where there is one. -/
  | opened (sink : ℕ) (ip realm event resumeId : Text) (ticket : Option Text)
  /-- The history is read for a stream. -/
  | read (sink : ℕ) (realm event : Text) (entries : List (Entry Text))
  /-- It cannot be. -/
  | unread (sink : ℕ)
  /-- A stream is told that something is left out. -/
  | truncated (sink : ℕ)
  /-- A message is written to a stream. -/
  | wrote (sink : ℕ) (item : Item)
  /-- A stream ends. -/
  | ended (sink : ℕ)
  deriving DecidableEq

/-- The state of the server.
Kind: D -/
structure Streams where
  /-- The streams. -/
  sseSinks : JsMap ℕ Sink
  /-- The number of the next one. -/
  next : ℕ
  /-- How many streams each realm has. -/
  sseCountByRealm : JsMap Text ℕ
  /-- How many streams each address has. -/
  sseCountByIp : JsMap Text ℕ
  /-- The tickets. -/
  sseTickets : JsMap Text Ticket
  /-- The history. -/
  store : MemoryStore Text
  /-- The streams whose connections are gone, so that writing to them fails. -/
  broken : List ℕ
  /-- What is put off. -/
  agenda : Agenda Task

namespace Streams

/-- The server just started.
Kind: D -/
def init : Streams :=
  ⟨JsMap.empty, 0, JsMap.empty, JsMap.empty, JsMap.empty, MemoryStore.init, [], Agenda.empty⟩

/-! ### Tickets -/

/-- Source: `lib/server.js`, `issueSseTicket`
Kind: D -/
def issueSseTicket (s : Streams) (now : ℤ) (ticket realm : Text) : Streams × List Effect :=
  ({ s with sseTickets := s.sseTickets.set ticket ⟨realm, now + SSE_TICKET_TTL_MS⟩ },
    [.issued ticket realm (now + SSE_TICKET_TTL_MS)])

/-- Source: `lib/server.js`, `consumeSseTicket`
Kind: D -/
def consumeSseTicket (s : Streams) (now : ℤ) (ticket : Text) : (Streams × List Effect) × Option Ticket :=
  match s.sseTickets.get ticket with
  | none => ((s, []), none)
  | some entry =>
      (({ s with sseTickets := s.sseTickets.delete ticket }, [.used ticket now]),
        if entry.expires < now then none else some entry)

/-- Source: `lib/server.js`, `sweepSseTickets`
Kind: D -/
def sweepSseTickets (s : Streams) (now : ℤ) : Streams :=
  { s with sseTickets := s.sseTickets.deleteWhere fun _ entry => entry.expires < now }

/-! ### Streams come and go -/

/-- Source: `lib/server.js`, `registerSseSink`
Kind: D -/
def registerSseSink (s : Streams) (sink : Sink) : Streams :=
  { s with
    sseSinks := s.sseSinks.set s.next sink
    next := s.next + 1
    sseCountByRealm := mapCountInc s.sseCountByRealm sink.realm
    sseCountByIp := mapCountInc s.sseCountByIp sink.ip }

/-- Source: `lib/server.js`, `removeSseSink`
Kind: D -/
def removeSseSink (s : Streams) (i : ℕ) : Streams × List Effect :=
  match s.sseSinks.get i with
  | none => (s, [])
  | some sink =>
      ({ s with
          sseSinks := s.sseSinks.delete i
          sseCountByRealm := mapCountDec s.sseCountByRealm sink.realm
          sseCountByIp := mapCountDec s.sseCountByIp sink.ip }, [.ended i])

/-- Source: `lib/server.js`, `dropSseSink`
Kind: D -/
def dropSseSink (s : Streams) (i : ℕ) : Streams × List Effect := s.removeSseSink i

/-! ### Writing -/

/-- What is written for a message.
Source: `lib/server.js`, `writeSseChunk`
Kind: D -/
def chunk (item : Item) : Text :=
  ascii "id: " ++ item.1 ++ ascii "\nevent: message\ndata: " ++ item.2 ++ ascii "\n\n"

/-- Source: `lib/server.js`, `writeSseChunk`
Kind: D -/
def writeSseChunk (i : ℕ) (s : Streams) (item : Item) : Streams × List Effect :=
  match s.sseSinks.get i with
  | none => (s, [])
  | some sink =>
      let bytes := (chunk item).length
      let waiting := { s with sseSinks := s.sseSinks.set i { sink with pending := sink.pending + bytes } }
      if SSE_MAX_PENDING_BYTES < sink.pending + bytes then waiting.dropSseSink i
      else if s.broken.contains i then waiting.dropSseSink i
      else ({ waiting with agenda := s.agenda.post (.flushed i bytes) }, [.wrote i item])

/-- Source: `lib/server.js`, `writeSseSink`
Kind: D -/
def writeSseSink (item : Item) (s : Streams) (i : ℕ) : Streams × List Effect :=
  match s.sseSinks.get i with
  | none => (s, [])
  | some sink =>
      if sink.replaying then
        let filled := { sink with
          buffer := sink.buffer ++ [item]
          bufferBytes := sink.bufferBytes + item.2.length }
        let s := { s with sseSinks := s.sseSinks.set i filled }
        if SSE_REPLAY_MAX_MESSAGES < filled.buffer.length ∨ SSE_MAX_PENDING_BYTES < filled.bufferBytes then
          s.dropSseSink i
        else (s, [])
      else s.writeSseChunk i item

/-- Source: `lib/server.js`, `deliverToSseSinks`
Kind: D -/
def deliverToSseSinks (s : Streams) (realm event : Text) (item : Item) : Streams × List Effect :=
  scan (writeSseSink item) s
    ((s.sseSinks.entries.filter fun p => p.2.realm = realm ∧ p.2.event = event).map Prod.fst)

/-! ### The history -/

/-- The reports of the messages of the history that expire.
Kind: D -/
def expire (s : Streams) (now : ℤ) : List Effect :=
  (s.store.messages.filter fun e => !e.expires_at.all fun t => t = 0 ∨ now < t).map fun e => .expired now e

/-- A message in the history.
Kind: D -/
def historyEntry (c : Config) (now : ℤ) (realm event frame deliveryId producer : Text) (ttl : Option Ttl) :
    Entry Text where
  id := deliveryId
  realm := realmOr realm
  event := event
  consumer := orNull SSE_HISTORY_CONSUMER
  message := frame
  producer := orNull producer
  created_at := now
  expires_at := expiresAt c.defaultTtl ttl now

/-- Source: `lib/server.js`, `recordSseHistory`
Kind: D -/
def recordSseHistory (c : Config) (s : Streams) (now : ℤ) (realm event frame deliveryId producer : Text)
    (ttl : Option Ttl) : Streams × List Effect :=
  if c.httpPublish then
    ({ s with
        store := (s.store.enqueue c.defaultTtl now realm event
          ⟨deliveryId, [], SSE_HISTORY_CONSUMER, frame, producer, ttl⟩ []).1 },
      s.expire now ++ [.recorded (historyEntry c now realm event frame deliveryId producer ttl)])
  else (s, [])

/-- What a message that is routed means to the streams.
Source: `lib/server.js`, `routeProducedMessage`
Kind: D -/
def publish (c : Config) (s : Streams) (now : ℤ) (p : Publication) : Streams × List Effect :=
  let delivered := s.deliverToSseSinks p.realm p.event (p.deliveryId, p.frame)
  let kept :=
    if p.guaranteed then
      delivered.1.recordSseHistory c now p.realm p.event p.frame p.deliveryId p.producer p.ttl
    else (delivered.1, [])
  (kept.1, .published p.realm p.event (p.deliveryId, p.frame) :: (delivered.2 ++ kept.2))

/-- What a message that comes from a peer means to the streams.
Source: `lib/server.js`, `handleRelayedMessage`
Kind: D -/
def relay (s : Streams) (realm event generated frame : Text) : Streams × List Effect :=
  let item := (ascii "sse-" ++ generated, frame)
  let delivered := s.deliverToSseSinks realm event item
  (delivered.1, .published realm event item :: delivered.2)

/-! ### Coming back -/

/-- Source: `lib/server.js`, `goLive`
Kind: D -/
def goLive (s : Streams) (i : ℕ) : Streams × List Effect :=
  match s.sseSinks.get i with
  | none => (s, [])
  | some sink =>
      let live := { sink with buffer := [], bufferBytes := 0, replaying := false, replayedIds := [] }
      scan (writeSseChunk i) { s with sseSinks := s.sseSinks.set i live }
        (sink.buffer.filter fun item => !sink.replayedIds.contains item.1)

/-- The history is read for a stream.
Source: `lib/server.js`, `replaySseHistory`
Kind: D -/
def readHistory (s : Streams) (now : ℤ) (i : ℕ) (realm event resumeId : Text) : Streams × List Effect :=
  let read := s.store.dequeue now realm event SSE_HISTORY_CONSUMER
  ({ s with store := read.1, agenda := s.agenda.post (.replay i resumeId read.2) },
    s.expire now ++ [.read i realm event read.2])

/-- It has been read.
Source: `lib/server.js`, `replaySseHistory`
Kind: D -/
def replaySseHistory (s : Streams) (i : ℕ) (resumeId : Text) (entries : List (Entry Text)) :
    Streams × List Effect :=
  match s.sseSinks.get i with
  | none => (s, [])
  | some sink =>
      let out := catchUp resumeId (entries.map itemOf)
      let told := { s with sseSinks := s.sseSinks.set i { sink with replayedIds := out.1.map Prod.fst } }
      let replayed := scan (writeSseChunk i) told out.1
      let live := replayed.1.goLive i
      (live.1, (if out.2 then [.truncated i] else []) ++ (replayed.2 ++ live.2))

/-- A stream is opened, and ends at once where the client is gone by then.
Source: `lib/server.js`, `openSseStream`
Kind: D -/
def openSseStream (s : Streams) (realm event ip resumeId : Text) (ticket : Option Text) (aborted : Bool) :
    Streams × List Effect :=
  let sink : Sink := ⟨ip, realm, event, 0, resumeId ≠ [], [], 0, []⟩
  let registered := s.registerSseSink sink
  let i := s.next
  if aborted then
    let removed := registered.removeSseSink i
    (removed.1, .opened i ip realm event resumeId ticket :: removed.2)
  else if resumeId = [] then (registered, [.opened i ip realm event resumeId ticket])
  else
    ({ registered with agenda := s.agenda.post (.read i realm event resumeId) },
      [.opened i ip realm event resumeId ticket])

/-! ### Requests -/

/-- A request has been let in.
Source: `lib/server.js`, `handleSseSubscribeRequest`
Kind: D -/
def proceed (s : Streams) (r : Request) (ticket : Option Text) (aborted : Bool) : Streams × List Effect :=
  if SSE_MAX_PER_REALM ≤ (s.sseCountByRealm.get r.realm).getD 0 then (s, [.refused 503])
  else if SSE_MAX_PER_IP ≤ (s.sseCountByIp.get r.ip).getD 0 then (s, [.refused 429])
  else s.openSseStream r.realm r.event r.ip (orElse r.lastEventId r.since) ticket aborted

/-- A ticket has been looked up.
Source: `lib/server.js`, `handleSseSubscribeRequest`
Kind: D -/
def openFor (s : Streams) (r : Request) (ticket : Text) (aborted : Bool) : Option Ticket → Streams × List Effect
  | none => (s, [.refused 401])
  | some entry =>
      if entry.realm = r.realm then s.proceed r (some ticket) aborted else (s, [.refused 403])

/-- A client asks for a stream.
Source: `lib/server.js`, `handleHttpSubscribeRequest`, `handleSseSubscribeRequest`
Kind: D -/
def subscribe (c : Config) (s : Streams) (now : ℤ) (r : Request) (aborted : Bool) : Streams × List Effect :=
  if !c.httpPublish then (s, [.refused 404])
  else if r.realm = [] ∨ r.event = [] then (s, [.refused 400])
  else if isUnsafePubKey r.realm ∨ isUnsafePubKey r.event then (s, [.refused 400])
  else
    match r.credential with
    | .bearer (some status) => (s, [.refused status])
    | .bearer none => s.proceed r none aborted
    | .token => (s, [.refused 401])
    | .nothing => (s, [.refused 401])
    | .ticket ticket =>
        let consumed := s.consumeSseTicket now ticket
        let answered := consumed.1.1.openFor r ticket aborted consumed.2
        (answered.1, consumed.1.2 ++ answered.2)

/-! ### Steps -/

/-- What happens to the server.
Kind: D -/
inductive Event
  /-- A client that may is given a ticket. -/
  | issue (now : ℤ) (ticket realm : Text)
  /-- The tickets are swept. -/
  | sweep (now : ℤ)
  /-- A client asks for a stream, and may be gone by the time that it is opened. -/
  | subscribe (now : ℤ) (r : Request) (aborted : Bool)
  /-- A message is routed. -/
  | publish (now : ℤ) (p : Publication)
  /-- A message comes from a peer. -/
  | relay (realm event generated frame : Text)
  /-- A task is run. -/
  | task (now : ℤ) (number : ℕ)
  /-- The store cannot be read for a task. -/
  | failed (number : ℕ)
  /-- The client of a stream is gone. -/
  | close (sink : ℕ)
  /-- The connection of a stream breaks, which the server is not told. -/
  | disconnect (sink : ℕ)
  /-- It is time to see whether a stream is alive. -/
  | keepAlive (sink : ℕ)
  /-- The store is used for something else. -/
  | look (now : ℤ)
  /-- What the store has of a realm is removed. -/
  | purgeRealm (realm : Text)

/-- Source: `lib/server.js`, `writeSseChunk`
Kind: D -/
def flushed (s : Streams) (i bytes : ℕ) : Streams :=
  match s.sseSinks.get i with
  | none => s
  | some sink => { s with sseSinks := s.sseSinks.set i { sink with pending := sink.pending - bytes } }

/-- Run a task.
Kind: D -/
def runTask (s : Streams) (now : ℤ) : Task → Streams × List Effect
  | .read i realm event resumeId => s.readHistory now i realm event resumeId
  | .replay i resumeId entries => s.replaySseHistory i resumeId entries
  | .flushed i bytes => (s.flushed i bytes, [])

/-- Source: `lib/server.js`
Kind: D -/
def step (c : Config) (s : Streams) : Event → Streams × List Effect
  | .issue now ticket realm => s.issueSseTicket now ticket realm
  | .sweep now => (s.sweepSseTickets now, [])
  | .subscribe now r aborted => s.subscribe c now r aborted
  | .publish now p => s.publish c now p
  | .relay realm event generated frame => s.relay realm event generated frame
  | .task now number =>
      match s.agenda.get number with
      | none => (s, [])
      | some task => { s with agenda := s.agenda.cancel number }.runTask now task
  | .failed number =>
      match s.agenda.get number with
      | some (.read i _ _ _) =>
          let live := { s with agenda := s.agenda.cancel number }.goLive i
          (live.1, .unread i :: live.2)
      | _ => (s, [])
  | .close i => s.removeSseSink i
  | .disconnect i => ({ s with broken := i :: s.broken }, [])
  | .keepAlive i => if s.broken.contains i then s.dropSseSink i else (s, [])
  | .look now => ({ s with store := s.store.purgeExpired now }, s.expire now)
  | .purgeRealm realm => ({ s with store := (s.store.purgeRealm realm).1 }, [.purged realm])

end Streams

end TyoMq.Http
