import TyoMq.Http.Streams
import TyoMq.Lib.Books
import TyoMq.Lib.Tally

/-!
# Who may open an event stream

The counts of the streams are right in every run, so that no realm and no address ever has more than its share,
and a ticket opens one stream at most, of the realm that it was issued for and while it is valid.

* `Traffic`: what everything but a request does to the streams.
* `shares_kept`: the counts and the shares, in every run.
* `tickets_justified`: the tickets, in every run.
-/

namespace TyoMq.Http

open Lib Storage

/-! ### Traffic -/

/-- A report that is not about a ticket and not about a stream that is opened or ends.
Kind: D -/
def Effect.isTraffic : Effect → Bool
  | .issued .. => false
  | .used .. => false
  | .opened .. => false
  | .ended .. => false
  | _ => true

namespace Streams

/-- What everything but a request does to the streams: change what is kept for one, remove one, and do things
that have nothing to do with them.
Kind: D -/
inductive Traffic : Streams → Streams → List Effect → Prop
  | refl (s : Streams) : Traffic s s []
  | trans {s s' s'' : Streams} {new new' : List Effect} (h : Traffic s s' new) (h' : Traffic s' s'' new') :
      Traffic s s'' (new ++ new')
  | amend {s : Streams} {i : ℕ} {sink sink' : Sink} (hget : s.sseSinks.get i = some sink)
      (hrealm : sink'.realm = sink.realm) (hip : sink'.ip = sink.ip) :
      Traffic s { s with sseSinks := s.sseSinks.set i sink' } []
  | remove (s : Streams) (i : ℕ) : Traffic s (s.removeSseSink i).1 (s.removeSseSink i).2
  | report (s : Streams) {e : Effect} (he : e.isTraffic = true) : Traffic s s [e]
  | other (s : Streams) (store : MemoryStore Text) (broken : List ℕ) (agenda : Agenda Task) :
      Traffic s { s with store := store, broken := broken, agenda := agenda } []

namespace Traffic

variable {s s' s'' : Streams} {new : List Effect}

/-- One thing after another, of which the first reports nothing.
Kind: L -/
theorem after (h : Traffic s s' []) (h' : Traffic s' s'' new) : Traffic s s'' new := h.trans h'

/-- Some reports.
Kind: L -/
theorem reports (s : Streams) {l : List Effect} (hl : ∀ e ∈ l, e.isTraffic = true) : Traffic s s l := by
  induction l with
  | nil => exact refl s
  | cons e l ih =>
      exact (report s (hl e List.mem_cons_self)).trans (ih fun e' he' => hl e' (List.mem_cons_of_mem _ he'))

theorem scan {β : Type*} {f : Streams → β → Streams × List Effect} (hf : ∀ s x, Traffic s (f s x).1 (f s x).2)
    (s : Streams) (l : List β) : Traffic s (Lib.scan f s l).1 (Lib.scan f s l).2 := by
  induction l generalizing s with
  | nil => exact refl s
  | cons x l ih => exact (hf s x).trans (ih _)

theorem writeSseChunk (i : ℕ) (s : Streams) (item : Item) :
    Traffic s (s.writeSseChunk i item).1 (s.writeSseChunk i item).2 := by
  unfold Streams.writeSseChunk
  rcases hget : s.sseSinks.get i with _ | sink
  · exact refl s
  · dsimp only
    split_ifs
    · refine after (amend hget ?_ ?_) (remove ..) <;> rfl
    · refine after (amend hget ?_ ?_) (remove ..) <;> rfl
    · refine after (amend hget ?_ ?_) (after (other ..) (report _ ?_)) <;> rfl

theorem writeSseSink (item : Item) (s : Streams) (i : ℕ) :
    Traffic s (s.writeSseSink item i).1 (s.writeSseSink item i).2 := by
  unfold Streams.writeSseSink
  rcases hget : s.sseSinks.get i with _ | sink
  · exact refl s
  · dsimp only
    split_ifs
    · refine after (amend hget ?_ ?_) (remove ..) <;> rfl
    · exact amend hget rfl rfl
    · exact writeSseChunk i s item

theorem deliverToSseSinks (s : Streams) (realm event : Text) (item : Item) :
    Traffic s (s.deliverToSseSinks realm event item).1 (s.deliverToSseSinks realm event item).2 :=
  scan (writeSseSink item) s _

theorem isTraffic_of_mem_expire {now : ℤ} {e : Effect} (he : e ∈ s.expire now) :
    e.isTraffic = true := by
  obtain ⟨entry, -, rfl⟩ := List.mem_map.mp he
  rfl

theorem recordSseHistory (c : Config) (s : Streams) (now : ℤ)
    (realm event frame deliveryId producer : Text) (ttl : Option Ttl) :
    Traffic s (s.recordSseHistory c now realm event frame deliveryId producer ttl).1
      (s.recordSseHistory c now realm event frame deliveryId producer ttl).2 := by
  unfold Streams.recordSseHistory
  split_ifs
  · apply (other ..).after
    apply reports
    intro e he
    rcases List.mem_append.mp he with he | he
    · exact isTraffic_of_mem_expire he
    · rw [List.mem_singleton.mp he]
      rfl
  · exact refl s

theorem publish (c : Config) (s : Streams) (now : ℤ) (p : Publication) :
    Traffic s (s.publish c now p).1 (s.publish c now p).2 := by
  unfold Streams.publish
  apply (report s rfl).trans
  apply (deliverToSseSinks ..).trans
  split_ifs
  · exact recordSseHistory ..
  · exact refl _

theorem relay (s : Streams) (realm event generated frame : Text) :
    Traffic s (s.relay realm event generated frame).1 (s.relay realm event generated frame).2 :=
  (report s rfl).trans (deliverToSseSinks ..)

theorem goLive (s : Streams) (i : ℕ) : Traffic s (s.goLive i).1 (s.goLive i).2 := by
  unfold Streams.goLive
  rcases hget : s.sseSinks.get i with _ | sink
  · exact refl s
  · dsimp only
    refine after (amend hget ?_ ?_) (scan (writeSseChunk i) _ _) <;> rfl

theorem readHistory (s : Streams) (now : ℤ) (i : ℕ) (realm event resumeId : Text) :
    Traffic s (s.readHistory now i realm event resumeId).1 (s.readHistory now i realm event resumeId).2 := by
  apply (other ..).after
  apply (reports _ fun e he => isTraffic_of_mem_expire he).trans
  exact report _ rfl

theorem replaySseHistory (s : Streams) (i : ℕ) (resumeId : Text) (entries : List (Entry Text)) :
    Traffic s (s.replaySseHistory i resumeId entries).1 (s.replaySseHistory i resumeId entries).2 := by
  unfold Streams.replaySseHistory
  rcases hget : s.sseSinks.get i with _ | sink
  · exact refl s
  · dsimp only
    have htold : ∀ b : Bool, Traffic s s (if b then [.truncated i] else []) := fun b => by
      cases b
      · exact refl s
      · exact report s rfl
    generalize catchUp resumeId (entries.map itemOf) = out
    apply (htold out.2).trans
    refine after (amend hget ?_ ?_) ((scan (writeSseChunk i) _ _).trans (goLive ..)) <;> rfl

theorem flushed (s : Streams) (i bytes : ℕ) : Traffic s (s.flushed i bytes) [] := by
  unfold Streams.flushed
  rcases hget : s.sseSinks.get i with _ | sink
  · exact refl s
  · exact amend hget rfl rfl

theorem runTask (s : Streams) (now : ℤ) (task : Task) :
    Traffic s (s.runTask now task).1 (s.runTask now task).2 := by
  cases task with
  | read i realm event resumeId => exact readHistory ..
  | replay i resumeId entries => exact replaySseHistory ..
  | flushed i bytes => exact flushed ..

end Traffic

/-- Is it a request, for a stream or a ticket, or about tickets?
Kind: D -/
def Event.isRequest : Event → Bool
  | .issue .. => true
  | .sweep _ => true
  | .subscribe .. => true
  | _ => false

/-- Every other step is traffic.
Kind: L -/
theorem traffic_step (c : Config) (s : Streams) {e : Event} (he : e.isRequest = false) :
    Traffic s (s.step c e).1 (s.step c e).2 := by
  cases e with
  | issue now ticket realm => exact absurd he (by simp [Event.isRequest])
  | sweep now => exact absurd he (by simp [Event.isRequest])
  | subscribe now r aborted => exact absurd he (by simp [Event.isRequest])
  | publish now p => exact Traffic.publish ..
  | relay realm event generated frame => exact Traffic.relay ..
  | task now number =>
      unfold step
      dsimp only
      rcases s.agenda.get number with _ | task
      · exact Traffic.refl s
      · exact (Traffic.other ..).after (Traffic.runTask ..)
  | failed number =>
      unfold step
      dsimp only
      split
      · apply (Traffic.other ..).after
        exact (Traffic.report _ rfl).trans (Traffic.goLive ..)
      · exact Traffic.refl s
  | close i => exact Traffic.remove ..
  | disconnect i => exact Traffic.other ..
  | keepAlive i =>
      unfold step
      dsimp only
      split_ifs
      · exact Traffic.remove ..
      · exact Traffic.refl s
  | look now => exact (Traffic.other ..).after (Traffic.reports _ fun e he => Traffic.isTraffic_of_mem_expire he)
  | purgeRealm realm => exact (Traffic.other ..).after (Traffic.report _ rfl)

/-! ### Shares -/

/-- The streams that have not ended.
Kind: D -/
def book : Book Streams Effect ℕ where
  held s := s.sseSinks.keys
  given
    | .opened i .. => some i
    | _ => none
  taken
    | .ended i => some i
    | _ => none

theorem book_of_isTraffic {e : Effect} (he : e.isTraffic = true) :
    [e].filterMap book.given = [] ∧ [e].filterMap book.taken = [] := by
  cases e with
  | opened => exact absurd he Bool.false_ne_true
  | ended => exact absurd he Bool.false_ne_true
  | _ => exact ⟨rfl, rfl⟩

/-- What is kept of the streams agrees with them.
Kind: D -/
structure Counted (s : Streams) (log : List Effect) : Prop where
  /-- The streams of each realm are counted. -/
  realms : Tallies s.sseCountByRealm (s.sseSinks.entries.map fun p => p.2.realm)
  /-- So are those of each address. -/
  ips : Tallies s.sseCountByIp (s.sseSinks.entries.map fun p => p.2.ip)
  /-- No realm has more than its share. -/
  realm_le : ∀ realm, (s.sseCountByRealm.get realm).getD 0 ≤ SSE_MAX_PER_REALM
  /-- Nor has an address. -/
  ip_le : ∀ ip, (s.sseCountByIp.get ip).getD 0 ≤ SSE_MAX_PER_IP
  /-- The streams have been opened and have not ended. -/
  streams : book.Balances [] init s log
  /-- Numbers are used in turn. -/
  lt_next : ∀ i ∈ log.filterMap book.given, i < s.next
  /-- No number is used twice. -/
  nodup : (log.filterMap book.given).Nodup

namespace Counted

variable {s : Streams} {log : List Effect}

/-- The streams that are there have been opened.
Kind: L -/
theorem opened (h : Counted s log) {i : ℕ} (hi : i ∈ s.sseSinks.keys) : i ∈ log.filterMap book.given :=
  h.streams.mem_iff.mpr (List.mem_append_left _ hi)

/-- The next number is new.
Kind: L -/
theorem next_not_mem (h : Counted s log) : s.next ∉ s.sseSinks.keys := fun hi =>
  Nat.lt_irrefl _ (h.lt_next _ (h.opened hi))

/-- Reports, and changes that have nothing to do with the streams.
Kind: L -/
theorem report (h : Counted s log) {new : List Effect} (hgiven : new.filterMap book.given = [])
    (htaken : new.filterMap book.taken = []) : Counted s (log ++ new) := by
  refine ⟨h.realms, h.ips, h.realm_le, h.ip_le, h.streams.trans (Book.Balances.quiet rfl hgiven htaken), ?_, ?_⟩
  · rw [List.filterMap_append, hgiven, List.append_nil]
    exact h.lt_next
  · rw [List.filterMap_append, hgiven, List.append_nil]
    exact h.nodup

theorem amend (h : Counted s log) {i : ℕ} {sink sink' : Sink} (hget : s.sseSinks.get i = some sink)
    (hrealm : sink'.realm = sink.realm) (hip : sink'.ip = sink.ip) :
    Counted { s with sseSinks := s.sseSinks.set i sink' } log := by
  have hrealms : (s.sseSinks.set i sink').entries.map (fun p => p.2.realm) =
      s.sseSinks.entries.map fun p => p.2.realm := JsMap.map_entries_set hget hrealm
  have hips : (s.sseSinks.set i sink').entries.map (fun p => p.2.ip) =
      s.sseSinks.entries.map fun p => p.2.ip := JsMap.map_entries_set hget hip
  have hkeys : (s.sseSinks.set i sink').keys = s.sseSinks.keys := JsMap.map_entries_set hget rfl
  refine ⟨?_, ?_, h.realm_le, h.ip_le, ?_, h.lt_next, h.nodup⟩
  · exact hrealms ▸ h.realms
  · exact hips ▸ h.ips
  · have hquiet : book.Balances [] s { s with sseSinks := s.sseSinks.set i sink' } [] :=
      Book.Balances.quiet hkeys rfl rfl
    have hbooks := h.streams.trans hquiet
    exact List.append_nil log ▸ hbooks

theorem remove (h : Counted s log) (i : ℕ) :
    Counted (s.removeSseSink i).1 (log ++ (s.removeSseSink i).2) := by
  unfold removeSseSink
  rcases hget : s.sseSinks.get i with _ | sink
  · rwa [List.append_nil]
  · have hperm := JsMap.entries_perm hget
    have hsub : (s.sseSinks.delete i).entries.Sublist s.sseSinks.entries := List.filter_sublist
    have hsame : (log ++ [Effect.ended i]).filterMap book.given = log.filterMap book.given := by
      rw [List.filterMap_append]
      exact List.append_nil _
    have hrealms := (h.realms.perm (hperm.map _)).dec
    have hips := (h.ips.perm (hperm.map _)).dec
    refine ⟨hrealms, hips, fun realm => ?_, fun ip => ?_, ?_, fun j hj => h.lt_next j (hsame ▸ hj), hsame ▸ h.nodup⟩
    · exact (hrealms.getD_le h.realms (hsub.map _) realm).trans (h.realm_le realm)
    · exact (hips.getD_le h.ips (hsub.map _) ip).trans (h.ip_le ip)
    · apply h.streams.trans
      exact (Book.Balances.pay rfl rfl rfl).release (hperm.map Prod.fst)

theorem traffic (h : Counted s log) {s' : Streams} {new : List Effect} (ht : Traffic s s' new) :
    Counted s' (log ++ new) := by
  induction ht generalizing log with
  | refl s => rwa [List.append_nil]
  | trans _ _ ih ih' => exact List.append_assoc .. ▸ ih' (ih h)
  | amend hget hrealm hip =>
      rw [List.append_nil]
      exact h.amend hget hrealm hip
  | remove s i => exact h.remove i
  | report s he => exact h.report (book_of_isTraffic he).1 (book_of_isTraffic he).2
  | other s store broken agenda =>
      rw [List.append_nil]
      exact ⟨h.realms, h.ips, h.realm_le, h.ip_le, h.streams, h.lt_next, h.nodup⟩

/-- A stream is opened where there is room for it.
Kind: L -/
theorem register (h : Counted s log) (sink : Sink) (resumeId : Text) (ticket : Option Text)
    (hrealm : (s.sseCountByRealm.get sink.realm).getD 0 < SSE_MAX_PER_REALM)
    (hip : (s.sseCountByIp.get sink.ip).getD 0 < SSE_MAX_PER_IP) :
    Counted (s.registerSseSink sink)
      (log ++ [.opened s.next sink.ip sink.realm sink.event resumeId ticket]) := by
  have hentries : (s.sseSinks.set s.next sink).entries = s.sseSinks.entries ++ [(s.next, sink)] :=
    JsMap.entries_set_of_not_mem h.next_not_mem sink
  have hmap : ∀ f : ℕ × Sink → Text, ((s.sseSinks.set s.next sink).entries.map f).Perm
      (f (s.next, sink) :: s.sseSinks.entries.map f) := fun f => by
    rw [hentries, List.map_append]
    exact List.perm_append_comm
  refine ⟨(h.realms.inc _).perm (hmap fun p => p.2.realm).symm,
    (h.ips.inc _).perm (hmap fun p => p.2.ip).symm, fun realm => ?_, fun ip => ?_,
    h.streams.trans (Book.Balances.receive ?_ rfl), ?_, ?_⟩
  · show ((s.sseCountByRealm.set _ _).get realm).getD 0 ≤ _
    rw [JsMap.get_set]
    split_ifs
    · exact Nat.succ_le_of_lt hrealm
    · exact h.realm_le realm
  · show ((s.sseCountByIp.set _ _).get ip).getD 0 ≤ _
    rw [JsMap.get_set]
    split_ifs
    · exact Nat.succ_le_of_lt hip
    · exact h.ip_le ip
  · exact (congrArg (List.map Prod.fst) hentries).trans List.map_append
  · intro i hi
    rw [List.filterMap_append] at hi
    rcases List.mem_append.mp hi with hi | hi
    · exact Nat.lt_succ_of_lt (h.lt_next i hi)
    · obtain rfl : i = s.next := by simpa [book] using hi
      exact Nat.lt_succ_self _
  · rw [List.filterMap_append]
    apply List.nodup_append.mpr
    refine ⟨h.nodup, List.nodup_singleton _, fun i hi j hj => ?_⟩
    have hlt := h.lt_next i hi
    obtain rfl : j = s.next := by simpa [book] using hj
    exact Nat.ne_of_lt hlt

theorem openSseStream (h : Counted s log) {realm event ip resumeId : Text} {ticket : Option Text}
    (aborted : Bool) (hrealm : (s.sseCountByRealm.get realm).getD 0 < SSE_MAX_PER_REALM)
    (hip : (s.sseCountByIp.get ip).getD 0 < SSE_MAX_PER_IP) :
    Counted (s.openSseStream realm event ip resumeId ticket aborted).1
      (log ++ (s.openSseStream realm event ip resumeId ticket aborted).2) := by
  have hopened := h.register ⟨ip, realm, event, 0, resumeId ≠ [], [], 0, []⟩ resumeId ticket hrealm hip
  unfold Streams.openSseStream
  dsimp only
  split_ifs
  · have hremoved := hopened.remove s.next
    rwa [List.append_assoc] at hremoved
  · exact hopened
  · have hposted := hopened.traffic
      (Traffic.other _ s.store s.broken (s.agenda.post (.read s.next realm event resumeId)))
    rwa [List.append_nil] at hposted

theorem proceed (h : Counted s log) (r : Request) (ticket : Option Text) (aborted : Bool) :
    Counted (s.proceed r ticket aborted).1 (log ++ (s.proceed r ticket aborted).2) := by
  unfold Streams.proceed
  split_ifs with hrealm hip
  · exact h.report rfl rfl
  · exact h.report rfl rfl
  · exact h.openSseStream aborted (Nat.lt_of_not_le hrealm) (Nat.lt_of_not_le hip)

/-- The tickets have nothing to do with it.
Kind: L -/
theorem tickets (h : Counted s log) (m : JsMap Text Ticket) : Counted { s with sseTickets := m } log :=
  ⟨h.realms, h.ips, h.realm_le, h.ip_le, h.streams, h.lt_next, h.nodup⟩

theorem consumeSseTicket (h : Counted s log) (now : ℤ) (ticket : Text) :
    Counted (s.consumeSseTicket now ticket).1.1 (log ++ (s.consumeSseTicket now ticket).1.2) := by
  unfold Streams.consumeSseTicket
  rcases s.sseTickets.get ticket with _ | entry
  · rwa [List.append_nil]
  · exact (h.tickets _).report rfl rfl

theorem openFor (h : Counted s log) (r : Request) (ticket : Text) (aborted : Bool) (entry : Option Ticket) :
    Counted (s.openFor r ticket aborted entry).1 (log ++ (s.openFor r ticket aborted entry).2) := by
  cases entry with
  | none => exact h.report rfl rfl
  | some entry =>
      unfold Streams.openFor
      dsimp only
      split_ifs
      · exact h.proceed ..
      · exact h.report rfl rfl

theorem subscribe (h : Counted s log) (c : Config) (now : ℤ) (r : Request) (aborted : Bool) :
    Counted (s.subscribe c now r aborted).1 (log ++ (s.subscribe c now r aborted).2) := by
  have hrefused : ∀ status, Counted s (log ++ [.refused status]) := fun status => h.report rfl rfl
  unfold Streams.subscribe
  split_ifs
  · exact hrefused 404
  · exact hrefused 400
  · exact hrefused 400
  · rcases r.credential with (_ | status) | _ | ticket | _
    · exact h.proceed ..
    · exact hrefused status
    · exact hrefused 401
    · have hadmitted := (h.consumeSseTicket now ticket).openFor r ticket aborted
        (s.consumeSseTicket now ticket).2
      rwa [List.append_assoc] at hadmitted
    · exact hrefused 401

theorem step (h : Counted s log) (c : Config) (e : Event) : Counted (s.step c e).1 (log ++ (s.step c e).2) := by
  cases he : e.isRequest with
  | false => exact h.traffic (traffic_step c s he)
  | true =>
      cases e with
      | issue now ticket realm => exact (h.tickets _).report rfl rfl
      | sweep now => exact (h.tickets _).report rfl rfl
      | subscribe now r aborted => exact h.subscribe c now r aborted
      | _ => exact absurd he (by simp [Event.isRequest])

end Counted

theorem counted_init : Counted init [] where
  realms := Tallies.empty
  ips := Tallies.empty
  realm_le _ := Nat.zero_le _
  ip_le _ := Nat.zero_le _
  streams := Book.Balances.refl ..
  lt_next _ hi := absurd hi List.not_mem_nil
  nodup := List.nodup_nil

theorem counted_run (c : Config) (events : List Event) :
    let st := runFrom (journaled (step c)) (init, []) events
    Counted st.1 st.2 :=
  invariant_run (I := fun st : Streams × List Effect => Counted st.1 st.2)
    (fun _ e h _ => h.step c e) counted_init (eachStep_of_forall fun _ _ _ => trivial)

/-- In every run the streams of each realm and each address are counted right, neither has more than its share,
and the streams that have been opened are those that have ended and those that are there, each of them once.
Kind: P -/
theorem shares_kept (c : Config) (events : List Event) :
    let st := runFrom (journaled (step c)) (init, []) events
    Tallies st.1.sseCountByRealm (st.1.sseSinks.entries.map fun p => p.2.realm) ∧
      Tallies st.1.sseCountByIp (st.1.sseSinks.entries.map fun p => p.2.ip) ∧
      (∀ realm, (st.1.sseCountByRealm.get realm).getD 0 ≤ SSE_MAX_PER_REALM) ∧
      (∀ ip, (st.1.sseCountByIp.get ip).getD 0 ≤ SSE_MAX_PER_IP) ∧
      (st.2.filterMap book.given).Perm (st.1.sseSinks.keys ++ st.2.filterMap book.taken) ∧
      (st.2.filterMap book.given).Nodup := by
  intro st
  have h : Counted st.1 st.2 := counted_run c events
  exact ⟨h.realms, h.ips, h.realm_le, h.ip_le, h.streams, h.nodup⟩

/-! ### Tickets -/

/-- A stream is opened with a ticket that was issued for its realm, is valid and has just been used, for the
first time since.
Kind: D -/
def TicketJustified (before : List Effect) : Effect → Prop
  | .opened _ _ realm _ _ (some ticket) =>
      ∃ earlier since now expires,
        before = earlier ++ .issued ticket realm expires :: (since ++ [.used ticket now]) ∧ now ≤ expires ∧
          ∀ now', .used ticket now' ∉ since
  | _ => True

/-- A ticket has been issued and has not been used since.
Kind: D -/
def Unused (log : List Effect) (ticket : Text) (entry : Ticket) : Prop :=
  ∃ earlier since, log = earlier ++ .issued ticket entry.realm entry.expires :: since ∧
    ∀ now, .used ticket now ∉ since

theorem Unused.append {log new : List Effect} {ticket : Text} {entry : Ticket} (h : Unused log ticket entry)
    (hnew : ∀ now, .used ticket now ∉ new) : Unused (log ++ new) ticket entry := by
  obtain ⟨earlier, since, rfl, hsince⟩ := h
  refine ⟨earlier, since ++ new, by simp, fun now hin => ?_⟩
  rcases List.mem_append.mp hin with hin | hin
  · exact hsince now hin
  · exact hnew now hin

/-- What carries it.
Kind: D -/
structure Ticketed (s : Streams) (log : List Effect) : Prop where
  /-- The streams so far. -/
  grounded : Grounded TicketJustified log
  /-- The tickets that are there are unused. -/
  unused : ∀ ticket entry, s.sseTickets.get ticket = some entry → Unused log ticket entry

/-- A report that is not about a ticket and not about a stream that is opened.
Kind: D -/
def IsQuiet (e : Effect) : Prop :=
  (∀ before, TicketJustified before e) ∧ ∀ ticket now, e ≠ .used ticket now

theorem isQuiet_of_isTraffic {e : Effect} (he : e.isTraffic = true) : IsQuiet e := by
  cases e with
  | opened => exact absurd he Bool.false_ne_true
  | used => exact absurd he Bool.false_ne_true
  | _ => exact ⟨fun _ => trivial, fun _ _ => nofun⟩

/-- Traffic leaves the tickets alone.
Kind: L -/
theorem Traffic.quiet {s s' : Streams} {new : List Effect} (h : Traffic s s' new) :
    s'.sseTickets = s.sseTickets ∧ ∀ e ∈ new, IsQuiet e := by
  induction h with
  | refl s => exact ⟨rfl, by simp⟩
  | trans _ _ ih ih' =>
      refine ⟨ih'.1.trans ih.1, fun e he => ?_⟩
      rcases List.mem_append.mp he with he | he
      · exact ih.2 e he
      · exact ih'.2 e he
  | amend => exact ⟨rfl, by simp⟩
  | remove s i =>
      unfold removeSseSink
      rcases s.sseSinks.get i with _ | sink
      · exact ⟨rfl, by simp⟩
      · refine ⟨rfl, fun e he => ?_⟩
        rw [List.mem_singleton.mp he]
        exact ⟨fun _ => trivial, fun _ _ => nofun⟩
  | report s he =>
      refine ⟨rfl, fun e he' => ?_⟩
      rw [List.mem_singleton.mp he']
      exact isQuiet_of_isTraffic he
  | other => exact ⟨rfl, by simp⟩

namespace Ticketed

variable {s s' : Streams} {log new : List Effect}

/-- Quiet reports, where no ticket is new.
Kind: L -/
theorem report (h : Ticketed s log) (hnew : ∀ e ∈ new, IsQuiet e)
    (htickets : ∀ ticket entry, s'.sseTickets.get ticket = some entry →
      s.sseTickets.get ticket = some entry) : Ticketed s' (log ++ new) where
  grounded := h.grounded.append fun before e after heq =>
    (hnew e (by rw [heq]; simp)).1 _
  unused ticket entry hget := Unused.append (h.unused ticket entry (htickets ticket entry hget))
    fun now hin => (hnew _ hin).2 ticket now rfl

theorem traffic (h : Ticketed s log) (ht : Traffic s s' new) : Ticketed s' (log ++ new) :=
  h.report ht.quiet.2 fun _ _ hget => ht.quiet.1 ▸ hget

/-- A quiet report of a request, which leaves the tickets alone.
Kind: L -/
theorem refused (h : Ticketed s log) (status : ℕ) : Ticketed s (log ++ [.refused status]) :=
  h.traffic (Traffic.report s rfl)

theorem openSseStream (h : Ticketed s log) {realm event ip resumeId : Text} {ticket : Option Text}
    (aborted : Bool)
    (hticket : ∀ i, TicketJustified log (.opened i ip realm event resumeId ticket)) :
    Ticketed (s.openSseStream realm event ip resumeId ticket aborted).1
      (log ++ (s.openSseStream realm event ip resumeId ticket aborted).2) := by
  have hopened : ∀ s' : Streams, s'.sseTickets = s.sseTickets →
      Ticketed s' (log ++ [.opened s.next ip realm event resumeId ticket]) := fun s' hs' =>
    ⟨h.grounded.append_singleton (hticket _), fun t entry hget =>
      (h.unused t entry (hs' ▸ hget)).append fun now => by simp⟩
  unfold Streams.openSseStream
  dsimp only
  split_ifs
  · have hremoved := (hopened (s.registerSseSink ⟨ip, realm, event, 0, resumeId ≠ [], [], 0, []⟩) rfl).traffic
      (Traffic.remove _ s.next)
    rwa [List.append_assoc] at hremoved
  · exact hopened _ rfl
  · exact hopened _ rfl

theorem proceed (h : Ticketed s log) (r : Request) {ticket : Option Text} (aborted : Bool)
    (hticket : ∀ i ip event resumeId, TicketJustified log (.opened i ip r.realm event resumeId ticket)) :
    Ticketed (s.proceed r ticket aborted).1 (log ++ (s.proceed r ticket aborted).2) := by
  unfold Streams.proceed
  split_ifs
  · exact h.refused 503
  · exact h.refused 429
  · exact h.openSseStream aborted fun i => hticket i ..

theorem consumeSseTicket (h : Ticketed s log) (now : ℤ) (ticket : Text) :
    Ticketed (s.consumeSseTicket now ticket).1.1 (log ++ (s.consumeSseTicket now ticket).1.2) := by
  unfold Streams.consumeSseTicket
  rcases s.sseTickets.get ticket with _ | entry
  · rwa [List.append_nil]
  · refine ⟨h.grounded.append_singleton trivial, fun t e hget => ?_⟩
    have hne : t ≠ ticket := by
      rintro rfl
      exact absurd hget (by simp)
    rw [JsMap.get_delete_of_ne _ hne] at hget
    exact (h.unused t e hget).append fun now' => by simp [hne]

/-- A stream may be opened with a ticket that has been looked up.
Kind: L -/
theorem justified (h : Ticketed s log) {now : ℤ} {ticket : Text} {entry : Ticket}
    (hentry : (s.consumeSseTicket now ticket).2 = some entry) (i : ℕ) (ip event resumeId : Text) :
    TicketJustified (log ++ (s.consumeSseTicket now ticket).1.2)
      (.opened i ip entry.realm event resumeId (some ticket)) := by
  unfold Streams.consumeSseTicket at hentry ⊢
  rcases hget : s.sseTickets.get ticket with _ | found
  · rw [hget] at hentry
    exact absurd hentry (by simp)
  · rw [hget] at hentry
    dsimp only at hentry
    split_ifs at hentry with hexpired
    obtain rfl : found = entry := Option.some.inj hentry
    obtain ⟨earlier, since, rfl, hsince⟩ := h.unused ticket found hget
    exact ⟨earlier, since, now, found.expires, by simp, Int.not_lt.mp hexpired, hsince⟩

theorem subscribe (h : Ticketed s log) (c : Config) (now : ℤ) (r : Request) (aborted : Bool) :
    Ticketed (s.subscribe c now r aborted).1 (log ++ (s.subscribe c now r aborted).2) := by
  unfold Streams.subscribe
  split_ifs
  · exact h.refused 404
  · exact h.refused 400
  · exact h.refused 400
  · rcases r.credential with (_ | status) | _ | ticket | _
    · exact h.proceed r aborted fun _ _ _ _ => trivial
    · exact h.refused status
    · exact h.refused 401
    · dsimp only
      have hconsumed := h.consumeSseTicket now ticket
      rw [← List.append_assoc]
      rcases hentry : (s.consumeSseTicket now ticket).2 with _ | entry
      · exact hconsumed.refused 401
      · unfold Streams.openFor
        dsimp only
        split_ifs with hrealm
        · exact hconsumed.proceed r aborted (hrealm ▸ h.justified hentry)
        · exact hconsumed.refused 403
    · exact h.refused 401

theorem issueSseTicket (h : Ticketed s log) (now : ℤ) (ticket realm : Text) :
    Ticketed (s.issueSseTicket now ticket realm).1 (log ++ (s.issueSseTicket now ticket realm).2) := by
  refine ⟨h.grounded.append_singleton trivial, fun t entry hget => ?_⟩
  unfold Streams.issueSseTicket at hget
  rw [JsMap.get_set] at hget
  split_ifs at hget with ht
  · obtain rfl := Option.some.inj hget
    exact ⟨log, [], by rw [ht]; rfl, fun _ => List.not_mem_nil⟩
  · exact (h.unused t entry hget).append fun now' => by simp [Streams.issueSseTicket]

theorem sweepSseTickets (h : Ticketed s log) (now : ℤ) : Ticketed (s.sweepSseTickets now) (log ++ []) := by
  apply h.report (by simp)
  intro ticket entry hget
  have hmem := JsMap.mem_entries_iff.mpr hget
  exact JsMap.mem_entries_iff.mp (List.mem_filter.mp hmem).1

theorem step (h : Ticketed s log) (c : Config) (e : Event) :
    Ticketed (s.step c e).1 (log ++ (s.step c e).2) := by
  cases he : e.isRequest with
  | false => exact h.traffic (traffic_step c s he)
  | true =>
      cases e with
      | issue now ticket realm => exact h.issueSseTicket now ticket realm
      | sweep now => exact h.sweepSseTickets now
      | subscribe now r aborted => exact h.subscribe c now r aborted
      | _ => exact absurd he (by simp [Event.isRequest])

end Ticketed

theorem ticketed_run (c : Config) (events : List Event) :
    let st := runFrom (journaled (step c)) (init, []) events
    Ticketed st.1 st.2 :=
  invariant_run (I := fun st : Streams × List Effect => Ticketed st.1 st.2)
    (fun _ e h _ => h.step c e) ⟨grounded_nil _, fun _ _ hget => absurd hget (by simp [init])⟩
    (eachStep_of_forall fun _ _ _ => trivial)

/-- In every run a stream that is opened with a ticket is of the realm that the ticket was issued for, is opened
while the ticket is valid, and is the only one opened with it.
Kind: P -/
theorem tickets_justified (c : Config) (events : List Event) :
    Grounded TicketJustified (runFrom (journaled (step c)) (init, []) events).2 :=
  (ticketed_run c events).grounded

end Streams

end TyoMq.Http
