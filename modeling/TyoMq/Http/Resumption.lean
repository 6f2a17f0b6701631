import TyoMq.Http.Deliveries
import TyoMq.Http.History

/-!
# Coming back to a stream

A client that has opened a stream is sent everything that is published from then on, once, and where it says
which message it saw last, what it has missed, once, unless that has expired or is too much.

* `Follows`: what is true of a stream, while it is to be sent the history first and after that.
* `Streamed`: what carries it, with one lemma for each operation.
* `exactly_once`: in every run.
-/

namespace TyoMq.Http

open Lib Storage

namespace Streams

/-! ### One stream -/

/-- A stream was opened, and what came after that.
Kind: D -/
structure Opened (log : List Effect) (i : ℕ) (realm event resumeId : Text) (after : List Effect) : Prop where
  /-- It was opened then. -/
  split : ∃ before ip ticket, log = before ++ .opened i ip realm event resumeId ticket :: after ∧
    wroteTo i before = []
  /-- There is a realm. -/
  realm_ne_nil : realm ≠ []

/-- A task that has to do with a stream has to do with how it was opened.
Kind: D -/
def Fits (log : List Effect) (i : ℕ) (realm event resumeId : Text) : Task → Prop
  | .read j realm' event' resumeId' => j = i → resumeId' = resumeId ∧ realm' = realm ∧ event' = event
  | .replay j resumeId' entries => j = i → resumeId' = resumeId ∧ .read i realm event entries ∈ log ∧
      (entries.map itemOf).Sublist (publishedTo realm event log)
  | .flushed .. => True

/-- What a stream is sent of the history.
Kind: D -/
inductive Base (log : List Effect) (i : ℕ) (realm event resumeId : Text) : List Item → Prop
  /-- It is to be sent nothing. -/
  | live (h : resumeId = []) : Base log i realm event resumeId []
  /-- The history could not be read. -/
  | unread (h : .unread i ∈ log) : Base log i realm event resumeId []
  /-- It is sent what it has missed. -/
  | caughtUp {entries : List (Entry Text)} (hread : .read i realm event entries ∈ log)
      (hsub : (entries.map itemOf).Sublist (publishedTo realm event log))
      (htold : (catchUp resumeId (entries.map itemOf)).2 = true → .truncated i ∈ log) :
      Base log i realm event resumeId (catchUp resumeId (entries.map itemOf)).1

/-- A stream is to be sent the history first: what has been published since it was opened is put off.
Kind: D -/
inductive Waiting (tasks : List Task) (log : List Effect) (i : ℕ) (realm event : Text) (buffer : List Item) : Prop
  | mk {resumeId : Text} {after : List Effect} (opened : Opened log i realm event resumeId after)
      (wrote : wroteTo i after = []) (hbuffer : buffer = publishedTo realm event after)
      (fits : ∀ t ∈ tasks, Fits log i realm event resumeId t)

/-- A stream has been sent what there was of the history, then what had been published since it was opened
and was not in it, and then everything.
Kind: D -/
inductive Live (tasks : List Task) (log : List Effect) (i : ℕ) (realm event : Text) : Prop
  | mk {resumeId : Text} {upto after later : List Effect} {base : List Item}
      (opened : Opened upto i realm event resumeId after) (hlog : log = upto ++ later)
      (hbase : Base upto i realm event resumeId base)
      (wrote : wroteTo i log = base ++ unsent base (publishedTo realm event after) ++
        publishedTo realm event later)
      (idle : ∀ t ∈ tasks, t.stream ≠ some i)

/-- What is true of a stream.
Kind: D -/
def Follows (tasks : List Task) (log : List Effect) (i : ℕ) (sink : Sink) : Prop :=
  (sink.replaying = true →
      sink.replayedIds = [] ∧ Waiting tasks log i sink.realm sink.event sink.buffer) ∧
    (sink.replaying = false → Live tasks log i sink.realm sink.event)

/-- A stream was opened, and more has happened.
Kind: L -/
theorem Opened.append {log after : List Effect} {i : ℕ} {realm event resumeId : Text}
    (h : Opened log i realm event resumeId after) (new : List Effect) :
    Opened (log ++ new) i realm event resumeId (after ++ new) := by
  obtain ⟨⟨before, ip, ticket, rfl, hbefore⟩, hrealm⟩ := h
  exact ⟨⟨before, ip, ticket, by simp, hbefore⟩, hrealm⟩

/-- All that has been written to a stream has been since it was opened.
Kind: L -/
theorem Opened.wroteTo_eq {log after : List Effect} {i : ℕ} {realm event resumeId : Text}
    (h : Opened log i realm event resumeId after) : wroteTo i log = wroteTo i after := by
  obtain ⟨⟨before, ip, ticket, rfl, hbefore⟩, -⟩ := h
  rw [wroteTo_append, hbefore]
  rfl

theorem Fits.append {log : List Effect} {i : ℕ} {realm event resumeId : Text} {t : Task}
    (h : Fits log i realm event resumeId t) (new : List Effect) :
    Fits (log ++ new) i realm event resumeId t := by
  cases t with
  | read j realm' event' resumeId' => exact h
  | replay j resumeId' entries =>
      intro hj
      obtain ⟨hresume, hread, hsub⟩ := h hj
      rw [publishedTo_append]
      exact ⟨hresume, List.mem_append_left _ hread, hsub.trans (List.sublist_append_left ..)⟩
  | flushed j bytes => exact trivial

/-- A task that has to do with another stream.
Kind: L -/
theorem fits_of_stream_ne {log : List Effect} {i : ℕ} {realm event resumeId : Text} {t : Task}
    (h : t.stream ≠ some i) : Fits log i realm event resumeId t := by
  cases t with
  | read j realm' event' resumeId' => exact fun hj => absurd (congrArg some hj) h
  | replay j resumeId' entries => exact fun hj => absurd (congrArg some hj) h
  | flushed j bytes => exact trivial

namespace Follows

variable {tasks tasks' : List Task} {log new : List Effect} {i : ℕ} {sink sink' : Sink}

/-- Nothing is sent to a stream and nothing published for it, but its tasks may change.
Kind: L -/
theorem carry (h : Follows tasks log i sink) (hwrote : wroteTo i new = [])
    (hpub : publishedTo sink.realm sink.event new = [])
    (hfits : ∀ resumeId, sink.realm ≠ [] → (∀ t ∈ tasks, Fits log i sink.realm sink.event resumeId t) →
      ∀ t ∈ tasks', Fits (log ++ new) i sink.realm sink.event resumeId t)
    (hidle : (∀ t ∈ tasks, t.stream ≠ some i) → ∀ t ∈ tasks', t.stream ≠ some i) :
    Follows tasks' (log ++ new) i sink := by
  constructor
  · intro hreplaying
    obtain ⟨hids, ⟨hopened, hnone, hbuffer, hall⟩⟩ := h.1 hreplaying
    refine ⟨hids, ⟨hopened.append new, ?_, ?_, hfits _ hopened.realm_ne_nil hall⟩⟩
    · rw [wroteTo_append, hnone, hwrote]
      rfl
    · rw [publishedTo_append, hpub, List.append_nil]
      exact hbuffer
  · intro hlive
    obtain ⟨hopened, rfl, hbase, hall, hnone⟩ := h.2 hlive
    refine ⟨hopened, List.append_assoc .., hbase, ?_, hidle hnone⟩
    rw [wroteTo_append, hwrote, List.append_nil, hall, publishedTo_append, hpub, List.append_nil]

/-- What has nothing to do with a stream.
Kind: L -/
theorem frame (h : Follows tasks log i sink) (hwrote : wroteTo i new = [])
    (hpub : publishedTo sink.realm sink.event new = [])
    (htasks : ∀ t ∈ tasks', t ∈ tasks ∨ t.stream ≠ some i) : Follows tasks' (log ++ new) i sink := by
  apply h.carry hwrote hpub
  · intro resumeId _ hall t ht
    rcases htasks t ht with ht | ht
    · exact (hall t ht).append new
    · exact fits_of_stream_ne ht
  · intro hall t ht
    exact (htasks t ht).elim (hall t) id

/-- A message is published.
Kind: L -/
theorem got (h : Follows tasks log i sink) {item : Item} (hgot : Got item sink sink' (wroteTo i new))
    (hpub : publishedTo sink.realm sink.event new = [item]) : Follows tasks (log ++ new) i sink' := by
  unfold Got at hgot
  split_ifs at hgot with hreplaying
  · obtain ⟨⟨bytes, rfl⟩, hwrote⟩ := hgot
    obtain ⟨hids, ⟨hopened, hnone, hbuffer, hfits⟩⟩ := h.1 hreplaying
    refine ⟨fun _ => ⟨hids, ⟨hopened.append new, ?_, ?_, fun t ht => (hfits t ht).append new⟩⟩,
      fun hlive => absurd (hreplaying.symm.trans hlive) nofun⟩
    · rw [wroteTo_append, hnone, hwrote]
      rfl
    · rw [publishedTo_append, hpub, ← hbuffer]
  · obtain ⟨⟨pending, rfl⟩, hwrote⟩ := hgot
    have hlive : sink.replaying = false := Bool.eq_false_iff.mpr hreplaying
    obtain ⟨hopened, rfl, hbase, hall, hidle⟩ := h.2 hlive
    refine ⟨fun hrep => absurd hrep hreplaying, fun _ => ⟨hopened, List.append_assoc .., hbase, ?_, hidle⟩⟩
    rw [wroteTo_append, hwrote, hall, publishedTo_append, hpub, List.append_assoc]

/-- A stream is sent what was put off, after some of the history.
Kind: L -/
theorem live (h : Follows tasks log i sink) (hreplaying : sink.replaying = true) {base : List Item}
    (hbase : ∀ resumeId, (∀ t ∈ tasks, Fits log i sink.realm sink.event resumeId t) →
      Base (log ++ new) i sink.realm sink.event resumeId base)
    (hcaught : CaughtUp base sink sink' (wroteTo i new))
    (hpub : publishedTo sink.realm sink.event new = []) (htasks : ∀ t ∈ tasks', t.stream ≠ some i) :
    Follows tasks' (log ++ new) i sink' := by
  obtain ⟨written, ⟨⟨pending, rfl⟩, rfl⟩, hwrote⟩ := hcaught
  obtain ⟨-, ⟨hopened, hnone, hbuffer, hfits⟩⟩ := h.1 hreplaying
  refine ⟨fun hrep => absurd hrep Bool.false_ne_true, fun _ => ⟨hopened.append new,
    (List.append_nil _).symm, hbase _ hfits, ?_, htasks⟩⟩
  rw [wroteTo_append, hopened.wroteTo_eq, hnone, hwrote, publishedTo_append, hpub, ← hbuffer]
  simp [publishedTo, unsent]

end Follows

/-! ### All the streams -/

/-- What was kept in the history was published.
Kind: D -/
def Published (log : List Effect) : Prop :=
  ∀ realm event, realm ≠ [] → ((historyOf realm event log).map itemOf).Sublist (publishedTo realm event log)

theorem Published.append {log new : List Effect} (h : Published log) (hnew : Published new) :
    Published (log ++ new) := fun realm event hrealm => by
  rw [historyOf_append, List.map_append, publishedTo_append]
  exact (h realm event hrealm).append (hnew realm event hrealm)

theorem published_of_isAside {new : List Effect} (hnew : ∀ e ∈ new, e.isAside = true) : Published new := by
  intro realm event _
  rw [historyOf, recorded_eq_nil hnew]
  exact List.nil_sublist _

/-- A report of what a stream is sent is not about the history.
Kind: L -/
theorem isAside_of_isDelivery {e : Effect} (he : e.isDelivery = true) : e.isAside = true := by
  cases e with
  | recorded => exact absurd he Bool.false_ne_true
  | read => exact absurd he Bool.false_ne_true
  | _ => rfl

/-- What is true of all the streams.
Kind: D -/
structure Streamed (s : Streams) (log : List Effect) : Prop where
  /-- What is true of each. -/
  follows : ∀ i sink, s.sseSinks.get i = some sink → Follows s.streamTasks log i sink
  /-- Numbers are used in turn. -/
  lt_next : ∀ i sink, s.sseSinks.get i = some sink → i < s.next
  /-- Nothing has been written to a stream that is not there yet. -/
  silent : ∀ i, s.next ≤ i → wroteTo i log = []
  /-- No task has to do with one. -/
  tasks_lt : ∀ t ∈ s.streamTasks, ∀ i, t.stream = some i → i < s.next
  /-- A task at most has to do with each stream. -/
  nodup : (s.streamTasks.filterMap Task.stream).Nodup
  /-- What was kept in the history was published. -/
  published : Published log
  /-- The history. -/
  history : Historied s.store log

/-- A state with fewer tasks.
Kind: D -/
structure Fewer (s s' : Streams) : Prop where
  /-- The streams are the same. -/
  sinks : s'.sseSinks = s.sseSinks
  /-- So is the next number. -/
  next : s'.next = s.next
  /-- So is the history. -/
  store : s'.store = s.store
  /-- Some tasks may be gone. -/
  tasks : ∃ gone, s.streamTasks.Perm (gone ++ s'.streamTasks)

theorem Fewer.refl (s : Streams) : Fewer s s := ⟨rfl, rfl, rfl, [], List.Perm.refl _⟩

/-- A task that has to do with a stream is taken up.
Kind: L -/
theorem streamTasks_cancel {s : Streams} {number : ℕ} {t : Task} (h : s.agenda.get number = some t)
    (ht : t.stream.isSome = true) :
    s.streamTasks.Perm (t :: { s with agenda := s.agenda.cancel number }.streamTasks) := by
  have hperm := (Agenda.works_cancel h).filter fun t => t.stream.isSome
  rwa [List.filter_cons_of_pos (p := fun t : Task => t.stream.isSome) ht] at hperm

theorem Fewer.cancel (s : Streams) (number : ℕ) : Fewer s { s with agenda := s.agenda.cancel number } := by
  refine ⟨rfl, rfl, rfl, ?_⟩
  rcases h : s.agenda.get number with _ | t
  · refine ⟨[], List.Perm.of_eq ?_⟩
    unfold streamTasks
    rw [Agenda.works_cancel_of_none h]
    rfl
  · have hperm := (Agenda.works_cancel h).filter fun t => t.stream.isSome
    exact ⟨[t].filter fun t => t.stream.isSome, hperm.trans (List.Perm.of_eq (List.filter_append [t] _))⟩

namespace Streamed

variable {s s₀ s' : Streams} {log new : List Effect}

/-- With fewer tasks.
Kind: L -/
theorem fewer (h : Streamed s log) (hf : Fewer s s') : Streamed s' log := by
  obtain ⟨hsinks, hnext, hstore, gone, hperm⟩ := hf
  have hsub : ∀ t ∈ s'.streamTasks, t ∈ s.streamTasks := fun t ht =>
    hperm.mem_iff.mpr (List.mem_append_right _ ht)
  refine ⟨fun i sink hget => ?_, fun i sink hget => ?_, fun i hi => h.silent i (hnext ▸ hi), fun t ht i hi => ?_,
    ?_, h.published, hstore ▸ h.history⟩
  · have hframe : Follows s'.streamTasks (log ++ []) i sink :=
      (h.follows i sink (hsinks ▸ hget)).frame rfl rfl fun t ht => Or.inl (hsub t ht)
    rwa [List.append_nil] at hframe
  · exact hnext ▸ h.lt_next i sink (hsinks ▸ hget)
  · exact hnext ▸ h.tasks_lt t (hsub t ht) i hi
  · have hnodup := (hperm.filterMap Task.stream).nodup_iff.mp h.nodup
    rw [List.filterMap_append] at hnodup
    exact hnodup.sublist (List.sublist_append_right ..)

/-- A stream is sent something, and it is known what that means for it.
Kind: L -/
theorem touches (h : Streamed s log) (hf : Fewer s s₀) {i : ℕ} {R : Sink → Sink → List Item → Prop}
    (ht : Touches i R s₀ s' new) (hi : i < s.next ∨ wroteTo i new = [])
    (hown : ∀ sink sink', s.sseSinks.get i = some sink → R sink sink' (wroteTo i new) →
      Follows s'.streamTasks (log ++ new) i sink') : Streamed s' (log ++ new) := by
  have h₀ := h.fewer hf
  have haside : ∀ e ∈ new, e.isAside = true := fun e he => isAside_of_isDelivery (ht.reports e he)
  refine ⟨fun j sink' hget => ?_, fun j sink' hget => ?_, fun j hj => ?_, fun t htask => ?_, ?_,
    h.published.append (published_of_isAside haside), ?_⟩
  · by_cases hj : j = i
    · subst hj
      obtain ⟨sink, hsink, hR⟩ := ht.own sink' hget
      exact hown sink sink' (hf.sinks ▸ hsink) hR
    · obtain ⟨hsame, hwrote⟩ := ht.others j hj
      rw [ht.tasks]
      exact (h₀.follows j sink' (hsame ▸ hget)).frame hwrote (publishedTo_of_isDelivery ht.reports _ _)
        fun t ht => Or.inl ht
  · rw [ht.next]
    by_cases hj : j = i
    · subst hj
      obtain ⟨sink, hsink, -⟩ := ht.own sink' hget
      exact h₀.lt_next j sink hsink
    · exact h₀.lt_next j sink' ((ht.others j hj).1 ▸ hget)
  · rw [ht.next] at hj
    rw [wroteTo_append, h₀.silent j hj, List.nil_append]
    by_cases hji : j = i
    · subst hji
      rcases hi with hi | hi
      · exact absurd (hf.next ▸ hi) (Nat.not_lt.mpr hj)
      · exact hi
    · exact (ht.others j hji).2
  · rw [ht.next]
    rw [ht.tasks] at htask
    exact h₀.tasks_lt t htask
  · rw [ht.tasks]
    exact h₀.nodup
  · rw [ht.store]
    exact h₀.history.report haside

/-- Nothing is sent to a stream and nothing published.
Kind: L -/
theorem report (h : Streamed s log) (hsinks : s'.sseSinks = s.sseSinks) (hnext : s'.next = s.next)
    (htasks : s'.streamTasks = s.streamTasks) (hwrote : ∀ i, wroteTo i new = [])
    (hpub : ∀ realm event, publishedTo realm event new = []) (hrecorded : recorded new = [])
    (hhistory : Historied s'.store (log ++ new)) : Streamed s' (log ++ new) where
  follows i sink hget := by
    rw [htasks]
    exact (h.follows i sink (hsinks ▸ hget)).frame (hwrote i) (hpub _ _) fun t ht => Or.inl ht
  lt_next i sink hget := hnext ▸ h.lt_next i sink (hsinks ▸ hget)
  silent i hi := by rw [wroteTo_append, hwrote, h.silent i (hnext ▸ hi)]; rfl
  tasks_lt t ht i hi := hnext ▸ h.tasks_lt t (htasks ▸ ht) i hi
  nodup := htasks ▸ h.nodup
  published := h.published.append fun realm event _ => by
    rw [historyOf, hrecorded]
    exact List.nil_sublist _
  history := hhistory

/-- What expires is neither sent nor published.
Kind: L -/
theorem wroteTo_expire (s : Streams) (now : ℤ) (i : ℕ) : wroteTo i (s.expire now) = [] := by
  apply List.filterMap_eq_nil_iff.mpr
  intro e he
  obtain ⟨entry, -, rfl⟩ := List.mem_map.mp he
  rfl

theorem publishedTo_expire (s : Streams) (now : ℤ) (realm event : Text) :
    publishedTo realm event (s.expire now) = [] := by
  apply List.filterMap_eq_nil_iff.mpr
  intro e he
  obtain ⟨entry, -, rfl⟩ := List.mem_map.mp he
  rfl

/-- A stream is opened.
Kind: L -/
theorem opened (h : Streamed s log) {ip realm event resumeId : Text} {ticket : Option Text}
    (hrealm : realm ≠ [])
    (hsinks : s'.sseSinks = s.sseSinks.set s.next ⟨ip, realm, event, 0, resumeId ≠ [], [], 0, []⟩)
    (hnext : s'.next = s.next + 1) (hstore : s'.store = s.store)
    (htasks : ∃ task : Option Task, s'.streamTasks = s.streamTasks ++ task.toList ∧
      ∀ t ∈ task.toList, resumeId ≠ [] ∧ t = .read s.next realm event resumeId) :
    Streamed s' (log ++ [.opened s.next ip realm event resumeId ticket]) := by
  obtain ⟨task, htasks, hl⟩ := htasks
  have hold : ∀ t ∈ s.streamTasks, t.stream ≠ some s.next := fun t ht heq =>
    Nat.lt_irrefl _ (h.tasks_lt t ht _ heq)
  have hopened : Opened (log ++ [.opened s.next ip realm event resumeId ticket]) s.next realm event resumeId [] :=
    ⟨⟨log, ip, ticket, rfl, h.silent _ (Nat.le_refl _)⟩, hrealm⟩
  refine ⟨fun i sink hget => ?_, fun i sink hget => ?_, fun i hi => ?_, fun t ht i hi => ?_, ?_,
    h.published.append (published_of_isAside (by simp [Effect.isAside])), ?_⟩
  · rw [hsinks, JsMap.get_set] at hget
    split_ifs at hget with hi
    · obtain rfl := Option.some.inj hget
      subst hi
      constructor
      · intro hreplaying
        refine ⟨rfl, ⟨hopened, rfl, rfl, fun t ht => ?_⟩⟩
        rw [htasks] at ht
        rcases List.mem_append.mp ht with ht | ht
        · exact fits_of_stream_ne (hold t ht)
        · obtain ⟨-, rfl⟩ := hl t ht
          exact fun _ => ⟨rfl, rfl, rfl⟩
      · intro hlive
        have hresume : resumeId = [] := by simpa using hlive
        refine ⟨hopened, (List.append_nil _).symm, Base.live hresume, ?_, fun t ht => ?_⟩
        · rw [hopened.wroteTo_eq]
          rfl
        · rw [htasks] at ht
          rcases List.mem_append.mp ht with ht | ht
          · exact hold t ht
          · exact absurd hresume (hl t ht).1
    · rw [htasks]
      refine (h.follows i sink hget).frame rfl rfl fun t ht => ?_
      rcases List.mem_append.mp ht with ht | ht
      · exact Or.inl ht
      · obtain ⟨-, rfl⟩ := hl t ht
        exact Or.inr fun heq => hi (Option.some.inj heq).symm
  · rw [hsinks, JsMap.get_set] at hget
    rw [hnext]
    split_ifs at hget with hi
    · exact hi ▸ Nat.lt_succ_self _
    · exact Nat.lt_succ_of_lt (h.lt_next i sink hget)
  · rw [hnext] at hi
    rw [wroteTo_append, h.silent i (Nat.le_of_succ_le hi)]
    rfl
  · rw [hnext]
    rw [htasks] at ht
    rcases List.mem_append.mp ht with ht | ht
    · exact Nat.lt_succ_of_lt (h.tasks_lt t ht i hi)
    · obtain ⟨-, rfl⟩ := hl t ht
      exact Option.some.inj hi ▸ Nat.lt_succ_self _
  · rw [htasks, List.filterMap_append]
    apply List.nodup_append.mpr
    refine ⟨h.nodup, ?_, fun i hi j hj => ?_⟩
    · cases task with
      | none => exact List.nodup_nil
      | some t =>
          obtain ⟨-, rfl⟩ := hl t List.mem_cons_self
          exact List.nodup_singleton _
    · obtain ⟨t, ht, hti⟩ := List.mem_filterMap.mp hi
      obtain ⟨t', ht', htj⟩ := List.mem_filterMap.mp hj
      obtain ⟨-, rfl⟩ := hl t' ht'
      exact Nat.ne_of_lt (Option.some.inj htj ▸ h.tasks_lt t ht i hti)
  · rw [hstore]
    exact h.history.report (by simp [Effect.isAside])

theorem openSseStream (h : Streamed s log) {realm : Text} (hrealm : realm ≠ []) (event ip resumeId : Text)
    (ticket : Option Text) (aborted : Bool) :
    Streamed (s.openSseStream realm event ip resumeId ticket aborted).1
      (log ++ (s.openSseStream realm event ip resumeId ticket aborted).2) := by
  unfold Streams.openSseStream
  dsimp only
  split_ifs with haborted hresume
  · have hopened : Streamed (s.registerSseSink ⟨ip, realm, event, 0, resumeId ≠ [], [], 0, []⟩)
        (log ++ [.opened s.next ip realm event resumeId ticket]) :=
      h.opened hrealm rfl rfl rfl ⟨none, (List.append_nil _).symm, by simp⟩
    have hremoved := hopened.touches (Fewer.refl _) (Touches.remove s.next (fun _ _ _ => False) _)
      (Or.inl (Nat.lt_succ_self _)) fun _ _ _ hfalse => hfalse.elim
    rwa [List.append_assoc] at hremoved
  · exact h.opened hrealm rfl rfl rfl ⟨none, (List.append_nil _).symm, by simp⟩
  · refine h.opened hrealm rfl rfl rfl ⟨some (.read s.next realm event resumeId), ?_, fun t ht => ?_⟩
    · simp [streamTasks, Task.stream]
    · exact ⟨hresume, by simpa using ht⟩

/-- A request is refused.
Kind: L -/
theorem refused (h : Streamed s log) (status : ℕ) : Streamed s (log ++ [.refused status]) :=
  h.report rfl rfl rfl (fun _ => rfl) (fun _ _ => rfl) rfl (h.history.report (by simp [Effect.isAside]))

theorem proceed (h : Streamed s log) (r : Request) (hrealm : r.realm ≠ []) (ticket : Option Text)
    (aborted : Bool) : Streamed (s.proceed r ticket aborted).1 (log ++ (s.proceed r ticket aborted).2) := by
  unfold Streams.proceed
  split_ifs
  · exact h.refused 503
  · exact h.refused 429
  · exact h.openSseStream hrealm ..

theorem consumeSseTicket (h : Streamed s log) (now : ℤ) (ticket : Text) :
    Streamed (s.consumeSseTicket now ticket).1.1 (log ++ (s.consumeSseTicket now ticket).1.2) := by
  unfold Streams.consumeSseTicket
  rcases s.sseTickets.get ticket with _ | entry
  · rwa [List.append_nil]
  · exact h.report rfl rfl rfl (fun _ => rfl) (fun _ _ => rfl) rfl (h.history.report (by simp [Effect.isAside]))

theorem openFor (h : Streamed s log) (r : Request) (hrealm : r.realm ≠ []) (ticket : Text) (aborted : Bool)
    (entry : Option Ticket) :
    Streamed (s.openFor r ticket aborted entry).1 (log ++ (s.openFor r ticket aborted entry).2) := by
  cases entry with
  | none => exact h.refused 401
  | some entry =>
      unfold Streams.openFor
      dsimp only
      split_ifs
      · exact h.proceed r hrealm ..
      · exact h.refused 403

theorem subscribe (h : Streamed s log) (c : Config) (now : ℤ) (r : Request) (aborted : Bool) :
    Streamed (s.subscribe c now r aborted).1 (log ++ (s.subscribe c now r aborted).2) := by
  unfold Streams.subscribe
  split_ifs with hoff hempty hunsafe
  · exact h.refused 404
  · exact h.refused 400
  · exact h.refused 400
  · have hrealm : r.realm ≠ [] := fun hnil => hempty (Or.inl hnil)
    rcases r.credential with (_ | status) | _ | ticket | _
    · exact h.proceed r hrealm ..
    · exact h.refused status
    · exact h.refused 401
    · have hadmitted := (h.consumeSseTicket now ticket).openFor r hrealm ticket aborted
        (s.consumeSseTicket now ticket).2
      rwa [List.append_assoc] at hadmitted
    · exact h.refused 401

/-- A message is published, and may be kept in the history.
Kind: L -/
theorem deliver (h : Streamed s log) {realm event : Text} {item : Item} {delivered kept : List Effect}
    {s₁ : Streams} (hd : Delivers (s.listeners realm event) item s s₁ delivered)
    (hsinks : s'.sseSinks = s₁.sseSinks) (hnext : s'.next = s₁.next) (htasks : s'.streamTasks = s₁.streamTasks)
    (hwrote : ∀ i, wroteTo i kept = []) (hpub : ∀ realm event, publishedTo realm event kept = [])
    (hpublished : Published (.published realm event item :: (delivered ++ kept)))
    (hhistory : Historied s'.store (log ++ .published realm event item :: (delivered ++ kept))) :
    Streamed s' (log ++ .published realm event item :: (delivered ++ kept)) := by
  have hto : ∀ i, wroteTo i (.published realm event item :: (delivered ++ kept)) = wroteTo i delivered :=
    fun i => by
      show wroteTo i (delivered ++ kept) = _
      rw [wroteTo_append, hwrote, List.append_nil]
  have hnews : ∀ realm' event', publishedTo realm' event' (.published realm event item :: (delivered ++ kept)) =
      if realm = realm' ∧ event = event' then [item] else [] := fun realm' event' => by
    have hrest : publishedTo realm' event' (delivered ++ kept) = [] := by
      rw [publishedTo_append, hpub, publishedTo_of_isDelivery hd.reports]
      rfl
    rw [publishedTo_published, hrest, List.append_nil]
  refine ⟨fun i sink' hget => ?_, fun i sink' hget => ?_, fun i hi => ?_, fun t ht i hi => ?_, ?_,
    h.published.append hpublished, hhistory⟩
  · rw [hsinks] at hget
    rw [htasks, hd.tasks]
    by_cases hi : i ∈ s.listeners realm event
    · obtain ⟨sink, hsink, hgot⟩ := hd.own i hi sink' hget
      obtain ⟨rfl, rfl⟩ := (mem_listeners hsink).mp hi
      refine (h.follows i sink hsink).got ((hto i).symm ▸ hgot) ?_
      rw [hnews, if_pos ⟨rfl, rfl⟩]
    · obtain ⟨hsame, hnone⟩ := hd.others i hi
      have hsink := hsame ▸ hget
      refine (h.follows i sink' hsink).frame ((hto i).trans hnone) ?_ fun t ht => Or.inl ht
      rw [hnews, if_neg]
      rintro ⟨rfl, rfl⟩
      exact hi ((mem_listeners hsink).mpr ⟨rfl, rfl⟩)
  · rw [hsinks] at hget
    rw [hnext, hd.next]
    by_cases hi : i ∈ s.listeners realm event
    · obtain ⟨sink, hsink, -⟩ := hd.own i hi sink' hget
      exact h.lt_next i sink hsink
    · exact h.lt_next i sink' ((hd.others i hi).1 ▸ hget)
  · rw [hnext, hd.next] at hi
    rw [wroteTo_append, h.silent i hi, hto]
    have hout : i ∉ s.listeners realm event := fun hin => by
      obtain ⟨p, hp, rfl⟩ := List.mem_map.mp hin
      have hget : s.sseSinks.get p.1 = some p.2 := JsMap.mem_entries_iff.mp (List.mem_filter.mp hp).1
      exact absurd (h.lt_next p.1 p.2 hget) (Nat.not_lt.mpr hi)
    exact (hd.others i hout).2
  · rw [hnext, hd.next]
    exact h.tasks_lt t (hd.tasks ▸ htasks ▸ ht) i hi
  · rw [htasks, hd.tasks]
    exact h.nodup

/-- Keeping a message in the history has nothing to do with the streams.
Kind: L -/
theorem recordSseHistory (s : Streams) (c : Config) (now : ℤ)
    (realm event frame deliveryId producer : Text) (ttl : Option Ttl) :
    let r := s.recordSseHistory c now realm event frame deliveryId producer ttl
    (r.1.sseSinks = s.sseSinks ∧ r.1.next = s.next ∧ r.1.streamTasks = s.streamTasks) ∧
      (∀ i, wroteTo i r.2 = []) ∧ (∀ realm event, publishedTo realm event r.2 = []) ∧
      (recorded r.2).Sublist [historyEntry c now realm event frame deliveryId producer ttl] := by
  intro r
  unfold r Streams.recordSseHistory
  split_ifs
  · refine ⟨⟨rfl, rfl, rfl⟩, fun i => ?_, fun realm event => ?_, ?_⟩
    · rw [wroteTo_append, wroteTo_expire]
      rfl
    · rw [publishedTo_append, publishedTo_expire]
      rfl
    · rw [recorded_append, recorded_eq_nil fun e he => isAside_of_mem_expire he]
      exact List.Sublist.refl _
  · exact ⟨⟨rfl, rfl, rfl⟩, fun _ => rfl, fun _ _ => rfl, List.nil_sublist _⟩

/-- What is published and sent is not about the history.
Kind: L -/
theorem isAside_of_deliver (s : Streams) (realm event : Text) (item : Item) :
    ∀ e ∈ Effect.published realm event item :: (s.deliverToSseSinks realm event item).2, e.isAside = true := by
  intro e he
  rcases List.mem_cons.mp he with rfl | he
  · rfl
  · exact isAside_of_isDelivery ((delivers s realm event item).reports e he)

/-- A message is published and not kept.
Kind: L -/
theorem deliverToSseSinks (h : Streamed s log) (realm event : Text) (item : Item) :
    Streamed (s.deliverToSseSinks realm event item).1
      (log ++ .published realm event item :: (s.deliverToSseSinks realm event item).2) := by
  have hd := delivers s realm event item
  have haside := isAside_of_deliver s realm event item
  have hhistory := hd.store ▸ h.history.report haside
  have hpublished := published_of_isAside haside
  rw [← List.append_nil (s.deliverToSseSinks realm event item).2] at hhistory hpublished ⊢
  exact h.deliver hd rfl rfl rfl (fun _ => rfl) (fun _ _ => rfl) hpublished hhistory

theorem publish (h : Streamed s log) (c : Config) (now : ℤ) (p : Publication) :
    Streamed (s.publish c now p).1 (log ++ (s.publish c now p).2) := by
  have hd := delivers s p.realm p.event (p.deliveryId, p.frame)
  have haside := isAside_of_deliver s p.realm p.event (p.deliveryId, p.frame)
  have hhistory := hd.store ▸ h.history.report haside
  unfold Streams.publish
  dsimp only
  split_ifs with hguaranteed
  · have hrecorded := hhistory.record c now p.realm p.event p.frame p.producer p.deliveryId_ne_nil p.ttl
    rw [List.append_assoc, List.cons_append] at hrecorded
    obtain ⟨⟨hsinks, hnext, htasks⟩, hwrote, hpub, hkept⟩ := recordSseHistory
      (s.deliverToSseSinks p.realm p.event (p.deliveryId, p.frame)).1 c now p.realm p.event p.frame
      p.deliveryId p.producer p.ttl
    refine h.deliver hd hsinks hnext htasks hwrote hpub (fun realm event hrealm => ?_) hrecorded
    rw [publishedTo_published, historyOf, ← List.cons_append, recorded_append, recorded_eq_nil haside,
      List.nil_append]
    apply ((hkept.filter _).map _).trans
    apply List.Sublist.trans _ (List.sublist_append_left ..)
    by_cases hmatch : p.realm = realm ∧ p.event = event
    · rw [if_pos hmatch]
      exact List.filter_sublist.map _
    · rw [if_neg hmatch, List.filter_cons_of_neg]
      · exact List.Sublist.refl _
      · simpa [historyEntry, realmOr_of_ne_nil hrealm, realmOr_of_ne_nil p.realm_ne_nil] using hmatch
  · rw [List.append_nil]
    exact h.deliverToSseSinks ..

theorem relay (h : Streamed s log) (realm event generated frame : Text) :
    Streamed (s.relay realm event generated frame).1 (log ++ (s.relay realm event generated frame).2) :=
  h.deliverToSseSinks ..

/-- The history is read for a stream.
Kind: L -/
theorem readHistory (h : Streamed s log) (h₀ : Streamed s₀ log) (hsinks : s₀.sseSinks = s.sseSinks)
    (hnext : s₀.next = s.next) {i : ℕ} {realm event resumeId : Text}
    (hperm : s.streamTasks.Perm (.read i realm event resumeId :: s₀.streamTasks)) (now : ℤ) :
    Streamed (s₀.readHistory now i realm event resumeId).1
      (log ++ (s₀.readHistory now i realm event resumeId).2) := by
  have hhistory := h₀.history.read now i realm event resumeId
  have hreports : (s₀.readHistory now i realm event resumeId).2 = s₀.expire now ++
      [.read i realm event (s₀.store.dequeue now realm event SSE_HISTORY_CONSUMER).2] := rfl
  have htasks : (s₀.readHistory now i realm event resumeId).1.streamTasks = s₀.streamTasks ++
      [.replay i resumeId (s₀.store.dequeue now realm event SSE_HISTORY_CONSUMER).2] := by
    simp [Streams.readHistory, streamTasks, Task.stream]
  generalize (s₀.store.dequeue now realm event SSE_HISTORY_CONSUMER).2 = entries at hreports htasks
  have hread : .read i realm event entries ∈ log ++ (s₀.readHistory now i realm event resumeId).2 := by
    rw [hreports]
    simp
  have hwrote : ∀ j, wroteTo j (s₀.readHistory now i realm event resumeId).2 = [] := fun j => by
    rw [hreports, wroteTo_append, wroteTo_expire]
    rfl
  have hpub : ∀ realm' event', publishedTo realm' event' (s₀.readHistory now i realm event resumeId).2 = [] :=
    fun realm' event' => by
      rw [hreports, publishedTo_append, publishedTo_expire]
      rfl
  have hrecorded : recorded (s₀.readHistory now i realm event resumeId).2 = [] := by
    rw [hreports, recorded_append, recorded_eq_nil fun e he => isAside_of_mem_expire he]
    rfl
  have hsub : realm ≠ [] → (entries.map itemOf).Sublist
      (publishedTo realm event (log ++ (s₀.readHistory now i realm event resumeId).2)) := fun hrealm => by
    have hgrounded : ReadJustified _ (.read i realm event entries) :=
      hhistory.grounded (log ++ s₀.expire now) _ [] (by rw [hreports, List.append_assoc])
    have hsame : historyOf realm event (log ++ s₀.expire now) = historyOf realm event log := by
      rw [historyOf, recorded_append, recorded_eq_nil fun e he => isAside_of_mem_expire he, List.append_nil]
      rfl
    rw [publishedTo_append, hpub, List.append_nil]
    exact ((hsame ▸ hgrounded.1).map itemOf).trans (h.published realm event hrealm)
  have hin : .read i realm event resumeId ∈ s.streamTasks := hperm.mem_iff.mpr List.mem_cons_self
  have hold : ∀ t ∈ s₀.streamTasks, t ∈ s.streamTasks := fun t ht =>
    hperm.mem_iff.mpr (List.mem_cons_of_mem _ ht)
  refine ⟨fun j sink hget => ?_, fun j sink hget => h₀.lt_next j sink hget, fun j hj => ?_, fun t ht j hj => ?_,
    ?_, h.published.append fun realm' event' _ => ?_, hhistory⟩
  · rw [htasks]
    apply (h.follows j sink (hsinks ▸ hget)).carry (hwrote j) (hpub _ _)
    · intro resumeId' hrealm hall t ht
      rcases List.mem_append.mp ht with ht | ht
      · exact (hall t (hold t ht)).append _
      · rw [List.mem_singleton.mp ht]
        rintro rfl
        obtain ⟨rfl, rfl, rfl⟩ := hall _ hin rfl
        exact ⟨rfl, hread, hsub hrealm⟩
    · intro hall t ht
      rcases List.mem_append.mp ht with ht | ht
      · exact hall t (hold t ht)
      · rw [List.mem_singleton.mp ht]
        exact hall (.read i realm event resumeId) hin
  · rw [wroteTo_append, hwrote, h₀.silent j hj]
    rfl
  · rw [htasks] at ht
    rcases List.mem_append.mp ht with ht | ht
    · exact h₀.tasks_lt t ht j hj
    · rw [List.mem_singleton.mp ht] at hj
      show j < s₀.next
      rw [hnext]
      exact h.tasks_lt _ hin j hj
  · rw [htasks, List.filterMap_append]
    have hnodup := (hperm.filterMap Task.stream).nodup_iff.mp h.nodup
    have hcomm : ([i] ++ s₀.streamTasks.filterMap Task.stream).Perm
        (s₀.streamTasks.filterMap Task.stream ++ [i]) := List.perm_append_comm
    exact hcomm.nodup_iff.mp hnodup
  · rw [historyOf, hrecorded]
    exact List.nil_sublist _

/-- When the task of a stream has been taken up, there is no other.
Kind: L -/
theorem idle (h : Streamed s log) {t : Task} {i : ℕ} (hperm : s.streamTasks.Perm (t :: s₀.streamTasks))
    (ht : t.stream = some i) : ∀ t' ∈ s₀.streamTasks, t'.stream ≠ some i := by
  intro t' ht' heq
  have hnodup := (hperm.filterMap Task.stream).nodup_iff.mp h.nodup
  rw [List.filterMap_cons_some ht] at hnodup
  exact (List.nodup_cons.mp hnodup).1 (List.mem_filterMap.mpr ⟨t', ht', heq⟩)

/-- A stream that a task has to do with is to be sent the history first.
Kind: L -/
theorem replaying (h : Streamed s log) {t : Task} {i : ℕ} {sink : Sink} (hget : s.sseSinks.get i = some sink)
    (ht : t ∈ s.streamTasks) (hi : t.stream = some i) : sink.replaying = true := by
  by_contra hlive
  obtain ⟨-, -, -, -, hidle⟩ := (h.follows i sink hget).2 (Bool.eq_false_iff.mpr hlive)
  exact hidle t ht hi

/-- The task of a stream is taken up, and the stream is sent some of the history and what was put off.
Kind: L -/
theorem catchUp (h : Streamed s log) (hf : Fewer s s₀) {t : Task} {i : ℕ} (hi : t.stream = some i)
    (hperm : s.streamTasks.Perm (t :: s₀.streamTasks)) {R : Sink → Sink → List Item → Prop}
    (ht : Touches i R s₀ s' new) {base : List Item}
    (hR : ∀ sink sink' written, sink.replayedIds = [] → R sink sink' written → CaughtUp base sink sink' written)
    (hbase : ∀ sink resumeId, s.sseSinks.get i = some sink → Fits log i sink.realm sink.event resumeId t →
      Base (log ++ new) i sink.realm sink.event resumeId base) : Streamed s' (log ++ new) := by
  have hin : t ∈ s.streamTasks := hperm.mem_iff.mpr List.mem_cons_self
  refine h.touches hf ht (Or.inl (h.tasks_lt t hin i hi)) fun sink sink' hget hcaught => ?_
  have hfollows := h.follows i sink hget
  have hreplaying := h.replaying hget hin hi
  apply hfollows.live hreplaying _ (hR _ _ _ (hfollows.1 hreplaying).1 hcaught)
    (publishedTo_of_isDelivery ht.reports ..) (ht.tasks ▸ h.idle hperm hi)
  exact fun resumeId hall => hbase sink resumeId hget (hall t hin)

/-- The history has been read for a stream.
Kind: L -/
theorem replaySseHistory (h : Streamed s log) {number i : ℕ} {resumeId : Text} {entries : List (Entry Text)}
    (htask : s.agenda.get number = some (.replay i resumeId entries)) :
    Streamed ({ s with agenda := s.agenda.cancel number }.replaySseHistory i resumeId entries).1
      (log ++ ({ s with agenda := s.agenda.cancel number }.replaySseHistory i resumeId entries).2) := by
  apply h.catchUp (Fewer.cancel s number) rfl (streamTasks_cancel htask rfl) (Touches.replaySseHistory ..)
    fun _ _ _ _ hcaught => hcaught
  rintro sink resumeId' hget hfits
  obtain ⟨rfl, hread, hsub⟩ := hfits rfl
  apply Base.caughtUp (List.mem_append_left _ hread)
  · rw [publishedTo_append]
    exact hsub.trans (List.sublist_append_left ..)
  · intro htruncated
    apply List.mem_append_right
    unfold Streams.replaySseHistory
    dsimp only
    rw [hget]
    dsimp only
    rw [if_pos htruncated]
    exact List.mem_append_left _ List.mem_cons_self

/-- The history cannot be read.
Kind: L -/
theorem failed (h : Streamed s log) {number i : ℕ} {realm event resumeId : Text}
    (htask : s.agenda.get number = some (.read i realm event resumeId)) :
    Streamed ({ s with agenda := s.agenda.cancel number }.goLive i).1
      (log ++ .unread i :: ({ s with agenda := s.agenda.cancel number }.goLive i).2) := by
  have hreported : Streamed s (log ++ [.unread i]) :=
    h.report rfl rfl rfl (fun _ => rfl) (fun _ _ => rfl) rfl (h.history.report (by simp [Effect.isAside]))
  have hcaught : ∀ sink sink' written, sink.replayedIds = [] → WentLive sink sink' written →
      CaughtUp [] sink sink' written := fun sink sink' written hids hlive => by
    refine ⟨written, ?_, rfl⟩
    unfold WentLive at hlive ⊢
    rw [hids] at hlive
    exact hlive
  rw [List.append_cons]
  exact hreported.catchUp (Fewer.cancel s number) rfl (streamTasks_cancel htask rfl) (Touches.goLive ..) hcaught
    fun sink resumeId' hget _ => Base.unread (by simp)

/-- Some bytes have been flushed.
Kind: L -/
theorem flushed (h : Streamed s log) (i bytes : ℕ) : Streamed (s.flushed i bytes) (log ++ []) := by
  unfold Streams.flushed
  rcases hget : s.sseSinks.get i with _ | sink
  · rwa [List.append_nil]
  · apply h.touches (Fewer.refl s) (Touches.amend hget _) (Or.inr rfl)
    rintro sink' sink'' hget' ⟨rfl, rfl, -⟩
    exact (h.follows i sink' hget').frame rfl rfl fun t ht => Or.inl ht

/-- Something is kept or removed in the store.
Kind: L -/
theorem store (h : Streamed s log) {store : MemoryStore Text} (hhistory : Historied store (log ++ new))
    (hwrote : ∀ i, wroteTo i new = []) (hpub : ∀ realm event, publishedTo realm event new = [])
    (hrecorded : recorded new = []) : Streamed { s with store := store } (log ++ new) :=
  h.report rfl rfl rfl hwrote hpub hrecorded hhistory

theorem step (h : Streamed s log) (c : Config) (e : Event) :
    Streamed (s.step c e).1 (log ++ (s.step c e).2) := by
  have hquiet : ∀ s', s'.sseSinks = s.sseSinks → s'.next = s.next → s'.streamTasks = s.streamTasks →
      s'.store = s.store → Streamed s' (log ++ []) := fun s' hsinks hnext htasks hstore =>
    h.report hsinks hnext htasks (fun _ => rfl) (fun _ _ => rfl) rfl (by rw [hstore, List.append_nil]; exact h.history)
  have hremove : ∀ i, Streamed (s.removeSseSink i).1 (log ++ (s.removeSseSink i).2) := fun i => by
    have ht := Touches.remove i (fun _ _ _ => False) s
    exact h.touches (Fewer.refl s) ht (Or.inr (wroteTo_removeSseSink s i i)) fun _ _ _ hfalse => hfalse.elim
  cases e with
  | issue now ticket realm =>
      have hhistory : Historied s.store (log ++ [.issued ticket realm (now + SSE_TICKET_TTL_MS)]) :=
        h.history.report (by simp [Effect.isAside])
      exact h.report rfl rfl rfl (fun _ => rfl) (fun _ _ => rfl) rfl hhistory
  | sweep now => exact hquiet _ rfl rfl rfl rfl
  | subscribe now r aborted => exact h.subscribe c now r aborted
  | publish now p => exact h.publish c now p
  | relay realm event generated frame => exact h.relay realm event generated frame
  | task now number =>
      unfold Streams.step
      dsimp only
      rcases htask : s.agenda.get number with _ | task
      · exact hquiet _ rfl rfl rfl rfl
      · cases task with
        | read i realm event resumeId =>
            exact h.readHistory (h.fewer (Fewer.cancel s number)) rfl rfl (streamTasks_cancel htask rfl) now
        | replay i resumeId entries => exact h.replaySseHistory htask
        | flushed i bytes => exact (h.fewer (Fewer.cancel s number)).flushed i bytes
  | failed number =>
      unfold Streams.step
      dsimp only
      split
      · exact h.failed ‹_›
      · exact hquiet _ rfl rfl rfl rfl
  | close i => exact hremove i
  | disconnect i => exact hquiet _ rfl rfl rfl rfl
  | keepAlive i =>
      unfold Streams.step
      dsimp only
      split_ifs
      · exact hremove i
      · exact hquiet _ rfl rfl rfl rfl
  | look now =>
      exact h.store (h.history.purgeExpired now) (wroteTo_expire s now) (publishedTo_expire s now)
        (recorded_eq_nil fun e he => isAside_of_mem_expire he)
  | purgeRealm realm => exact h.store (h.history.purgeRealm realm) (fun _ => rfl) (fun _ _ => rfl) rfl

end Streamed

theorem streamed_init : Streamed init [] where
  follows i sink hget := absurd hget (by simp [init])
  lt_next i sink hget := absurd hget (by simp [init])
  silent _ _ := rfl
  tasks_lt t ht := absurd ht (by simp [init, streamTasks])
  nodup := List.nodup_nil
  published realm event _ := List.Sublist.refl _
  history := ⟨List.Sublist.refl _, by simp [recorded], by simp [recorded], grounded_nil _⟩

theorem streamed_run (c : Config) (events : List Event) :
    let st := runFrom (journaled (step c)) (init, []) events
    Streamed st.1 st.2 :=
  invariant_run (I := fun st : Streams × List Effect => Streamed st.1 st.2)
    (fun _ e h _ => h.step c e) streamed_init (eachStep_of_forall fun _ _ _ => trivial)

/-! ### Exactly once -/

/-- What a stream has been sent of the history: nothing where it is not to be sent any or the history could not
be read, and else the end of what came after the message that the client saw last, which is all of that unless
the stream was told that something is left out.
Kind: D -/
inductive Replayed (log : List Effect) (i : ℕ) (realm event resumeId : Text) : List Item → Prop
  /-- It is to be sent nothing. -/
  | live (h : resumeId = []) : Replayed log i realm event resumeId []
  /-- The history could not be read. -/
  | unread (h : .unread i ∈ log) : Replayed log i realm event resumeId []
  /-- It is sent what it has missed. -/
  | caughtUp {earlier later : List Effect} {entries : List (Entry Text)} {items : List Item}
      (hlog : log = earlier ++ .read i realm event entries :: later)
      (hread : ReadJustified earlier (.read i realm event entries))
      (hsuffix : items <:+ afterId resumeId (entries.map itemOf))
      (hall : .truncated i ∉ log → items = afterId resumeId (entries.map itemOf)) :
      Replayed log i realm event resumeId items

theorem Base.sublist {log : List Effect} {i : ℕ} {realm event resumeId : Text} {base : List Item}
    (h : Base log i realm event resumeId base) : base.Sublist (publishedTo realm event log) := by
  cases h with
  | live => exact List.nil_sublist _
  | unread => exact List.nil_sublist _
  | caughtUp hread hsub htold =>
      exact ((catchUp_suffix ..).sublist.trans (afterId_suffix ..).sublist).trans hsub

theorem Base.replayed {upto later : List Effect} {i : ℕ} {realm event resumeId : Text} {base : List Item}
    (h : Base upto i realm event resumeId base) (hgrounded : Grounded ReadJustified (upto ++ later)) :
    Replayed (upto ++ later) i realm event resumeId base := by
  cases h with
  | live h => exact Replayed.live h
  | unread h => exact Replayed.unread (List.mem_append_left _ h)
  | caughtUp hread hsub htold =>
      obtain ⟨earlier, rest, hlog⟩ := List.append_of_mem (List.mem_append_left later hread)
      apply Replayed.caughtUp hlog (hgrounded _ _ _ hlog) (catchUp_suffix ..)
      intro htruncated
      apply catchUp_of_not_truncated
      exact Bool.eq_false_iff.mpr fun hcut => htruncated (List.mem_append_left _ (htold hcut))

/-- In every run where the messages that are published under an event of a realm have different ids, a stream
that is open and has been sent what it was to be sent of the history has been sent that, and everything that has
been published since it was opened and was not part of it, in its order: each message once, and all of them.
Kind: P -/
theorem exactly_once (c : Config) (events : List Event) (i : ℕ) (sink : Sink) :
    let st := runFrom (journaled (step c)) (init, []) events
    st.1.sseSinks.get i = some sink → sink.replaying = false →
      ((publishedTo sink.realm sink.event st.2).map Prod.fst).Nodup →
      ∃ before ip resumeId ticket after items,
        st.2 = before ++ .opened i ip sink.realm sink.event resumeId ticket :: after ∧
          Replayed st.2 i sink.realm sink.event resumeId items ∧
          wroteTo i st.2 = items ++ unsent items (publishedTo sink.realm sink.event after) ∧
          ((wroteTo i st.2).map Prod.fst).Nodup ∧
          ∀ item ∈ publishedTo sink.realm sink.event after, item ∈ wroteTo i st.2 := by
  intro st hget hlive hids
  have h : Streamed st.1 st.2 := streamed_run c events
  obtain @⟨resumeId, upto, after, later, items, hopened, hlog, hbase, hwrote, -⟩ :=
    (h.follows i sink hget).2 hlive
  obtain ⟨⟨before, ip, ticket, hsplit, -⟩, -⟩ := hopened.append later
  rw [hlog, publishedTo_append] at hids
  have hsent := hbase.sublist
  have hafter : (publishedTo sink.realm sink.event after).Sublist (publishedTo sink.realm sink.event upto) := by
    obtain ⟨⟨before, ip, ticket, rfl, -⟩, -⟩ := hopened
    rw [publishedTo_append]
    exact List.sublist_append_right ..
  have hformula : wroteTo i st.2 = items ++ unsent items (publishedTo sink.realm sink.event (after ++ later)) := by
    rw [hwrote, publishedTo_append, unsent_append, unsent_of_later hids hsent.subset, List.append_assoc]
  have hall : (publishedTo sink.realm sink.event (after ++ later)).Sublist
      (publishedTo sink.realm sink.event upto ++ publishedTo sink.realm sink.event later) := by
    rw [publishedTo_append]
    exact hafter.append (List.Sublist.refl _)
  have hsent' := hsent.trans (List.sublist_append_left _ (publishedTo sink.realm sink.event later))
  refine ⟨before, ip, resumeId, ticket, after ++ later, items, hlog.trans hsplit, ?_, hformula, ?_, ?_⟩
  · rw [hlog]
    exact hbase.replayed (hlog ▸ h.history.grounded)
  · rw [hformula]
    exact nodup_unsent hids hsent' hall
  · rw [hformula]
    exact fun item hitem => mem_sent_or_unsent hids hsent'.subset hall.subset hitem

/-- Messages are published, a client comes back that has seen the first, and more are published while the history
is read for it and after that.
Kind: D -/
def exampleRun : List Event :=
  let message : Text → Bool → Publication := fun id guaranteed =>
    ⟨ascii "r", ascii "e", id, [], ascii "m", [], guaranteed, none, List.cons_ne_nil _ _⟩
  [.publish 0 (message (ascii "1") true), .publish 0 (message (ascii "2") true),
    .subscribe 0 ⟨ascii "r", ascii "e", ascii "ip", ascii "1", [], .bearer none⟩ false,
    .publish 0 (message (ascii "3") false), .task 0 0, .publish 0 (message (ascii "4") true), .task 0 1,
    .publish 0 (message (ascii "5") false)]

theorem exactly_once_exampleRun :
    let st := runFrom (journaled (step ⟨true, some 1000⟩)) (init, []) exampleRun
    ∃ before ip resumeId ticket after items,
      st.2 = before ++ .opened 0 ip (ascii "r") (ascii "e") resumeId ticket :: after ∧
        Replayed st.2 0 (ascii "r") (ascii "e") resumeId items ∧
        wroteTo 0 st.2 = items ++ unsent items (publishedTo (ascii "r") (ascii "e") after) ∧
        ((wroteTo 0 st.2).map Prod.fst).Nodup ∧
        ∀ item ∈ publishedTo (ascii "r") (ascii "e") after, item ∈ wroteTo 0 st.2 :=
  exactly_once ⟨true, some 1000⟩ exampleRun 0
    ⟨ascii "ip", ascii "r", ascii "e", 120, false, [], 0, []⟩ (by decide +kernel) rfl (by decide +kernel)

end Streams

end TyoMq.Http
