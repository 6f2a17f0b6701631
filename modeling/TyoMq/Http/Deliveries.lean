import TyoMq.Http.Streams

/-!
# What the streams are sent

What each function that sends something to a stream does to that stream, and that it does nothing to the others.

* `Touches`: one stream is sent something, with a lemma for each function.
* `Delivers`: many are sent a message.
-/

namespace TyoMq.Http

open Lib Storage

/-- The stream that is to be sent the history, where a task has to do with that.
Kind: D -/
def Task.stream : Task → Option ℕ
  | .read i .. => some i
  | .replay i .. => some i
  | .flushed .. => none

/-- A report of what a stream is sent, or that it ends.
Kind: D -/
def Effect.isDelivery : Effect → Bool
  | .truncated _ => true
  | .wrote .. => true
  | .ended _ => true
  | _ => false

namespace Streams

/-- What has been written to a stream.
Kind: D -/
def wroteTo (i : ℕ) (log : List Effect) : List Item :=
  log.filterMap fun
    | .wrote j item => if j = i then some item else none
    | _ => none

/-- What has been published under an event of a realm.
Kind: D -/
def publishedTo (realm event : Text) (log : List Effect) : List Item :=
  log.filterMap fun
    | .published realm' event' item => if realm' = realm ∧ event' = event then some item else none
    | _ => none

theorem wroteTo_append (i : ℕ) (log new : List Effect) :
    wroteTo i (log ++ new) = wroteTo i log ++ wroteTo i new := List.filterMap_append

theorem publishedTo_append (realm event : Text) (log new : List Effect) :
    publishedTo realm event (log ++ new) = publishedTo realm event log ++ publishedTo realm event new :=
  List.filterMap_append

/-- A message more.
Kind: L -/
theorem publishedTo_published (realm event realm' event' : Text) (item : Item) (log : List Effect) :
    publishedTo realm event (.published realm' event' item :: log) =
      (if realm' = realm ∧ event' = event then [item] else []) ++ publishedTo realm event log := by
  unfold publishedTo
  rw [List.filterMap_cons]
  dsimp only
  split_ifs
  · rfl
  · rfl

/-- The tasks that have to do with such a stream.
Kind: D -/
def streamTasks (s : Streams) : List Task := s.agenda.works.filter fun t => t.stream.isSome

/-! ### One stream -/

/-- A stream is sent something, unless it ends, and nothing else happens.
Kind: D -/
structure Touches (i : ℕ) (R : Sink → Sink → List Item → Prop) (s s' : Streams) (new : List Effect) : Prop where
  /-- What is kept for it, and what it is sent. -/
  own : ∀ sink', s'.sseSinks.get i = some sink' →
    ∃ sink, s.sseSinks.get i = some sink ∧ R sink sink' (wroteTo i new)
  /-- The other streams are as they were. -/
  others : ∀ j, j ≠ i → s'.sseSinks.get j = s.sseSinks.get j ∧ wroteTo j new = []
  /-- So are the tasks. -/
  tasks : s'.streamTasks = s.streamTasks
  /-- So is the next number. -/
  next : s'.next = s.next
  /-- So is the history. -/
  store : s'.store = s.store
  /-- There are no other reports. -/
  reports : ∀ e ∈ new, e.isDelivery = true

/-- Some messages are written.
Kind: D -/
def Written (items : List Item) (sink sink' : Sink) (written : List Item) : Prop :=
  (∃ pending, sink' = { sink with pending := pending }) ∧ written = items

/-- A message is published: it is put off for a stream that is to be sent the history first, and written to any
other.
Kind: D -/
def Got (item : Item) (sink sink' : Sink) (written : List Item) : Prop :=
  if sink.replaying then
    (∃ bytes, sink' = { sink with buffer := sink.buffer ++ [item], bufferBytes := bytes }) ∧ written = []
  else Written [item] sink sink' written

/-- A stream is sent what was put off.
Kind: D -/
def WentLive (sink sink' : Sink) (written : List Item) : Prop :=
  Written (sink.buffer.filter fun item => !sink.replayedIds.contains item.1)
    { sink with buffer := [], bufferBytes := 0, replaying := false, replayedIds := [] } sink' written

/-- A stream is sent some of the history, and then what was put off.
Kind: D -/
def CaughtUp (items : List Item) (sink sink' : Sink) (written : List Item) : Prop :=
  ∃ live, WentLive { sink with replayedIds := items.map Prod.fst } sink' live ∧ written = items ++ live

theorem wroteTo_removeSseSink (s : Streams) (i j : ℕ) : wroteTo j (s.removeSseSink i).2 = [] := by
  unfold removeSseSink
  rcases s.sseSinks.get i with _ | sink
  · rfl
  · rfl

namespace Touches

variable {i : ℕ} {R R' Q : Sink → Sink → List Item → Prop} {s s' s'' : Streams} {new new' : List Effect}

theorem mono (h : Touches i R s s' new) (hRQ : ∀ sink sink' written, R sink sink' written →
    Q sink sink' written) : Touches i Q s s' new :=
  ⟨fun sink' hget => (h.own sink' hget).imp fun _ hsink => ⟨hsink.1, hRQ _ _ _ hsink.2⟩, h.others, h.tasks,
    h.next, h.store, h.reports⟩

/-- One thing after the other.
Kind: L -/
theorem trans (h : Touches i R s s' new) (h' : Touches i R' s' s'' new')
    (hQ : ∀ sink sink' sink'' written written', R sink sink' written → R' sink' sink'' written' →
      Q sink sink'' (written ++ written')) : Touches i Q s s'' (new ++ new') where
  own sink'' hget'' := by
    obtain ⟨sink', hget', hR'⟩ := h'.own sink'' hget''
    obtain ⟨sink, hget, hR⟩ := h.own sink' hget'
    exact ⟨sink, hget, wroteTo_append i new new' ▸ hQ _ _ _ _ _ hR hR'⟩
  others j hj := by
    obtain ⟨hget, hwrote⟩ := h.others j hj
    obtain ⟨hget', hwrote'⟩ := h'.others j hj
    exact ⟨hget'.trans hget, by rw [wroteTo_append, hwrote, hwrote', List.append_nil]⟩
  tasks := h'.tasks.trans h.tasks
  next := h'.next.trans h.next
  store := h'.store.trans h.store
  reports e he := (List.mem_append.mp he).elim (h.reports e) (h'.reports e)

/-- Nothing happens, where there is no such stream.
Kind: L -/
theorem absent (R : Sink → Sink → List Item → Prop) (hget : s.sseSinks.get i = none) : Touches i R s s [] :=
  ⟨fun _ hget' => absurd (hget'.symm.trans hget) (by simp), fun _ _ => ⟨rfl, rfl⟩, rfl, rfl, rfl, by simp⟩

/-- A stream ends.
Kind: L -/
theorem remove (i : ℕ) (R : Sink → Sink → List Item → Prop) (s : Streams) :
    Touches i R s (s.removeSseSink i).1 (s.removeSseSink i).2 := by
  unfold removeSseSink
  rcases hget : s.sseSinks.get i with _ | sink
  · exact absent R hget
  · refine ⟨fun sink' hget' => absurd hget' (by simp), fun j hj => ⟨?_, rfl⟩, rfl, rfl, rfl, fun e he => ?_⟩
    · exact JsMap.get_delete_of_ne _ hj
    · rw [List.mem_singleton.mp he]
      rfl

/-- What is kept for a stream changes.
Kind: L -/
theorem amend {sink : Sink} (hget : s.sseSinks.get i = some sink) (sink' : Sink) :
    Touches i (fun a b written => a = sink ∧ b = sink' ∧ written = []) s
      { s with sseSinks := s.sseSinks.set i sink' } [] := by
  refine ⟨fun sink'' hget'' => ?_, fun j hj => ⟨JsMap.get_set_of_ne _ hj _, rfl⟩, rfl, rfl, rfl, by simp⟩
  rw [JsMap.get_set_self] at hget''
  exact ⟨sink, hget, rfl, (Option.some.inj hget'').symm, rfl⟩

/-- A message is written, and its flushing is put off.
Kind: L -/
theorem write (i : ℕ) (s : Streams) (item : Item) (bytes : ℕ) :
    Touches i (fun a b written => b = a ∧ written = [item]) s
      { s with agenda := s.agenda.post (.flushed i bytes) } [.wrote i item] := by
  refine ⟨fun sink' hget' => ⟨sink', hget', rfl, by simp [wroteTo]⟩, fun j hj => ⟨rfl, ?_⟩, ?_, rfl, rfl,
    fun e he => ?_⟩
  · simp [wroteTo, Ne.symm hj]
  · simp [streamTasks, Task.stream]
  · rw [List.mem_singleton.mp he]
    rfl

theorem writeSseChunk (i : ℕ) (s : Streams) (item : Item) :
    Touches i (Written [item]) s (s.writeSseChunk i item).1 (s.writeSseChunk i item).2 := by
  unfold Streams.writeSseChunk
  rcases hget : s.sseSinks.get i with _ | sink
  · exact absent _ hget
  · dsimp only
    have hamend := amend hget { sink with pending := sink.pending + (chunk item).length }
    split_ifs
    · exact hamend.trans (remove i (fun _ _ _ => False) _) fun _ _ _ _ _ _ h => h.elim
    · exact hamend.trans (remove i (fun _ _ _ => False) _) fun _ _ _ _ _ _ h => h.elim
    · apply hamend.trans (write i _ item _)
      rintro _ _ _ _ _ ⟨rfl, rfl, rfl⟩ ⟨rfl, rfl⟩
      exact ⟨⟨_, rfl⟩, rfl⟩

/-- Some messages are written, one after the other.
Kind: L -/
theorem scan (i : ℕ) (s : Streams) (items : List Item) :
    Touches i (Written items) s (Lib.scan (Streams.writeSseChunk i) s items).1
      (Lib.scan (Streams.writeSseChunk i) s items).2 := by
  induction items generalizing s with
  | nil =>
      exact ⟨fun sink' hget => ⟨sink', hget, ⟨_, rfl⟩, rfl⟩, fun _ _ => ⟨rfl, rfl⟩, rfl, rfl, rfl, by simp⟩
  | cons item items ih =>
      apply (writeSseChunk i s item).trans (ih _)
      rintro _ _ _ _ _ ⟨⟨pending, rfl⟩, rfl⟩ ⟨⟨pending', rfl⟩, rfl⟩
      exact ⟨⟨pending', rfl⟩, rfl⟩

theorem writeSseSink (item : Item) (s : Streams) (i : ℕ) :
    Touches i (Got item) s (s.writeSseSink item i).1 (s.writeSseSink item i).2 := by
  unfold Streams.writeSseSink
  rcases hget : s.sseSinks.get i with _ | sink
  · exact absent _ hget
  · dsimp only
    have hamend := amend hget { sink with
      buffer := sink.buffer ++ [item]
      bufferBytes := sink.bufferBytes + item.2.length }
    split_ifs with hreplaying hfull
    · exact hamend.trans (remove i (fun _ _ _ => False) _) fun _ _ _ _ _ _ h => h.elim
    · apply hamend.mono
      rintro _ _ _ ⟨rfl, rfl, rfl⟩
      unfold Got
      rw [if_pos hreplaying]
      exact ⟨⟨_, rfl⟩, rfl⟩
    · have hwrite := writeSseChunk i s item
      refine ⟨fun sink' hget' => ?_, hwrite.others, hwrite.tasks, hwrite.next, hwrite.store, hwrite.reports⟩
      obtain ⟨found, hfound, hwritten⟩ := hwrite.own sink' hget'
      obtain rfl : sink = found := Option.some.inj (hget.symm.trans hfound)
      refine ⟨sink, hget, ?_⟩
      unfold Got
      rwa [if_neg hreplaying]

theorem goLive (s : Streams) (i : ℕ) : Touches i WentLive s (s.goLive i).1 (s.goLive i).2 := by
  unfold Streams.goLive
  rcases hget : s.sseSinks.get i with _ | sink
  · exact absent _ hget
  · dsimp only
    apply (amend hget _).trans (scan i _ _)
    rintro _ _ _ _ _ ⟨rfl, rfl, rfl⟩ hwritten
    exact hwritten

/-- A stream may be told that something is left out.
Kind: L -/
theorem told (i : ℕ) (s : Streams) (truncated : Bool) :
    Touches i (fun a b written => b = a ∧ written = []) s s (if truncated then [.truncated i] else []) := by
  cases truncated with
  | false => exact ⟨fun sink' hget => ⟨sink', hget, rfl, rfl⟩, fun _ _ => ⟨rfl, rfl⟩, rfl, rfl, rfl, by simp⟩
  | true =>
      refine ⟨fun sink' hget => ⟨sink', hget, rfl, rfl⟩, fun _ _ => ⟨rfl, rfl⟩, rfl, rfl, rfl, fun e he => ?_⟩
      rw [List.mem_singleton.mp he]
      rfl

/-- Some of the history is written, and then what was put off.
Kind: L -/
theorem scan_goLive (i : ℕ) (s : Streams) (items : List Item) :
    let replayed := Lib.scan (Streams.writeSseChunk i) s items
    Touches i (fun a b written => ∃ live, WentLive a b live ∧ written = items ++ live) s
      (replayed.1.goLive i).1 (replayed.2 ++ (replayed.1.goLive i).2) := by
  apply (scan i s items).trans (goLive _ i)
  rintro _ _ _ _ _ ⟨⟨pending, rfl⟩, rfl⟩ ⟨⟨pending', rfl⟩, rfl⟩
  exact ⟨_, ⟨⟨pending', rfl⟩, rfl⟩, rfl⟩

theorem replaySseHistory (s : Streams) (i : ℕ) (resumeId : Text) (entries : List (Entry Text)) :
    Touches i (CaughtUp (catchUp resumeId (entries.map itemOf)).1) s
      (s.replaySseHistory i resumeId entries).1 (s.replaySseHistory i resumeId entries).2 := by
  unfold Streams.replaySseHistory
  rcases hget : s.sseSinks.get i with _ | sink
  · exact absent _ hget
  · dsimp only
    generalize catchUp resumeId (entries.map itemOf) = out
    have hset := amend hget { sink with replayedIds := out.1.map Prod.fst }
    have hcaught : Touches i (CaughtUp out.1) s _ _ := hset.trans (scan_goLive i _ out.1) (by
      rintro _ _ _ _ _ ⟨rfl, rfl, rfl⟩ hlive
      exact hlive)
    apply (told i s out.2).trans hcaught
    rintro _ _ _ _ _ ⟨rfl, rfl⟩ hlive
    exact hlive

end Touches

/-! ### Many streams -/

/-- Some streams get a message, and nothing else happens.
Kind: D -/
structure Delivers (l : List ℕ) (item : Item) (s s' : Streams) (new : List Effect) : Prop where
  /-- They get it, unless they end. -/
  own : ∀ i ∈ l, ∀ sink', s'.sseSinks.get i = some sink' →
    ∃ sink, s.sseSinks.get i = some sink ∧ Got item sink sink' (wroteTo i new)
  /-- The other streams are as they were. -/
  others : ∀ j, j ∉ l → s'.sseSinks.get j = s.sseSinks.get j ∧ wroteTo j new = []
  /-- So are the tasks. -/
  tasks : s'.streamTasks = s.streamTasks
  /-- So is the next number. -/
  next : s'.next = s.next
  /-- So is the history. -/
  store : s'.store = s.store
  /-- There are no other reports. -/
  reports : ∀ e ∈ new, e.isDelivery = true

namespace Delivers

theorem scan {l : List ℕ} (hl : l.Nodup) (item : Item) (s : Streams) :
    Delivers l item s (Lib.scan (writeSseSink item) s l).1 (Lib.scan (writeSseSink item) s l).2 := by
  induction l generalizing s with
  | nil => exact ⟨by simp, fun _ _ => ⟨rfl, rfl⟩, rfl, rfl, rfl, by simp⟩
  | cons x l ih =>
      obtain ⟨hx, hl⟩ := List.nodup_cons.mp hl
      have hhead := Touches.writeSseSink item s x
      have hrest := ih hl (s.writeSseSink item x).1
      refine ⟨fun i hi sink' hget' => ?_, fun j hj => ?_, hrest.tasks.trans hhead.tasks,
        hrest.next.trans hhead.next, hrest.store.trans hhead.store, fun e he => ?_⟩
      · rw [scan_cons, wroteTo_append]
        rcases List.mem_cons.mp hi with rfl | hi
        · obtain ⟨hsame, hwrote⟩ := hrest.others i hx
          obtain ⟨sink, hget, hgot⟩ := hhead.own sink' (hsame ▸ hget')
          exact ⟨sink, hget, by rwa [hwrote, List.append_nil]⟩
        · have hne : i ≠ x := fun heq => hx (heq ▸ hi)
          obtain ⟨hsame, hwrote⟩ := hhead.others i hne
          obtain ⟨sink, hget, hgot⟩ := hrest.own i hi sink' hget'
          exact ⟨sink, hsame ▸ hget, by rwa [hwrote, List.nil_append]⟩
      · obtain ⟨hsame, hwrote⟩ := hhead.others j (List.ne_of_not_mem_cons hj)
        obtain ⟨hsame', hwrote'⟩ := hrest.others j (List.not_mem_of_not_mem_cons hj)
        rw [scan_cons, wroteTo_append, hwrote, hwrote']
        exact ⟨hsame'.trans hsame, rfl⟩
      · rw [scan_cons] at he
        exact (List.mem_append.mp he).elim (hhead.reports e) (hrest.reports e)

end Delivers

/-- The streams of an event of a realm.
Kind: D -/
def listeners (s : Streams) (realm event : Text) : List ℕ :=
  (s.sseSinks.entries.filter fun p => p.2.realm = realm ∧ p.2.event = event).map Prod.fst

theorem mem_listeners {s : Streams} {realm event : Text} {i : ℕ} {sink : Sink}
    (hget : s.sseSinks.get i = some sink) :
    i ∈ s.listeners realm event ↔ sink.realm = realm ∧ sink.event = event := by
  have hmem := JsMap.mem_entries_iff.mpr hget
  constructor
  · intro hi
    obtain ⟨p, hp, rfl⟩ := List.mem_map.mp hi
    obtain ⟨hp, hmatch⟩ := List.mem_filter.mp hp
    have hsink : s.sseSinks.get p.1 = some p.2 := JsMap.mem_entries_iff.mp hp
    obtain rfl : p.2 = sink := Option.some.inj (hsink.symm.trans hget)
    simpa using hmatch
  · intro hmatch
    exact List.mem_map.mpr ⟨(i, sink), List.mem_filter.mpr ⟨hmem, by simpa using hmatch⟩, rfl⟩

theorem delivers (s : Streams) (realm event : Text) (item : Item) :
    Delivers (s.listeners realm event) item s (s.deliverToSseSinks realm event item).1
      (s.deliverToSseSinks realm event item).2 :=
  Delivers.scan (s.sseSinks.nodup_filter _) item s

/-- What a stream is sent is not published by that.
Kind: L -/
theorem publishedTo_of_isDelivery {new : List Effect} (hnew : ∀ e ∈ new, e.isDelivery = true)
    (realm event : Text) : publishedTo realm event new = [] := by
  apply List.filterMap_eq_nil_iff.mpr
  intro e he
  cases e with
  | published => exact absurd (hnew _ he) Bool.false_ne_true
  | _ => rfl

end Streams

end TyoMq.Http
