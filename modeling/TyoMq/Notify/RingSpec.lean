import Mathlib.Data.Set.Card
import TyoMq.Notify.Ring

/-!
# The topic ring: its specification

What the `NotifyRing` of `lib/notify.js` is for: a board with the messages of each topic since it was last
evicted (`Board`), of which a query sees the last few that are not too old. When there are too many topics,
one that was not appended to last goes (`BoardStep`).

* **Refinement** (`NotifyRing.ring_refines`): what the ring answers in a run at times that do not decrease
  is what the board may answer.
* The ring trims a topic by number and by age at different calls. What it has dropped of the last few
  messages is too old at any later time (`Tracks`).
* A topic that makes the ring too large is new, so that it comes last in the order of the map; the sort is
  stable, and so the topic is not the one that goes, even where all were touched at the same time.
-/

namespace TyoMq.Notify

open TyoMq.Lib

variable {μ : Type*}

/-! ### The board -/

/-- The bounds of a ring.
Kind: D -/
structure RingCaps where
  /-- How long a message is kept. -/
  ttlMs : ℚ
  /-- How many messages are kept of a topic. -/
  maxPerTopic : ℕ
  /-- How many topics are kept. -/
  maxTopics : ℕ

/-- The bounds of a ring that is made with the options.
Kind: D -/
def RingOptions.caps (opts : RingOptions) : RingCaps where
  ttlMs := (NotifyRing.new opts : NotifyRing Unit).ttlMs
  maxPerTopic := (NotifyRing.new opts : NotifyRing Unit).maxPerTopic
  maxTopics := (NotifyRing.new opts : NotifyRing Unit).maxTopics

/-- The messages that were appended to each topic since it was last evicted, oldest first.
Kind: D -/
abbrev Board (μ : Type*) := JsString → List (Cached μ)

namespace Board

/-- The topics on the board.
Kind: D -/
def live (b : Board μ) : Set JsString := {topic | b topic ≠ []}

/-- A message is appended.
Kind: D -/
def add (b : Board μ) (topic : JsString) (r : Cached μ) : Board μ :=
  Function.update b topic (b topic ++ [r])

/-- A topic is evicted.
Kind: D -/
def evict (b : Board μ) (topic : JsString) : Board μ := Function.update b topic []

/-- What is to be seen of a topic: of the last few messages those that are not too old.
Kind: D -/
def window (caps : RingCaps) (b : Board μ) (topic : JsString) (now : ℚ) : List (Cached μ) :=
  ((b topic).rtake caps.maxPerTopic).filter fun r => now - caps.ttlMs ≤ r.at

end Board

/-- What a call may answer, and what it makes of the board.
Kind: D -/
inductive BoardStep (caps : RingCaps) : Board μ → NotifyRing.Event μ → List μ → Board μ → Prop
  /-- A message is appended, and there are not too many topics. -/
  | append {b : Board μ} {topic : JsString} {msg : μ} {now : ℚ} :
      (b.add topic ⟨now, msg⟩).live.encard ≤ caps.maxTopics →
      BoardStep caps b (.append topic msg now) [msg] (b.add topic ⟨now, msg⟩)
  /-- There are too many: another topic goes, which was appended to last no later than any that stays. -/
  | evict {b : Board μ} {topic victim : JsString} {msg : μ} {now : ℚ} :
      caps.maxTopics < (b.add topic ⟨now, msg⟩).live.encard → victim ≠ topic → victim ∈ b.live →
      (∀ r ∈ (b victim).getLast?, ∀ other, ∀ r' ∈ ((b.add topic ⟨now, msg⟩) other).getLast?, r.at ≤ r'.at) →
      BoardStep caps b (.append topic msg now) [msg] ((b.add topic ⟨now, msg⟩).evict victim)
  /-- A query is answered. -/
  | since {b : Board μ} {topic : JsString} {cursor : Option JsString} {now : ℚ} {answer : List μ} :
      (cursor = some (js "all") → answer = (b.window caps topic now).map Cached.msg) →
      (∀ duration ms, cursor = some duration → NotifyRing.durationMs duration = some ms →
        answer = ((b.window caps topic now).filter fun r => now - ms ≤ r.at).map Cached.msg) →
      BoardStep caps b (.since topic cursor now) answer b

/-- Calls with their answers, from an empty board.
Kind: D -/
inductive BoardRun (caps : RingCaps) : List (NotifyRing.Event μ) → List (List μ) → Board μ → Prop
  /-- No calls yet. -/
  | nil : BoardRun caps [] [] fun _ => []
  /-- One more call. -/
  | snoc {l : List (NotifyRing.Event μ)} {answers : List (List μ)} {b b' : Board μ}
      {e : NotifyRing.Event μ} {answer : List μ} : BoardRun caps l answers b →
      BoardStep caps b e answer b' → BoardRun caps (l ++ [e]) (answers ++ [answer]) b'

namespace NotifyRing

/-- When a call is made.
Kind: D -/
def Event.now : Event μ → ℚ
  | .append _ _ now | .since _ _ now => now

/-- What the ring answers to a call.
Kind: D -/
def answer (id : μ → JsString) (ring : NotifyRing μ) : Event μ → List μ
  | .append _ msg _ => [msg]
  | .since topic cursor now => (ring.since id topic cursor now).2

/-- What it answers to calls.
Kind: D -/
def answers (id : μ → JsString) (ring : NotifyRing μ) : List (Event μ) → List (List μ)
  | [] => []
  | e :: l => ring.answer id e :: (ring.step id e).answers id l

theorem answers_concat (id : μ → JsString) (ring : NotifyRing μ) (l : List (Event μ)) (e : Event μ) :
    ring.answers id (l ++ [e]) = ring.answers id l ++ [(runFrom (step id) ring l).answer id e] := by
  induction l generalizing ring with
  | nil => rfl
  | cons e' l ih => exact congrArg (_ :: ·) (ih _)

/-! ### A topic on the board and in the ring -/

/-- What the ring has of a topic at a time: the last few messages, but for some that are too old.
Kind: D -/
structure Tracks (caps : RingCaps) (clock : ℚ) (log : List (Cached μ)) (entry : TopicEntry μ) : Prop where
  /-- The topic was appended to last when the entry says. -/
  last : ∃ r, log.getLast? = some r ∧ r.at = entry.last
  /-- What is dropped is too old. -/
  dropped : ∃ dropped, log.rtake caps.maxPerTopic = dropped ++ entry.msgs ∧
    ∀ r ∈ dropped, r.at < clock - caps.ttlMs

/-- The messages of a topic are in the order of their times, and none is from the future.
Kind: D -/
structure Dated (clock : ℚ) (log : List (Cached μ)) : Prop where
  /-- The order. -/
  ordered : log.Pairwise fun r r' => r.at ≤ r'.at
  /-- The past. -/
  past : ∀ r ∈ log, r.at ≤ clock

section Topic

variable {caps : RingCaps} {clock now : ℚ} {log : List (Cached μ)} {entry : TopicEntry μ} {ring : NotifyRing μ}

theorem Dated.mono (h : Dated clock log) (hle : clock ≤ now) : Dated now log :=
  ⟨h.ordered, fun r hr => (h.past r hr).trans hle⟩

theorem Dated.nil : Dated clock ([] : List (Cached μ)) :=
  ⟨List.Pairwise.nil, by simp⟩

/-- A message is appended.
Kind: L -/
theorem Dated.concat (h : Dated clock log) (hle : clock ≤ now) (msg : μ) :
    Dated now (log ++ [⟨now, msg⟩]) := by
  constructor
  · rw [List.pairwise_append]
    refine ⟨h.ordered, List.pairwise_singleton _ _, fun r hr r' hr' => ?_⟩
    rw [List.mem_singleton.mp hr']
    exact (h.past r hr).trans hle
  · intro r hr
    rcases List.mem_append.mp hr with hold | hnew
    · exact (h.past r hold).trans hle
    · rw [List.mem_singleton.mp hnew]

theorem Tracks.mono (h : Tracks caps clock log entry) (hle : clock ≤ now) : Tracks caps now log entry := by
  obtain ⟨dropped, hsplit, hold⟩ := h.dropped
  exact ⟨h.last, dropped, hsplit, fun r hr => (hold r hr).trans_le (sub_le_sub_right hle _)⟩

/-- A pruned topic: what is not too old of the last few messages.
Kind: P -/
theorem Tracks.prune_msgs (h : Tracks caps clock log entry) (hlog : Dated clock log) (hle : clock ≤ now)
    (httl : ring.ttlMs = caps.ttlMs) :
    (ring.prune entry now).msgs = (log.rtake caps.maxPerTopic).filter fun r => now - caps.ttlMs ≤ r.at := by
  obtain ⟨dropped, hsplit, hold⟩ := h.dropped
  have hordered : entry.msgs.Pairwise fun r r' => r.at ≤ r'.at := by
    have hlast : (dropped ++ entry.msgs).Pairwise fun r r' => r.at ≤ r'.at :=
      hsplit ▸ hlog.ordered.sublist (List.drop_sublist _ _)
    exact (List.pairwise_append.mp hlast).2.1
  have hout : dropped.filter (fun r => now - caps.ttlMs ≤ r.at) = [] := by
    rw [List.filter_eq_nil_iff]
    intro r hr
    simp only [decide_eq_true_eq, not_le]
    exact (hold r hr).trans_le (sub_le_sub_right hle _)
  rw [hsplit, List.filter_append, hout, List.nil_append]
  unfold prune
  simp only
  rw [dropWhile_eq_filter, httl]
  · apply List.filter_congr
    intro r _
    rw [← decide_not, decide_eq_decide, not_lt]
  · refine hordered.imp fun hrr' hr => ?_
    rw [decide_eq_false_iff_not, not_lt] at hr ⊢
    exact hr.trans hrr'

/-- Pruning drops what is too old.
Kind: P -/
theorem Tracks.prune (h : Tracks caps clock log entry) (hle : clock ≤ now) (httl : ring.ttlMs = caps.ttlMs) :
    Tracks caps now log (ring.prune entry now) := by
  obtain ⟨dropped, hsplit, hold⟩ := (h.mono hle).dropped
  refine ⟨h.last, dropped ++ entry.msgs.takeWhile (fun r => r.at < now - ring.ttlMs), ?_, ?_⟩
  · rw [hsplit, List.append_assoc]
    unfold NotifyRing.prune
    rw [List.takeWhile_append_dropWhile]
  · intro r hr
    rcases List.mem_append.mp hr with hin | hin
    · exact hold r hin
    · have hlt := List.mem_takeWhile_imp hin
      rw [← httl]
      exact of_decide_eq_true hlt

/-- The entry of a topic that a message is appended to.
Source: `lib/notify.js`, `NotifyRing.prototype.append`
Kind: D -/
def appendedEntry (ring : NotifyRing μ) (topic : JsString) (msg : μ) (now : ℚ) : TopicEntry μ :=
  let entry := (ring.topics.get topic).getD ⟨[], now⟩
  let entry := ring.prune { entry with last := now } now
  let msgs := entry.msgs ++ [⟨now, msg⟩]
  let msgs := if ring.maxPerTopic < msgs.length then msgs.drop (msgs.length - ring.maxPerTopic) else msgs
  { entry with msgs := msgs }

theorem append_eq (ring : NotifyRing μ) (topic : JsString) (msg : μ) (now : ℚ) :
    ring.append topic msg now =
      { ring with topics := ring.topics.set topic (ring.appendedEntry topic msg now) }.evictTopicsIfNeeded :=
  rfl

theorem msgs_appendedEntry (ring : NotifyRing μ) (topic : JsString) (msg : μ) (now : ℚ) :
    (ring.appendedEntry topic msg now).msgs =
      ((ring.prune { (ring.topics.get topic).getD ⟨[], now⟩ with last := now } now).msgs ++
        [(⟨now, msg⟩ : Cached μ)]).rtake ring.maxPerTopic := by
  unfold appendedEntry
  simp only
  split_ifs with hlong
  · rfl
  · rw [List.rtake, Nat.sub_eq_zero_of_le (Nat.le_of_not_lt hlong), List.drop_zero]

/-- The topic that a message is appended to, whether it is new or not.
Kind: P -/
theorem tracks_appendedEntry {topic : JsString} (msg : μ)
    (hnone : ring.topics.get topic = none → log = [])
    (hsome : ∀ entry, ring.topics.get topic = some entry → Tracks caps clock log entry)
    (hle : clock ≤ now) (httl : ring.ttlMs = caps.ttlMs) (hmax : ring.maxPerTopic = caps.maxPerTopic)
    (hpos : 1 ≤ caps.maxPerTopic) :
    Tracks caps now (log ++ [⟨now, msg⟩]) (ring.appendedEntry topic msg now) := by
  have hlast : (log ++ [(⟨now, msg⟩ : Cached μ)]).getLast? = some ⟨now, msg⟩ := List.getLast?_concat
  refine ⟨⟨_, hlast, rfl⟩, ?_⟩
  rw [msgs_appendedEntry, hmax]
  -- what is left of the topic once it is pruned
  have hpruned : ∃ dropped, log.rtake caps.maxPerTopic = dropped ++
      (ring.prune { (ring.topics.get topic).getD ⟨[], now⟩ with last := now } now).msgs ∧
        ∀ r ∈ dropped, r.at < now - caps.ttlMs := by
    cases hget : ring.topics.get topic with
    | none =>
        have hlog : log.rtake caps.maxPerTopic = [] := by rw [hnone hget, List.rtake_nil]
        exact ⟨[], hlog, by simp⟩
    | some entry => exact ((hsome entry hget).prune hle httl).dropped
  obtain ⟨dropped, hsplit, hold⟩ := hpruned
  obtain ⟨n, hn⟩ := Nat.exists_eq_add_of_le' hpos
  rw [hn] at hsplit ⊢
  obtain ⟨dropped', hsub, hsplit'⟩ := rtake_succ_concat_of_dropped hsplit ⟨now, msg⟩
  exact ⟨dropped', hsplit', fun r hr => hold r (hsub.subset hr)⟩

end Topic

/-! ### The board and the ring -/

/-- The ring has the topics of the board.
Kind: D -/
structure Represents (caps : RingCaps) (clock : ℚ) (ring : NotifyRing μ) (b : Board μ) : Prop where
  /-- The bounds. -/
  ttlMs : ring.ttlMs = caps.ttlMs
  /-- The bounds. -/
  maxPerTopic : ring.maxPerTopic = caps.maxPerTopic
  /-- The bounds. -/
  maxTopics : ring.maxTopics = caps.maxTopics
  /-- A topic that the ring does not have is not on the board. -/
  absent : ∀ topic, ring.topics.get topic = none → b topic = []
  /-- One that it has is. -/
  tracked : ∀ topic entry, ring.topics.get topic = some entry → Tracks caps clock (b topic) entry
  /-- The times. -/
  dated : ∀ topic, Dated clock (b topic)

/-- The topics of a map after one is set: it is one of them, or one more.
Kind: L -/
theorem size_set (m : JsMap JsString (TopicEntry μ)) (topic : JsString) (entry : TopicEntry μ) :
    (m.set topic entry).size = if topic ∈ m.keys then m.size else m.size + 1 := by
  split_ifs with hin
  · apply JsMap.size_eq_of_keys
    intro k
    rw [JsMap.mem_keys_set]
    exact or_iff_right_of_imp fun hk => hk ▸ hin
  · rw [JsMap.size, JsMap.entries_set_of_not_mem hin, List.length_append, List.length_singleton, JsMap.size]

/-- The topic that the sort puts first: not the one that was put last in the map, where none was touched
after it.
Kind: P -/
theorem exists_victim {old : List (JsString × TopicEntry μ)} {topic : JsString} {entry : TopicEntry μ}
    (hne : old ≠ []) (hnodup : ((old ++ [(topic, entry)]).map Prod.fst).Nodup)
    (hlast : ∀ e ∈ old, e.2.last ≤ entry.last) :
    ∃ victim ∈ old, (∀ e ∈ old ++ [(topic, entry)], victim.2.last ≤ e.2.last) ∧
      ((old ++ [(topic, entry)]).insertionSort fun a b => a.2.last ≤ b.2.last).take 1 = [victim] := by
  have hperm := List.perm_insertionSort (fun a b : JsString × TopicEntry μ => a.2.last ≤ b.2.last)
    (old ++ [(topic, entry)])
  obtain ⟨first, old', rfl⟩ := List.exists_cons_of_ne_nil hne
  -- an entry before the last one stays before it
  have hpair : [first, (topic, entry)].Sublist
      ((first :: old' ++ [(topic, entry)]).insertionSort fun a b => a.2.last ≤ b.2.last) := by
    have hbefore : [first, (topic, entry)].Sublist (first :: old' ++ [(topic, entry)]) :=
      (List.sublist_append_right old' [(topic, entry)]).cons_cons first
    exact List.pair_sublist_insertionSort (hlast first List.mem_cons_self) hbefore
  have hsorted := List.pairwise_insertionSort (fun a b : JsString × TopicEntry μ => a.2.last ≤ b.2.last)
    (first :: old' ++ [(topic, entry)])
  generalize ((first :: old' ++ [(topic, entry)]).insertionSort
    fun a b => a.2.last ≤ b.2.last) = sorted at hperm hpair hsorted
  rcases sorted with _ | ⟨victim, rest⟩
  · exact absurd hpair.length_le (by simp)
  · have hleast : ∀ e ∈ first :: old' ++ [(topic, entry)], victim.2.last ≤ e.2.last := by
      intro e he
      rcases List.mem_cons.mp (hperm.symm.subset he) with rfl | hrest
      · exact le_refl _
      · exact (List.pairwise_cons.mp hsorted).1 e hrest
    refine ⟨victim, ?_, hleast, rfl⟩
    rcases List.mem_append.mp (hperm.subset List.mem_cons_self) with hold | hnew
    · exact hold
    · -- the new topic cannot be first, for the other comes before it
      rw [List.mem_singleton] at hnew
      subst hnew
      have hnodup' : (((topic, entry) :: rest).map Prod.fst).Nodup := (hperm.map Prod.fst).nodup_iff.mpr hnodup
      have hrest : (topic, entry) ∈ rest := hpair.tail.subset (List.mem_singleton_self _)
      exact absurd (List.mem_map_of_mem hrest) (List.nodup_cons.mp hnodup').1

namespace Represents

variable {caps : RingCaps} {clock now : ℚ} {ring : NotifyRing μ} {b : Board μ} {topic : JsString}

theorem mono (h : Represents caps clock ring b) (hle : clock ≤ now) : Represents caps now ring b :=
  { h with
    tracked := fun topic entry hget => (h.tracked topic entry hget).mono hle
    dated := fun topic => (h.dated topic).mono hle }

/-- The topics on the board are those of the ring.
Kind: L -/
theorem mem_live (h : Represents caps clock ring b) : topic ∈ b.live ↔ topic ∈ ring.topics.keys := by
  rw [Board.live, Set.mem_ofPred_eq, JsMap.mem_keys_iff, ← not_iff_not, not_not]
  cases hget : ring.topics.get topic with
  | none => simp [h.absent topic hget]
  | some entry =>
      obtain ⟨r, hr, -⟩ := (h.tracked topic entry hget).last
      refine iff_of_false ?_ (by simp)
      intro hnil
      rw [hnil] at hr
      exact absurd hr (by simp)

theorem encard_live (h : Represents caps clock ring b) : b.live.encard = ring.topics.size := by
  have hlive : b.live = ↑ring.topics.keys.toFinset := by
    ext topic
    rw [h.mem_live, Finset.mem_coe, List.mem_toFinset]
  have hcard : ring.topics.keys.toFinset.card = ring.topics.keys.length :=
    List.toFinset_card_of_nodup ring.topics.nodup
  rw [hlive, Set.encard_coe_eq_coe_finsetCard, hcard, JsMap.keys, List.length_map, JsMap.size]

/-- A message is put into a topic.
Kind: P -/
theorem set (h : Represents caps clock ring b) (hle : clock ≤ now) (hpos : 1 ≤ caps.maxPerTopic)
    (topic : JsString) (msg : μ) :
    Represents caps now { ring with topics := ring.topics.set topic (ring.appendedEntry topic msg now) }
      (b.add topic ⟨now, msg⟩) := by
  have hentry : Tracks caps now (b topic ++ [⟨now, msg⟩]) (ring.appendedEntry topic msg now) :=
    tracks_appendedEntry msg (h.absent topic) (h.tracked topic) hle h.ttlMs h.maxPerTopic hpos
  refine ⟨h.ttlMs, h.maxPerTopic, h.maxTopics, fun other hget => ?_, fun other entry hget => ?_,
    fun other => ?_⟩
  · rw [JsMap.get_set] at hget
    split_ifs at hget with hother
    rw [Board.add, Function.update_of_ne hother]
    exact h.absent other hget
  · rw [JsMap.get_set] at hget
    split_ifs at hget with hother
    · rw [← Option.some.inj hget, hother, Board.add, Function.update_self]
      exact hentry
    · rw [Board.add, Function.update_of_ne hother]
      exact (h.tracked other entry hget).mono hle
  · by_cases hother : other = topic
    · rw [hother, Board.add, Function.update_self]
      exact (h.dated topic).concat hle msg
    · rw [Board.add, Function.update_of_ne hother]
      exact (h.dated other).mono hle

/-- A topic is deleted.
Kind: P -/
theorem delete (h : Represents caps clock ring b) (victim : JsString) :
    Represents caps clock { ring with topics := ring.topics.delete victim } (b.evict victim) := by
  refine ⟨h.ttlMs, h.maxPerTopic, h.maxTopics, fun other hget => ?_, fun other entry hget => ?_,
    fun other => ?_⟩
  · by_cases hother : other = victim
    · rw [hother, Board.evict, Function.update_self]
    · rw [JsMap.get_delete_of_ne _ hother] at hget
      rw [Board.evict, Function.update_of_ne hother]
      exact h.absent other hget
  · by_cases hother : other = victim
    · rw [hother, JsMap.get_delete_self] at hget
      exact absurd hget (by simp)
    · rw [JsMap.get_delete_of_ne _ hother] at hget
      rw [Board.evict, Function.update_of_ne hother]
      exact h.tracked other entry hget
  · by_cases hother : other = victim
    · rw [hother, Board.evict, Function.update_self]
      exact Dated.nil
    · rw [Board.evict, Function.update_of_ne hother]
      exact h.dated other

/-- What the board has last of a topic has the time at which the ring touched it.
Kind: L -/
theorem at_eq_last (h : Represents caps clock ring b) {entry : TopicEntry μ} {r : Cached μ}
    (hget : ring.topics.get topic = some entry) (hr : r ∈ (b topic).getLast?) : r.at = entry.last := by
  obtain ⟨r', hr', hat⟩ := (h.tracked topic entry hget).last
  obtain rfl : r' = r := Option.some.inj (hr'.symm.trans hr)
  exact hat

theorem last_le (h : Represents caps clock ring b) :
    ∀ e ∈ ring.topics.entries, e.2.last ≤ clock := by
  intro e he
  obtain ⟨r, hr, hat⟩ := (h.tracked e.1 e.2 (JsMap.mem_entries_iff.mp he)).last
  rw [← hat]
  exact (h.dated e.1).past r (List.mem_of_getLast? hr)

/-- A new topic that makes the ring too large drives out another, which was touched no later than any.
Kind: P -/
theorem exists_evicted (h : Represents caps clock ring b) (hle : clock ≤ now)
    (hnew : topic ∉ ring.topics.keys) (hfull : ring.topics.size = caps.maxTopics)
    (htopics : 1 ≤ caps.maxTopics) {entry : TopicEntry μ} (hlast : entry.last = now) :
    ∃ victim ∈ ring.topics.entries, victim.1 ≠ topic ∧
      (∀ e ∈ (ring.topics.set topic entry).entries, victim.2.last ≤ e.2.last) ∧
      { ring with topics := ring.topics.set topic entry }.evictTopicsIfNeeded =
        { ring with topics := (ring.topics.set topic entry).delete victim.1 } := by
  have hentries : (ring.topics.set topic entry).entries = ring.topics.entries ++ [(topic, entry)] :=
    JsMap.entries_set_of_not_mem hnew entry
  have hsize : (ring.topics.set topic entry).size = ring.maxTopics + 1 := by
    rw [size_set, if_neg hnew, hfull, h.maxTopics]
  have hne : ring.topics.entries ≠ [] := by
    intro hnil
    have hzero : ring.topics.size = 0 := by rw [JsMap.size, hnil, List.length_nil]
    omega
  have holder : ∀ e ∈ ring.topics.entries, e.2.last ≤ entry.last := by
    intro e he
    rw [hlast]
    exact (h.last_le e he).trans hle
  have hnodup := (ring.topics.set topic entry).nodup
  rw [hentries] at hnodup
  obtain ⟨victim, hvictim, hleast, hfirst⟩ := exists_victim hne hnodup holder
  refine ⟨victim, hvictim, ?_, ?_, ?_⟩
  · intro heq
    exact hnew (heq ▸ List.mem_map_of_mem hvictim)
  · rw [hentries]
    exact hleast
  · unfold evictTopicsIfNeeded
    have hdrop : ring.maxTopics + 1 - ring.maxTopics = 1 := Nat.add_sub_cancel_left ..
    simp only [hsize, if_neg (Nat.not_succ_le_self _), hdrop, hentries, hfirst, List.foldl_cons,
      List.foldl_nil]

/-- **An append** is a step of the board.
Kind: P -/
theorem append (h : Represents caps clock ring b) (hsize : ring.topics.size ≤ caps.maxTopics)
    (hle : clock ≤ now) (hpos : 1 ≤ caps.maxPerTopic) (htopics : 1 ≤ caps.maxTopics) (topic : JsString)
    (msg : μ) :
    ∃ b', BoardStep caps b (.append topic msg now) [msg] b' ∧
      Represents caps now (ring.append topic msg now) b' ∧
      (ring.append topic msg now).topics.size ≤ caps.maxTopics := by
  have hset := h.set hle hpos topic msg
  rw [append_eq]
  generalize hentry : ring.appendedEntry topic msg now = entry at hset
  have hlast : entry.last = now := by rw [← hentry]; rfl
  have hlive := hset.encard_live
  by_cases hfits : (ring.topics.set topic entry).size ≤ caps.maxTopics
  · have hkept : { ring with topics := ring.topics.set topic entry }.evictTopicsIfNeeded =
        { ring with topics := ring.topics.set topic entry } := if_pos (h.maxTopics ▸ hfits)
    rw [hkept]
    exact ⟨_, BoardStep.append (by rw [hlive]; exact_mod_cast hfits), hset, hfits⟩
  · rw [not_le] at hfits
    have hnew : topic ∉ ring.topics.keys := by
      intro hin
      rw [size_set, if_pos hin] at hfits
      omega
    have hone := size_set ring.topics topic entry
    rw [if_neg hnew] at hone
    obtain ⟨victim, hvictim, hother, hleast, hevicted⟩ :=
      h.exists_evicted hle hnew (by omega) htopics hlast
    have hget : ring.topics.get victim.1 = some victim.2 := JsMap.mem_entries_iff.mp hvictim
    rw [hevicted]
    refine ⟨_, BoardStep.evict ?_ hother ?_ ?_, hset.delete victim.1, ?_⟩
    · rw [hlive]
      exact_mod_cast hfits
    · rw [h.mem_live]
      exact List.mem_map_of_mem hvictim
    · -- it was touched no later than the others
      intro r hr other r' hr'
      rw [h.at_eq_last hget hr]
      cases hget' : (ring.topics.set topic entry).get other with
      | none =>
          rw [hset.absent other hget'] at hr'
          exact absurd hr' (by simp)
      | some e =>
          rw [hset.at_eq_last hget' hr']
          exact hleast _ (JsMap.mem_entries_iff.mpr hget')
    · have hin : victim.1 ∈ (ring.topics.set topic entry).keys :=
        JsMap.mem_keys_set.mpr (Or.inr (List.mem_map_of_mem hvictim))
      have hless := JsMap.size_delete_lt hin
      show ((ring.topics.set topic entry).delete victim.1).size ≤ caps.maxTopics
      omega

/-- **A query** is a step of the board, which it leaves alone.
Kind: P -/
theorem since (h : Represents caps clock ring b) (hle : clock ≤ now) (id : μ → JsString) (topic : JsString)
    (cursor : Option JsString) :
    BoardStep caps b (.since topic cursor now) (ring.since id topic cursor now).2 b ∧
      Represents caps now (ring.since id topic cursor now).1 b ∧
      (ring.since id topic cursor now).1.topics.size = ring.topics.size := by
  unfold NotifyRing.since
  cases hget : ring.topics.get topic with
  | none =>
      have hwindow : b.window caps topic now = [] := by
        rw [Board.window, h.absent topic hget, List.rtake_nil, List.filter_nil]
      refine ⟨BoardStep.since (fun _ => ?_) fun _ _ _ _ => ?_, h.mono hle, rfl⟩
      · rw [hwindow, List.map_nil]
      · rw [hwindow, List.filter_nil, List.map_nil]
  | some entry =>
      have htracks := h.tracked topic entry hget
      have hmsgs : (ring.prune entry now).msgs = b.window caps topic now :=
        htracks.prune_msgs (h.dated topic) hle h.ttlMs
      have hin : topic ∈ ring.topics.keys := JsMap.mem_keys_iff.mpr ⟨entry, hget⟩
      refine ⟨BoardStep.since ?_ ?_, ?_, ?_⟩
      · rintro rfl
        simp only [hmsgs]
        rfl
      · rintro duration ms rfl hms
        -- a duration is neither empty nor `all`
        have hempty : duration ≠ [] := by
          rintro rfl
          exact absurd hms (by simp [durationMs])
        have hall : duration ≠ js "all" := by
          have hnone : durationMs (js "all") = none := by decide
          rintro rfl
          rw [hnone] at hms
          exact absurd hms (by simp)
        simp only [hmsgs, pick, if_neg hempty, if_neg hall, hms]
      · refine ⟨h.ttlMs, h.maxPerTopic, h.maxTopics, fun other hother => ?_, fun other e hother => ?_,
          fun other => (h.dated other).mono hle⟩
        · rw [JsMap.get_set] at hother
          split_ifs at hother
          exact h.absent other hother
        · rw [JsMap.get_set] at hother
          split_ifs at hother with heq
          · rw [← Option.some.inj hother, heq]
            exact htracks.prune hle h.ttlMs
          · exact (h.tracked other e hother).mono hle
      · show (ring.topics.set topic (ring.prune entry now)).size = ring.topics.size
        rw [size_set, if_pos hin]

end Represents

/-! ### Runs -/

theorem orDefault_pos {value : Option ℕ} {fallback : ℕ} (h : 1 ≤ fallback) : 1 ≤ orDefault value fallback := by
  unfold orDefault
  split_ifs with hzero
  · exact h
  · exact Nat.one_le_iff_ne_zero.mpr hzero

theorem one_le_maxPerTopic (opts : RingOptions) : 1 ≤ opts.caps.maxPerTopic :=
  orDefault_pos (by decide)

theorem one_le_maxTopics (opts : RingOptions) : 1 ≤ opts.caps.maxTopics :=
  orDefault_pos (by decide)

/-- A run at times that do not decrease is one of the board.
Kind: P -/
theorem run_represents (id : μ → JsString) (opts : RingOptions) {l : List (Event μ)}
    (h : (l.map Event.now).Pairwise (· ≤ ·)) {clock : ℚ} (hclock : ∀ e ∈ l, e.now ≤ clock) :
    ∃ b, BoardRun opts.caps l ((new opts).answers id l) b ∧
      Represents opts.caps clock (runFrom (step id) (new opts) l) b ∧
      (runFrom (step id) (new opts) l).topics.size ≤ opts.caps.maxTopics := by
  induction l using List.reverseRecOn generalizing clock with
  | nil =>
      refine ⟨_, BoardRun.nil, ⟨rfl, rfl, rfl, fun _ _ => rfl, ?_, fun _ => Dated.nil⟩, Nat.zero_le _⟩
      intro topic entry hget
      exact absurd hget (by simp [new])
  | append_singleton l e ih =>
      rw [List.map_append, List.pairwise_append] at h
      have hnow : ∀ e' ∈ l, e'.now ≤ e.now := fun e' he' =>
        h.2.2 _ (List.mem_map_of_mem he') _ (List.mem_singleton_self _)
      obtain ⟨b, hrun, hrepr, hsize⟩ := ih h.1 hnow
      have hle : e.now ≤ clock := hclock e (by simp)
      rw [answers_concat, runFrom_append, runFrom_cons, runFrom_nil]
      cases e with
      | append topic msg now =>
          obtain ⟨b', hstep, hrepr', hsize'⟩ := hrepr.append hsize (le_refl _) (one_le_maxPerTopic opts)
            (one_le_maxTopics opts) topic msg
          exact ⟨b', hrun.snoc hstep, hrepr'.mono hle, hsize'⟩
      | since topic cursor now =>
          obtain ⟨hstep, hrepr', hsize'⟩ := hrepr.since (le_refl _) id topic cursor
          exact ⟨b, hrun.snoc hstep, hrepr'.mono hle, hsize'.le.trans hsize⟩

/-- **The ring refines its specification**: in a run at times that do not decrease, what it answers is what
a board may answer whose live topics are the ring's, and it never has too many.
Source: `lib/notify.js`, `NotifyRing`
Kind: P -/
theorem ring_refines (id : μ → JsString) (opts : RingOptions) (l : List (Event μ))
    (h : (l.map Event.now).Pairwise (· ≤ ·)) :
    ∃ b, BoardRun opts.caps l ((new opts).answers id l) b ∧
      (∀ topic, topic ∈ b.live ↔ topic ∈ (runFrom (step id) (new opts) l).topics.keys) ∧
      b.live.encard = (runFrom (step id) (new opts) l).topicCount ∧
      (runFrom (step id) (new opts) l).topicCount ≤ opts.caps.maxTopics ∧
      1 ≤ opts.caps.maxTopics := by
  obtain ⟨clock, hclock⟩ : ∃ clock, ∀ e ∈ l, e.now ≤ clock := by
    rcases l.eq_nil_or_concat with rfl | ⟨l', e, rfl⟩
    · exact ⟨0, by simp⟩
    · rw [List.concat_eq_append, List.map_append, List.pairwise_append] at h
      refine ⟨e.now, fun e' he' => ?_⟩
      rw [List.concat_eq_append] at he'
      rcases List.mem_append.mp he' with hin | hlast
      · exact h.2.2 _ (List.mem_map_of_mem hin) _ (List.mem_singleton_self _)
      · rw [List.mem_singleton.mp hlast]
  obtain ⟨b, hrun, hrepr, hsize⟩ := run_represents id opts h hclock
  exact ⟨b, hrun, fun topic => hrepr.mem_live, hrepr.encard_live, hsize, one_le_maxTopics opts⟩

/-- Two topics that are appended to at the same time, in a ring that keeps one.
Kind: D -/
def tiedAppends : List (Event JsString) :=
  [.append (js "a") (js "n-1") 5, .append (js "b") (js "n-2") 5, .since (js "b") (some (js "all")) 5]

/-- The topic that was appended to last is there.
Kind: C -/
theorem ring_refines_tied :
    (∃ b, BoardRun (RingOptions.caps ⟨none, none, some 1⟩) tiedAppends
        ((new ⟨none, none, some 1⟩).answers (fun m => m) tiedAppends) b ∧
      (∀ topic, topic ∈ b.live ↔
        topic ∈ (runFrom (step fun m => m) (new ⟨none, none, some 1⟩) tiedAppends).topics.keys) ∧
      b.live.encard = (runFrom (step fun m => m) (new ⟨none, none, some 1⟩) tiedAppends).topicCount ∧
      (runFrom (step fun m => m) (new ⟨none, none, some 1⟩) tiedAppends).topicCount ≤
        (RingOptions.caps ⟨none, none, some 1⟩).maxTopics ∧
      1 ≤ (RingOptions.caps ⟨none, none, some 1⟩).maxTopics) ∧
    (new ⟨none, none, some 1⟩).answers (fun m => m) tiedAppends = [[js "n-1"], [js "n-2"], [js "n-2"]] :=
  ⟨ring_refines (fun m => m) ⟨none, none, some 1⟩ tiedAppends (by decide +kernel), by decide +kernel⟩

end NotifyRing

end TyoMq.Notify
