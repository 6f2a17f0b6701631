import Mathlib.Algebra.Order.Ring.Rat
import Mathlib.Data.List.Induction
import Mathlib.Data.List.Sort
import TyoMq.Lib.JsMap
import TyoMq.Lib.JsString
import TyoMq.Lib.Runs
import TyoMq.Lib.Window

/-!
# The topic ring: catch-up on a topic

`NotifyRing` of `lib/notify.js`: for each topic the messages of the last hours, up to a number, and a
number of topics. A client that was away asks with `since` for what it missed.

* **Exactly once** (`NotifyRing.catchUp_exactlyOnce`): asked with the id of any message of the topic, retained or
  not, the ring hands out the retained messages that were appended after it, oldest first.
* **A client that polls** (`NotifyRing.following_run`) with the id of the last message it has
  received receives no message twice, and after a poll it has every message that is retained.
-/

namespace TyoMq.Notify

open TyoMq.Lib

variable {μ : Type*}

/-! ### The ring -/

/-- A message and when it was appended.
Kind: D -/
structure Cached (μ : Type*) where
  /-- When. -/
  «at» : ℚ
  /-- The message. -/
  msg : μ

/-- What is kept of one topic.
Kind: D -/
structure TopicEntry (μ : Type*) where
  /-- The messages, oldest first. -/
  msgs : List (Cached μ)
  /-- When the topic was last appended to. -/
  last : ℚ

/-- The options of the constructor, each of which may be left out.
Kind: D -/
structure RingOptions where
  /-- How long a message is kept. -/
  ttlMs : Option ℚ
  /-- How many messages are kept of a topic. -/
  maxPerTopic : Option ℕ
  /-- How many topics are kept. -/
  maxTopics : Option ℕ

/-- The ring.
Source: `lib/notify.js`, `NotifyRing`
Kind: D -/
structure NotifyRing (μ : Type*) where
  /-- How long a message is kept. -/
  ttlMs : ℚ
  /-- How many messages are kept of a topic. -/
  maxPerTopic : ℕ
  /-- How many topics are kept. -/
  maxTopics : ℕ
  /-- `_topics`. -/
  topics : JsMap JsString (TopicEntry μ)

namespace NotifyRing

/-- `value || fallback` on numbers.
Kind: D -/
def orDefault {α : Type} [Zero α] [DecidableEq α] (value : Option α) (fallback : α) : α :=
  if value.getD 0 = 0 then fallback else value.getD 0

/-- `new NotifyRing(opts)`.
Kind: D -/
def new (opts : RingOptions) : NotifyRing μ where
  ttlMs := orDefault opts.ttlMs (12 * 60 * 60 * 1000)
  maxPerTopic := orDefault opts.maxPerTopic 100
  maxTopics := orDefault opts.maxTopics 5000
  topics := JsMap.empty

/-- Drop the least recently touched topics until the ring is back under its cap.
Source: `lib/notify.js`, `NotifyRing.prototype._evictTopicsIfNeeded`
Kind: D -/
def evictTopicsIfNeeded (ring : NotifyRing μ) : NotifyRing μ :=
  if ring.topics.size ≤ ring.maxTopics then ring
  else
    let entries := ring.topics.entries.insertionSort fun a b => a.2.last ≤ b.2.last
    let toDrop := ring.topics.size - ring.maxTopics
    { ring with
      topics := (entries.take toDrop).foldl (fun topics e => topics.delete e.1) ring.topics }

/-- Shift messages off the front of a topic while they are too old.
Source: `lib/notify.js`, `NotifyRing.prototype._prune`
Kind: D -/
def prune (ring : NotifyRing μ) (entry : TopicEntry μ) (now : ℚ) : TopicEntry μ :=
  let cutoff := now - ring.ttlMs
  { entry with msgs := entry.msgs.dropWhile fun r => r.at < cutoff }

/-- Source: `lib/notify.js`, `NotifyRing.prototype.append`
Kind: D -/
def append (ring : NotifyRing μ) (topic : JsString) (msg : μ) (now : ℚ) : NotifyRing μ :=
  let entry := (ring.topics.get topic).getD ⟨[], now⟩
  let entry := ring.prune { entry with last := now } now
  let msgs := entry.msgs ++ [⟨now, msg⟩]
  let msgs := if ring.maxPerTopic < msgs.length then msgs.drop (msgs.length - ring.maxPerTopic) else msgs
  { ring with topics := ring.topics.set topic { entry with msgs := msgs } }.evictTopicsIfNeeded

/-- The milliseconds of a unit of time.
Kind: D -/
def unitMs (u : UInt16) : Option ℚ :=
  if u = unit 's' then some 1000
  else if u = unit 'm' then some 60000
  else if u = unit 'h' then some 3600000
  else if u = unit 'd' then some 86400000
  else none

/-- The milliseconds that `since` names, when it matches `/^(\d+)([smhd])$/`.
Kind: D -/
def durationMs (since : JsString) : Option ℚ :=
  match since.getLast? with
  | none => none
  | some u =>
      let digits := since.dropLast
      if digits ≠ [] ∧ digits.all (fun c => digitVal c < 10) = true then
        (unitMs u).map fun mult => readDigits 10 digits * mult
      else none

/-- What of a pruned topic `since` names. `id` reads `msg.id`, and an absent `since` is `none`.
Kind: D -/
def pick (id : μ → JsString) (all : List (Cached μ)) (since : Option JsString) (now : ℚ) : List μ :=
  match since with
  | none => []
  | some since =>
      if since = [] then []
      else if since = js "all" then all.map Cached.msg
      else
        match durationMs since with
        | some ms => (all.filter fun r => now - ms ≤ r.at).map Cached.msg
        | none => (resume (fun r => id r.msg) all since).map Cached.msg

/-- The cached messages of the topic that `since` names, oldest first. The topic is pruned.
Source: `lib/notify.js`, `NotifyRing.prototype.since`
Kind: D -/
def since (id : μ → JsString) (ring : NotifyRing μ) (topic : JsString) (since : Option JsString)
    (now : ℚ) : NotifyRing μ × List μ :=
  match ring.topics.get topic with
  | none => (ring, [])
  | some entry =>
      let entry := ring.prune entry now
      ({ ring with topics := ring.topics.set topic entry }, pick id entry.msgs since now)

/-- `topicCount()`.
Kind: D -/
def topicCount (ring : NotifyRing μ) : ℕ := ring.topics.size

/-! ### Runs -/

/-- A call.
Kind: D -/
inductive Event (μ : Type*) where
  | append (topic : JsString) (msg : μ) (now : ℚ)
  | since (topic : JsString) (since : Option JsString) (now : ℚ)

/-- One call.
Kind: D -/
def step (id : μ → JsString) (ring : NotifyRing μ) : Event μ → NotifyRing μ
  | .append topic msg now => ring.append topic msg now
  | .since topic cursor now => (ring.since id topic cursor now).1

/-- The message that a call appends, and its topic.
Kind: D -/
def Event.appends : Event μ → Option (JsString × μ)
  | .append topic msg _ => some (topic, msg)
  | .since _ _ _ => none

/-- The messages appended to the topic, oldest first.
Kind: D -/
def appendedTo (topic : JsString) (l : List (Event μ)) : List μ :=
  (l.filterMap Event.appends).filterMap fun e => if e.1 = topic then some e.2 else none

/-- The messages of the topic that are retained at the time `now`, oldest first.
Kind: D -/
def retained (ring : NotifyRing μ) (topic : JsString) (now : ℚ) : List μ :=
  match ring.topics.get topic with
  | none => []
  | some entry => (ring.prune entry now).msgs.map Cached.msg

/-- Is `s` an id as `buildMessage` makes them, `'n-'` and hexadecimal digits?
Source: `lib/notify.js`, `buildMessage`
Kind: D -/
def isBrokerId (s : JsString) : Bool :=
  s.take 2 == js "n-" && (s.drop 2).all fun c => digitVal c < 16

/-- The ids of the appended messages are the broker's own, and no two are the same.
Kind: D -/
structure BrokerIds (id : μ → JsString) (l : List (Event μ)) : Prop where
  /-- They are of the broker's form. -/
  form : ∀ e ∈ l.filterMap Event.appends, isBrokerId (id e.2) = true
  /-- They are distinct. -/
  distinct : ((l.filterMap Event.appends).map fun e => id e.2).Nodup

/-- A client of one topic: the ring, and what it has received.
Kind: D -/
structure Client (μ : Type*) where
  /-- The ring. -/
  ring : NotifyRing μ
  /-- What it has received, in order. -/
  received : List μ

/-- The client polls at some time, or somebody else calls the ring.
Kind: D -/
inductive Happening (μ : Type*) where
  | poll (now : ℚ)
  | other (e : Event μ)

/-- What a client asks with: the id of the last message it has received, and everything when it has
received none.
Kind: D -/
def Client.cursor (id : μ → JsString) (c : Client μ) : JsString :=
  match c.received.getLast? with
  | none => js "all"
  | some msg => id msg

/-- One happening.
Kind: D -/
def Client.step (id : μ → JsString) (topic : JsString) (c : Client μ) : Happening μ → Client μ
  | .poll now =>
      let answer := c.ring.since id topic (some (c.cursor id)) now
      ⟨answer.1, c.received ++ answer.2⟩
  | .other e => { c with ring := c.ring.step id e }

/-- The calls of the others.
Kind: D -/
def others (l : List (Happening μ)) : List (Event μ) :=
  l.filterMap fun
    | .poll _ => none
    | .other e => some e

/-! ### What a call keeps of a topic -/

/-- The messages that the ring holds of a topic, pruned or not.
Kind: D -/
def kept (ring : NotifyRing μ) (topic : JsString) : List μ :=
  match ring.topics.get topic with
  | none => []
  | some entry => entry.msgs.map Cached.msg

section Kept

variable {id : μ → JsString} {ring : NotifyRing μ} {topic topic' : JsString} {msg : μ} {now : ℚ}

/-- Pruning drops from the front.
Kind: L -/
theorem prune_suffix (entry : TopicEntry μ) : (ring.prune entry now).msgs <:+ entry.msgs :=
  List.dropWhile_suffix _

/-- What is retained is an end of what is held.
Kind: L -/
theorem retained_suffix : ring.retained topic now <:+ ring.kept topic := by
  unfold retained kept
  split
  · exact List.suffix_rfl
  · exact (prune_suffix _).map _

/-- Deleting topics deletes a topic or leaves it.
Kind: L -/
theorem get_foldl_delete (l : List (JsString × TopicEntry μ)) (m : JsMap JsString (TopicEntry μ)) :
    (l.foldl (fun topics e => topics.delete e.1) m).get topic = none ∨
      (l.foldl (fun topics e => topics.delete e.1) m).get topic = m.get topic := by
  induction l generalizing m with
  | nil => exact Or.inr rfl
  | cons e l ih =>
      rw [List.foldl_cons]
      by_cases he : topic = e.1
      · rcases ih (m.delete e.1) with h | h
        · exact Or.inl h
        · exact Or.inl (by rw [h, he, JsMap.get_delete_self])
      · rw [← JsMap.get_delete_of_ne m he]
        exact ih (m.delete e.1)

/-- An eviction drops all of a topic or nothing.
Kind: L -/
theorem kept_evict : ring.evictTopicsIfNeeded.kept topic <:+ ring.kept topic := by
  unfold evictTopicsIfNeeded
  split_ifs
  · exact List.suffix_rfl
  · unfold kept
    rcases @get_foldl_delete μ topic ((ring.topics.entries.insertionSort fun a b =>
      a.2.last ≤ b.2.last).take (ring.topics.size - ring.maxTopics)) ring.topics with h | h
    · simp only [h]
      exact List.nil_suffix
    · simp only [h]
      exact List.suffix_rfl

/-- An append to the topic.
Kind: L -/
theorem kept_append_self : (ring.append topic msg now).kept topic <:+ ring.kept topic ++ [msg] := by
  refine kept_evict.trans ?_
  unfold kept
  simp only [JsMap.get_set_self]
  have hmsgs : ∀ (entry : TopicEntry μ) (l : List (Cached μ)),
      l <:+ (ring.prune entry now).msgs ++ [⟨now, msg⟩] →
      l.map Cached.msg <:+ entry.msgs.map Cached.msg ++ [msg] := by
    intro entry l hl
    have hcat : (ring.prune entry now).msgs ++ [⟨now, msg⟩] <:+ entry.msgs ++ [⟨now, msg⟩] :=
      List.suffix_append_self_iff.mpr (prune_suffix entry)
    simpa using (hl.trans hcat).map Cached.msg
  cases hget : ring.topics.get topic with
  | none =>
      simp only [Option.getD_none]
      refine hmsgs ⟨[], now⟩ _ ?_
      split_ifs
      · exact List.drop_suffix _ _
      · exact List.suffix_rfl
  | some entry =>
      simp only [Option.getD_some]
      refine hmsgs { entry with last := now } _ ?_
      split_ifs
      · exact List.drop_suffix _ _
      · exact List.suffix_rfl

/-- An append to another topic.
Kind: L -/
theorem kept_append_of_ne (h : topic ≠ topic') :
    (ring.append topic' msg now).kept topic <:+ ring.kept topic := by
  refine kept_evict.trans ?_
  unfold kept
  simp only [JsMap.get_set_of_ne _ h]
  exact List.suffix_rfl

/-- A query of the topic prunes it.
Kind: L -/
theorem kept_since_self (cursor : Option JsString) :
    (ring.since id topic cursor now).1.kept topic = ring.retained topic now := by
  unfold since kept retained
  cases hget : ring.topics.get topic with
  | none => simp only [hget]
  | some entry => simp only [JsMap.get_set_self]

/-- A query of another topic.
Kind: L -/
theorem kept_since_of_ne (h : topic ≠ topic') (cursor : Option JsString) :
    (ring.since id topic' cursor now).1.kept topic = ring.kept topic := by
  unfold since kept
  cases hget : ring.topics.get topic' with
  | none => rfl
  | some entry => simp only [JsMap.get_set_of_ne _ h]

theorem appendedTo_append (topic : JsString) (l₁ l₂ : List (Event μ)) :
    appendedTo topic (l₁ ++ l₂) = appendedTo topic l₁ ++ appendedTo topic l₂ := by
  unfold appendedTo
  rw [List.filterMap_append, List.filterMap_append]

/-- A call adds one message to a topic, or none.
Kind: L -/
theorem appendedTo_singleton (topic : JsString) (e : Event μ) :
    appendedTo topic [e] = [] ∨ ∃ msg, appendedTo topic [e] = [msg] := by
  cases e with
  | append topic' msg now =>
      by_cases h : topic' = topic
      · exact Or.inr ⟨msg, by simp [appendedTo, Event.appends, h]⟩
      · exact Or.inl (by simp [appendedTo, Event.appends, h])
  | since topic' cursor now => exact Or.inl rfl

/-- What a call adds to a topic comes last, and what it drops was first.
Kind: L -/
theorem kept_step (ring : NotifyRing μ) (topic : JsString) (e : Event μ) :
    (ring.step id e).kept topic <:+ ring.kept topic ++ appendedTo topic [e] := by
  cases e with
  | append topic' msg now =>
      by_cases h : topic = topic'
      · subst h
        have hone : appendedTo topic [Event.append topic msg now] = [msg] := by
          simp [appendedTo, Event.appends]
        rw [hone]
        exact kept_append_self
      · have hnone : appendedTo topic [Event.append topic' msg now] = [] := by
          simp [appendedTo, Event.appends, Ne.symm h]
        rw [hnone, List.append_nil]
        exact kept_append_of_ne h
  | since topic' cursor now =>
      have hnone : appendedTo topic [Event.since topic' cursor now] = ([] : List μ) := rfl
      rw [hnone, List.append_nil]
      by_cases h : topic = topic'
      · subst h
        exact (kept_since_self cursor).symm ▸ retained_suffix
      · exact (kept_since_of_ne h cursor).symm ▸ List.suffix_rfl

/-- What a ring holds of a topic is an end of what was appended to it.
Kind: L -/
theorem kept_run (opts : RingOptions) (topic : JsString) (l : List (Event μ)) :
    (runFrom (step id) (new opts) l).kept topic <:+ appendedTo topic l := by
  induction l using List.reverseRecOn with
  | nil => exact List.suffix_rfl
  | append_singleton l e ih =>
      rw [runFrom_append, appendedTo_append]
      exact (kept_step _ topic e).trans (List.suffix_append_self_iff.mpr ih)

end Kept

/-! ### Catch-up -/

section CatchUp

variable {id : μ → JsString} {ring : NotifyRing μ} {topic : JsString} {now : ℚ}

/-- An id of the broker's form starts with an `n`.
Kind: L -/
theorem eq_cons_of_isBrokerId {c : JsString} (h : isBrokerId c = true) : ∃ rest, c = unit 'n' :: rest := by
  unfold isBrokerId at h
  obtain ⟨htake, -⟩ := Bool.and_eq_true_iff.mp h
  have hjs : js "n-" = [unit 'n', unit '-'] := rfl
  have htake : c.take 2 = [unit 'n', unit '-'] := hjs ▸ eq_of_beq htake
  rcases c with _ | ⟨u, rest⟩
  · exact absurd htake (by simp)
  · rw [List.take_succ_cons, List.cons.injEq] at htake
    exact ⟨rest, by rw [htake.1]⟩

/-- It is none of the other forms that `since` understands.
Kind: L -/
theorem durationMs_of_isBrokerId {c : JsString} (h : isBrokerId c = true) : durationMs c = none := by
  obtain ⟨rest, rfl⟩ := eq_cons_of_isBrokerId h
  have hn : ¬ digitVal (unit 'n') < 10 := by decide
  unfold durationMs
  split
  · rfl
  · rw [if_neg]
    rintro ⟨hne, hall⟩
    rcases rest with _ | ⟨v, rest⟩
    · exact hne rfl
    · rw [List.dropLast_cons_of_ne_nil (List.cons_ne_nil _ _), List.all_cons, Bool.and_eq_true] at hall
      exact hn (of_decide_eq_true hall.1)

/-- Asked with an id, the ring resumes from it.
Kind: L -/
theorem since_snd_of_isBrokerId {c : JsString} (h : isBrokerId c = true) :
    (ring.since id topic (some c) now).2 = resume id (ring.retained topic now) c := by
  have hne : c ≠ [] ∧ c ≠ js "all" := by
    obtain ⟨rest, rfl⟩ := eq_cons_of_isBrokerId h
    refine ⟨List.cons_ne_nil _ _, fun he => ?_⟩
    have hjs : js "all" = [unit 'a', unit 'l', unit 'l'] := rfl
    rw [hjs, List.cons.injEq] at he
    exact absurd he.1 (by decide)
  unfold since retained
  cases ring.topics.get topic with
  | none => rfl
  | some entry =>
      unfold pick
      simp only [if_neg hne.1, if_neg hne.2, durationMs_of_isBrokerId h]
      rw [map_resume]

/-- Asked for everything, it hands out what is retained.
Kind: L -/
theorem since_snd_all : (ring.since id topic (some (js "all")) now).2 = ring.retained topic now := by
  have hne : js "all" ≠ [] := by decide
  unfold since retained
  cases ring.topics.get topic with
  | none => rfl
  | some entry =>
      unfold pick
      simp only [if_neg hne, if_true]

/-- The messages appended to a topic are among all that were appended, in their order.
Kind: L -/
theorem appendedTo_sublist (topic : JsString) (l : List (Event μ)) :
    (appendedTo topic l).Sublist ((l.filterMap Event.appends).map Prod.snd) := by
  unfold appendedTo
  induction l.filterMap Event.appends with
  | nil => exact List.Sublist.slnil
  | cons e es ih =>
      rw [List.filterMap_cons, List.map_cons]
      by_cases he : e.1 = topic
      · simp only [if_pos he]
        exact ih.cons_cons _
      · simp only [if_neg he]
        exact ih.cons _

namespace BrokerIds

variable {l l' : List (Event μ)}

theorem left (h : BrokerIds id (l ++ l')) : BrokerIds id l := by
  have hform := h.form
  have hdistinct := h.distinct
  rw [List.filterMap_append] at hform hdistinct
  rw [List.map_append] at hdistinct
  exact ⟨fun e he => hform e (List.mem_append_left _ he), (List.nodup_append.mp hdistinct).1⟩

/-- The messages of one topic have ids of the broker's form.
Kind: L -/
theorem isBrokerId (h : BrokerIds id l) {topic : JsString} {m : μ} (hm : m ∈ appendedTo topic l) :
    isBrokerId (id m) = true := by
  obtain ⟨e, he, rfl⟩ := List.mem_map.mp ((appendedTo_sublist topic l).subset hm)
  exact h.form e he

/-- They have distinct ids.
Kind: L -/
theorem nodup (h : BrokerIds id l) (topic : JsString) : ((appendedTo topic l).map id).Nodup := by
  refine List.Nodup.sublist ((appendedTo_sublist topic l).map id) ?_
  rw [List.map_map]
  exact h.distinct

end BrokerIds

/-- Asked with the id of any message that was ever appended to the topic, the ring hands out the
retained messages that were appended after it.
Kind: P -/
theorem since_eq {opts : RingOptions} {l : List (Event μ)} (hids : BrokerIds id l)
    {before after : List μ} {m : μ} (hsplit : appendedTo topic l = before ++ m :: after) :
    ((runFrom (step id) (new opts) l).since id topic (some (id m)) now).2 =
      ((runFrom (step id) (new opts) l).retained topic now).filter
        fun x => decide (id x ∈ after.map id) := by
  have hm : m ∈ appendedTo topic l := hsplit ▸ List.mem_append_right _ List.mem_cons_self
  have hsuffix : (runFrom (step id) (new opts) l).retained topic now <:+ appendedTo topic l :=
    retained_suffix.trans (kept_run opts topic l)
  rw [since_snd_of_isBrokerId (hids.isBrokerId hm)]
  exact resume_eq_filter (hsplit ▸ hsuffix) (hsplit ▸ hids.nodup topic)

/-- A happening leaves a client following its topic.
Kind: L -/
theorem following_step {l : List (Event μ)} {c : Client μ} (h : Happening μ)
    (hids : BrokerIds id (l ++ others [h]))
    (hc : Following (appendedTo topic l) (c.ring.kept topic) c.received) :
    Following (appendedTo topic (l ++ others [h])) ((c.step id topic h).ring.kept topic)
      (c.step id topic h).received := by
  cases h with
  | other e =>
      have hone : others [Happening.other e] = [e] := rfl
      rw [hone] at hids ⊢
      have hstep := @kept_step μ id c.ring topic e
      rw [appendedTo_append]
      have hnodup := hids.nodup topic
      rw [appendedTo_append] at hnodup
      rcases appendedTo_singleton topic e with hadd | ⟨x, hadd⟩
      · rw [hadd, List.append_nil] at hstep ⊢
        exact hc.drop hstep
      · rw [hadd] at hstep hnodup ⊢
        have hx : x ∉ appendedTo topic l := by
          intro hmem
          rw [List.map_append] at hnodup
          exact (List.nodup_append.mp hnodup).2.2 _ (List.mem_map_of_mem hmem) _
            List.mem_cons_self rfl
        exact (hc.add hx).drop hstep
  | poll now =>
      have hnone : others [Happening.poll now] = ([] : List (Event μ)) := rfl
      rw [hnone, List.append_nil] at hids ⊢
      have hkept : (c.step id topic (.poll now)).ring.kept topic = c.ring.retained topic now :=
        kept_since_self _
      rw [hkept]
      have hdrop := hc.drop (@retained_suffix μ c.ring topic now)
      unfold Client.step Client.cursor
      cases hlast : c.received.getLast? with
      | none =>
          rw [List.getLast?_eq_none_iff.mp hlast] at hdrop ⊢
          simp only [since_snd_all, List.nil_append]
          exact hdrop.readAll
      | some m =>
          have hm : m ∈ appendedTo topic l := hc.subset (List.mem_of_getLast? hlast)
          simp only [since_snd_of_isBrokerId (hids.isBrokerId hm)]
          exact hdrop.resume (hids.nodup topic) hlast

/-- A client that starts at its place in the log and polls follows its topic.
Kind: L -/
theorem following_run (opts : RingOptions) {l₀ : List (Event μ)} {seen rest : List μ}
    (hseen : appendedTo topic l₀ = seen ++ rest) (l : List (Happening μ))
    (hids : BrokerIds id (l₀ ++ others l)) :
    Following (appendedTo topic (l₀ ++ others l))
      ((runFrom (Client.step id topic) ⟨runFrom (step id) (new opts) l₀, seen⟩ l).ring.kept topic)
      (runFrom (Client.step id topic) ⟨runFrom (step id) (new opts) l₀, seen⟩ l).received := by
  induction l using List.reverseRecOn with
  | nil =>
      have hnone : others ([] : List (Happening μ)) = [] := rfl
      rw [hnone, List.append_nil]
      exact ⟨kept_run opts topic l₀, seen, rest, hseen, rfl, List.Sublist.refl seen, fun _ _ hx => hx⟩
  | append_singleton l h ih =>
      have hothers : l₀ ++ others (l ++ [h]) = l₀ ++ others l ++ others [h] := by
        unfold others
        rw [List.filterMap_append, List.append_assoc]
      rw [hothers] at hids ⊢
      rw [runFrom_append]
      exact following_step h hids (ih hids.left)

/-- A poll leaves no retained message behind.
Kind: L -/
theorem mem_received_poll {l : List (Event μ)} {c : Client μ} (hids : BrokerIds id l)
    (hc : Following (appendedTo topic l) (c.ring.kept topic) c.received) {x : μ}
    (hx : x ∈ c.ring.retained topic now) :
    x ∈ (c.step id topic (.poll now)).received := by
  have hdrop := hc.drop (@retained_suffix μ c.ring topic now)
  unfold Client.step Client.cursor
  cases hlast : c.received.getLast? with
  | none =>
      simp only [since_snd_all]
      exact List.mem_append_right _ hx
  | some m =>
      simp only [since_snd_of_isBrokerId (hids.isBrokerId (hc.subset (List.mem_of_getLast? hlast)))]
      exact hdrop.mem_resume (hids.nodup topic) hlast hx

/-- **Catch-up is exactly once.** Asked with the id of any message ever appended to a topic, retained
or not, the ring hands out exactly the messages of the topic that are retained and were appended after
it, oldest first. So a client that polls each time with the id of the last message it has received, from
wherever in the topic it starts, receives no message twice, and lacks no retained message after a poll.
Source: `lib/notify.js`, `NotifyRing`
Kind: P -/
theorem catchUp_exactlyOnce (id : μ → JsString) (opts : RingOptions) (l₀ : List (Event μ))
    (hids : BrokerIds id l₀) :
    (∀ topic before m after now, appendedTo topic l₀ = before ++ m :: after →
      let ring := runFrom (step id) (new opts) l₀
      (ring.since id topic (some (id m)) now).2 =
          (ring.retained topic now).filter (fun x => decide (id x ∈ after.map id)) ∧
        ring.retained topic now <:+ appendedTo topic l₀) ∧
    ∀ topic seen rest l, appendedTo topic l₀ = seen ++ rest → BrokerIds id (l₀ ++ others l) →
      let c := runFrom (Client.step id topic) ⟨runFrom (step id) (new opts) l₀, seen⟩ l
      (c.received.map id).Nodup ∧
        ∀ now, ∀ x ∈ c.ring.retained topic now, x ∈ (c.step id topic (.poll now)).received := by
  constructor
  · intro topic before m after now hsplit
    exact ⟨since_eq hids hsplit, retained_suffix.trans (kept_run opts topic l₀)⟩
  · intro topic seen rest l hseen hids'
    have hfollow := following_run opts hseen l hids'
    exact ⟨hfollow.nodup (hids'.nodup topic), fun now x hx => mem_received_poll hids' hfollow hx⟩

/-- Two messages of one topic, in a ring that keeps one.
Kind: D -/
def twoAppends : List (Event JsString) :=
  [.append (js "t") (js "n-a1") 1, .append (js "t") (js "n-b2") 2]

/-- The ring has dropped the first message, and still knows what came after it.
Kind: C -/
theorem catchUp_exactlyOnce_dropped :
    BrokerIds (fun m => m) twoAppends ∧
      let ring := runFrom (step fun m => m) (new ⟨none, some 1, none⟩) twoAppends
      ring.retained (js "t") 3 = [js "n-b2"] ∧
        (ring.since (fun m => m) (js "t") (some (js "n-a1")) 3).2 = [js "n-b2"] := by
  have hids : BrokerIds (fun m => m) twoAppends :=
    ⟨by decide, by decide⟩
  have hkept : (runFrom (step fun m => m) (new ⟨none, some 1, none⟩) twoAppends).retained (js "t") 3 =
      [js "n-b2"] := by decide +kernel
  have hall := (catchUp_exactlyOnce (fun m => m) ⟨none, some 1, none⟩ twoAppends hids).1 (js "t") []
    (js "n-a1") [js "n-b2"] 3 rfl
  refine ⟨hids, hkept, hall.1.trans ?_⟩
  rw [hkept]
  decide

end CatchUp

end NotifyRing

end TyoMq.Notify
