import Mathlib.Data.List.TakeWhile
import TyoMq.Broker.Directory
import TyoMq.Broker.Topics
import TyoMq.Lib.RoundRobin

/-!
# Routing

Which subscriptions a message goes to that is produced in a realm (`generateMessage`).

* `mem_calls_iff`: a subscription is called for in the realm itself or in the realm of everybody, under one
  of the three names of the event where its consumer has subscribed to the producer, or under a pattern
  that the event matches.
* `generateMessage_exact`: where the source does not fail, the message goes to each subscription outside
  groups that is called for, once for each time it is, and to the member of each group whose turn it is.
* `routed`: what that comes to, the failures included.
-/

namespace TyoMq.Broker

open Lib

/-- A subscription that a message is for.
Kind: D -/
structure Dispatch where
  /-- The realm. -/
  realm : JsString
  /-- What it subscribes to. -/
  eventStr : Name
  /-- Its key. -/
  key : Name
  /-- The subscription. -/
  subscription : Subscriber
  /-- Its consumer. -/
  consumer : ConsumerMeta
  deriving DecidableEq

/-- What is produced.
Source: `lib/server.js`, `generateMessage`
Kind: D -/
structure Produced where
  /-- The event. -/
  event : JsString
  /-- `String(event).toLowerCase()`. -/
  topic : JsString
  /-- The producer. -/
  producer : Name
  /-- Is it guaranteed? -/
  guaranteed : Bool
  /-- Does it come from another node? -/
  relay : Bool

/-- The members of a group that a message is for.
Source: `lib/server.js`, `generateMessage`
Kind: D -/
structure Bucket where
  /-- The realm. -/
  realm : JsString
  /-- The group. -/
  group : Name
  /-- The members, in the order in which they were found. -/
  members : List Dispatch

/-- How far a message has got.
Kind: D -/
structure Progress where
  /-- The groups it is for. -/
  groupBuckets : JsMap JsString Bucket
  /-- The subscriptions it has been delivered to. -/
  delivered : List Dispatch
  /-- Has the source failed? -/
  failed : Bool

/-- A realm by its id.
Kind: D -/
abbrev RealmEntry := JsString × Realm

/-- The three names under which an event of a producer is subscribed to.
Source: `lib/server.js`, `generateMessage`
Kind: D -/
def eventNames (P : Protocol) (m : Produced) : List Name :=
  [P.toConsumerEvent m.event m.producer, P.toConsumerEventAll m.producer,
    P.toConsumerEvent m.event P.ALL_PUBLISHERS]

/-- The realms that a message goes to: its own and, where there is one, that of everybody.
Source: `lib/server.js`, `generateMessage`
Kind: D -/
def targetRealms (own : RealmEntry) (all : Option RealmEntry) : List RealmEntry :=
  own :: (all.filter fun a => a.1 ≠ own.1).toList

/-- The subscription with its consumer.
Kind: D -/
def dispatchOf (P : Protocol) (T : RealmEntry) (eventStr : Name) (e : Name × Subscriber) : Dispatch :=
  ⟨T.1, eventStr, e.1, e.2, T.2.getConsumerMetaInfo (e.2.name.getD P.ANONYMOUS)⟩

/-- Has the consumer subscribed to the producer?
Source: `lib/server.js`, `generateMessage`
Kind: D -/
def subscribesTo (P : Protocol) (producer : Name) (d : Dispatch) : Bool :=
  d.consumer.subscribeTos.contains P.ALL_PUBLISHERS ∨ d.consumer.subscribeTos.contains producer

/-- The subscriptions called for under one of the three names.
Source: `lib/server.js`, `generateMessage`
Kind: D -/
def exactCalls (P : Protocol) (m : Produced) (T : RealmEntry) (eventStr : Name) : List Dispatch :=
  ((T.2.getEventSubscriptions eventStr).entries.map (dispatchOf P T eventStr)).filter
    (subscribesTo P m.producer)

/-- The subscriptions called for under a pattern.
Source: `lib/server.js`, `generateMessage`
Kind: D -/
def patternCalls (P : Protocol) (m : Produced) (T : RealmEntry) (e : Name × JsString) : List Dispatch :=
  if (eventNames P m).contains e.1 then []
  else if topicMatches e.2 m.topic then
    (T.2.getEventSubscriptions e.1).entries.map (dispatchOf P T e.1)
  else []

/-- The subscriptions called for, in order.
Source: `lib/server.js`, `generateMessage`
Kind: D -/
def calls (P : Protocol) (m : Produced) (own : RealmEntry) (all : Option RealmEntry) : List Dispatch :=
  (targetRealms own all).flatMap fun T =>
    (eventNames P m).flatMap (exactCalls P m T) ++ T.2.topicPatterns.entries.flatMap (patternCalls P m T)

/-- Does delivery fail? It does where the consumer is online and has to acknowledge what is not queued.
Source: `lib/server.js`, `deliverToSubscription`, `enqueueAndDeliverReliable`
Kind: D -/
def failsOn (guaranteed : Bool) (d : Dispatch) : Bool :=
  d.consumer.socket.isSome ∧ d.subscription.delivery.ack_required ∧ !d.subscription.delivery.durable ∧
    !guaranteed

/-- Source: `lib/server.js`, `deliverToSubscription`
Kind: D -/
def Progress.deliver (guaranteed : Bool) (p : Progress) (d : Dispatch) : Progress :=
  if p.failed then p
  else if failsOn guaranteed d then { p with failed := true }
  else { p with delivered := p.delivered ++ [d] }

/-- The key of a group's bucket.
Source: `lib/server.js`, `generateMessage`
Kind: D -/
def bucketKey (realm : JsString) (group : Name) : JsString := realm ++ js "\n" ++ group.1

/-- Source: `lib/server.js`, `generateMessage`, `dispatch`
Kind: D -/
def dispatch (m : Produced) (p : Progress) (d : Dispatch) : Progress :=
  if p.failed then p
  else
    match d.subscription.group with
    | some group =>
        if m.relay then p
        else
          let key := bucketKey d.realm group
          let bucket := (p.groupBuckets.get key).getD ⟨d.realm, group, []⟩
          { p with groupBuckets := p.groupBuckets.set key { bucket with members := bucket.members ++ [d] } }
    | none =>
        if m.relay ∧ d.consumer.socket = none then p else p.deliver m.guaranteed d

/-- The members of a group that may be served: those online or, where nobody is, all.
Source: `lib/server.js`, `generateMessage`
Kind: D -/
def Bucket.candidates (b : Bucket) : List Dispatch :=
  let online := b.members.filter fun d => d.consumer.socket.isSome
  if online.isEmpty then b.members else online

/-- What is known of the groups' turns: how often each group of each realm has been served.
Source: `lib/server.js`, `generateMessage`, `groupCounters`
Kind: D -/
abbrev Turns := JsString → Name → ℕ

/-- The member whose turn it is.
Source: `lib/server.js`, `generateMessage`
Kind: D -/
def Bucket.target (b : Bucket) (turns : Turns) : Option Dispatch :=
  turn b.candidates (turns b.realm b.group)

/-- The group has been served once more.
Kind: D -/
def Turns.next (turns : Turns) (realm : JsString) (group : Name) : Turns := fun realm' group' =>
  if realm' = realm ∧ group' = group then turns realm group + 1 else turns realm' group'

/-- A message is delivered to the member of a group whose turn it is.
Source: `lib/server.js`, `generateMessage`
Kind: D -/
def serve (m : Produced) (p : Turns × Progress) (e : JsString × Bucket) : Turns × Progress :=
  if p.2.failed then p
  else
    match e.2.target p.1 with
    | none => (p.1.next e.2.realm e.2.group, { p.2 with failed := true })
    | some d => (p.1.next e.2.realm e.2.group, p.2.deliver m.guaranteed d)

/-- Source: `lib/server.js`, `generateMessage`
Kind: D -/
def generateMessage (P : Protocol) (m : Produced) (own : RealmEntry) (all : Option RealmEntry)
    (turns : Turns) : Turns × Progress :=
  let p := (calls P m own all).foldl (dispatch m) ⟨JsMap.empty, [], false⟩
  p.groupBuckets.entries.foldl (serve m) (turns, p)

/-! ### Delivery until the source fails -/

section deliver

variable {guaranteed : Bool} {p : Progress} {d : Dispatch} {l : List Dispatch}

/-- What is delivered of a list: all up to the first on which the source fails.
Kind: D -/
def served (guaranteed : Bool) (l : List Dispatch) : List Dispatch :=
  l.takeWhile fun d => !failsOn guaranteed d

/-- Progress along a list.
Kind: D -/
structure Delivered (guaranteed : Bool) (l : List Dispatch) (p : Progress) : Prop where
  /-- What has been delivered. -/
  delivered : p.delivered = served guaranteed l
  /-- Whether the source has failed. -/
  failed : p.failed = l.any (failsOn guaranteed)

theorem served_eq_self (h : l.any (failsOn guaranteed) = false) : served guaranteed l = l := by
  rw [served, List.takeWhile_eq_self_iff]
  simpa using h

/-- Past the first on which the source fails nothing is delivered.
Kind: L -/
theorem served_append (l l' : List Dispatch) :
    served guaranteed (l ++ l') =
      if l.any (failsOn guaranteed) then served guaranteed l else l ++ served guaranteed l' := by
  have hlen : (served guaranteed l).length = l.length ↔ l.any (failsOn guaranteed) = false := by
    constructor
    · intro h
      have heq : served guaranteed l = l := (List.takeWhile_prefix _).eq_of_length h
      simpa [served, List.takeWhile_eq_self_iff] using heq
    · exact fun h => congrArg List.length (served_eq_self h)
  unfold served at hlen ⊢
  rw [List.takeWhile_append]
  by_cases h : l.any (failsOn guaranteed) = true
  · rw [if_neg (by rw [hlen, h]; simp), if_pos h]
  · rw [if_pos (hlen.mpr (by simpa using h)), if_neg h]

/-- One more.
Kind: L -/
theorem Delivered.deliver (h : Delivered guaranteed l p) (d : Dispatch) :
    Delivered guaranteed (l ++ [d]) (p.deliver guaranteed d) := by
  obtain ⟨hdelivered, hfailed⟩ := h
  by_cases hany : l.any (failsOn guaranteed) = true
  · have hp : p.failed = true := hfailed.trans hany
    have hstop : p.deliver guaranteed d = p := if_pos hp
    refine ⟨?_, ?_⟩
    · rw [hstop, served_append, if_pos hany, hdelivered]
    · rw [hstop, hp, List.any_append, hany, Bool.true_or]
  · have hnone : l.any (failsOn guaranteed) = false := by simpa using hany
    have hp : p.failed = false := hfailed.trans hnone
    rw [served_eq_self hnone] at hdelivered
    by_cases hd : failsOn guaranteed d = true
    · have hstop : p.deliver guaranteed d = { p with failed := true } := by
        simp [Progress.deliver, hp, hd]
      refine ⟨?_, ?_⟩
      · rw [hstop, served_append, if_neg hany]
        simp [served, hd, hdelivered]
      · simp [hstop, hd]
    · have hgo : p.deliver guaranteed d = { p with delivered := p.delivered ++ [d] } := by
        simp [Progress.deliver, hp, hd]
      refine ⟨?_, ?_⟩
      · rw [hgo, served_append, if_neg hany]
        simp [served, hd, hdelivered]
      · rw [hgo, List.any_append, hnone]
        simp [hp, hd]

end deliver

/-! ### The calls, one after the other -/

/-- Is the subscription served on its own?
Kind: D -/
def direct (m : Produced) (d : Dispatch) : Bool :=
  d.subscription.group = none ∧ !(m.relay ∧ d.consumer.socket = none)

/-- Is it served as a member of the group?
Kind: D -/
def inGroup (m : Produced) (realm : JsString) (group : Name) (d : Dispatch) : Bool :=
  !m.relay ∧ d.realm = realm ∧ d.subscription.group = some group

/-- The buckets hold the members among the calls so far.
Kind: D -/
structure Sorted (m : Produced) (l : List Dispatch) (buckets : JsMap JsString Bucket) : Prop where
  /-- Each bucket has its members, of which there is one at least. -/
  members : ∀ key b, buckets.get key = some b → key = bucketKey b.realm b.group ∧
    b.members = l.filter (inGroup m b.realm b.group) ∧ ∃ d ∈ l, inGroup m b.realm b.group d = true
  /-- Each member has its bucket. -/
  found : ∀ d ∈ l, ∀ realm group, inGroup m realm group d = true →
    ∃ b, buckets.get (bucketKey realm group) = some b ∧ b.realm = realm ∧ b.group = group

theorem bucketKey_inj {realm realm' : JsString} {group group' : Name} (h : unit '\n' ∉ realm)
    (h' : unit '\n' ∉ realm') (heq : bucketKey realm group = bucketKey realm' group') :
    realm = realm' ∧ group = group' := by
  have hjs : js "\n" = [unit '\n'] := rfl
  simp only [bucketKey, hjs, List.append_assoc, List.singleton_append] at heq
  obtain ⟨hrealm, hgroup⟩ := (append_cons_inj h h').mp heq
  exact ⟨hrealm, Subtype.ext hgroup⟩

/-- What the calls so far have come to.
Kind: D -/
structure Reached (m : Produced) (l : List Dispatch) (p : Progress) : Prop where
  /-- What has been delivered. -/
  direct : Delivered m.guaranteed (l.filter (direct m)) p
  /-- The buckets, unless the source has failed. -/
  sorted : p.failed = false → Sorted m l p.groupBuckets

theorem inGroup_iff {m : Produced} {realm : JsString} {group : Name} {d : Dispatch} :
    inGroup m realm group d = true ↔
      m.relay = false ∧ d.realm = realm ∧ d.subscription.group = some group := by
  simp [inGroup]

/-- A call for a member of a group goes to its bucket.
Kind: L -/
theorem Sorted.insert {m : Produced} {l : List Dispatch} {buckets : JsMap JsString Bucket}
    (h : Sorted m l buckets) {d : Dispatch} {group : Name} (hgroup : d.subscription.group = some group)
    (hrelay : m.relay = false) (hl : ∀ c ∈ l ++ [d], unit '\n' ∉ c.realm) {bucket : Bucket}
    (hbucket : bucket = (buckets.get (bucketKey d.realm group)).getD ⟨d.realm, group, []⟩) :
    Sorted m (l ++ [d])
      (buckets.set (bucketKey d.realm group) { bucket with members := bucket.members ++ [d] }) := by
  have hd : ∀ realm group', inGroup m realm group' d = true ↔ d.realm = realm ∧ group = group' := by
    intro realm group'
    rw [inGroup_iff, hgroup, Option.some_inj]
    exact and_iff_right hrelay
  have hnew : bucket.realm = d.realm ∧ bucket.group = group ∧
      bucket.members = l.filter (inGroup m d.realm group) := by
    rcases hget : buckets.get (bucketKey d.realm group) with _ | b
    · have hnil : l.filter (inGroup m d.realm group) = [] := by
        rw [List.filter_eq_nil_iff]
        intro c hc hin
        obtain ⟨b, hb, -⟩ := h.found c hc _ _ hin
        rw [hget] at hb
        exact absurd hb (by simp)
      rw [hbucket, hget, hnil]
      exact ⟨rfl, rfl, rfl⟩
    · obtain ⟨hkey, hmembers, c, hc, hin⟩ := h.members _ b hget
      have hrealm : unit '\n' ∉ b.realm := by
        rw [← (inGroup_iff.mp hin).2.1]
        exact hl c (List.mem_append_left _ hc)
      obtain ⟨hr, hg⟩ := bucketKey_inj (hl d (by simp)) hrealm hkey
      rw [hbucket, hget, Option.getD_some, hr, hg]
      exact ⟨rfl, rfl, hmembers⟩
  obtain ⟨hrealm, hgroup', hmembers⟩ := hnew
  refine ⟨fun key b hb => ?_, fun c hc realm group' hin => ?_⟩
  · rw [JsMap.get_set] at hb
    split_ifs at hb with hkey
    · obtain rfl := Option.some.inj hb
      have hself : inGroup m d.realm group d = true := (hd _ _).mpr ⟨rfl, rfl⟩
      dsimp only
      rw [hrealm, hgroup', hmembers]
      exact ⟨hkey, by simp [hself], d, by simp, hself⟩
    · obtain ⟨hk, hm, c, hc, hin⟩ := h.members key b hb
      have hother : inGroup m b.realm b.group d = false := by
        rw [Bool.eq_false_iff]
        intro hin'
        obtain ⟨hr, hg⟩ := (hd _ _).mp hin'
        exact hkey (by rw [hk, ← hr, ← hg])
      exact ⟨hk, by rw [List.filter_append, hm]; simp [hother], c, List.mem_append_left _ hc, hin⟩
  · rcases List.mem_append.mp hc with hc | hc
    · obtain ⟨b, hb, hbr, hbg⟩ := h.found c hc realm group' hin
      by_cases hkey : bucketKey realm group' = bucketKey d.realm group
      · rw [hkey] at hb
        rw [hb, Option.getD_some] at hbucket
        exact ⟨_, by rw [JsMap.get_set, if_pos hkey], by rw [hbucket, hbr], by rw [hbucket, hbg]⟩
      · exact ⟨b, by rw [JsMap.get_set, if_neg hkey, hb], hbr, hbg⟩
    · obtain rfl := List.mem_singleton.mp hc
      obtain ⟨rfl, rfl⟩ := (hd _ _).mp hin
      exact ⟨{ bucket with members := bucket.members ++ [c] }, by rw [JsMap.get_set, if_pos rfl], hrealm,
        hgroup'⟩

/-- One more call.
Kind: L -/
theorem Reached.dispatch {m : Produced} {l : List Dispatch} {p : Progress} (h : Reached m l p)
    (d : Dispatch) (hl : ∀ c ∈ l ++ [d], unit '\n' ∉ c.realm) :
    Reached m (l ++ [d]) (dispatch m p d) := by
  by_cases hp : p.failed = true
  · have hstop : Broker.dispatch m p d = p := if_pos hp
    have hdelivered := h.direct.deliver d
    have hsame : p.deliver m.guaranteed d = p := if_pos hp
    rw [hsame] at hdelivered
    rw [hstop]
    refine ⟨?_, fun hfalse => absurd (hp.symm.trans hfalse) (by simp)⟩
    rw [List.filter_append]
    by_cases hd : Broker.direct m d = true
    · simpa [hd] using hdelivered
    · simpa [hd] using h.direct
  have hgo : p.failed = false := by simpa using hp
  rcases hgroup : d.subscription.group with _ | group
  · by_cases hskip : m.relay = true ∧ d.consumer.socket = none
    · have hstop : Broker.dispatch m p d = p := by simp [Broker.dispatch, hgo, hgroup, hskip]
      have hd : Broker.direct m d = false := by simp [Broker.direct, hskip]
      rw [hstop]
      refine ⟨by simpa [hd] using h.direct, fun hfalse => ⟨fun key b hb => ?_, fun c hc realm group hin => ?_⟩⟩
      · obtain ⟨hk, hm, c, hc, hin⟩ := (h.sorted hfalse).members key b hb
        exact ⟨hk, by rw [hm]; simp [inGroup, hgroup], c, List.mem_append_left _ hc, hin⟩
      · rcases List.mem_append.mp hc with hc | hc
        · exact (h.sorted hfalse).found c hc realm group hin
        · obtain rfl := List.mem_singleton.mp hc
          exact absurd (inGroup_iff.mp hin).2.2 (by simp [hgroup])
    · have hstep : Broker.dispatch m p d = p.deliver m.guaranteed d := by
        simp [Broker.dispatch, hgo, hgroup, hskip]
      have hd : Broker.direct m d = true := by
        simpa [Broker.direct, hgroup, imp_iff_not_or] using hskip
      have hbuckets : (p.deliver m.guaranteed d).groupBuckets = p.groupBuckets := by
        unfold Progress.deliver
        split_ifs <;> rfl
      rw [hstep]
      refine ⟨by simpa [hd] using h.direct.deliver d, fun _ => ⟨fun key b hb => ?_, fun c hc realm group hin => ?_⟩⟩
      · rw [hbuckets] at hb
        obtain ⟨hk, hm, c, hc, hin⟩ := (h.sorted hgo).members key b hb
        exact ⟨hk, by rw [hm]; simp [inGroup, hgroup], c, List.mem_append_left _ hc, hin⟩
      · rw [hbuckets]
        rcases List.mem_append.mp hc with hc | hc
        · exact (h.sorted hgo).found c hc realm group hin
        · obtain rfl := List.mem_singleton.mp hc
          exact absurd (inGroup_iff.mp hin).2.2 (by simp [hgroup])
  · have hd : Broker.direct m d = false := by simp [Broker.direct, hgroup]
    by_cases hrelay : m.relay = true
    · have hstop : Broker.dispatch m p d = p := by simp [Broker.dispatch, hgo, hgroup, hrelay]
      rw [hstop]
      refine ⟨by simpa [hd] using h.direct, fun hfalse => ⟨fun key b hb => ?_, fun c hc realm group hin => ?_⟩⟩
      · obtain ⟨hk, hm, c, hc, hin⟩ := (h.sorted hfalse).members key b hb
        exact absurd (inGroup_iff.mp hin).1 (by simp [hrelay])
      · exact absurd (inGroup_iff.mp hin).1 (by simp [hrelay])
    · have hlocal : m.relay = false := by simpa using hrelay
      have hstep : Broker.dispatch m p d = { p with
          groupBuckets := p.groupBuckets.set (bucketKey d.realm group)
            { (p.groupBuckets.get (bucketKey d.realm group)).getD ⟨d.realm, group, []⟩ with
              members := ((p.groupBuckets.get (bucketKey d.realm group)).getD ⟨d.realm, group, []⟩).members
                ++ [d] } } := by
        simp [Broker.dispatch, hgo, hgroup, hlocal]
      rw [hstep]
      refine ⟨by simpa [hd] using ⟨h.direct.delivered, h.direct.failed⟩, fun _ => ?_⟩
      exact (h.sorted hgo).insert hgroup hlocal hl rfl

/-- What all the calls come to.
Kind: L -/
theorem reached_foldl (m : Produced) (l : List Dispatch) (hl : ∀ c ∈ l, unit '\n' ∉ c.realm) :
    Reached m l (l.foldl (dispatch m) ⟨JsMap.empty, [], false⟩) := by
  induction l using List.reverseRecOn with
  | nil => exact ⟨⟨rfl, rfl⟩, fun _ => ⟨by simp, by simp⟩⟩
  | append_singleton l d ih =>
      rw [List.foldl_append]
      exact (ih fun c hc => hl c (List.mem_append_left _ hc)).dispatch d hl

/-! ### The groups, one after the other -/

/-- The key of a group.
Kind: D -/
def Bucket.who (b : Bucket) : JsString × Name := (b.realm, b.group)

theorem Bucket.candidates_ne_nil {b : Bucket} (h : b.members ≠ []) : b.candidates ≠ [] := by
  unfold Bucket.candidates
  dsimp only
  split_ifs with hempty
  · exact h
  · simpa using hempty

/-- The members whose turn it is.
Kind: L -/
theorem Bucket.target_mem {b : Bucket} {turns : Turns} {d : Dispatch} (h : b.target turns = some d) :
    d ∈ b.members := by
  have hmem : d ∈ b.candidates := List.mem_of_getElem? h
  unfold Bucket.candidates at hmem
  dsimp only at hmem
  split_ifs at hmem
  · exact hmem
  · exact (List.mem_filter.mp hmem).1

theorem Bucket.exists_target {b : Bucket} (h : b.members ≠ []) (turns : Turns) :
    ∃ d, b.target turns = some d := by
  have hpos : 0 < b.candidates.length := List.length_pos_iff.mpr (Bucket.candidates_ne_nil h)
  exact ⟨_, List.getElem?_eq_getElem (Nat.mod_lt _ hpos)⟩

theorem Turns.next_self (turns : Turns) (realm : JsString) (group : Name) :
    turns.next realm group realm group = turns realm group + 1 := by
  simp [Turns.next]

theorem Turns.next_of_ne (turns : Turns) {realm realm' : JsString} {group group' : Name}
    (h : (realm', group') ≠ (realm, group)) :
    turns.next realm group realm' group' = turns realm' group' := by
  have hne : ¬ (realm' = realm ∧ group' = group) := fun hc => h (by rw [hc.1, hc.2])
  simp [Turns.next, hne]

/-- What has come of the groups.
Kind: D -/
structure Served (m : Produced) (turns : Turns) (buckets : List Bucket) (l : List Dispatch)
    (r : Turns × Progress) : Prop where
  /-- What has been delivered. -/
  delivered : Delivered m.guaranteed (l ++ buckets.filterMap fun b => b.target turns) r.2
  /-- The turns of the groups. -/
  advanced : r.2.failed = false → ∀ realm group, r.1 realm group =
    turns realm group + if (realm, group) ∈ buckets.map Bucket.who then 1 else 0
  /-- Where the source fails, some groups have had theirs. -/
  taken : ∀ realm group, r.1 realm group = turns realm group ∨
    r.1 realm group = turns realm group + 1 ∧ (realm, group) ∈ buckets.map Bucket.who

/-- The groups are served one after the other.
Kind: L -/
theorem served_foldl {m : Produced} {entries : List (JsString × Bucket)} {turns : Turns} {p : Progress}
    {l : List Dispatch} (hp : Delivered m.guaranteed l p)
    (hnodup : (entries.map fun e => e.2.who).Nodup) (hne : ∀ e ∈ entries, e.2.members ≠ []) :
    Served m turns (entries.map Prod.snd) l (entries.foldl (serve m) (turns, p)) := by
  induction entries generalizing turns p l with
  | nil => exact ⟨by simpa using hp, by simp, fun _ _ => Or.inl rfl⟩
  | cons e entries ih =>
      obtain ⟨d, htarget⟩ := Bucket.exists_target (hne e (by simp)) turns
      obtain ⟨hfresh, hnodup⟩ := List.nodup_cons.mp hnodup
      have hne' : ∀ e' ∈ entries, e'.2.members ≠ [] := fun e' he' => hne e' (List.mem_cons_of_mem _ he')
      by_cases hfailed : p.failed = true
      · have hstop : ∀ (entries : List (JsString × Bucket)),
            entries.foldl (serve m) (turns, p) = (turns, p) := by
          intro entries
          induction entries with
          | nil => rfl
          | cons e entries ih => rw [List.foldl_cons, show serve m (turns, p) e = (turns, p) from if_pos hfailed, ih]
        rw [hstop]
        refine ⟨⟨?_, ?_⟩, fun hfalse => absurd (hfailed.symm.trans hfalse) (by simp), fun _ _ => Or.inl rfl⟩
        · rw [served_append, if_pos (hp.failed ▸ hfailed)]
          exact hp.delivered
        · rw [List.any_append, ← hp.failed, hfailed, Bool.true_or]
      · have hstep : serve m (turns, p) e = (turns.next e.2.realm e.2.group, p.deliver m.guaranteed d) := by
          simp [serve, hfailed, htarget]
        have hsame : ∀ b ∈ entries.map Prod.snd,
            b.target (turns.next e.2.realm e.2.group) = b.target turns := by
          intro b hb
          obtain ⟨e', he', rfl⟩ := List.mem_map.mp hb
          have hother : e'.2.who ≠ e.2.who := fun heq =>
            hfresh (List.mem_map.mpr ⟨e', he', heq⟩)
          rw [Bucket.target, Turns.next_of_ne turns hother, Bucket.target]
        have hrest : Served m (turns.next e.2.realm e.2.group) (entries.map Prod.snd) (l ++ [d])
            (entries.foldl (serve m) (turns.next e.2.realm e.2.group, p.deliver m.guaranteed d)) :=
          ih (hp.deliver d) hnodup hne'
        have hnot : (e.2.realm, e.2.group) ∉ (entries.map Prod.snd).map Bucket.who := by
          rw [List.map_map]
          exact hfresh
        rw [List.foldl_cons, hstep]
        refine ⟨?_, fun hfalse realm group => ?_, fun realm group => ?_⟩
        · have hchosen := hrest.delivered
          rw [List.filterMap_congr hsame] at hchosen
          simpa [htarget] using hchosen
        · rw [hrest.advanced hfalse]
          by_cases hwho : (realm, group) = e.2.who
          · obtain ⟨rfl, rfl⟩ := Prod.mk.inj hwho
            rw [if_neg hnot, Turns.next_self, if_pos (by simp [Bucket.who])]
          · rw [Turns.next_of_ne turns hwho]
            have hiff : (realm, group) ∈ ((e :: entries).map Prod.snd).map Bucket.who ↔
                (realm, group) ∈ (entries.map Prod.snd).map Bucket.who := by
              simp [hwho]
            simp only [hiff]
        · by_cases hwho : (realm, group) = e.2.who
          · obtain ⟨rfl, rfl⟩ := Prod.mk.inj hwho
            rcases hrest.taken e.2.realm e.2.group with hsame' | ⟨-, hin⟩
            · exact Or.inr ⟨by rw [hsame', Turns.next_self], by simp [Bucket.who]⟩
            · exact absurd hin hnot
          · have htaken := hrest.taken realm group
            rw [Turns.next_of_ne turns hwho] at htaken
            exact htaken.imp_right fun h => ⟨h.1, List.mem_cons_of_mem _ h.2⟩

/-! ### The whole message -/

/-- The group with the members that a message is for.
Kind: D -/
def groupOf (P : Protocol) (m : Produced) (own : RealmEntry) (all : Option RealmEntry) (realm : JsString)
    (group : Name) : Bucket :=
  ⟨realm, group, (calls P m own all).filter (inGroup m realm group)⟩

/-- A call is in one of the target realms.
Kind: L -/
theorem realm_of_mem_calls {P : Protocol} {m : Produced} {own : RealmEntry} {all : Option RealmEntry}
    {d : Dispatch} (hd : d ∈ calls P m own all) : ∃ T ∈ targetRealms own all, d.realm = T.1 := by
  obtain ⟨T, hT, hd⟩ := List.mem_flatMap.mp hd
  refine ⟨T, hT, ?_⟩
  rcases List.mem_append.mp hd with hd | hd
  · obtain ⟨eventStr, -, hd⟩ := List.mem_flatMap.mp hd
    obtain ⟨e, -, rfl⟩ := List.mem_map.mp (List.mem_filter.mp hd).1
    rfl
  · obtain ⟨e, -, hd⟩ := List.mem_flatMap.mp hd
    unfold patternCalls at hd
    split_ifs at hd
    · exact absurd hd List.not_mem_nil
    · obtain ⟨e, -, rfl⟩ := List.mem_map.mp hd
      rfl
    · exact absurd hd List.not_mem_nil

/-- What comes of a message: the deliveries are those outside groups that are called for, and one to each
group, until the source fails.
Kind: L -/
theorem generateMessage_spec {P : Protocol} {m : Produced} {own : RealmEntry} {all : Option RealmEntry}
    (hown : unit '\n' ∉ own.1) (hall : ∀ a ∈ all, unit '\n' ∉ a.1) (turns : Turns) :
    ((generateMessage P m own all turns).2.failed = true ∧ (generateMessage P m own all turns).1 = turns ∧
        ∃ d ∈ (calls P m own all).filter (direct m), failsOn m.guaranteed d = true) ∨
      ∃ buckets : List Bucket, (buckets.map Bucket.who).Nodup ∧
        (∀ b ∈ buckets, b = groupOf P m own all b.realm b.group ∧ b.members ≠ []) ∧
        (∀ realm group, (groupOf P m own all realm group).members ≠ [] →
          (realm, group) ∈ buckets.map Bucket.who) ∧
        Served m turns buckets ((calls P m own all).filter (direct m)) (generateMessage P m own all turns) := by
  have hrealm : ∀ c ∈ calls P m own all, unit '\n' ∉ c.realm := by
    intro c hc
    obtain ⟨T, hT, hc⟩ := realm_of_mem_calls hc
    rw [hc]
    rcases List.mem_cons.mp hT with rfl | hT
    · exact hown
    · exact hall T (Option.mem_filter_iff.mp (Option.mem_toList.mp hT)).1
  have hreached := reached_foldl m (calls P m own all) hrealm
  unfold generateMessage
  generalize (calls P m own all).foldl (dispatch m) ⟨JsMap.empty, [], false⟩ = p at hreached
  have hdirect := hreached.direct
  by_cases hfailed : p.failed = true
  · left
    have hstop : ∀ (entries : List (JsString × Bucket)),
        entries.foldl (serve m) (turns, p) = (turns, p) := by
      intro entries
      induction entries with
      | nil => rfl
      | cons e entries ih => rw [List.foldl_cons, show serve m (turns, p) e = (turns, p) from if_pos hfailed, ih]
    refine ⟨by rw [hstop]; exact hfailed, by rw [hstop], ?_⟩
    exact List.any_eq_true.mp (hdirect.failed ▸ hfailed)
  · right
    have hsorted := hreached.sorted (by simpa using hfailed)
    have hentry : ∀ e ∈ p.groupBuckets.entries, e.1 = bucketKey e.2.realm e.2.group ∧
        e.2 = groupOf P m own all e.2.realm e.2.group ∧ e.2.members ≠ [] := by
      rintro ⟨key, b⟩ he
      obtain ⟨hkey, hmembers, d, hd, hin⟩ := hsorted.members key b (JsMap.mem_entries_iff.mp he)
      refine ⟨hkey, by rw [groupOf, ← hmembers], ?_⟩
      rw [hmembers]
      exact List.ne_nil_of_mem (List.mem_filter.mpr ⟨hd, hin⟩)
    have hnodup : (p.groupBuckets.entries.map fun e => e.2.who).Nodup := by
      have hkeys : p.groupBuckets.entries.map Prod.fst =
          (p.groupBuckets.entries.map fun e => e.2.who).map fun w => bucketKey w.1 w.2 := by
        rw [List.map_map]
        exact List.map_congr_left fun e he => (hentry e he).1
      exact List.Nodup.of_map _ (hkeys ▸ p.groupBuckets.nodup)
    refine ⟨p.groupBuckets.entries.map Prod.snd, by rw [List.map_map]; exact hnodup, ?_, ?_,
      served_foldl hdirect hnodup fun e he => (hentry e he).2.2⟩
    · intro b hb
      obtain ⟨e, he, rfl⟩ := List.mem_map.mp hb
      exact (hentry e he).2
    · intro realm group hne
      obtain ⟨d, hd⟩ := List.exists_mem_of_ne_nil _ hne
      obtain ⟨hd, hin⟩ := List.mem_filter.mp hd
      obtain ⟨b, hb, rfl, rfl⟩ := hsorted.found d hd realm group hin
      exact List.mem_map.mpr ⟨b, List.mem_map.mpr ⟨(_, b), JsMap.mem_entries_iff.mpr hb, rfl⟩, rfl⟩

/-- Of the members whose turn it is, one is in a group that is served.
Kind: L -/
theorem filter_targets {m : Produced} {turns : Turns} {buckets : List Bucket}
    (hnodup : (buckets.map Bucket.who).Nodup)
    (hin : ∀ b ∈ buckets, ∀ d ∈ b.members, inGroup m b.realm b.group d = true) (realm : JsString)
    (group : Name) :
    (buckets.filterMap fun b => b.target turns).filter (inGroup m realm group) =
      ((buckets.find? fun b => b.who = (realm, group)).bind fun b => b.target turns).toList := by
  induction buckets with
  | nil => rfl
  | cons b buckets ih =>
      obtain ⟨hfresh, hnodup⟩ := List.nodup_cons.mp hnodup
      have hrest := ih hnodup fun b' hb' => hin b' (List.mem_cons_of_mem _ hb')
      have hmember : ∀ d, b.target turns = some d →
          (inGroup m realm group d = true ↔ b.who = (realm, group)) := by
        intro d hd
        obtain ⟨hrelay, hr, hg⟩ := inGroup_iff.mp (hin b (by simp) d (Bucket.target_mem hd))
        rw [inGroup_iff, hr, hg, Option.some_inj, Bucket.who, Prod.mk.injEq]
        exact and_iff_right hrelay
      by_cases hwho : b.who = (realm, group)
      · have hnone : (buckets.find? fun b => b.who = (realm, group)) = none := by
          rw [List.find?_eq_none]
          intro b' hb' hsame
          exact hfresh (List.mem_map.mpr ⟨b', hb', by rw [hwho]; simpa using hsame⟩)
        rw [hnone] at hrest
        rw [List.find?_cons_of_pos (by simpa using hwho)]
        rcases htarget : b.target turns with _ | d
        · simpa [htarget] using hrest
        · simpa [htarget, (hmember d htarget).mpr hwho] using hrest
      · rw [List.find?_cons_of_neg (by simpa using hwho)]
        rcases htarget : b.target turns with _ | d
        · simpa [htarget] using hrest
        · have hnot : inGroup m realm group d = false := by
            rw [Bool.eq_false_iff]
            exact fun h => hwho ((hmember d htarget).mp h)
          simpa [htarget, hnot] using hrest

/-- Where the source does not fail, a message goes to the subscriptions outside groups that are called
for, and to one member of each group, whose turn it is.
Kind: L -/
theorem generateMessage_exact {P : Protocol} {m : Produced} {own : RealmEntry} {all : Option RealmEntry}
    (hown : unit '\n' ∉ own.1) (hall : ∀ a ∈ all, unit '\n' ∉ a.1) (turns : Turns)
    (hfailed : (generateMessage P m own all turns).2.failed = false) :
    (generateMessage P m own all turns).2.delivered.filter (fun d => d.subscription.group = none) =
        (calls P m own all).filter (direct m) ∧
      ∀ realm group,
        (generateMessage P m own all turns).2.delivered.filter (inGroup m realm group) =
            ((groupOf P m own all realm group).target turns).toList ∧
          (generateMessage P m own all turns).1 realm group = turns realm group +
            if (groupOf P m own all realm group).members = [] then 0 else 1 := by
  rcases generateMessage_spec hown hall turns with ⟨hfalse, -, -⟩ | ⟨buckets, hnodup, hbuckets, hfound, hserved⟩
  · exact absurd (hfalse.symm.trans hfailed) (by simp)
  have hin : ∀ b ∈ buckets, ∀ d ∈ b.members, inGroup m b.realm b.group d = true := by
    intro b hb d hd
    rw [(hbuckets b hb).1] at hd
    exact (List.mem_filter.mp hd).2
  have hdelivered := hserved.delivered.delivered
  rw [served_eq_self (hserved.delivered.failed ▸ hfailed)] at hdelivered
  have hgrouped : ∀ d ∈ buckets.filterMap (fun b => b.target turns), d.subscription.group ≠ none := by
    intro d hd
    obtain ⟨b, hb, htarget⟩ := List.mem_filterMap.mp hd
    rw [(inGroup_iff.mp (hin b hb d (Bucket.target_mem htarget))).2.2]
    simp
  have halone : ∀ d ∈ (calls P m own all).filter (direct m), d.subscription.group = none := by
    intro d hd
    have hdirect := (List.mem_filter.mp hd).2
    simp only [direct, decide_eq_true_eq] at hdirect
    exact hdirect.1
  refine ⟨?_, fun realm group => ⟨?_, ?_⟩⟩
  · have hkeep : ((calls P m own all).filter (direct m)).filter (fun d => d.subscription.group = none) =
        (calls P m own all).filter (direct m) :=
      List.filter_eq_self.mpr fun d hd => by simpa using halone d hd
    have hdrop : (buckets.filterMap fun b => b.target turns).filter (fun d => d.subscription.group = none) =
        [] := List.filter_eq_nil_iff.mpr fun d hd => by simpa using hgrouped d hd
    rw [hdelivered, List.filter_append, hkeep, hdrop, List.append_nil]
  · have hother : ((calls P m own all).filter (direct m)).filter (inGroup m realm group) = [] := by
      rw [List.filter_eq_nil_iff]
      intro d hd hingroup
      exact absurd (inGroup_iff.mp hingroup).2.2 (by simp [halone d hd])
    rw [hdelivered, List.filter_append, hother, List.nil_append, filter_targets hnodup hin]
    rcases hfind : buckets.find? (fun b => b.who = (realm, group)) with _ | b
    · have hnil : (groupOf P m own all realm group).members = [] := by
        by_contra hne
        obtain ⟨b, hb, hwho⟩ := List.mem_map.mp (hfound realm group hne)
        exact absurd (List.find?_eq_none.mp hfind b hb) (by simpa using hwho)
      rw [hfind]
      simp [Bucket.target, turn, Bucket.candidates, hnil]
    · obtain ⟨hr, hg⟩ := Prod.mk.inj (by simpa using List.find?_some hfind : b.who = (realm, group))
      have hb := (hbuckets b (List.mem_of_find?_eq_some hfind)).1
      rw [hr, hg] at hb
      rw [hfind, Option.bind_some, ← hb]
  · rw [hserved.advanced hfailed]
    by_cases hne : (groupOf P m own all realm group).members = []
    · rw [if_pos hne, if_neg]
      intro hwho
      obtain ⟨b, hb, hwho⟩ := List.mem_map.mp hwho
      obtain ⟨rfl, rfl⟩ := Prod.mk.inj hwho
      obtain ⟨hb, hmembers⟩ := hbuckets b hb
      exact hmembers (by rw [hb]; exact hne)
    · rw [if_neg hne, if_pos (hfound realm group hne)]

/-! ### What is called for -/

/-- A subscription that a message is for.
Kind: D -/
structure CalledFor (P : Protocol) (m : Produced) (own : RealmEntry) (all : Option RealmEntry)
    (d : Dispatch) : Prop where
  /-- It is in the realm of the message or in the realm of everybody. -/
  found : ∃ T ∈ targetRealms own all, d.realm = T.1 ∧
    (T.2.getEventSubscriptions d.eventStr).get d.key = some d.subscription ∧
    d.consumer = T.2.getConsumerMetaInfo (d.subscription.name.getD P.ANONYMOUS) ∧
    (d.eventStr ∈ eventNames P m ∨ ∃ pattern, T.2.topicPatterns.get d.eventStr = some pattern ∧
      (pattern = m.topic ∨ Fits (split (js "/") pattern) (split (js "/") m.topic)))
  /-- Under one of the three names, its consumer has subscribed to the producer or to all of them. -/
  subscribed : d.eventStr ∈ eventNames P m → P.ALL_PUBLISHERS ∈ d.consumer.subscribeTos ∨
    m.producer ∈ d.consumer.subscribeTos

theorem mem_map_dispatchOf {P : Protocol} {T : RealmEntry} {eventStr : Name} {d : Dispatch} :
    d ∈ (T.2.getEventSubscriptions eventStr).entries.map (dispatchOf P T eventStr) ↔
      d.realm = T.1 ∧ d.eventStr = eventStr ∧
        (T.2.getEventSubscriptions eventStr).get d.key = some d.subscription ∧
        d.consumer = T.2.getConsumerMetaInfo (d.subscription.name.getD P.ANONYMOUS) := by
  constructor
  · intro h
    obtain ⟨⟨key, sub⟩, he, rfl⟩ := List.mem_map.mp h
    exact ⟨rfl, rfl, JsMap.mem_entries_iff.mp he, rfl⟩
  · rintro ⟨hrealm, hevent, hget, hconsumer⟩
    refine List.mem_map.mpr ⟨(d.key, d.subscription), JsMap.mem_entries_iff.mpr hget, ?_⟩
    rw [dispatchOf, ← hrealm, ← hevent, ← hconsumer]

theorem mem_calls_iff {P : Protocol} {m : Produced} {own : RealmEntry} {all : Option RealmEntry}
    {d : Dispatch} : d ∈ calls P m own all ↔ CalledFor P m own all d := by
  have hexact : ∀ T eventStr, d ∈ exactCalls P m T eventStr ↔
      (d.realm = T.1 ∧ d.eventStr = eventStr ∧
        (T.2.getEventSubscriptions eventStr).get d.key = some d.subscription ∧
        d.consumer = T.2.getConsumerMetaInfo (d.subscription.name.getD P.ANONYMOUS)) ∧
      (P.ALL_PUBLISHERS ∈ d.consumer.subscribeTos ∨ m.producer ∈ d.consumer.subscribeTos) := by
    intro T eventStr
    rw [exactCalls, List.mem_filter, mem_map_dispatchOf]
    simp [subscribesTo]
  have hpattern : ∀ (T : RealmEntry) e, d ∈ patternCalls P m T e ↔ e.1 ∉ eventNames P m ∧
      topicMatches e.2 m.topic = true ∧ d.realm = T.1 ∧ d.eventStr = e.1 ∧
        (T.2.getEventSubscriptions e.1).get d.key = some d.subscription ∧
        d.consumer = T.2.getConsumerMetaInfo (d.subscription.name.getD P.ANONYMOUS) := by
    intro T e
    unfold patternCalls
    by_cases hname : e.1 ∈ eventNames P m
    · simp [hname]
    · by_cases hmatch : topicMatches e.2 m.topic = true
      · rw [if_neg (by simpa using hname), if_pos hmatch, mem_map_dispatchOf]
        simp [hname, hmatch]
      · rw [if_neg (by simpa using hname), if_neg hmatch]
        simp [hmatch]
  simp only [calls, List.mem_flatMap, List.mem_append, hexact, hpattern]
  constructor
  · rintro ⟨T, hT, ⟨eventStr, hname, ⟨hrealm, rfl, hget, hconsumer⟩, hsub⟩ |
      ⟨⟨eventStr, pattern⟩, he, hname, hmatch, hrealm, rfl, hget, hconsumer⟩⟩
    · exact ⟨⟨T, hT, hrealm, hget, hconsumer, Or.inl hname⟩, fun _ => hsub⟩
    · exact ⟨⟨T, hT, hrealm, hget, hconsumer,
        Or.inr ⟨pattern, JsMap.mem_entries_iff.mp he, topicMatches_iff.mp hmatch⟩⟩,
        fun h => absurd h hname⟩
  · rintro ⟨⟨T, hT, hrealm, hget, hconsumer, hhow⟩, hsub⟩
    by_cases hname : d.eventStr ∈ eventNames P m
    · exact ⟨T, hT, Or.inl ⟨d.eventStr, hname, ⟨hrealm, rfl, hget, hconsumer⟩, hsub hname⟩⟩
    · obtain ⟨pattern, hpat, hmatch⟩ := hhow.resolve_left hname
      exact ⟨T, hT, Or.inr ⟨(d.eventStr, pattern), JsMap.mem_entries_iff.mpr hpat, hname,
        topicMatches_iff.mpr hmatch, hrealm, rfl, hget, hconsumer⟩⟩

/-- Where the three names differ, nothing is called for twice.
Kind: L -/
theorem nodup_calls {P : Protocol} {m : Produced} {own : RealmEntry} {all : Option RealmEntry}
    (hnames : (eventNames P m).Nodup) : (calls P m own all).Nodup := by
  have hmap : ∀ (T : RealmEntry) eventStr,
      ((T.2.getEventSubscriptions eventStr).entries.map (dispatchOf P T eventStr)).Nodup := by
    intro T eventStr
    refine List.Nodup.of_map Dispatch.key ?_
    rw [List.map_map]
    exact (T.2.getEventSubscriptions eventStr).nodup
  have hexact : ∀ (T : RealmEntry) eventStr, ∀ d ∈ exactCalls P m T eventStr, d.eventStr = eventStr := by
    intro T eventStr d hd
    exact (mem_map_dispatchOf.mp (List.mem_filter.mp hd).1).2.1
  have hpattern : ∀ (T : RealmEntry) e, ∀ d ∈ patternCalls P m T e,
      d.eventStr = e.1 ∧ e.1 ∉ eventNames P m := by
    intro T e d hd
    unfold patternCalls at hd
    split_ifs at hd with hname
    · exact absurd hd List.not_mem_nil
    · exact ⟨(mem_map_dispatchOf.mp hd).2.1, by simpa using hname⟩
    · exact absurd hd List.not_mem_nil
  have hrealms : ((targetRealms own all).map Prod.fst).Nodup := by
    rcases all with _ | a
    · simp [targetRealms]
    · by_cases ha : a.1 = own.1
      · simp [targetRealms, Option.filter, ha]
      · simp [targetRealms, Option.filter, ha, Ne.symm ha]
  have hone : ∀ T : RealmEntry, ((eventNames P m).flatMap (exactCalls P m T) ++
      T.2.topicPatterns.entries.flatMap (patternCalls P m T)).Nodup := by
    intro T
    refine List.nodup_append.mpr ⟨?_, ?_, ?_⟩
    · refine List.nodup_flatMap.mpr ⟨fun eventStr _ => (hmap T eventStr).filter _, ?_⟩
      refine hnames.imp fun hne d hd hd' => hne ?_
      rw [← hexact T _ d hd, hexact T _ d hd']
    · refine List.nodup_flatMap.mpr ⟨fun e _ => ?_, ?_⟩
      · unfold patternCalls
        split_ifs
        · exact List.nodup_nil
        · exact hmap T e.1
        · exact List.nodup_nil
      · have hkeys : T.2.topicPatterns.entries.Pairwise fun e e' => e.1 ≠ e'.1 :=
          List.pairwise_map.mp T.2.topicPatterns.nodup
        refine hkeys.imp fun hne d hd hd' => hne ?_
        rw [← (hpattern T _ d hd).1, (hpattern T _ d hd').1]
    · rintro d hd d' hd' rfl
      obtain ⟨eventStr, hname, hd⟩ := List.mem_flatMap.mp hd
      obtain ⟨e, -, hd'⟩ := List.mem_flatMap.mp hd'
      obtain ⟨hevent, hnot⟩ := hpattern T e d hd'
      rw [← hevent, hexact T eventStr d hd] at hnot
      exact hnot hname
  refine List.nodup_flatMap.mpr ⟨fun T _ => hone T, ?_⟩
  have hkeys : (targetRealms own all).Pairwise fun T T' => T.1 ≠ T'.1 := List.pairwise_map.mp hrealms
  have hrealm : ∀ T : RealmEntry, ∀ d ∈ (eventNames P m).flatMap (exactCalls P m T) ++
      T.2.topicPatterns.entries.flatMap (patternCalls P m T), d.realm = T.1 := by
    intro T d hd
    rcases List.mem_append.mp hd with hd | hd
    · obtain ⟨eventStr, -, hd⟩ := List.mem_flatMap.mp hd
      exact (mem_map_dispatchOf.mp (List.mem_filter.mp hd).1).1
    · obtain ⟨e, -, hd⟩ := List.mem_flatMap.mp hd
      unfold patternCalls at hd
      split_ifs at hd
      · exact absurd hd List.not_mem_nil
      · exact (mem_map_dispatchOf.mp hd).1
      · exact absurd hd List.not_mem_nil
  refine hkeys.imp fun hne d hd hd' => hne ?_
  rw [← hrealm _ d hd, hrealm _ d hd']

/-- What is delivered was called for, members of groups only where the message is from this node.
Kind: L -/
theorem of_mem_delivered {P : Protocol} {m : Produced} {own : RealmEntry} {all : Option RealmEntry}
    (hown : unit '\n' ∉ own.1) (hall : ∀ a ∈ all, unit '\n' ∉ a.1) (turns : Turns)
    (hfailed : (generateMessage P m own all turns).2.failed = false) {d : Dispatch}
    (hd : d ∈ (generateMessage P m own all turns).2.delivered) :
    CalledFor P m own all d ∧ (d.subscription.group ≠ none → m.relay = false) := by
  rcases generateMessage_spec hown hall turns with ⟨hfalse, -, -⟩ | ⟨buckets, -, hbuckets, -, hserved⟩
  · exact absurd (hfalse.symm.trans hfailed) (by simp)
  have hdelivered := hserved.delivered.delivered
  rw [served_eq_self (hserved.delivered.failed ▸ hfailed)] at hdelivered
  rw [hdelivered] at hd
  rcases List.mem_append.mp hd with hd | hd
  · obtain ⟨hcall, hdirect⟩ := List.mem_filter.mp hd
    simp only [direct, decide_eq_true_eq] at hdirect
    exact ⟨mem_calls_iff.mp hcall, fun hgroup => absurd hdirect.1 hgroup⟩
  · obtain ⟨b, hb, htarget⟩ := List.mem_filterMap.mp hd
    have hmem := Bucket.target_mem htarget
    rw [(hbuckets b hb).1] at hmem
    obtain ⟨hcall, hin⟩ := List.mem_filter.mp hmem
    exact ⟨mem_calls_iff.mp hcall, fun _ => (inGroup_iff.mp hin).1⟩

/-- The source fails only on what is called for.
Kind: L -/
theorem exists_of_failed {P : Protocol} {m : Produced} {own : RealmEntry} {all : Option RealmEntry}
    (hown : unit '\n' ∉ own.1) (hall : ∀ a ∈ all, unit '\n' ∉ a.1) (turns : Turns)
    (hfailed : (generateMessage P m own all turns).2.failed = true) :
    ∃ d, CalledFor P m own all d ∧ failsOn m.guaranteed d = true := by
  rcases generateMessage_spec hown hall turns with ⟨-, -, d, hd, hfails⟩ | ⟨buckets, -, hbuckets, -, hserved⟩
  · exact ⟨d, mem_calls_iff.mp (List.mem_filter.mp hd).1, hfails⟩
  · obtain ⟨d, hd, hfails⟩ := List.any_eq_true.mp (hserved.delivered.failed ▸ hfailed)
    refine ⟨d, mem_calls_iff.mp ?_, hfails⟩
    rcases List.mem_append.mp hd with hd | hd
    · exact (List.mem_filter.mp hd).1
    · obtain ⟨b, hb, htarget⟩ := List.mem_filterMap.mp hd
      have hmem := Bucket.target_mem htarget
      rw [(hbuckets b hb).1] at hmem
      exact (List.mem_filter.mp hmem).1

/-- The member whose turn it is is online when any member is.
Kind: L -/
theorem Bucket.target_online {b : Bucket} {turns : Turns} {d d' : Dispatch} (h : b.target turns = some d)
    (hd' : d' ∈ b.members) (hoffline : d.consumer.socket = none) : d'.consumer.socket = none := by
  have hmem : d ∈ b.candidates := List.mem_of_getElem? h
  unfold Bucket.candidates at hmem
  dsimp only at hmem
  split_ifs at hmem with hempty
  · have hnone : ∀ c ∈ b.members, c.consumer.socket = none := by simpa using hempty
    exact hnone d' hd'
  · exact absurd (List.mem_filter.mp hmem).2 (by simp [hoffline])

/-- **Where a message goes**: unless the source fails, to each subscription outside groups that it is for,
and to one member of each group that it is for, to nothing else and to nothing twice. It is for a
subscription in its realm or in that of everybody whose consumer has subscribed to its producer, or whose
pattern its event matches. A message from another node goes to nobody offline and to no group. The source
fails only on a subscription that it is for and that is to acknowledge what is not queued for it.
Kind: P -/
theorem routed {P : Protocol} {m : Produced} {own : RealmEntry} {all : Option RealmEntry}
    (hown : unit '\n' ∉ own.1) (hall : ∀ a ∈ all, unit '\n' ∉ a.1) (hnames : (eventNames P m).Nodup)
    (turns : Turns) :
    let result := (generateMessage P m own all turns).2
    (result.failed = true → ∃ d, CalledFor P m own all d ∧ failsOn m.guaranteed d = true) ∧
      (result.failed = false → result.delivered.Nodup ∧
        (∀ d ∈ result.delivered, CalledFor P m own all d ∧
          (m.relay = true → d.subscription.group = none ∧ d.consumer.socket ≠ none)) ∧
        (∀ d, CalledFor P m own all d → d.subscription.group = none →
          (m.relay = true → d.consumer.socket ≠ none) → d ∈ result.delivered) ∧
        ∀ d' realm group, CalledFor P m own all d' → inGroup m realm group d' = true →
          ∃ d, result.delivered.filter (inGroup m realm group) = [d] ∧
            (d.consumer.socket = none → d'.consumer.socket = none)) := by
  intro result
  refine ⟨exists_of_failed hown hall turns, fun hfailed => ?_⟩
  obtain ⟨halone, hgroups⟩ := generateMessage_exact hown hall turns hfailed
  have hdelivered : ∀ d ∈ result.delivered, CalledFor P m own all d ∧
      (d.subscription.group ≠ none → m.relay = false) := fun d hd =>
    of_mem_delivered hown hall turns hfailed hd
  have hdirect : ∀ d ∈ result.delivered, d.subscription.group = none → direct m d = true := by
    intro d hd hgroup
    have hmem : d ∈ result.delivered.filter (fun d => d.subscription.group = none) :=
      List.mem_filter.mpr ⟨hd, by simpa using hgroup⟩
    rw [halone] at hmem
    exact (List.mem_filter.mp hmem).2
  refine ⟨?_, fun d hd => ⟨(hdelivered d hd).1, fun hrelay => ?_⟩, fun d hcall hgroup honline => ?_,
    fun d' realm group hcall hin => ?_⟩
  · rw [List.nodup_iff_count_le_one]
    intro d
    by_cases hd : d ∈ result.delivered
    · rcases hgroup : d.subscription.group with _ | group
      · have hcount : (result.delivered.filter fun d => d.subscription.group = none).count d =
            result.delivered.count d := List.count_filter (by simpa using hgroup)
        rw [← hcount, halone]
        exact List.nodup_iff_count_le_one.mp ((nodup_calls hnames).filter _) d
      · have hin : inGroup m d.realm group d = true :=
          inGroup_iff.mpr ⟨(hdelivered d hd).2 (by simp [hgroup]), rfl, hgroup⟩
        have hcount : (result.delivered.filter (inGroup m d.realm group)).count d =
            result.delivered.count d := List.count_filter hin
        rw [← hcount, (hgroups d.realm group).1]
        exact (List.count_le_length).trans (by
          rcases (groupOf P m own all d.realm group).target turns with _ | _ <;> simp)
    · rw [List.count_eq_zero_of_not_mem hd]
      exact Nat.zero_le _
  · have hgroup : d.subscription.group = none := by
      by_contra hne
      exact absurd ((hdelivered d hd).2 hne) (by simp [hrelay])
    have hd' := hdirect d hd hgroup
    simp only [direct, hrelay, hgroup, true_and, decide_eq_true_eq] at hd'
    exact ⟨hgroup, by simpa using hd'⟩
  · have hmem : d ∈ (calls P m own all).filter (direct m) := by
      refine List.mem_filter.mpr ⟨mem_calls_iff.mpr hcall, ?_⟩
      simpa [direct, hgroup, imp_iff_not_or] using honline
    rw [← halone] at hmem
    exact (List.mem_filter.mp hmem).1
  · have hmem : d' ∈ (groupOf P m own all realm group).members :=
      List.mem_filter.mpr ⟨mem_calls_iff.mpr hcall, hin⟩
    obtain ⟨d, htarget⟩ := Bucket.exists_target (List.ne_nil_of_mem hmem) turns
    refine ⟨d, ?_, Bucket.target_online htarget hmem⟩
    rw [(hgroups realm group).1, htarget]
    rfl

/-- A text as a name, where it may be one.
Kind: D -/
def exampleName (s : JsString) : Name :=
  if h : objectPrototype.contains s = false then ⟨s, by simpa using h⟩ else ⟨[], by decide⟩

/-- Names that put the producer's in front of the event's, as the protocol package may do.
Kind: D -/
def exampleProtocol : Protocol where
  ANONYMOUS := ⟨js "anonymous", by decide⟩
  ALL_PUBLISHERS := ⟨js "all", by decide⟩
  toConsumerEvent event producer := exampleName (producer.1 ++ js "-" ++ event)
  toConsumerEventAll producer := exampleName (js "all-of-" ++ producer.1)

/-- A realm with a consumer that has subscribed to an event.
Kind: D -/
def exampleRealm : Realm :=
  Realm.empty.subscribeMessage exampleProtocol ⟨js "p-e", by decide⟩ ⟨js "p", by decide⟩ ⟨js "c", by decide⟩
    none (js "s") ⟨[], [], false, false, none⟩ none none

theorem routed_exampleRealm :
    let m : Produced := ⟨js "e", js "e", ⟨js "p", by decide⟩, false, false⟩
    let result := (generateMessage exampleProtocol m (js "default", exampleRealm) none fun _ _ => 0).2
    (eventNames exampleProtocol m).Nodup ∧ result.delivered.length = 1 ∧ result.delivered.Nodup := by
  intro m result
  have hnames : (eventNames exampleProtocol m).Nodup := by decide +kernel
  have hfailed : result.failed = false := by decide +kernel
  have hlength : result.delivered.length = 1 := by decide +kernel
  have hdelivered : result.delivered.Nodup :=
    ((routed (by decide) (by simp) hnames fun _ _ => 0).2 hfailed).1
  exact ⟨hnames, hlength, hdelivered⟩

end TyoMq.Broker
