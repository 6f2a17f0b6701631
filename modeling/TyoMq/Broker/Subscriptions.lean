import TyoMq.Broker.Routing
import TyoMq.Lib.Runs

/-!
# Subscriptions over time

What becomes of a subscription while others come and go (`Held`). It is kept through reconnects, other
subscriptions and the ends of connections. What ends it (`Ends`) is an unsubscription, which goes by the id
of a socket where the subscription goes by the consumer's name, and a sweep that evicts a producer it names:
one that nothing was linked to when it went offline.

* `subscription_lasts`: it lasts exactly as long as none of these happens, and while it does, a message of
  the producer is for it.
-/

namespace TyoMq.Broker

open Lib

/-- What happens to the directory of a realm.
Kind: D -/
inductive DirectoryEvent
  /-- A consumer registers. -/
  | consumer (name : Name) (id : Option JsString) (socket : JsString) (connected : Bool)
  /-- A producer registers. -/
  | producer (name : Name) (id : Option JsString) (socket : JsString)
  /-- A producer sends a message. -/
  | produce (name : Name) (id : Option JsString) (socket : JsString)
  /-- A consumer subscribes. -/
  | subscribe (eventStr producer consumer : Name) (id : Option JsString) (socket : JsString)
      (delivery : Subscription) (group : Option Name) (pattern : Option JsString)
  /-- A socket unsubscribes. -/
  | unsubscribe (eventStr socket : Name)
  /-- A connection ends. -/
  | disconnect (socket : JsString) (now : ℤ)
  /-- Idle registrations are swept. -/
  | sweep (cutoff : ℤ)

namespace Realm

/-- Source: `lib/server.js`, `routeProducedMessage`
Kind: D -/
def noteProducer (r : Realm) (producer : Name) (id : Option JsString) (socket : JsString) : Realm :=
  if (r.getProducerMetaInfo producer).socket = none then r.setupProducer producer id socket
  else r.modifyProducer producer fun m => m

/-- What the handlers do.
Kind: D -/
def step (P : Protocol) (r : Realm) : DirectoryEvent → Realm
  | .consumer name id socket connected => (r.registerConsumer name id socket connected).1
  | .producer name id socket => r.registerProducer P name id socket
  | .produce name id socket => r.noteProducer name id socket
  | .subscribe eventStr producer consumer id socket delivery group pattern =>
      r.subscribeMessage P eventStr producer consumer id socket delivery group pattern
  | .unsubscribe eventStr socket => r.unsubscribe eventStr socket
  | .disconnect socket now => r.disconnect socket now
  | .sweep cutoff => r.sweepIdleRegistrations cutoff

/-- The subscription of a consumer, if it has one.
Kind: D -/
def subscription (r : Realm) (eventStr consumer : Name) : Option Subscriber :=
  (r.getEventSubscriptions eventStr).get consumer

/-- The consumer has the subscription and counts the producer among those it has subscribed to.
Kind: D -/
def Held (r : Realm) (eventStr consumer producer : Name) : Prop :=
  (∃ sub, r.subscription eventStr consumer = some sub ∧ sub.name = some consumer) ∧
    ∃ m, r.consumers.get consumer = some m ∧ producer ∈ m.subscribeTos

/-- A sweep evicts the producer.
Kind: D -/
def Evicts (r : Realm) (cutoff : ℤ) (producer : Name) : Prop :=
  ∃ m, r.producers.get producer = some m ∧
    evictable cutoff m.socket m.online m.offline_at m.subscribers = true

/-- What ends a subscription.
Kind: D -/
def Ends (r : Realm) (eventStr consumer : Name) : DirectoryEvent → Prop
  | .unsubscribe eventStr' socket => eventStr' = eventStr ∧ socket = consumer
  | .sweep cutoff => ∃ sub, r.subscription eventStr consumer = some sub ∧
      ∃ producer ∈ sub.subscribeTos, r.Evicts cutoff producer
  | _ => False

variable {r r' : Realm} {eventStr consumer producer : Name}

/-! ### What keeps it -/

/-- What is held in the one is held in the other.
Kind: D -/
def Keeps (r r' : Realm) : Prop :=
  ∀ eventStr consumer producer, r.Held eventStr consumer producer → r'.Held eventStr consumer producer

theorem Keeps.refl (r : Realm) : r.Keeps r := fun _ _ _ h => h

theorem Keeps.trans {r'' : Realm} (h : r.Keeps r') (h' : r'.Keeps r'') : r.Keeps r'' :=
  fun eventStr consumer producer hheld => h' _ _ _ (h eventStr consumer producer hheld)

/-- A loop keeps what each round keeps.
Kind: L -/
theorem keeps_foldl {α : Type*} {f : Realm → α → Realm} (hf : ∀ r x, Keeps r (f r x)) (r : Realm)
    (l : List α) : r.Keeps (l.foldl f r) := by
  induction l generalizing r with
  | nil => exact Keeps.refl r
  | cons x l ih => exact (hf r x).trans (ih (f r x))

theorem keeps_modifyProducer (r : Realm) (name : Name) (f : ProducerMeta → ProducerMeta) :
    r.Keeps (r.modifyProducer name f) := fun _ _ _ h => h

theorem keeps_modifyConsumer {name : Name} {f : ConsumerMeta → ConsumerMeta}
    (hf : ∀ m, ∀ p ∈ m.subscribeTos, p ∈ (f m).subscribeTos) (r : Realm) :
    r.Keeps (r.modifyConsumer name f) := by
  rintro eventStr consumer producer ⟨hsub, m, hget, hproducer⟩
  refine ⟨hsub, ?_⟩
  by_cases hname : consumer = name
  · rw [hname] at hget
    refine ⟨f m, ?_, hf m producer hproducer⟩
    rw [modifyConsumer, getConsumerMetaInfo, hget, hname]
    exact JsMap.get_set_self ..
  · exact ⟨m, by rw [modifyConsumer, JsMap.get_set_of_ne _ hname, hget], hproducer⟩

theorem keeps_setupConsumer (r : Realm) (name : Name) (id : Option JsString) (socket : JsString) :
    r.Keeps (r.setupConsumer name id socket) := by
  refine keeps_modifyConsumer ?_ r
  exact fun m p hp => hp

theorem keeps_ensureProducers (r : Realm) (names : List Name) : r.Keeps (r.ensureProducers names) :=
  keeps_foldl (fun r name => keeps_modifyProducer r name id) r names

theorem keeps_ensureConsumers (r : Realm) (names : List Name) : r.Keeps (r.ensureConsumers names) :=
  keeps_foldl (fun r _ => keeps_modifyConsumer (fun _ _ hp => hp) r) r names

theorem subscription_setSubscriber (r : Realm) (eventStr eventStr' consumer consumer' : Name)
    (sub : Subscriber) :
    (r.setSubscriber eventStr consumer sub).subscription eventStr' consumer' =
      if eventStr' = eventStr ∧ consumer' = consumer then some sub
      else r.subscription eventStr' consumer' := by
  unfold setSubscriber subscription getEventSubscriptions
  dsimp only
  by_cases hevent : eventStr' = eventStr
  · rw [hevent, JsMap.get_set_self, Option.getD_some, JsMap.get_set]
    simp
  · rw [JsMap.get_set_of_ne _ hevent, if_neg fun h => hevent h.1]

/-- A subscription is filled in, or left as it is.
Kind: L -/
theorem keeps_setSubscriber {name : Name} {sub : Subscriber} (r : Realm) (eventStr : Name)
    (hsub : sub.name = some name ∨ ∀ old, r.subscription eventStr name = some old → sub = old) :
    r.Keeps (r.setSubscriber eventStr name sub) := by
  rintro eventStr' consumer producer ⟨⟨old, hold, hname⟩, hmeta⟩
  refine ⟨?_, hmeta⟩
  rw [subscription_setSubscriber]
  by_cases hkey : eventStr' = eventStr ∧ consumer = name
  · rw [if_pos hkey]
    obtain ⟨rfl, rfl⟩ := hkey
    rcases hsub with hsub | hsub
    · exact ⟨sub, rfl, hsub⟩
    · exact ⟨sub, rfl, by rw [hsub old hold, hname]⟩
  · rw [if_neg hkey]
    exact ⟨old, hold, hname⟩

theorem keeps_noteSubscriber (P : Protocol) (name : Name) (r : Realm)
    (known : Option JsString × Option Name × List Name) : r.Keeps (noteSubscriber P name r known) := by
  unfold noteSubscriber
  refine ((keeps_modifyConsumer (fun _ _ hp => hp) r).trans (keeps_modifyProducer _ _ _)).trans
    (keeps_foldl (fun r eventStr => keeps_setSubscriber r eventStr (Or.inr fun old hold => ?_)) _ _)
  rw [subscription] at hold
  rw [getEventSubscriber, hold, Option.getD_some]

theorem keeps_registerConsumer (r : Realm) (name : Name) (id : Option JsString) (socket : JsString)
    (connected : Bool) : r.Keeps (r.registerConsumer name id socket connected).1 := by
  unfold registerConsumer
  dsimp only
  split_ifs
  · exact Keeps.refl r
  · exact (keeps_setupConsumer r name _ socket).trans (keeps_ensureProducers _ _)

theorem keeps_subscribeMessage (P : Protocol) (r : Realm) (eventStr' name consumer' : Name)
    (id : Option JsString) (socket : JsString) (delivery : Subscription) (group : Option Name)
    (pattern : Option JsString) :
    r.Keeps (r.subscribeMessage P eventStr' name consumer' id socket delivery group pattern) := by
  unfold subscribeMessage
  dsimp only
  have hsetup : r.Keeps (if (r.getConsumerMetaInfo consumer').socket = none then
      r.setupConsumer consumer' id socket else r.modifyConsumer consumer' fun m => m) := by
    split_ifs
    · exact keeps_setupConsumer r consumer' id socket
    · exact keeps_modifyConsumer (fun _ _ hp => hp) r
  have hpattern : ∀ r : Realm, r.Keeps (r.notePattern eventStr' pattern) := by
    intro r
    rcases pattern with _ | pattern
    · exact Keeps.refl r
    · exact fun _ _ _ h => h
  have hnote : ∀ r : Realm, r.Keeps (if name = P.ALL_PUBLISHERS then
      (r.producers.keys.filter fun other => other ≠ consumer').foldl
        (fun r other => r.sendSubscriptionMessageToProducer other consumer') r
      else r.sendSubscriptionMessageToProducer name consumer') := by
    intro r
    split_ifs
    · exact keeps_foldl (fun r _ => keeps_modifyProducer r _ _) r _
    · exact keeps_modifyProducer r _ _
  refine Keeps.trans ?_ (hnote _)
  refine Keeps.trans ?_ (keeps_modifyConsumer (fun m p hp => by simp [hp]) _)
  refine Keeps.trans ?_ (hpattern _)
  exact hsetup.trans (keeps_setSubscriber _ eventStr' (Or.inl rfl))

theorem keeps_disconnect (r : Realm) (socket : JsString) (now : ℤ) : r.Keeps (r.disconnect socket now) := by
  have hproducer : r.Keeps (r.disconnectProducer socket now) := by
    unfold disconnectProducer
    split
    · exact Keeps.refl r
    · exact (keeps_ensureConsumers r _).trans (keeps_modifyProducer _ _ _)
  have hconsumer : ∀ r : Realm, r.Keeps (r.disconnectConsumer socket now) := by
    intro r
    unfold disconnectConsumer
    split
    · exact Keeps.refl r
    · refine (keeps_ensureProducers r _).trans (keeps_modifyConsumer ?_ _)
      exact fun m p hp => hp
  exact hproducer.trans (hconsumer _)

/-! ### What ends it -/

theorem subscription_unsubscribe (r : Realm) (eventStr eventStr' socket consumer : Name) :
    (r.unsubscribe eventStr' socket).subscription eventStr consumer =
      if eventStr' = eventStr ∧ socket = consumer then none else r.subscription eventStr consumer := by
  unfold unsubscribe subscription getEventSubscriptions
  rcases hget : r.subscriptions.get eventStr' with _ | subs
  · by_cases hkey : eventStr' = eventStr ∧ socket = consumer
    · rw [if_pos hkey, ← hkey.1, hget]
      rfl
    · rw [if_neg hkey]
  · dsimp only
    by_cases hevent : eventStr = eventStr'
    · rw [hevent, JsMap.get_set_self, hget, Option.getD_some, Option.getD_some]
      by_cases hsocket : socket = consumer
      · rw [hsocket, JsMap.get_delete_self, if_pos ⟨rfl, rfl⟩]
      · rw [JsMap.get_delete_of_ne _ (Ne.symm hsocket), if_neg fun h => hsocket h.2]
    · rw [JsMap.get_set_of_ne _ hevent, if_neg fun h => hevent h.1.symm]

theorem subscription_deleteConsumer (r : Realm) (eventStr consumer name : Name) :
    (r.deleteConsumerFromSubscriptions name).subscription eventStr consumer =
      if consumer = name then none else r.subscription eventStr consumer := by
  unfold deleteConsumerFromSubscriptions subscription getEventSubscriptions
  dsimp only
  rw [JsMap.get_filterMapValues]
  rcases r.subscriptions.get eventStr with _ | subs
  · simp
  · rw [Option.bind_some, Option.getD_some, Option.getD_some]
    by_cases hname : consumer = name
    · rw [hname, JsMap.get_delete_self, if_pos rfl]
    · rw [JsMap.get_delete_of_ne _ hname, if_neg hname]

/-- What is left of the subscriptions to an event.
Kind: L -/
theorem get_withoutProducer (producer : Name) (subs : JsMap Name Subscriber) (consumer : Name) :
    (((withoutProducer producer subs).getD JsMap.empty).get consumer) =
      (subs.get consumer).filter fun sub => !sub.subscribeTos.contains producer := by
  have hleft : (subs.deleteWhere fun _ sub => sub.subscribeTos.contains producer).get consumer =
      (subs.get consumer).filter fun sub => !sub.subscribeTos.contains producer :=
    JsMap.get_deleteWhere ..
  unfold withoutProducer
  dsimp only
  split_ifs with hany hempty
  · rw [← hleft, Option.getD_none, JsMap.get_empty]
    refine (Option.eq_none_iff_forall_not_mem.mpr fun sub hsub => ?_).symm
    have hin := JsMap.mem_entries_iff.mpr hsub
    rw [List.isEmpty_iff.mp hempty] at hin
    exact absurd hin List.not_mem_nil
  · rw [← hleft, Option.getD_some]
  · rw [Option.getD_some]
    rcases hget : subs.get consumer with _ | sub
    · rfl
    · have hnot : sub.subscribeTos.contains producer = false := by
        rw [Bool.eq_false_iff]
        intro hin
        exact hany (List.any_eq_true.mpr ⟨_, JsMap.mem_entries_iff.mpr hget, hin⟩)
      rw [Option.filter_some, hnot]
      rfl

theorem subscription_deleteProducer (r : Realm) (eventStr consumer name : Name) :
    (r.deleteProducerFromSubscriptions name).subscription eventStr consumer =
      (r.subscription eventStr consumer).filter fun sub => !sub.subscribeTos.contains name := by
  unfold deleteProducerFromSubscriptions subscription getEventSubscriptions
  dsimp only
  rw [JsMap.get_filterMapValues]
  rcases r.subscriptions.get eventStr with _ | subs
  · rfl
  · rw [Option.bind_some, Option.getD_some]
    exact get_withoutProducer name subs consumer

/-- The consumer of a subscription has subscribed to somebody, and is not evicted.
Kind: L -/
theorem Held.evictConsumers (h : r.Held eventStr consumer producer) (cutoff : ℤ)
    (entries : List (Name × ConsumerMeta)) (hentries : ∀ e ∈ entries, r.consumers.get e.1 = some e.2) :
    let r' := entries.foldl (evictConsumer cutoff) r
    r'.consumers.get consumer = r.consumers.get consumer ∧ r'.producers = r.producers ∧
      r'.subscription eventStr consumer = r.subscription eventStr consumer := by
  obtain ⟨-, m, hget, hproducer⟩ := h
  have hkeep : ∀ r₁ : Realm, ∀ e ∈ entries,
      (evictConsumer cutoff r₁ e).consumers.get consumer = r₁.consumers.get consumer ∧
        (evictConsumer cutoff r₁ e).producers = r₁.producers ∧
        (evictConsumer cutoff r₁ e).subscription eventStr consumer = r₁.subscription eventStr consumer := by
    intro r₁ e he
    unfold evictConsumer
    split_ifs with hevict
    · have hne : consumer ≠ e.1 := by
        rintro rfl
        rw [hentries e he] at hget
        obtain rfl := Option.some.inj hget
        simp only [evictable, decide_eq_true_eq, List.isEmpty_iff] at hevict
        rw [hevict.2.2.2] at hproducer
        exact absurd hproducer List.not_mem_nil
      refine ⟨JsMap.get_delete_of_ne _ hne, rfl, ?_⟩
      rw [subscription_deleteConsumer, if_neg hne]
      rfl
    · exact ⟨rfl, rfl, rfl⟩
  clear hentries hget
  induction entries generalizing r with
  | nil => exact ⟨rfl, rfl, rfl⟩
  | cons e entries ih =>
      obtain ⟨hc, hp, hs⟩ := hkeep r e (by simp)
      obtain ⟨hc', hp', hs'⟩ := ih (r := evictConsumer cutoff r e) fun r₁ e' he' =>
        hkeep r₁ e' (List.mem_cons_of_mem _ he')
      exact ⟨hc'.trans hc, hp'.trans hp, hs'.trans hs⟩

/-- Evicting producers takes the subscriptions that name one of those evicted.
Kind: L -/
theorem subscription_evictProducers (cutoff : ℤ) (entries : List (Name × ProducerMeta)) (r : Realm)
    (eventStr consumer : Name) :
    let r' := entries.foldl (evictProducer cutoff) r
    r'.consumers = r.consumers ∧
      r'.subscription eventStr consumer = (r.subscription eventStr consumer).filter fun sub =>
        entries.all fun e => !(evictable cutoff e.2.socket e.2.online e.2.offline_at e.2.subscribers &&
          sub.subscribeTos.contains e.1) := by
  induction entries generalizing r with
  | nil =>
      refine ⟨rfl, ?_⟩
      rcases hsub : r.subscription eventStr consumer with _ | sub
      · simpa using hsub
      · simpa [Option.filter] using hsub
  | cons e entries ih =>
      obtain ⟨hconsumers, hsub⟩ := ih (evictProducer cutoff r e)
      have hone : (evictProducer cutoff r e).consumers = r.consumers ∧
          (evictProducer cutoff r e).subscription eventStr consumer =
            (r.subscription eventStr consumer).filter fun sub =>
              !(evictable cutoff e.2.socket e.2.online e.2.offline_at e.2.subscribers &&
                sub.subscribeTos.contains e.1) := by
        unfold evictProducer
        split_ifs with hevict
        · refine ⟨rfl, ?_⟩
          rw [subscription_deleteProducer, hevict]
          rfl
        · refine ⟨rfl, ?_⟩
          have hfalse := Bool.eq_false_iff.mpr hevict
          rw [hfalse]
          rcases r.subscription eventStr consumer with _ | sub
          · rfl
          · simp [Option.filter]
      refine ⟨hconsumers.trans hone.1, ?_⟩
      rw [List.foldl_cons, hsub, hone.2, Option.filter_filter]
      simp only [List.all_cons]

/-- A sweep keeps the consumers of subscriptions, and takes the subscriptions that name a producer that it
evicts.
Kind: L -/
theorem held_sweep (h : r.Held eventStr consumer producer) (cutoff : ℤ) :
    (r.sweepIdleRegistrations cutoff).Held eventStr consumer producer ↔
      ¬ r.Ends eventStr consumer (.sweep cutoff) := by
  obtain ⟨hc, hp, hs⟩ := h.evictConsumers cutoff r.consumers.entries fun e he =>
    JsMap.mem_entries_iff.mp he
  obtain ⟨⟨sub, hsub, hname⟩, m, hget, hproducer⟩ := h
  unfold sweepIdleRegistrations
  dsimp only
  generalize r.consumers.entries.foldl (evictConsumer cutoff) r = r₁ at hc hp hs
  obtain ⟨hc', hs'⟩ := subscription_evictProducers cutoff r₁.producers.entries r₁ eventStr consumer
  rw [hs, hsub] at hs'
  have hends : r.Ends eventStr consumer (.sweep cutoff) ↔
      ∃ p ∈ sub.subscribeTos, r.Evicts cutoff p := by
    simp only [Ends, hsub, Option.some.injEq, exists_eq_left']
  have hall : (r₁.producers.entries.all fun e =>
      !(evictable cutoff e.2.socket e.2.online e.2.offline_at e.2.subscribers &&
        sub.subscribeTos.contains e.1)) = true ↔ ¬ r.Ends eventStr consumer (.sweep cutoff) := by
    rw [hends, hp, List.all_eq_true]
    constructor
    · rintro hall ⟨p, hpin, m', hm', hevict⟩
      have hno := hall (p, m') (JsMap.mem_entries_iff.mpr hm')
      simp [hevict, hpin] at hno
    · rintro hno ⟨p, m'⟩ hin
      by_contra hbad
      simp only [Bool.not_eq_true, Bool.not_eq_false', Bool.and_eq_true] at hbad
      exact hno ⟨p, by simpa using hbad.2, m', JsMap.mem_entries_iff.mp hin, hbad.1⟩
  rw [← hall]
  constructor
  · rintro ⟨⟨sub', hsub', -⟩, -⟩
    rw [hs', Option.filter_eq_some_iff] at hsub'
    obtain ⟨hsome, hkeep⟩ := hsub'
    rwa [← Option.some.inj hsome] at hkeep
  · intro hkeep
    refine ⟨⟨sub, ?_, hname⟩, m, ?_, hproducer⟩
    · rw [hs', Option.filter_eq_some_iff]
      exact ⟨rfl, hkeep⟩
    · rw [hc', hc, hget]

/-- A subscription is kept by what does not end it, and by nothing else.
Kind: L -/
theorem held_step (P : Protocol) (h : r.Held eventStr consumer producer) (e : DirectoryEvent) :
    (r.step P e).Held eventStr consumer producer ↔ ¬ r.Ends eventStr consumer e := by
  have hkept : ∀ r', r.Keeps r' → ¬ r.Ends eventStr consumer e →
      (r'.Held eventStr consumer producer ↔ ¬ r.Ends eventStr consumer e) :=
    fun r' hkeeps hno => iff_of_true (hkeeps _ _ _ h) hno
  rcases e with ⟨name, id, socket, connected⟩ | ⟨name, id, socket⟩ | ⟨name, id, socket⟩ |
    ⟨eventStr', name, consumer', id, socket, delivery, group, pattern⟩ | ⟨eventStr', socket⟩ |
    ⟨socket, now⟩ | cutoff
  · exact hkept _ (keeps_registerConsumer r name id socket connected) not_false
  · refine hkept _ ?_ not_false
    exact (keeps_modifyProducer r name _).trans (keeps_foldl (keeps_noteSubscriber P name) _ _)
  · refine hkept _ ?_ not_false
    simp only [step, noteProducer]
    split_ifs
    · exact keeps_modifyProducer r name _
    · exact keeps_modifyProducer r name _
  · exact hkept _ (keeps_subscribeMessage P r eventStr' name consumer' id socket delivery group pattern)
      not_false
  · obtain ⟨⟨sub, hsub, hname⟩, m, hget, hproducer⟩ := h
    have hconsumers : (r.unsubscribe eventStr' socket).consumers = r.consumers := by
      unfold unsubscribe
      split <;> rfl
    simp only [step, Held, subscription_unsubscribe, hconsumers, Ends]
    by_cases hkey : eventStr' = eventStr ∧ socket = consumer
    · simp [hkey]
    · rw [if_neg hkey]
      exact iff_of_true ⟨⟨sub, hsub, hname⟩, m, hget, hproducer⟩ hkey
  · exact hkept _ (keeps_disconnect r socket now) not_false
  · exact held_sweep h cutoff

/-- Who has the subscription holds it once it counts the producer.
Kind: L -/
theorem held_modifyConsumer {sub : Subscriber} (hsub : r.subscription eventStr consumer = some sub)
    (hname : sub.name = some consumer) :
    (r.modifyConsumer consumer fun m => { m with subscribeTos := addName m.subscribeTos producer }).Held
      eventStr consumer producer :=
  ⟨⟨sub, hsub, hname⟩, _, JsMap.get_set_self .., by simp⟩

/-- Who subscribes has the subscription.
Kind: L -/
theorem held_subscribeMessage (P : Protocol) (r : Realm) (eventStr producer consumer : Name)
    (id : Option JsString) (socket : JsString) (delivery : Subscription) (group : Option Name)
    (pattern : Option JsString) :
    (r.subscribeMessage P eventStr producer consumer id socket delivery group pattern).Held
      eventStr consumer producer := by
  have hpattern : ∀ (r : Realm) (pattern : Option JsString),
      (r.notePattern eventStr pattern).subscription eventStr consumer = r.subscription eventStr consumer := by
    intro r pattern
    rcases pattern with _ | pattern <;> rfl
  have hnote : ∀ r : Realm, r.Keeps (if producer = P.ALL_PUBLISHERS then
      (r.producers.keys.filter fun other => other ≠ consumer).foldl
        (fun r other => r.sendSubscriptionMessageToProducer other consumer) r
      else r.sendSubscriptionMessageToProducer producer consumer) := by
    intro r
    split_ifs
    · exact keeps_foldl (fun r _ => keeps_modifyProducer r _ _) r _
    · exact keeps_modifyProducer r _ _
  unfold subscribeMessage
  refine hnote _ _ _ _ ?_
  have hset := fun r sub => subscription_setSubscriber r eventStr eventStr consumer consumer sub
  exact held_modifyConsumer ((hpattern _ pattern).trans ((hset _ _).trans (if_pos ⟨rfl, rfl⟩))) rfl

/-- A message of the producer is for who has the subscription.
Kind: L -/
theorem Held.called {P : Protocol} (h : r.Held eventStr consumer producer) {m : Produced}
    (hproducer : producer = m.producer ∨ producer = P.ALL_PUBLISHERS) (hname : eventStr ∈ eventNames P m)
    (realm : JsString) (all : Option RealmEntry) :
    ∃ d ∈ calls P m (realm, r) all, d.realm = realm ∧ d.eventStr = eventStr ∧ d.key = consumer := by
  obtain ⟨⟨sub, hsub, hsubname⟩, m', hget, hin⟩ := h
  have hmeta : r.getConsumerMetaInfo consumer = m' := by
    rw [getConsumerMetaInfo, hget, Option.getD_some]
  refine ⟨⟨realm, eventStr, consumer, sub, m'⟩, mem_calls_iff.mpr ⟨?_, fun _ => ?_⟩, rfl, rfl, rfl⟩
  · refine ⟨(realm, r), List.mem_cons_self .., rfl, hsub, ?_, Or.inl hname⟩
    rw [hsubname, Option.getD_some, hmeta]
  · rcases hproducer with rfl | rfl
    · exact Or.inr hin
    · exact Or.inl hin

/-- **How long a subscription lasts**: after a consumer has subscribed to an event of a producer, and
whatever registers, subscribes, produces, disconnects or is swept thereafter, it has the subscription in
every state exactly as long as nothing ends it: no socket whose id is the consumer's name unsubscribes, and
no sweep evicts a producer that the subscription names. As long as it has it, the messages of the producer
under that event are for it.
Kind: P -/
theorem subscription_lasts (P : Protocol) (r : Realm) (eventStr producer consumer : Name)
    (id : Option JsString) (socket : JsString) (delivery : Subscription) (group : Option Name)
    (pattern : Option JsString) (l : List DirectoryEvent) :
    let r₀ := r.subscribeMessage P eventStr producer consumer id socket delivery group pattern
    let lasting := EachStep (step P) (fun r e => ¬ r.Ends eventStr consumer e) r₀
    ((∀ l₁ l₂, l₁ ++ l₂ = l → (runFrom (step P) r₀ l₁).Held eventStr consumer producer) ↔ lasting l) ∧
      ∀ l₁ l₂, l₁ ++ l₂ = l → lasting l₁ → ∀ (m : Produced) (realm : JsString) (all : Option RealmEntry),
        producer = m.producer ∨ producer = P.ALL_PUBLISHERS → eventStr ∈ eventNames P m →
        ∃ d ∈ calls P m (realm, runFrom (step P) r₀ l₁) all,
          d.realm = realm ∧ d.eventStr = eventStr ∧ d.key = consumer := by
  intro r₀ lasting
  have hheld : r₀.Held eventStr consumer producer :=
    held_subscribeMessage P r eventStr producer consumer id socket delivery group pattern
  refine ⟨everyState_iff (I := fun r : Realm => r.Held eventStr consumer producer)
    (fun _ e h => held_step P h e) hheld, ?_⟩
  intro l₁ l₂ _ hlasting m realm all hproducer hname
  have hthen : (runFrom (step P) r₀ l₁).Held eventStr consumer producer :=
    invariant_run (I := fun r : Realm => r.Held eventStr consumer producer)
      (fun _ e h hno => (held_step P h e).mpr hno) hheld hlasting
  exact hthen.called hproducer hname realm all

/-- A subscription to a producer that is offline, made before the sweep that evicts the producer, is lost
with it. -/
example :
    let p : Name := ⟨js "p", by decide⟩
    let c : Name := ⟨js "c", by decide⟩
    let events : List DirectoryEvent := [.producer p none (js "1"), .disconnect (js "1") 5,
      .subscribe p p c none (js "2") ⟨[], [], false, false, none⟩ none none]
    let r := runFrom (step exampleProtocol) empty events
    (r.subscription p c).isSome = true ∧ ((r.sweepIdleRegistrations 9).subscription p c).isNone = true := by
  decide +kernel

end Realm

end TyoMq.Broker
