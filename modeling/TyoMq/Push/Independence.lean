import TyoMq.Push.Delivery

/-!
# Endpoints fail independently, unless one throws

What a call of `fireWake` or `deliverNotifyPush` does to the endpoints of its identity.

* **The loop** (`handed_sendEach`, `attempts_sendEach`): it reaches the endpoints that are wanted and whose
  transport is configured, up to the first whose `send` throws.
* **Settling** (`list_settleAll`): in whatever order the attempts settle, each does to its own endpoint what
  its own outcome asks for.
* **Independence** (`endpoints_independent`): every endpoint is reached, and fares by its own outcome alone,
  exactly when none that throws is followed by another that is to be reached.
-/

namespace TyoMq.Push

open TyoMq.Lib TyoMq.Notify RealmMaps

variable {N : Type*}

/-! ### The loop -/

/-- The list up to the first element of a kind, which is the last.
Kind: D -/
def upTo {α : Type*} (p : α → Bool) : List α → List α
  | [] => []
  | a :: l => if p a then [a] else a :: upTo p l

section UpTo

variable {α : Type*} {p : α → Bool} {l : List α}

theorem upTo_isPrefix (p : α → Bool) (l : List α) : upTo p l <+: l := by
  induction l with
  | nil => exact List.prefix_rfl
  | cons a l ih =>
      unfold upTo
      split_ifs
      · exact List.prefix_append [a] l
      · exact (List.prefix_cons_inj a).mpr ih

/-- Nothing is left out when only the last element is of the kind.
Kind: L -/
theorem length_upTo_iff :
    (upTo p l).length = l.length ↔ ∀ before a after, l = before ++ a :: after → p a = true → after = [] := by
  constructor
  · rintro hlen before a after rfl hp
    induction before with
    | nil =>
        rw [List.nil_append, upTo, if_pos hp, List.length_singleton, List.length_cons] at hlen
        exact List.length_eq_zero_iff.mp (Nat.succ.inj hlen).symm
    | cons b before ih =>
        rw [List.cons_append, upTo] at hlen
        split_ifs at hlen
        · rw [List.length_singleton, List.length_cons, List.length_append, List.length_cons] at hlen
          omega
        · rw [List.length_cons, List.length_cons] at hlen
          exact ih (Nat.succ.inj hlen)
  · intro h
    induction l with
    | nil => rfl
    | cons a l ih =>
        rw [upTo]
        split_ifs with hp
        · rw [h [] a l rfl hp]
        · have hl := ih fun before b after hsplit => h (a :: before) b after (congrArg (a :: ·) hsplit)
          rw [List.length_cons, List.length_cons, hl]

end UpTo

section Loop

variable {cfg : PushConfig} {job : Job} {ep : Endpoint JsString} {eps : List (Endpoint JsString)}

/-- Is the endpoint to be reached? It is wanted, and its transport is configured.
Kind: D -/
def reaches (cfg : PushConfig) (job : Job) (ep : Endpoint JsString) : Bool :=
  job.wanted ep && (transportFor cfg ep.transport).isSome

/-- What comes of sending to the endpoint.
Kind: D -/
def outcome (cfg : PushConfig) (job : Job) (ep : Endpoint JsString) : Option Outcome :=
  (transportFor cfg ep.transport).map fun transport => transport (job.request ep)

/-- Does the `send` throw?
Kind: D -/
def throwsAt (cfg : PushConfig) (job : Job) (ep : Endpoint JsString) : Bool :=
  outcome cfg job ep = some .throws

/-- The attempt at an endpoint, when its `send` has given a promise.
Kind: D -/
def attemptAt (cfg : PushConfig) (job : Job) (ep : Endpoint JsString) : Option Attempt :=
  match outcome cfg job ep with
  | some (.settles settlement) => some (job.attempt ep settlement)
  | _ => none

theorem throwsAt_of_throws (h : outcome cfg job ep = some .throws) : throwsAt cfg job ep = true :=
  decide_eq_true h

theorem throwsAt_of_settles {settlement : Settlement} (h : outcome cfg job ep = some (.settles settlement)) :
    throwsAt cfg job ep = false := by
  rw [throwsAt, h, decide_eq_false_iff_not]
  exact fun he => Outcome.noConfusion (Option.some.inj he)

theorem attemptAt_of_settles {settlement : Settlement}
    (h : outcome cfg job ep = some (.settles settlement)) :
    attemptAt cfg job ep = some (job.attempt ep settlement) := by
  rw [attemptAt, h]

/-- What the loop does with the first endpoint.
Kind: L -/
theorem sendEach_cons (cfg : PushConfig) (job : Job) (ep : Endpoint JsString)
    (eps : List (Endpoint JsString)) :
    (reaches cfg job ep = false ∧ sendEach cfg job (ep :: eps) =
      { sendEach cfg job eps with
        sent := (sendEach cfg job eps).sent + if job.wanted ep then 1 else 0 }) ∨
    (reaches cfg job ep = true ∧ outcome cfg job ep = some .throws ∧
      sendEach cfg job (ep :: eps) = ⟨[job.request ep], [], 1, true⟩) ∨
    (reaches cfg job ep = true ∧ ∃ settlement, outcome cfg job ep = some (.settles settlement) ∧
      sendEach cfg job (ep :: eps) =
        ⟨job.request ep :: (sendEach cfg job eps).handed,
          job.attempt ep settlement :: (sendEach cfg job eps).attempts,
          (sendEach cfg job eps).sent + 1, (sendEach cfg job eps).threw⟩) := by
  unfold reaches outcome
  rw [sendEach.eq_def]
  dsimp only
  by_cases hwanted : job.wanted ep = true
  · rw [if_neg (by rw [hwanted]; exact Bool.noConfusion), hwanted]
    rcases htransport : transportFor cfg ep.transport with _ | transport
    · exact Or.inl ⟨rfl, rfl⟩
    · dsimp only
      rcases hout : transport (job.request ep) with _ | settlement
      · exact Or.inr (Or.inl ⟨rfl, congrArg some hout, rfl⟩)
      · exact Or.inr (Or.inr ⟨rfl, settlement, congrArg some hout, rfl⟩)
  · rw [Bool.not_eq_true] at hwanted
    rw [if_pos hwanted, hwanted]
    exact Or.inl ⟨rfl, rfl⟩

/-- The requests that are handed to transports.
Kind: P -/
theorem handed_sendEach (cfg : PushConfig) (job : Job) (eps : List (Endpoint JsString)) :
    (sendEach cfg job eps).handed =
      (upTo (throwsAt cfg job) (eps.filter (reaches cfg job))).map job.request := by
  induction eps with
  | nil => rfl
  | cons ep eps ih =>
      rcases sendEach_cons cfg job ep eps with ⟨hr, h⟩ | ⟨hr, hout, h⟩ | ⟨hr, settlement, hout, h⟩
      · rw [h, List.filter_cons_of_neg (by rw [hr]; exact Bool.false_ne_true)]
        exact ih
      · rw [h, List.filter_cons_of_pos hr, upTo, throwsAt_of_throws hout, if_pos rfl]
        rfl
      · rw [h, List.filter_cons_of_pos hr, upTo, throwsAt_of_settles hout,
          if_neg Bool.false_ne_true, List.map_cons, ← ih]

/-- The attempts that get under way.
Kind: P -/
theorem attempts_sendEach (cfg : PushConfig) (job : Job) (eps : List (Endpoint JsString)) :
    (sendEach cfg job eps).attempts =
      (upTo (throwsAt cfg job) (eps.filter (reaches cfg job))).filterMap (attemptAt cfg job) := by
  induction eps with
  | nil => rfl
  | cons ep eps ih =>
      rcases sendEach_cons cfg job ep eps with ⟨hr, h⟩ | ⟨hr, hout, h⟩ | ⟨hr, settlement, hout, h⟩
      · rw [h, List.filter_cons_of_neg (by rw [hr]; exact Bool.false_ne_true)]
        exact ih
      · have hattempt : attemptAt cfg job ep = none := by rw [attemptAt, hout]
        rw [h, List.filter_cons_of_pos hr, upTo, throwsAt_of_throws hout, if_pos rfl,
          List.filterMap_cons_none hattempt, List.filterMap_nil]
      · rw [h, List.filter_cons_of_pos hr, upTo, throwsAt_of_settles hout,
          if_neg Bool.false_ne_true, List.filterMap_cons_some (attemptAt_of_settles hout), ← ih]

/-- Whether an exception leaves the loop.
Kind: L -/
theorem threw_sendEach (cfg : PushConfig) (job : Job) (eps : List (Endpoint JsString)) :
    (sendEach cfg job eps).threw = (eps.filter (reaches cfg job)).any (throwsAt cfg job) := by
  induction eps with
  | nil => rfl
  | cons ep eps ih =>
      rcases sendEach_cons cfg job ep eps with ⟨hr, h⟩ | ⟨hr, hout, h⟩ | ⟨hr, settlement, hout, h⟩
      · rw [h, List.filter_cons_of_neg (by rw [hr]; exact Bool.false_ne_true)]
        exact ih
      · rw [h, List.filter_cons_of_pos hr, List.any_cons, throwsAt_of_throws hout, Bool.true_or]
      · rw [h, List.filter_cons_of_pos hr, List.any_cons, throwsAt_of_settles hout, Bool.false_or]
        exact ih

/-- What the loop counts, when no exception leaves it: the endpoints that are wanted.
Kind: L -/
theorem sent_sendEach (h : (sendEach cfg job eps).threw = false) :
    (sendEach cfg job eps).sent = eps.countP job.wanted := by
  induction eps with
  | nil => rfl
  | cons ep eps ih =>
      rcases sendEach_cons cfg job ep eps with ⟨hr, hc⟩ | ⟨hr, hout, hc⟩ | ⟨hr, settlement, hout, hc⟩
      · rw [hc] at h ⊢
        rw [List.countP_cons, ← ih h]
      · rw [hc] at h
        exact absurd h.symm Bool.false_ne_true
      · rw [hc] at h ⊢
        rw [reaches, Bool.and_eq_true] at hr
        rw [List.countP_cons, ← ih h, hr.1, if_pos rfl]

end Loop

/-! ### Settling -/

/-- What becomes of an endpoint whose send settles.
Kind: D -/
def afterSettlement (now : ℤ) (settlement : Settlement) (ep : Endpoint JsString) :
    Option (Endpoint JsString) :=
  if settlement.isGone then none
  else if settlement.isOk then some { ep with last_ok := some now }
  else some ep

/-- What an attempt makes of an endpoint of its identity.
Kind: D -/
def effect (a : Attempt) (ep : Endpoint JsString) : Option (Endpoint JsString) :=
  if isAt a.ep.transport a.ep.token ep then afterSettlement a.now a.settlement ep else some ep

/-- What some attempts make of an endpoint, one after the other.
Kind: D -/
def effects : List Attempt → Endpoint JsString → Option (Endpoint JsString)
  | [], ep => some ep
  | a :: order, ep => (effect a ep).bind (effects order)

section Settling

variable {s : WakeRegistry} {a : Attempt} {r i : JsString}

/-- In a list in which a device occurs once, changing the first endpoint of a device changes every one.
Kind: L -/
theorem modifyFirst_eq_map {transport token : JsString} {f : Endpoint JsString → Endpoint JsString}
    {l : List (Endpoint JsString)} (h : (devices l).Nodup) :
    modifyFirst transport token f l = l.map fun e => if isAt transport token e then f e else e := by
  induction l with
  | nil => rfl
  | cons e l ih =>
      rw [devices, List.map_cons, List.nodup_cons] at h
      rw [modifyFirst, List.map_cons]
      split_ifs with he
      · -- no other endpoint is at the device
        have hrest : l.map (fun e => if isAt transport token e then f e else e) = l.map id := by
          apply List.map_congr_left
          intro e' he'
          refine if_neg fun hat => h.1 ?_
          obtain ⟨ht, hk⟩ := isAt_iff.mp he
          obtain ⟨ht', hk'⟩ := isAt_iff.mp hat
          exact List.mem_map.mpr ⟨e', he', by rw [ht, hk, ht', hk']⟩
        rw [hrest, List.map_id]
      · rw [ih h.2]

/-- The lists after an endpoint has been pruned.
Kind: L -/
theorem list_prune (s : WakeRegistry) (ep : Endpoint JsString) (realm identity r i : JsString) :
    (s.prune (ep.place realm identity)).list r i =
      if r = realm ∧ i = identity then (s.list r i).filter fun e => !isAt ep.transport ep.token e
      else s.list r i := by
  have hlist : (s.prune (ep.place realm identity)).list r i =
      ((s.registry.unregister (ep.place realm identity)).realms r).list i := rfl
  rw [hlist, Registry.realms_unregister, Registry.place_realm, Registry.place_identity]
  by_cases hr : r = realm
  · subst hr
    rw [Registry.setRealm_self, list_unregister]
    simp only [true_and]
    rfl
  · rw [Registry.setRealm_of_ne _ _ hr, if_neg fun h => hr h.1]
    rfl

/-- The lists after an endpoint has been marked.
Kind: L -/
theorem list_marked (s : WakeRegistry) (ep : Endpoint JsString) (realm identity : JsString) (now : ℤ)
    (r i : JsString) :
    (s.markOk (ep.place realm identity) now).list r i =
      if r = realm ∧ i = identity then
        (s.list r i).map fun e =>
          if isAt ep.transport ep.token e then { e with last_ok := some now } else e
      else s.list r i := by
  have hlist : (s.markOk (ep.place realm identity) now).list r i =
      (Registry.setRealm s.registry.realms realm
        ((s.registry.realms realm).markOk identity ep.transport ep.token now) r).list i := rfl
  rw [hlist]
  by_cases hr : r = realm
  · subst hr
    rw [Registry.setRealm_self, list_markOk]
    simp only [true_and]
    split_ifs with hi
    · exact modifyFirst_eq_map (s.distinct r i)
    · rfl
  · rw [Registry.setRealm_of_ne _ _ hr, if_neg fun h => hr h.1]
    rfl

/-- The three things that may come of an attempt.
Kind: L -/
theorem settle_cases (s : WakeRegistry) (a : Attempt) :
    (a.settlement.isGone = true ∧
      ∀ r i, (settle s a).1.list r i = (s.prune (a.ep.place a.realm a.identity)).list r i) ∨
    (a.settlement.isGone = false ∧ a.settlement.isOk = true ∧
      ∀ r i, (settle s a).1.list r i = (s.markOk (a.ep.place a.realm a.identity) a.now).list r i) ∨
    (a.settlement.isGone = false ∧ a.settlement.isOk = false ∧
      ∀ r i, (settle s a).1.list r i = s.list r i) := by
  unfold settle
  rcases a.settlement with res | _
  · rcases res with _ | ⟨ok, gone, isUnsafe⟩
    · exact Or.inr (Or.inr ⟨rfl, rfl, fun r i => WakeRegistry.list_logWakeFailure _ _ _⟩)
    · cases gone
      · cases ok
        · exact Or.inr (Or.inr ⟨rfl, rfl, fun r i => WakeRegistry.list_logWakeFailure _ _ _⟩)
        · exact Or.inr (Or.inl ⟨rfl, rfl, fun r i => rfl⟩)
      · exact Or.inl ⟨rfl, fun r i => WakeRegistry.list_logWakeFailure _ _ _⟩
  · exact Or.inr (Or.inr ⟨rfl, rfl, fun r i => WakeRegistry.list_logWakeFailure _ _ _⟩)

/-- What one attempt does to the lists.
Kind: P -/
theorem list_settle (s : WakeRegistry) (a : Attempt) (r i : JsString) :
    (settle s a).1.list r i =
      if r = a.realm ∧ i = a.identity then (s.list r i).filterMap (effect a) else s.list r i := by
  rcases settle_cases s a with ⟨hgone, h⟩ | ⟨hgone, hok, h⟩ | ⟨hgone, hok, h⟩
  · rw [h, list_prune]
    split_ifs
    · rw [← List.filterMap_eq_filter]
      apply List.filterMap_congr
      intro e _
      unfold effect afterSettlement Option.guard
      rw [hgone, if_pos rfl]
      dsimp only
      by_cases hat : isAt a.ep.transport a.ep.token e = true
      · rw [if_pos hat]
        exact if_neg (by rw [hat]; exact Bool.false_ne_true)
      · rw [if_neg hat]
        exact if_pos (by rw [Bool.eq_false_iff.mpr hat]; rfl)
    · rfl
  · rw [h, list_marked]
    split_ifs
    · rw [← List.filterMap_eq_map]
      apply List.filterMap_congr
      intro e _
      unfold effect afterSettlement
      rw [hgone, hok, if_neg Bool.false_ne_true, if_pos rfl]
      dsimp only [Function.comp_apply]
      split_ifs <;> rfl
    · rfl
  · have hkeep : ∀ e ∈ s.list r i, effect a e = some e := by
      intro e _
      unfold effect afterSettlement
      rw [hgone, hok, if_neg Bool.false_ne_true, if_neg Bool.false_ne_true, ite_self]
    rw [h, List.filterMap_congr hkeep, List.filterMap_some, ite_self]

/-- What some attempts do to the list of their identity.
Kind: P -/
theorem list_settleAll {realm identity : JsString} (order : List Attempt)
    (horder : ∀ a ∈ order, a.realm = realm ∧ a.identity = identity) (s : WakeRegistry) :
    (settleAll s order).list realm identity = (s.list realm identity).filterMap (effects order) := by
  induction order generalizing s with
  | nil => exact List.filterMap_some.symm
  | cons a order ih =>
      obtain ⟨hr, hi⟩ := horder a List.mem_cons_self
      have hrest := ih (fun b hb => horder b (List.mem_cons_of_mem _ hb)) (settle s a).1
      have hone := list_settle s a realm identity
      rw [if_pos ⟨hr.symm, hi.symm⟩] at hone
      rw [hone, List.filterMap_filterMap] at hrest
      exact hrest

/-- An endpoint stays at its device.
Kind: L -/
theorem device_effect {ep ep' : Endpoint JsString} (h : effect a ep = some ep') :
    ep'.transport = ep.transport ∧ ep'.token = ep.token := by
  unfold effect afterSettlement at h
  split_ifs at h
  · obtain rfl := Option.some.inj h
    exact ⟨rfl, rfl⟩
  · obtain rfl := Option.some.inj h
    exact ⟨rfl, rfl⟩
  · obtain rfl := Option.some.inj h
    exact ⟨rfl, rfl⟩

/-- Attempts at other devices do nothing to an endpoint.
Kind: L -/
theorem effects_of_forall_not {order : List Attempt} {ep : Endpoint JsString}
    (h : ∀ a ∈ order, isAt a.ep.transport a.ep.token ep = false) : effects order ep = some ep := by
  induction order with
  | nil => rfl
  | cons a order ih =>
      have hone : effect a ep = some ep := by
        unfold effect
        rw [h a List.mem_cons_self]
        exact if_neg Bool.false_ne_true
      rw [effects, hone, Option.bind_some, ih fun b hb => h b (List.mem_cons_of_mem _ hb)]

/-- When devices are attempted once, an attempt alone decides on the endpoint at its device.
Kind: L -/
theorem effects_of_mem {order : List Attempt} {ep : Endpoint JsString}
    (hnodup : (devices (order.map Attempt.ep)).Nodup) (ha : a ∈ order)
    (hat : isAt a.ep.transport a.ep.token ep = true) : effects order ep = effect a ep := by
  obtain ⟨ht, hk⟩ := isAt_iff.mp hat
  have hother : ∀ b : Attempt, (b.ep.transport, b.ep.token) ≠ (a.ep.transport, a.ep.token) →
      ∀ e : Endpoint JsString, e.transport = ep.transport → e.token = ep.token →
        isAt b.ep.transport b.ep.token e = false := by
    intro b hne e het hek
    rw [← Bool.not_eq_true]
    intro hb
    obtain ⟨hbt, hbk⟩ := isAt_iff.mp hb
    exact hne (Prod.ext (by rw [← hbt, het, ht]) (by rw [← hbk, hek, hk]))
  induction order with
  | nil => exact absurd ha List.not_mem_nil
  | cons b order ih =>
      rw [List.map_cons, devices, List.map_cons, List.nodup_cons] at hnodup
      rw [effects]
      rcases List.mem_cons.mp ha with rfl | hmem
      · -- no later attempt is at the device
        rcases heff : effect a ep with _ | ep'
        · rfl
        · obtain ⟨ht', hk'⟩ := device_effect heff
          rw [Option.bind_some]
          apply effects_of_forall_not
          intro b hb
          refine hother b (fun he => hnodup.1 ?_) ep' ht' hk'
          exact List.mem_map.mpr ⟨b.ep, List.mem_map_of_mem hb, he⟩
      · have hne : (b.ep.transport, b.ep.token) ≠ (a.ep.transport, a.ep.token) := fun he =>
          hnodup.1 (List.mem_map.mpr ⟨a.ep, List.mem_map_of_mem hmem, he.symm⟩)
        have hone : effect b ep = some ep := by
          unfold effect
          rw [hother b hne ep rfl rfl]
          exact if_neg Bool.false_ne_true
        rw [hone, Option.bind_some]
        exact ih hnodup.2 hmem

end Settling

/-! ### Independence -/

/-- What becomes of an endpoint by its own outcome: it goes when it is reached and gone, is marked when it
is reached and the send is ok, and else stays as it is.
Kind: D -/
def ownOutcome (cfg : PushConfig) (job : Job) (ep : Endpoint JsString) : Option (Endpoint JsString) :=
  if reaches cfg job ep then
    match outcome cfg job ep with
    | some (.settles settlement) => afterSettlement job.now settlement ep
    | _ => some ep
  else some ep

/-- The promise of a call: what it has resolved with once some of its attempts have settled. A call that
skips, or has caught an exception, does not wait for any. It is never rejected.
Kind: D -/
def Call.promise (call : Call) (settled : List Attempt) : Option PushResult :=
  if call.result.skipped.isSome ∨ settled.length = call.attempts.length then some call.result else none

/-- The endpoints of an identity fail independently.
Kind: D -/
structure Independent (cfg : PushConfig) (job : Job) (s : WakeRegistry) (call : Call) : Prop where
  /-- Each endpoint to be reached is handed to its transport, once. -/
  handed : call.handed.Perm (((s.list job.realm job.identity).filter (reaches cfg job)).map job.request)
  /-- In whatever order the attempts settle, each endpoint fares by its own outcome. -/
  settled : ∀ order, order.Perm call.attempts → ∀ s' ∈ call.registry,
    (settleAll s' order).list job.realm job.identity =
      (s.list job.realm job.identity).filterMap (ownOutcome cfg job)
  /-- Then the call resolves. -/
  resolves : ∀ order, order.Perm call.attempts → call.promise order = some call.result

/-- An endpoint whose `send` throws is followed by none that is to be reached.
Kind: D -/
def ThrowsLast (cfg : PushConfig) (job : Job) (endpoints : List (Endpoint JsString)) : Prop :=
  ∀ before ep after, endpoints = before ++ ep :: after → reaches cfg job ep = true →
    throwsAt cfg job ep = true → ∀ e ∈ after, reaches cfg job e = false

section Independence

variable {cfg : PushConfig} {job : Job} {s s' : WakeRegistry}

/-- The loop reaches every endpoint exactly when one that throws is the last of them.
Kind: L -/
theorem upTo_eq_self_iff (endpoints : List (Endpoint JsString)) :
    upTo (throwsAt cfg job) (endpoints.filter (reaches cfg job)) =
        endpoints.filter (reaches cfg job) ↔ ThrowsLast cfg job endpoints := by
  have hlen : upTo (throwsAt cfg job) (endpoints.filter (reaches cfg job)) =
      endpoints.filter (reaches cfg job) ↔
      (upTo (throwsAt cfg job) (endpoints.filter (reaches cfg job))).length =
        (endpoints.filter (reaches cfg job)).length :=
    ⟨congrArg List.length, (upTo_isPrefix _ _).eq_of_length⟩
  rw [hlen, length_upTo_iff]
  constructor
  · rintro h before ep after rfl hreach hthrows e he
    have hafter := h (before.filter (reaches cfg job)) ep (after.filter (reaches cfg job))
      (by rw [List.filter_append, List.filter_cons_of_pos hreach]) hthrows
    exact Bool.eq_false_iff.mpr (List.filter_eq_nil_iff.mp hafter e he)
  · intro h before ep after hsplit hthrows
    obtain ⟨l₁, l₂, rfl, hl₁, hl₂⟩ := List.filter_eq_append_iff.mp hsplit
    obtain ⟨m₁, m₂, rfl, hm₁, hreach, hm₂⟩ := List.filter_eq_cons_iff.mp hl₂
    have hnone := h (l₁ ++ m₁) ep m₂ (List.append_assoc l₁ m₁ (ep :: m₂)).symm hreach hthrows
    rw [← hm₂]
    exact List.filter_eq_nil_iff.mpr fun e he => Bool.eq_false_iff.mp (hnone e he)

/-- The attempts are at endpoints that are to be reached.
Kind: L -/
theorem mem_attempts {endpoints : List (Endpoint JsString)} {a : Attempt}
    (h : a ∈ (sendEach cfg job endpoints).attempts) :
    a.ep ∈ endpoints ∧ reaches cfg job a.ep = true ∧
      outcome cfg job a.ep = some (.settles a.settlement) ∧ a = job.attempt a.ep a.settlement := by
  rw [attempts_sendEach] at h
  obtain ⟨ep, hep, ha⟩ := List.mem_filterMap.mp h
  obtain ⟨hmem, hreach⟩ := List.mem_filter.mp ((upTo_isPrefix _ _).subset hep)
  unfold attemptAt at ha
  split at ha
  · next settlement hout =>
      obtain rfl := Option.some.inj ha
      exact ⟨hmem, hreach, hout, rfl⟩
  · exact absurd ha.symm (Option.some_ne_none a)

/-- A device is attempted once.
Kind: L -/
theorem nodup_attempts {endpoints : List (Endpoint JsString)} (h : (devices endpoints).Nodup) :
    (devices ((sendEach cfg job endpoints).attempts.map Attempt.ep)).Nodup := by
  have hsub : ((sendEach cfg job endpoints).attempts.map Attempt.ep).Sublist endpoints := by
    have hreached : (upTo (throwsAt cfg job) (endpoints.filter (reaches cfg job))).Sublist endpoints :=
      (upTo_isPrefix _ _).sublist.trans List.filter_sublist
    rw [attempts_sendEach, List.map_filterMap]
    refine List.Sublist.trans ?_ hreached
    generalize upTo (throwsAt cfg job) (endpoints.filter (reaches cfg job)) = l
    induction l with
    | nil => exact List.Sublist.refl _
    | cons ep l ih =>
        rcases ha : attemptAt cfg job ep with _ | a
        · rw [List.filterMap_cons_none (by rw [ha]; rfl)]
          exact ih.cons ep
        · have hep : a.ep = ep := by
            unfold attemptAt at ha
            split at ha
            · obtain rfl := Option.some.inj ha
              rfl
            · exact absurd ha.symm (Option.some_ne_none a)
          rw [List.filterMap_cons_some (b := ep) (by rw [ha, Option.map_some, hep])]
          exact ih.cons_cons ep
  exact h.sublist (hsub.map _)

/-- When every endpoint is reached, each fares by its own outcome.
Kind: P -/
theorem list_settleAll_of_throwsLast (hlist : s'.list job.realm job.identity = s.list job.realm job.identity)
    (h : ThrowsLast cfg job (s.list job.realm job.identity)) {order : List Attempt}
    (horder : order.Perm (sendEach cfg job (s.list job.realm job.identity)).attempts) :
    (settleAll s' order).list job.realm job.identity =
      (s.list job.realm job.identity).filterMap (ownOutcome cfg job) := by
  have hown : ∀ a ∈ order, a.realm = job.realm ∧ a.identity = job.identity := by
    intro a ha
    obtain ⟨-, -, -, heq⟩ := mem_attempts (horder.subset ha)
    rw [heq]
    exact ⟨rfl, rfl⟩
  have hdistinct := s.distinct job.realm job.identity
  have hnodup : (devices (order.map Attempt.ep)).Nodup := by
    have hperm := (horder.map Attempt.ep).map fun e => (e.transport, e.token)
    exact hperm.nodup_iff.mpr (nodup_attempts hdistinct)
  rw [list_settleAll order hown, hlist]
  apply List.filterMap_congr
  intro e he
  -- an attempt at the device of an endpoint is an attempt at the endpoint
  have hsame : ∀ a ∈ order, isAt a.ep.transport a.ep.token e = true → a.ep = e := by
    intro a ha hat
    obtain ⟨hmem, -⟩ := mem_attempts (horder.subset ha)
    obtain ⟨ht, hk⟩ := isAt_iff.mp hat
    exact eq_of_device hdistinct hmem he ht.symm hk.symm
  unfold ownOutcome
  by_cases hattempt : ∃ a ∈ order, a.ep = e
  · obtain ⟨a, ha, rfl⟩ := hattempt
    obtain ⟨-, hreach, hout, heq⟩ := mem_attempts (horder.subset ha)
    have hat : isAt a.ep.transport a.ep.token a.ep = true := isAt_iff.mpr ⟨rfl, rfl⟩
    rw [effects_of_mem hnodup ha hat, if_pos hreach, hout, effect, if_pos hat]
    rw [heq]
    rfl
  · have hnot : ∀ a ∈ order, isAt a.ep.transport a.ep.token e = false := fun a ha =>
      Bool.eq_false_iff.mpr fun hat => hattempt ⟨a, ha, hsame a ha hat⟩
    rw [effects_of_forall_not hnot]
    split_ifs with hreach
    · rcases hout : outcome cfg job e with _ | (_ | settlement)
      · rfl
      · rfl
      · -- an endpoint whose send gives a promise is attempted
        exfalso
        apply hattempt
        refine ⟨job.attempt e settlement, horder.symm.subset ?_, rfl⟩
        rw [attempts_sendEach, (upTo_eq_self_iff _).mpr h]
        exact List.mem_filterMap.mpr ⟨e, List.mem_filter.mpr ⟨he, hreach⟩, attemptAt_of_settles hout⟩
    · rfl

/-- A call that goes through the endpoints treats them independently exactly when one that throws is the
last to be reached.
Kind: P -/
theorem independent_ofSending_iff
    (hlist : s'.list job.realm job.identity = s.list job.realm job.identity) (sent : ℕ) :
    Independent cfg job s
        (Call.ofSending s' (sendEach cfg job (s.list job.realm job.identity)) sent) ↔
      ThrowsLast cfg job (s.list job.realm job.identity) := by
  constructor
  · intro h
    have hlen := h.handed.length_eq
    unfold Call.ofSending at hlen
    dsimp only at hlen
    rw [handed_sendEach, List.length_map, List.length_map] at hlen
    exact (upTo_eq_self_iff _).mp ((upTo_isPrefix _ _).eq_of_length hlen)
  · intro h
    refine ⟨?_, ?_, ?_⟩
    · unfold Call.ofSending
      dsimp only
      rw [handed_sendEach, (upTo_eq_self_iff _).mpr h]
    · rintro order horder s'' hs
      obtain rfl := Option.some.inj hs
      exact list_settleAll_of_throwsLast hlist h horder
    · intro order horder
      exact if_pos (Or.inr horder.length_eq)

/-- So does a call that sends nothing, where nothing is to be reached.
Kind: L -/
theorem independent_skip (hlist : s'.list job.realm job.identity = s.list job.realm job.identity)
    (h : ∀ ep ∈ s.list job.realm job.identity, reaches cfg job ep = false) (reason : JsString)
    (log : List LogLine) :
    Independent cfg job s (Call.skip (some s') reason log) ↔
      ThrowsLast cfg job (s.list job.realm job.identity) := by
  have hfilter : (s.list job.realm job.identity).filter (reaches cfg job) = [] :=
    List.filter_eq_nil_iff.mpr fun ep hep => Bool.eq_false_iff.mp (h ep hep)
  have hown : (s.list job.realm job.identity).filterMap (ownOutcome cfg job) =
      s.list job.realm job.identity := by
    rw [List.filterMap_congr (g := some), List.filterMap_some]
    intro ep hep
    unfold ownOutcome
    rw [h ep hep]
    exact if_neg Bool.false_ne_true
  refine iff_of_true ⟨?_, ?_, ?_⟩ ?_
  · rw [hfilter]
    exact List.Perm.refl _
  · rintro order horder s'' hs
    obtain rfl := Option.some.inj hs
    rw [List.Perm.eq_nil horder, hown]
    exact hlist
  · intro order horder
    exact if_pos (Or.inr horder.length_eq)
  · rintro before ep after hsplit hreach - e he
    exact h e (hsplit ▸ List.mem_append_right _ (List.mem_cons_of_mem _ he))

/-- Without a configuration nothing is to be reached.
Kind: L -/
theorem reaches_of_unconfigured (h : isConfigured cfg = false) (ep : Endpoint JsString) :
    reaches cfg job ep = false := by
  have hnone : transportFor cfg ep.transport = none := by
    unfold transportFor
    unfold isConfigured at h
    rcases cfg with _ | transports
    · rfl
    · exact if_neg (of_decide_eq_false h)
  rw [reaches, hnone]
  exact Bool.and_false _

/-- Nothing is to be reached without a configuration or without endpoints.
Kind: L -/
theorem reaches_of_nothing {endpoints : List (Endpoint JsString)}
    (h : isConfigured cfg = false ∨ endpoints = []) : ∀ ep ∈ endpoints, reaches cfg job ep = false := by
  intro ep hep
  rcases h with h | rfl
  · exact reaches_of_unconfigured h ep
  · exact absurd hep List.not_mem_nil

theorem list_coalesceOk (s : WakeRegistry) (realm identity : JsString) (now windowMs : ℤ)
    (r i : JsString) : (s.coalesceOk realm identity now windowMs).2.list r i = s.list r i := by
  rcases s.coalesceOk_spec realm identity now windowMs with ⟨last, -, -, h⟩ | ⟨-, h⟩
  · rw [h]
  · rw [h]
    rfl

theorem throwsLast_of_forall {endpoints : List (Endpoint JsString)}
    (h : ∀ ep ∈ endpoints, throwsAt cfg job ep = false) : ThrowsLast cfg job endpoints := by
  rintro before ep after rfl - hthrows
  have hnot := h ep (List.mem_append_right _ List.mem_cons_self)
  exact absurd (hnot.symm.trans hthrows) Bool.false_ne_true

end Independence

/-! ### The calls -/

/-- Two devices, the first with a key that cannot be used for signing.
Kind: D -/
def twoDevices : WakeRegistry :=
  let s := WakeRegistry.blank ⟨0, 0, 0⟩ 0
  let s := s.register (js "app") (js "alice") ⟨js "fcm", js "t1", none, none, none⟩ 1
  s.register (js "app") (js "alice") ⟨js "null", js "t2", none, none, none⟩ 2

/-- The transport of the first throws while it signs, that of the second answers.
Kind: D -/
def brokenKey : PushConfig :=
  some ((JsMap.empty.set (js "fcm") fun _ => .throws).set (js "null") fun _ =>
    .settles (.resolved (some ⟨true, false, false⟩)))

/-- A wake without options of its own.
Kind: D -/
def plainWake (now : ℤ) : WakeOptions := ⟨now, ⟨false, false⟩, 0, .silent, none⟩

/-- Both transports answer, that of the first that its device is gone.
Kind: D -/
def bothAnswer : PushConfig :=
  some ((JsMap.empty.set (js "fcm") fun _ => .settles (.resolved (some ⟨false, true, false⟩))).set
    (js "null") fun _ => .settles (.resolved (some ⟨true, false, false⟩)))

/-- The payload of a silent wake.
Kind: D -/
def silentPayload : List (JsString × JsonValue ℕ) := [(js "type", .str (js "wake")), (js "v", .num 1)]

/-- A call of `fireWake` that is past its gate, and a call of `deliverNotifyPush`, reach every endpoint and
let each fare by its own outcome exactly when an endpoint whose `send` throws is followed by none that is
to be reached.
Kind: P -/
theorem endpoints_independent (num : Numerals N) (cfg : PushConfig) (s : WakeRegistry)
    (realm identity : JsString) :
    (∀ opts payload, opts.kind ≠ .suppressed →
      (s.coalesceOk realm identity opts.now (windowOf (some s) opts)).1 = true →
      buildWakePayload opts.kind = some payload →
      (Independent cfg (wakeJob realm identity opts payload) s
          (fireWake cfg (some s) realm identity opts) ↔
        ThrowsLast cfg (wakeJob realm identity opts payload) (s.list realm identity))) ∧
    ∀ msg mode now logger, mode ≠ .off →
      (Independent cfg (notifyJob num realm identity msg mode now logger) s
          (deliverNotifyPush num cfg (some s) realm identity msg mode now logger) ↔
        ThrowsLast cfg (notifyJob num realm identity msg mode now logger) (s.list realm identity)) := by
  constructor
  · intro opts payload hkind hgate hpayload
    rcases fireWake_cases cfg s realm identity opts with
      ⟨reason, log, -, hcall, hwhy⟩ | ⟨-, ⟨hshut, -⟩ | ⟨-, hcall⟩⟩
    · rw [hcall]
      exact independent_skip rfl (reaches_of_nothing (hwhy.resolve_left hkind)) _ _
    · exact absurd (hshut.symm.trans hgate) Bool.false_ne_true
    · rw [hcall, hpayload, Option.getD_some]
      exact independent_ofSending_iff (list_coalesceOk s realm identity _ _ realm identity) _
  · intro msg mode now logger hmode
    rcases deliverNotifyPush_cases num cfg s realm identity msg mode now logger with
      ⟨reason, hcall, hwhy⟩ | ⟨-, hcall⟩
    · rw [hcall]
      exact independent_skip rfl (reaches_of_nothing (hwhy.resolve_left hmode)) _ _
    · rw [hcall]
      exact independent_ofSending_iff rfl _

/-- A notification of the identity.
Kind: D -/
def plainCard : Message ℕ :=
  ⟨js "n-1", 1, js "message", js "alice", js "hi", none, none, none, none, none, none⟩

/-- Two devices whose transports answer.
Kind: C -/
theorem endpoints_independent_bothAnswer :
    Independent bothAnswer (wakeJob (js "app") (js "alice") (plainWake 3) silentPayload) twoDevices
        (fireWake bothAnswer (some twoDevices) (js "app") (js "alice") (plainWake 3)) ∧
      Independent bothAnswer
        (notifyJob Numerals.nat (js "app") (js "alice") plainCard .content 3 ⟨false, false⟩) twoDevices
        (deliverNotifyPush Numerals.nat bothAnswer (some twoDevices) (js "app") (js "alice") plainCard
          .content 3 ⟨false, false⟩) := by
  have hgate : (twoDevices.coalesceOk (js "app") (js "alice") (plainWake 3).now
      (windowOf (some twoDevices) (plainWake 3))).1 = true := by decide +kernel
  have hthrows : ∀ ep ∈ twoDevices.list (js "app") (js "alice"), throwsAt bothAnswer
      (wakeJob (js "app") (js "alice") (plainWake 3) silentPayload) ep = false := by decide +kernel
  have hthrows' : ∀ ep ∈ twoDevices.list (js "app") (js "alice"), throwsAt bothAnswer
      (notifyJob Numerals.nat (js "app") (js "alice") plainCard .content 3 ⟨false, false⟩) ep = false := by
    decide +kernel
  have h := endpoints_independent Numerals.nat bothAnswer twoDevices (js "app") (js "alice")
  exact ⟨(h.1 (plainWake 3) silentPayload (by decide) hgate rfl).mpr (throwsLast_of_forall hthrows),
    (h.2 plainCard .content 3 ⟨false, false⟩ (by decide)).mpr (throwsLast_of_forall hthrows')⟩

/-- A device behind one whose transport throws is not reached, though the gate has let the call through.
Kind: C -/
theorem not_independent_brokenKey :
    (twoDevices.coalesceOk (js "app") (js "alice") (plainWake 3).now
        (windowOf (some twoDevices) (plainWake 3))).1 = true ∧
      ¬ Independent brokenKey (wakeJob (js "app") (js "alice") (plainWake 3) silentPayload) twoDevices
        (fireWake brokenKey (some twoDevices) (js "app") (js "alice") (plainWake 3)) := by
  refine ⟨by decide +kernel, ?_⟩
  intro h
  have hlen := h.handed.length_eq
  have hone : (fireWake brokenKey (some twoDevices) (js "app") (js "alice") (plainWake 3)).handed.length =
      1 := by decide +kernel
  have htwo : (((twoDevices.list (js "app") (js "alice")).filter
      (reaches brokenKey (wakeJob (js "app") (js "alice") (plainWake 3) silentPayload))).map
      (wakeJob (js "app") (js "alice") (plainWake 3) silentPayload).request).length = 2 := by
    decide +kernel
  exact absurd (hone.symm.trans (hlen.trans htwo)) (by decide)

end TyoMq.Push
