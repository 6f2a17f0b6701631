import TyoMq.Push.Independence

/-!
# What a call says it has sent, and what it has sent

* **The count** (`sent_accounted`): the number that a call resolves with is that of the endpoints handed to
  a transport exactly when every endpoint that is wanted has a configured transport whose `send` does not
  throw, or the call sends nothing at all.
* **The payloads** (`payloads_within_limits`): what is handed to transports is within the limits of the
  providers exactly when nothing is to be reached, or the payload is (`withinLimits_iff`).
-/

namespace TyoMq.Push

open TyoMq.Lib TyoMq.Notify

variable {N : Type*}

/-! ### The count -/

/-- The number that the call resolves with is that of the endpoints handed to transports.
Kind: D -/
def Call.Accounted (call : Call) : Prop := call.result.sent = call.handed.length

instance (call : Call) : Decidable call.Accounted := inferInstanceAs (Decidable (_ = _))

/-- When no endpoint has a configured transport, the call leaves the identity's last wake as it was.
Kind: D -/
def SparesWindow (cfg : PushConfig) (s : WakeRegistry) (realm identity : JsString) (call : Call) : Prop :=
  (∀ ep ∈ s.list realm identity, transportFor cfg ep.transport = none) →
    ∀ s' ∈ call.registry, s'.woken realm identity = s.woken realm identity

/-- Every endpoint that is wanted has a configured transport, whose `send` does not throw.
Kind: D -/
def AllSent (cfg : PushConfig) (job : Job) (endpoints : List (Endpoint JsString)) : Prop :=
  ∀ ep ∈ endpoints, job.wanted ep = true →
    (transportFor cfg ep.transport).isSome = true ∧ throwsAt cfg job ep = false

section Count

variable {cfg : PushConfig} {job : Job} {s : WakeRegistry}

/-- The endpoints to be reached, among those that are wanted.
Kind: L -/
theorem filter_reaches (cfg : PushConfig) (job : Job) (endpoints : List (Endpoint JsString)) :
    endpoints.filter (reaches cfg job) =
      (endpoints.filter job.wanted).filter fun ep => (transportFor cfg ep.transport).isSome := by
  rw [List.filter_filter]
  apply List.filter_congr
  intro ep _
  exact Bool.and_comm _ _

/-- The loop reaches everything when nothing throws.
Kind: L -/
theorem length_handed_of_not_threw {endpoints : List (Endpoint JsString)}
    (h : (sendEach cfg job endpoints).threw = false) :
    (sendEach cfg job endpoints).handed.length = (endpoints.filter (reaches cfg job)).length := by
  rw [threw_sendEach] at h
  rw [handed_sendEach, List.length_map]
  apply length_upTo_iff.mpr
  intro before ep after hsplit hthrows
  have hnot := List.any_eq_false.mp h ep (hsplit ▸ List.mem_append_right _ List.mem_cons_self)
  exact absurd hthrows hnot

/-- Something has been handed out when something throws.
Kind: L -/
theorem handed_ne_nil_of_threw {endpoints : List (Endpoint JsString)}
    (h : (sendEach cfg job endpoints).threw = true) : (sendEach cfg job endpoints).handed ≠ [] := by
  rw [threw_sendEach] at h
  obtain ⟨ep, hep, -⟩ := List.any_eq_true.mp h
  rw [handed_sendEach]
  obtain ⟨e, l, hl⟩ := List.exists_cons_of_ne_nil (List.ne_nil_of_mem hep)
  rw [hl, upTo]
  split_ifs
  · exact List.cons_ne_nil _ _
  · exact List.cons_ne_nil _ _

/-- The count of a call that goes through the endpoints.
Kind: P -/
theorem accounted_ofSending_iff {endpoints : List (Endpoint JsString)} {sent : ℕ}
    (hsent : (sendEach cfg job endpoints).threw = false → sent = endpoints.countP job.wanted) :
    (Call.ofSending s (sendEach cfg job endpoints) sent).Accounted ↔ AllSent cfg job endpoints := by
  have hiff : AllSent cfg job endpoints ↔
      (endpoints.filter (reaches cfg job)).length = endpoints.countP job.wanted ∧
        (sendEach cfg job endpoints).threw = false := by
    rw [threw_sendEach, filter_reaches, List.countP_eq_length_filter, List.length_filter_eq_length_iff,
      List.any_eq_false]
    simp only [AllSent, List.mem_filter, and_imp, Bool.not_eq_true]
    constructor
    · intro h
      exact ⟨fun ep hep hwanted => (h ep hep hwanted).1, fun ep hep hwanted _ => (h ep hep hwanted).2⟩
    · rintro ⟨hsome, hthrows⟩ ep hep hwanted
      exact ⟨hsome ep hep hwanted, hthrows ep hep hwanted (hsome ep hep hwanted)⟩
  rw [hiff]
  unfold Call.Accounted Call.ofSending
  dsimp only
  rcases hthrew : (sendEach cfg job endpoints).threw with _ | _
  · rw [if_neg Bool.false_ne_true, hsent hthrew, length_handed_of_not_threw hthrew]
    exact ⟨fun h => ⟨h.symm, rfl⟩, fun h => h.1.symm⟩
  · -- an exception: nothing is counted
    rw [if_pos rfl]
    refine iff_of_false (fun h => ?_) fun h => Bool.false_ne_true h.2.symm
    exact handed_ne_nil_of_threw hthrew (List.length_eq_zero_iff.mp h.symm)

theorem accounted_skip (registry : Option WakeRegistry) (reason : JsString) (log : List LogLine) :
    (Call.skip registry reason log).Accounted := rfl

theorem allSent_nil (cfg : PushConfig) (job : Job) : AllSent cfg job [] :=
  fun _ hep => absurd hep List.not_mem_nil

end Count

/-- A call that is skipped leaves the last wake as it was.
Kind: L -/
theorem sparesWindow_skip (cfg : PushConfig) (s : WakeRegistry) (realm identity reason : JsString)
    (log : List LogLine) : SparesWindow cfg s realm identity (Call.skip (some s) reason log) := by
  intro _ s' hs
  obtain rfl := Option.some.inj hs
  rfl

/-- When everything is sent to, some endpoint has a transport.
Kind: L -/
theorem sparesWindow_of_allSent {cfg : PushConfig} {s : WakeRegistry} {realm identity : JsString}
    {job : Job} (hwanted : ∀ ep, job.wanted ep = true) (hne : s.list realm identity ≠ [])
    (hall : AllSent cfg job (s.list realm identity)) (call : Call) :
    SparesWindow cfg s realm identity call := by
  intro hnone
  obtain ⟨ep, l, hl⟩ := List.exists_cons_of_ne_nil hne
  have hep : ep ∈ s.list realm identity := hl ▸ List.mem_cons_self
  have hsome := (hall ep hep (hwanted ep)).1
  rw [hnone ep hep] at hsome
  exact absurd hsome Bool.false_ne_true

/-- The count of a wake, and the window of what it cannot reach.
Kind: P -/
theorem fireWake_accounted_iff (cfg : PushConfig) (s : WakeRegistry) (realm identity : JsString)
    (opts : WakeOptions) :
    ((fireWake cfg (some s) realm identity opts).Accounted ∧
        SparesWindow cfg s realm identity (fireWake cfg (some s) realm identity opts)) ↔
      (opts.kind = .suppressed ∨ isConfigured cfg = false ∨
        (s.coalesceOk realm identity opts.now (windowOf (some s) opts)).1 = false ∨
        AllSent cfg (wakeJob realm identity opts ((buildWakePayload opts.kind).getD []))
          (s.list realm identity)) := by
  rcases fireWake_cases cfg s realm identity opts with
    ⟨reason, log, -, hcall, hwhy⟩ | ⟨⟨hkind, hcfg, hne⟩, ⟨hshut, log, hcall⟩ | ⟨hgate, hcall⟩⟩
  · rw [hcall]
    refine iff_of_true ⟨accounted_skip _ _ _, sparesWindow_skip cfg s realm identity _ _⟩ ?_
    rcases hwhy with hkind | hcfg | hnil
    · exact Or.inl hkind
    · exact Or.inr (Or.inl hcfg)
    · rw [hnil]
      exact Or.inr (Or.inr (Or.inr (allSent_nil _ _)))
  · rw [hcall]
    exact iff_of_true ⟨accounted_skip _ _ _, sparesWindow_skip cfg s realm identity _ _⟩
      (Or.inr (Or.inr (Or.inl hshut)))
  · rw [hcall, accounted_ofSending_iff fun _ => (congrFun List.countP_true _).symm]
    constructor
    · intro h
      exact Or.inr (Or.inr (Or.inr h.1))
    · rintro (h | h | h | hall)
      · exact absurd h hkind
      · exact absurd (h.symm.trans hcfg) Bool.false_ne_true
      · exact absurd (h.symm.trans hgate) Bool.false_ne_true
      · exact ⟨hall, sparesWindow_of_allSent (fun _ => rfl) hne hall _⟩

/-- The count of a notification.
Kind: P -/
theorem deliverNotifyPush_accounted_iff (num : Numerals N) (cfg : PushConfig) (s : WakeRegistry)
    (realm topic : JsString) (msg : Message N) (mode : PushMode) (now : ℤ) (logger : Logger) :
    (deliverNotifyPush num cfg (some s) realm topic msg mode now logger).Accounted ↔
      (mode = .off ∨ isConfigured cfg = false ∨
        AllSent cfg (notifyJob num realm topic msg mode now logger) (s.list realm topic)) := by
  rcases deliverNotifyPush_cases num cfg s realm topic msg mode now logger with
    ⟨reason, hcall, hwhy⟩ | ⟨⟨hmode, hcfg⟩, hcall⟩
  · rw [hcall]
    refine iff_of_true (accounted_skip _ _ _) ?_
    rcases hwhy with hmode | hcfg | hnil
    · exact Or.inl hmode
    · exact Or.inr (Or.inl hcfg)
    · rw [hnil]
      exact Or.inr (Or.inr (allSent_nil _ _))
  · rw [hcall, accounted_ofSending_iff fun h => sent_sendEach h]
    refine ⟨fun h => Or.inr (Or.inr h), ?_⟩
    rintro (h | h | hall)
    · exact absurd h hmode
    · exact absurd (h.symm.trans hcfg) Bool.false_ne_true
    · exact hall

/-- For `fireWake`, the number is right and an identity whose endpoints have no configured transport keeps
its window, exactly when the wake is suppressed, nothing is configured, the gate is closed, or every
endpoint is sent to. For `deliverNotifyPush`, the number is right exactly when the mode is `off`, nothing
is configured, or every endpoint that is not filtered is sent to.
Kind: P -/
theorem sent_accounted (num : Numerals N) (cfg : PushConfig) (s : WakeRegistry)
    (realm identity : JsString) :
    (∀ opts, ((fireWake cfg (some s) realm identity opts).Accounted ∧
        SparesWindow cfg s realm identity (fireWake cfg (some s) realm identity opts)) ↔
      (opts.kind = .suppressed ∨ isConfigured cfg = false ∨
        (s.coalesceOk realm identity opts.now (windowOf (some s) opts)).1 = false ∨
        AllSent cfg (wakeJob realm identity opts ((buildWakePayload opts.kind).getD []))
          (s.list realm identity))) ∧
    ∀ (msg : Message N) mode now logger,
      (deliverNotifyPush num cfg (some s) realm identity msg mode now logger).Accounted ↔
        (mode = .off ∨ isConfigured cfg = false ∨
          AllSent cfg (notifyJob num realm identity msg mode now logger) (s.list realm identity)) := by
  constructor
  · exact fun opts => fireWake_accounted_iff cfg s realm identity opts
  · exact fun msg mode now logger =>
      deliverNotifyPush_accounted_iff num cfg s realm identity msg mode now logger

/-- A device whose transport is not configured on this node.
Kind: D -/
def oneDevice : WakeRegistry :=
  (WakeRegistry.blank ⟨0, 0, 0⟩ 0).register (js "app") (js "alice")
    ⟨js "fcm", js "t1", none, none, none⟩ 1

/-- A node with another transport only.
Kind: D -/
def nullOnly : PushConfig :=
  some (JsMap.empty.set (js "null") fun _ => .settles (.resolved (some ⟨true, false, false⟩)))

/-- A message without anything but its text.
Kind: D -/
def plainOptions (message : JsString) : MessageOptions ℕ :=
  ⟨none, none, js "t", some message, none, none, .text [], none, none, false, none⟩

/-- Nothing is handed out, yet both calls say that they have sent to one endpoint, and the wake takes the
window.
Kind: C -/
theorem not_accounted_nullOnly :
    ¬ ((fireWake nullOnly (some oneDevice) (js "app") (js "alice") (plainWake 3)).Accounted ∧
        SparesWindow nullOnly oneDevice (js "app") (js "alice")
          (fireWake nullOnly (some oneDevice) (js "app") (js "alice") (plainWake 3))) ∧
      ¬ SparesWindow nullOnly oneDevice (js "app") (js "alice")
          (fireWake nullOnly (some oneDevice) (js "app") (js "alice") (plainWake 3)) ∧
      ¬ (deliverNotifyPush Numerals.nat nullOnly (some oneDevice) (js "app") (js "alice")
          (buildMessage (plainOptions (js "hi")) (Vector.replicate 9 ⟨0, by decide⟩) 3) .content 3
          ⟨false, false⟩).Accounted := by
  have hwake : ¬ (fireWake nullOnly (some oneDevice) (js "app") (js "alice") (plainWake 3)).Accounted := by
    decide +kernel
  have hnone : ∀ ep ∈ oneDevice.list (js "app") (js "alice"), transportFor nullOnly ep.transport = none := by
    have hall : ∀ ep ∈ oneDevice.list (js "app") (js "alice"),
        (transportFor nullOnly ep.transport).isNone = true := by decide +kernel
    exact fun ep hep => Option.isNone_iff_eq_none.mp (hall ep hep)
  refine ⟨fun h => hwake h.1, ?_, by decide +kernel⟩
  intro h
  have hbefore : oneDevice.woken (js "app") (js "alice") = none := by decide +kernel
  have hafter : ((fireWake nullOnly (some oneDevice) (js "app") (js "alice") (plainWake 3)).registry.map
      fun s => s.woken (js "app") (js "alice")) = some (some 3) := by decide +kernel
  obtain ⟨s', hs, hwoken⟩ := Option.map_eq_some_iff.mp hafter
  rw [h hnone s' hs, hbefore] at hwoken
  exact absurd hwoken.symm (Option.some_ne_none 3)

/-! ### The payloads -/

/-- A message of the broker's own: its id is generated, and its topic is one that `TOPIC_RE` accepts.
Kind: D -/
def brokerMessage (opts : MessageOptions N) (topic : Topic) (random : Vector (Fin 256) 9) (nowMs : ℕ) :
    Message N :=
  buildMessage { opts with topic := topic.text, id := none } random nowMs

section Payloads

variable {num : Numerals N} {cfg : PushConfig} {s : WakeRegistry} {realm topic : JsString}
  {msg : Message N} {mode : PushMode} {now : ℤ} {logger : Logger}

/-- What a call hands to transports.
Kind: L -/
theorem handed_deliverNotifyPush (hmode : mode ≠ .off) :
    (deliverNotifyPush num cfg (some s) realm topic msg mode now logger).handed =
      (upTo (throwsAt cfg (notifyJob num realm topic msg mode now logger))
        ((s.list realm topic).filter (reaches cfg (notifyJob num realm topic msg mode now logger)))).map
          (notifyJob num realm topic msg mode now logger).request := by
  rcases deliverNotifyPush_cases num cfg s realm topic msg mode now logger with
    ⟨reason, hcall, hwhy⟩ | ⟨-, hcall⟩
  · have hnone : (s.list realm topic).filter
        (reaches cfg (notifyJob num realm topic msg mode now logger)) = [] :=
      List.filter_eq_nil_iff.mpr fun ep hep =>
        Bool.eq_false_iff.mp (reaches_of_nothing (hwhy.resolve_left hmode) ep hep)
    rw [hcall, hnone]
    rfl
  · rw [hcall]
    exact handed_sendEach cfg _ _

/-- Every payload that is handed out meets a condition exactly when the payload of the call does, or
nothing is to be reached.
Kind: L -/
theorem forall_handed_iff {P : NotifyPayload → Prop} (hmode : mode ≠ .off) :
    (∀ r ∈ (deliverNotifyPush num cfg (some s) realm topic msg mode now logger).handed,
        ∃ p, r.payload = .notification p ∧ P p) ↔
      (∀ ep ∈ s.list realm topic,
        reaches cfg (notifyJob num realm topic msg mode now logger) ep = false) ∨
        P (pushPayload num msg mode) := by
  rw [handed_deliverNotifyPush hmode]
  constructor
  · intro h
    rcases hl : (s.list realm topic).filter
        (reaches cfg (notifyJob num realm topic msg mode now logger)) with _ | ⟨ep, l⟩
    · exact Or.inl fun ep hep => Bool.eq_false_iff.mpr (List.filter_eq_nil_iff.mp hl ep hep)
    · rw [hl] at h
      have hfirst : ep ∈ upTo (throwsAt cfg (notifyJob num realm topic msg mode now logger)) (ep :: l) := by
        unfold upTo
        split_ifs <;> exact List.mem_cons_self
      obtain ⟨p, hp, hP⟩ := h _ (List.mem_map_of_mem hfirst)
      obtain rfl := PushPayload.notification.inj hp
      exact Or.inr hP
  · rintro h r hr
    obtain ⟨ep, hep, rfl⟩ := List.mem_map.mp hr
    obtain ⟨hmem, hreach⟩ := List.mem_filter.mp ((upTo_isPrefix _ _).subset hep)
    rcases h with h | h
    · exact absurd ((h ep hmem).symm.trans hreach) Bool.false_ne_true
    · exact ⟨_, rfl, h⟩

end Payloads

/-- Every payload handed to a transport is within the limits, and has the actions of the message or no
content, exactly when no endpoint is to be reached, the mode is another than `content`, the message has
actions, or what its fields come to is not too large.
Kind: P -/
theorem payloads_within_limits (num : Numerals N) (cfg : PushConfig) (s : WakeRegistry) (realm : JsString)
    (opts : MessageOptions N) (topic : Topic) (random : Vector (Fin 256) 9) (nowMs : ℕ) (mode : PushMode)
    (now : ℤ) (logger : Logger) :
    (∀ r ∈ (deliverNotifyPush num cfg (some s) realm topic.text
          (brokerMessage opts topic random nowMs) mode now logger).handed,
        ∃ p, r.payload = .notification p ∧ WithinLimits num (brokerMessage opts topic random nowMs) p) ↔
      (∀ ep ∈ s.list realm topic.text, reaches cfg (notifyJob num realm topic.text
          (brokerMessage opts topic random nowMs) mode now logger) ep = false) ∨
        mode ≠ .content ∨ hasActions (brokerMessage opts topic random nowMs) = true ∨
        contentBytes (brokerMessage opts topic random nowMs) ≤ NOTIFY_PUSH_TOTAL_MAX := by
  have hid : (brokerMessage opts topic random nowMs).id = brokerId random := by
    unfold brokerMessage buildMessage
    dsimp only
    rw [Option.getD_none, if_pos rfl]
  have hbytes : fieldBytes 2 (ifText (brokerMessage opts topic random nowMs).id) ≤ 28 := by
    rw [hid]
    unfold ifText
    split_ifs
    · exact Nat.zero_le _
    · dsimp only [fieldBytes]
      rw [textBytes_brokerId]
  by_cases hmode : mode = .off
  · subst hmode
    exact iff_of_true (fun r hr => absurd hr List.not_mem_nil) (Or.inr (Or.inl (by decide)))
  · rw [forall_handed_iff hmode, withinLimits_iff (textBytes_topic_le topic) hbytes]

/-- A text of 1024 ideographs, under a title of 120.
Kind: D -/
def longMessage : MessageOptions ℕ :=
  { plainOptions (List.replicate 1024 0x5B89) with title := some (List.replicate 120 0x5B89) }

/-- The message, under the topic `t`.
Kind: D -/
def longCard : Message ℕ :=
  brokerMessage longMessage ⟨js "t", by decide⟩ (Vector.replicate 9 ⟨0, by decide⟩) 1760000000000

/-- A phone that is registered for the topic.
Kind: D -/
def onePhone : WakeRegistry :=
  (WakeRegistry.blank ⟨0, 0, 0⟩ 0).register (js "notify") (js "t") ⟨js "null", js "t1", none, none, none⟩ 1

/-- The message is handed to the transport in more bytes than a payload may have.
Kind: C -/
theorem not_withinLimits_longCard :
    ¬ ∀ r ∈ (deliverNotifyPush Numerals.nat nullOnly (some onePhone) (js "notify") (js "t") longCard
        .content 3 ⟨false, false⟩).handed,
      ∃ p, r.payload = .notification p ∧ WithinLimits Numerals.nat longCard p := by
  have htopic : textBytes longCard.topic ≤ 64 := by decide +kernel
  have hid : fieldBytes 2 (ifText longCard.id) ≤ 28 := by decide +kernel
  have hactions : hasActions longCard = false := by decide +kernel
  have hlarge : NOTIFY_PUSH_TOTAL_MAX < contentBytes longCard := by decide +kernel
  have hreach : ∃ ep ∈ onePhone.list (js "notify") (js "t"), reaches nullOnly
      (notifyJob Numerals.nat (js "notify") (js "t") longCard .content 3 ⟨false, false⟩) ep = true := by
    decide +kernel
  rw [forall_handed_iff (by decide), withinLimits_iff htopic hid]
  rintro (h | h | h | h)
  · obtain ⟨ep, hep, hr⟩ := hreach
    exact absurd ((h ep hep).symm.trans hr) Bool.false_ne_true
  · exact h rfl
  · exact absurd (hactions.symm.trans h) Bool.false_ne_true
  · exact absurd h (Nat.not_le_of_lt hlarge)

end TyoMq.Push
