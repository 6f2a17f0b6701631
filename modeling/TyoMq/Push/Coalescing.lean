import TyoMq.Lib.Runs
import TyoMq.Push.Independence

/-!
# Wakes are coalesced

`fireWake` over runs: wakes, resets, registrations, unregistrations, and sends that settle, in any order.

* **What moves the gate** (`woken_step`): a wake that passes it, and a reset. Every other event, and every
  event of another identity, leaves it where it is.
* **The gate and the history** (`exists_of_woken`, `woken_of_passes`): an identity's last wake is one that
  passed and has not been reset, and none such is later.
* **Coalescing** (`wakes_coalesced`): two wakes of an identity that pass without a reset in between are at
  least the window apart, and a wake that could be sent is held back only by one that passed within the
  window and has not been reset.
-/

namespace TyoMq.Push

open TyoMq.Lib RealmMaps

namespace Coalescing

/-! ### Runs -/

/-- A call of `fireWake`.
Kind: D -/
structure WakeCall where
  /-- The configuration. -/
  cfg : PushConfig
  /-- The realm. -/
  realm : JsString
  /-- The identity. -/
  identity : JsString
  /-- The options. -/
  opts : WakeOptions

/-- What happens.
Kind: D -/
inductive Event where
  | wake (c : WakeCall)
  | resetCoalesce (realm identity : JsString)
  | register (realm identity : JsString) (ep : Registration JsString) (now : ℤ)
  | unregister (place : Place JsString)
  /-- One of the sends under way settles. -/
  | settle (i : ℕ)

/-- The registry, and the sends under way.
Kind: D -/
structure Waking where
  /-- The registry. -/
  registry : WakeRegistry
  /-- The sends under way. -/
  underWay : List Attempt

/-- The call, in a state.
Kind: D -/
def WakeCall.run (c : WakeCall) (s : WakeRegistry) : Call :=
  fireWake c.cfg (some s) c.realm c.identity c.opts

/-- One event.
Kind: D -/
def step (s : Waking) : Event → Waking
  | .wake c =>
      let call := c.run s.registry
      ⟨call.registry.getD s.registry, s.underWay ++ call.attempts⟩
  | .resetCoalesce realm identity => { s with registry := s.registry.resetCoalesce realm identity }
  | .register realm identity ep now => { s with registry := s.registry.register realm identity ep now }
  | .unregister place => { s with registry := s.registry.unregister place }
  | .settle i =>
      match s.underWay[i]? with
      | none => s
      | some a => ⟨(settle s.registry a).1, s.underWay.eraseIdx i⟩

/-- The state after a run.
Kind: D -/
def after (s : WakeRegistry) (l : List Event) : Waking := runFrom step ⟨s, []⟩ l

/-- Is there something to wake, and is the wake wanted?
Kind: D -/
def Eligible (s : WakeRegistry) (c : WakeCall) : Prop :=
  c.opts.kind ≠ .suppressed ∧ isConfigured c.cfg = true ∧ s.list c.realm c.identity ≠ []

instance (s : WakeRegistry) (c : WakeCall) : Decidable (Eligible s c) :=
  inferInstanceAs (Decidable (_ ∧ _))

/-- Does the wake pass the gate?
Kind: D -/
def Passes (s : WakeRegistry) (c : WakeCall) : Prop :=
  Eligible s c ∧ (s.coalesceOk c.realm c.identity c.opts.now (windowOf (some s) c.opts)).1 = true

instance (s : WakeRegistry) (c : WakeCall) : Decidable (Passes s c) := inferInstanceAs (Decidable (_ ∧ _))

/-- Is the event about the identity's gate?
Kind: D -/
def Event.isFor (realm identity : JsString) : Event → Prop
  | .wake c => c.realm = realm ∧ c.identity = identity
  | .resetCoalesce r i => r = realm ∧ i = identity
  | .register _ _ _ _ => False
  | .unregister _ => False
  | .settle _ => False

/-- The time of a wake.
Kind: D -/
def Event.wakeTime : Event → Option ℤ
  | .wake c => some c.opts.now
  | _ => none

/-- The times of the wakes do not decrease.
Kind: D -/
def InTime (l : List Event) : Prop :=
  l.Pairwise fun e e' => ∀ t ∈ e.wakeTime, ∀ t' ∈ e'.wakeTime, t ≤ t'

/-- Every wake has this window.
Kind: D -/
def ConstantWindow (s₀ : WakeRegistry) (windowMs : ℤ) (l : List Event) : Prop :=
  ∀ c, .wake c ∈ l → windowOf (some s₀) c.opts = windowMs

/-! ### One step -/

section Step

variable {s : WakeRegistry} {c : WakeCall} {r i : JsString}

theorem windowOf_ne_zero (s : WakeRegistry) (opts : WakeOptions) : windowOf (some s) opts ≠ 0 := by
  unfold windowOf
  split_ifs with h
  · exact h
  · dsimp only
    split_ifs with h'
    · exact h'
    · decide

theorem skipped_ofSending (s : WakeRegistry) (sending : Sending) (sent : ℕ) :
    (Call.ofSending s sending sent).result.skipped ≠ some (js "coalesced") := by
  unfold Call.ofSending
  dsimp only
  split_ifs
  · exact fun he => absurd (Option.some.inj he) (by decide)
  · exact fun he => Option.some_ne_none _ he.symm

/-- The three things that may come of a wake.
Kind: P -/
theorem wake_cases (s : WakeRegistry) (c : WakeCall) :
    (¬ Eligible s c ∧ (c.run s).result.skipped ≠ some (js "coalesced") ∧ (c.run s).registry = some s) ∨
    (Eligible s c ∧ ¬ Passes s c ∧ (c.run s).result.skipped = some (js "coalesced") ∧
      (∃ last, s.woken c.realm c.identity = some last ∧
        c.opts.now - last < windowOf (some s) c.opts) ∧ (c.run s).registry = some s) ∨
    (Passes s c ∧ (c.run s).result.skipped ≠ some (js "coalesced") ∧
      (∀ last, s.woken c.realm c.identity = some last →
        windowOf (some s) c.opts ≤ c.opts.now - last) ∧
      (c.run s).registry = some (s.setWoken c.realm c.identity c.opts.now)) := by
  have hspec := s.coalesceOk_spec c.realm c.identity c.opts.now (windowOf (some s) c.opts)
  rw [if_neg (windowOf_ne_zero s c.opts)] at hspec
  unfold WakeCall.run
  rcases fireWake_cases c.cfg s c.realm c.identity c.opts with
    ⟨reason, log, hreason, hcall, hwhy⟩ | ⟨⟨hkind, hcfg, hne⟩, h⟩
  · -- nothing to wake
    rw [hcall]
    refine Or.inl ⟨?_, fun h => hreason (Option.some.inj h), rfl⟩
    rintro ⟨hkind, hcfg, hne⟩
    rcases hwhy with h | h | h
    · exact hkind h
    · exact Bool.false_ne_true (h.symm.trans hcfg)
    · exact hne h
  have heligible : Eligible s c := ⟨hkind, hcfg, hne⟩
  unfold Passes
  rcases hspec with ⟨last, hlast, hin, hgate⟩ | ⟨hout, hgate⟩
  · rw [hgate] at h ⊢
    obtain ⟨-, log, hcall⟩ := h.resolve_right fun h => Bool.false_ne_true h.1
    rw [hcall]
    exact Or.inr (Or.inl ⟨heligible, fun hp => Bool.false_ne_true hp.2, rfl, ⟨last, hlast, hin⟩, rfl⟩)
  · rw [hgate] at h ⊢
    obtain ⟨-, hcall⟩ := h.resolve_left fun h => Bool.false_ne_true h.1.symm
    rw [hcall]
    exact Or.inr (Or.inr ⟨⟨heligible, rfl⟩, skipped_ofSending _ _ _, hout, rfl⟩)

theorem woken_settle (s : WakeRegistry) (a : Attempt) : (settle s a).1.woken r i = s.woken r i := by
  unfold settle
  rcases a.settlement with res | _
  · dsimp only
    split_ifs
    · rw [WakeRegistry.woken_logWakeFailure, WakeRegistry.woken_prune]
    · rfl
    · rw [WakeRegistry.woken_logWakeFailure]
    · rw [WakeRegistry.woken_logWakeFailure]
  · rw [WakeRegistry.woken_logWakeFailure]

/-- The last wake of an identity once another call has come.
Kind: L -/
theorem woken_step_wake (s : Waking) (c : WakeCall) (r i : JsString) :
    (Passes s.registry c ∧ (step s (.wake c)).registry.woken r i =
      if r = c.realm ∧ i = c.identity then some c.opts.now else s.registry.woken r i) ∨
    (¬ Passes s.registry c ∧ (step s (.wake c)).registry.woken r i = s.registry.woken r i) := by
  have hstep : (step s (.wake c)).registry = (c.run s.registry).registry.getD s.registry := rfl
  rw [hstep]
  rcases wake_cases s.registry c with ⟨hnot, -, hreg⟩ | ⟨-, hnot, -, -, hreg⟩ | ⟨hpass, -, -, hreg⟩
  · rw [hreg, Option.getD_some]
    exact Or.inr ⟨fun hp => hnot hp.1, rfl⟩
  · rw [hreg, Option.getD_some]
    exact Or.inr ⟨hnot, rfl⟩
  · rw [hreg, Option.getD_some, WakeRegistry.woken_setWoken]
    exact Or.inl ⟨hpass, rfl⟩

/-- What one event does to the last wake of an identity.
Kind: P -/
theorem woken_step (s : Waking) (e : Event) (r i : JsString) :
    (∃ c, e = .wake c ∧ c.realm = r ∧ c.identity = i ∧ Passes s.registry c ∧
      (step s e).registry.woken r i = some c.opts.now) ∨
    (e = .resetCoalesce r i ∧ (step s e).registry.woken r i = none) ∨
    ((∀ c, e = .wake c → c.realm = r → c.identity = i → ¬ Passes s.registry c) ∧
      e ≠ .resetCoalesce r i ∧ (step s e).registry.woken r i = s.registry.woken r i) := by
  cases e with
  | wake c =>
      rcases woken_step_wake s c r i with ⟨hpass, hwoken⟩ | ⟨hnot, hwoken⟩
      · by_cases hkey : r = c.realm ∧ i = c.identity
        · rw [if_pos hkey] at hwoken
          exact Or.inl ⟨c, rfl, hkey.1.symm, hkey.2.symm, hpass, hwoken⟩
        · rw [if_neg hkey] at hwoken
          refine Or.inr (Or.inr ⟨?_, Event.noConfusion, hwoken⟩)
          intro c' hc' hr hi
          rw [← Event.wake.inj hc'] at hr hi
          exact absurd ⟨hr.symm, hi.symm⟩ hkey
      · refine Or.inr (Or.inr ⟨?_, Event.noConfusion, hwoken⟩)
        intro c' hc' _ _
        rwa [← Event.wake.inj hc']
  | resetCoalesce realm identity =>
      have hwoken : (step s (.resetCoalesce realm identity)).registry.woken r i =
          if r = realm ∧ i = identity then none else s.registry.woken r i :=
        WakeRegistry.woken_resetCoalesce
      by_cases hkey : r = realm ∧ i = identity
      · rw [if_pos hkey] at hwoken
        refine Or.inr (Or.inl ⟨?_, hwoken⟩)
        rw [hkey.1, hkey.2]
      · rw [if_neg hkey] at hwoken
        refine Or.inr (Or.inr ⟨fun c hc => Event.noConfusion hc, ?_, hwoken⟩)
        intro he
        obtain ⟨hr, hi⟩ := Event.resetCoalesce.inj he
        exact hkey ⟨hr.symm, hi.symm⟩
  | register realm identity ep now =>
      exact Or.inr (Or.inr ⟨fun c hc => Event.noConfusion hc, Event.noConfusion, rfl⟩)
  | unregister place =>
      exact Or.inr (Or.inr ⟨fun c hc => Event.noConfusion hc, Event.noConfusion, rfl⟩)
  | settle n =>
      refine Or.inr (Or.inr ⟨fun c hc => Event.noConfusion hc, Event.noConfusion, ?_⟩)
      dsimp only [step]
      rcases s.underWay[n]? with _ | a
      · rfl
      · exact woken_settle _ _

/-- The window of a registry does not change.
Kind: L -/
theorem coalesceWindowMs_step (s : Waking) (e : Event) :
    (step s e).registry.coalesceWindowMs = s.registry.coalesceWindowMs := by
  cases e with
  | wake c =>
      dsimp only [step]
      rcases wake_cases s.registry c with ⟨-, -, h⟩ | ⟨-, -, -, -, h⟩ | ⟨-, -, -, h⟩
      · rw [h, Option.getD_some]
      · rw [h, Option.getD_some]
      · rw [h, Option.getD_some]
        rfl
  | resetCoalesce realm identity => rfl
  | register realm identity ep now => rfl
  | unregister place => rfl
  | settle n =>
      dsimp only [step]
      rcases s.underWay[n]? with _ | a
      · rfl
      · dsimp only
        unfold settle
        have hlog : ∀ (s : WakeRegistry) (logger : Logger) (transport reason : JsString) (now : ℤ),
            (s.logWakeFailure logger transport reason now).1.coalesceWindowMs = s.coalesceWindowMs := by
          intro s logger transport reason now
          obtain ⟨failLog, h⟩ := WakeRegistry.logWakeFailure_cases s logger transport reason now
          rw [h]
        rcases a.settlement with res | _
        · dsimp only
          split_ifs
          · rw [hlog]
            rfl
          · rfl
          · rw [hlog]
          · rw [hlog]
        · rw [hlog]

end Step

/-! ### Runs -/

section Run

variable {s₀ : WakeRegistry} {l : List Event} {c : WakeCall} {r i : JsString}

theorem after_append (s₀ : WakeRegistry) (l₁ l₂ : List Event) :
    after s₀ (l₁ ++ l₂) = runFrom step (after s₀ l₁) l₂ := runFrom_append step _ l₁ l₂

theorem after_concat (s₀ : WakeRegistry) (l : List Event) (e : Event) :
    after s₀ (l ++ [e]) = step (after s₀ l) e := after_append s₀ l [e]

theorem coalesceWindowMs_after (s₀ : WakeRegistry) (l : List Event) :
    (after s₀ l).registry.coalesceWindowMs = s₀.coalesceWindowMs := by
  induction l using List.reverseRecOn with
  | nil => rfl
  | append_singleton l e ih => rw [after_concat, coalesceWindowMs_step, ih]

theorem windowOf_after (s₀ : WakeRegistry) (l : List Event) (opts : WakeOptions) :
    windowOf (some (after s₀ l).registry) opts = windowOf (some s₀) opts := by
  unfold windowOf
  dsimp only
  rw [coalesceWindowMs_after]

theorem le_of_inTime {l₁ l₂ l₃ : List Event} {c' : WakeCall}
    (h : InTime (l₁ ++ .wake c :: (l₂ ++ .wake c' :: l₃))) : c.opts.now ≤ c'.opts.now := by
  have htail := (List.pairwise_append.mp h).2.1
  exact (List.pairwise_cons.mp htail).1 (.wake c') (List.mem_append_right _ List.mem_cons_self) _ rfl _ rfl

/-- A wake that is recorded has passed, and has not been reset.
Kind: P -/
theorem exists_of_woken (hstart : ∀ r i, s₀.woken r i = none) {t : ℤ}
    (h : (after s₀ l).registry.woken r i = some t) :
    ∃ l₁ c l₂, l = l₁ ++ .wake c :: l₂ ∧ c.realm = r ∧ c.identity = i ∧
      Passes (after s₀ l₁).registry c ∧ c.opts.now = t ∧ Event.resetCoalesce r i ∉ l₂ := by
  induction l using List.reverseRecOn with
  | nil => exact absurd ((hstart r i).symm.trans h).symm (Option.some_ne_none t)
  | append_singleton l e ih =>
      rw [after_concat] at h
      rcases woken_step (after s₀ l) e r i with
        ⟨c, rfl, hr, hi, hpass, hwoken⟩ | ⟨-, hwoken⟩ | ⟨-, hreset, hwoken⟩
      · obtain rfl := Option.some.inj (hwoken.symm.trans h)
        exact ⟨l, c, [], rfl, hr, hi, hpass, rfl, List.not_mem_nil⟩
      · exact absurd (hwoken.symm.trans h).symm (Option.some_ne_none t)
      · obtain ⟨l₁, c, l₂, rfl, hr, hi, hpass, ht, hnot⟩ := ih (hwoken.symm.trans h)
        refine ⟨l₁, c, l₂ ++ [e], by rw [List.append_assoc, List.cons_append], hr, hi, hpass, ht, ?_⟩
        intro hmem
        rcases List.mem_append.mp hmem with hmem | hmem
        · exact hnot hmem
        · exact hreset (List.mem_singleton.mp hmem).symm

/-- A wake that has passed and has not been reset is recorded, or a later one is.
Kind: P -/
theorem woken_of_passes {l₁ l₂ : List Event} (htime : InTime (l₁ ++ .wake c :: l₂))
    (hpass : Passes (after s₀ l₁).registry c) (hreset : .resetCoalesce c.realm c.identity ∉ l₂) :
    ∃ t, (after s₀ (l₁ ++ .wake c :: l₂)).registry.woken c.realm c.identity = some t ∧
      c.opts.now ≤ t := by
  induction l₂ using List.reverseRecOn with
  | nil =>
      rw [after_concat]
      rcases woken_step (after s₀ l₁) (.wake c) c.realm c.identity with
        ⟨c', hc, -, -, -, hwoken⟩ | ⟨hc, -⟩ | ⟨hnot, -, -⟩
      · rw [← Event.wake.inj hc] at hwoken
        exact ⟨_, hwoken, Int.le_refl _⟩
      · exact Event.noConfusion hc
      · exact absurd hpass (hnot c rfl rfl rfl)
  | append_singleton l₂ e ih =>
      have hsplit : l₁ ++ .wake c :: (l₂ ++ [e]) = l₁ ++ .wake c :: l₂ ++ [e] := by
        rw [List.append_assoc, List.cons_append]
      have hbefore : InTime (l₁ ++ .wake c :: l₂) := by
        rw [hsplit] at htime
        exact (List.pairwise_append.mp htime).1
      obtain ⟨t, ht, hle⟩ := ih hbefore fun hmem => hreset (List.mem_append_left _ hmem)
      rw [hsplit, after_concat]
      rcases woken_step (after s₀ (l₁ ++ .wake c :: l₂)) e c.realm c.identity with
        ⟨c', rfl, -, -, -, hwoken⟩ | ⟨rfl, -⟩ | ⟨-, -, hwoken⟩
      · exact ⟨_, hwoken, le_of_inTime htime⟩
      · exact absurd (List.mem_append_right _ (List.mem_singleton_self _)) hreset
      · exact ⟨t, hwoken.trans ht, hle⟩

/-- The window has passed since a wake that has passed and has not been reset, when another passes.
Kind: P -/
theorem windowOf_le_of_passes {l₁ l₂ : List Event} {c' : WakeCall}
    (htime : InTime (l₁ ++ .wake c :: l₂)) (hr : c'.realm = c.realm) (hi : c'.identity = c.identity)
    (hpass : Passes (after s₀ l₁).registry c)
    (hpass' : Passes (after s₀ (l₁ ++ .wake c :: l₂)).registry c')
    (hreset : .resetCoalesce c.realm c.identity ∉ l₂) :
    windowOf (some s₀) c'.opts ≤ c'.opts.now - c.opts.now := by
  obtain ⟨t, ht, hle⟩ := woken_of_passes htime hpass hreset
  rcases wake_cases (after s₀ (l₁ ++ .wake c :: l₂)).registry c' with
    ⟨hnot, -⟩ | ⟨-, hnot, -⟩ | ⟨-, -, hout, -⟩
  · exact absurd hpass'.1 hnot
  · exact absurd hpass' hnot
  · have hlast := hout t (by rw [hr, hi]; exact ht)
    rw [windowOf_after] at hlast
    omega

/-- A wake that could be sent is held back exactly when one has passed within the window and has not been
reset.
Kind: P -/
theorem coalesced_iff (hstart : ∀ r i, s₀.woken r i = none) (htime : InTime l)
    (heligible : Eligible (after s₀ l).registry c) :
    (c.run (after s₀ l).registry).result.skipped = some (js "coalesced") ↔
      ∃ m₁ c₀ m₂, l = m₁ ++ .wake c₀ :: m₂ ∧ c₀.realm = c.realm ∧ c₀.identity = c.identity ∧
        Passes (after s₀ m₁).registry c₀ ∧ Event.resetCoalesce c.realm c.identity ∉ m₂ ∧
        c.opts.now - c₀.opts.now < windowOf (some s₀) c.opts := by
  have hw := windowOf_after s₀ l c.opts
  rcases wake_cases (after s₀ l).registry c with
    ⟨hnot, -⟩ | ⟨-, -, hskip, ⟨last, hlast, hin⟩, -⟩ | ⟨-, hskip, hout, -⟩
  · exact absurd heligible hnot
  · -- held back: the wake that is recorded has passed
    refine iff_of_true hskip ?_
    obtain ⟨m₁, c₀, m₂, rfl, hr, hi, hpass, rfl, hreset⟩ := exists_of_woken hstart hlast
    exact ⟨m₁, c₀, m₂, rfl, hr, hi, hpass, hreset, hw ▸ hin⟩
  · -- let through: no wake that has passed is within the window
    refine iff_of_false hskip ?_
    rintro ⟨m₁, c₀, m₂, rfl, hr, hi, hpass, hreset, hlt⟩
    rw [← hr, ← hi] at hreset
    obtain ⟨t, ht, hle⟩ := woken_of_passes htime hpass hreset
    have hlast := hout t (by rw [← hr, ← hi]; exact ht)
    omega

end Run

/-- No wake has been recorded, as in a registry that has just been made.
Kind: D -/
def Unwoken (s₀ : WakeRegistry) : Prop := ∀ r i, s₀.woken r i = none

theorem unwoken_new (bounds : Bounds) (registry : Registry JsString)
    (distinct : ∀ r i, (devices (registry.list r i)).Nodup)
    (capped : ∀ r i, (registry.list r i).length ≤ bounds.maxPerIdentity) (coalesceWindowMs : ℤ) :
    Unwoken (.new bounds registry distinct capped coalesceWindowMs) := fun _ _ => rfl

/-- In every run of a new registry whose wakes come in time and have one window: two wakes of an identity
that pass, without a reset in between, are at least the window apart; a wake for which there is nothing to
do leaves every gate where it is; a wake for which there is something to do is held back exactly when one
of the same identity has passed within the window, without a reset since; and an event moves the gate of
no identity but its own.
Kind: P -/
theorem wakes_coalesced (s₀ : WakeRegistry) (hstart : Unwoken s₀) (windowMs : ℤ) (l : List Event)
    (htime : InTime l) (hwindow : ConstantWindow s₀ windowMs l) :
    (∀ (l₁ : List Event) (c : WakeCall) (l₂ : List Event) (c' : WakeCall) (l₃ : List Event),
      l = l₁ ++ .wake c :: (l₂ ++ .wake c' :: l₃) → c'.realm = c.realm →
      c'.identity = c.identity → Passes (after s₀ l₁).registry c →
      Passes (after s₀ (l₁ ++ .wake c :: l₂)).registry c' →
      Event.resetCoalesce c.realm c.identity ∉ l₂ → windowMs ≤ c'.opts.now - c.opts.now) ∧
    (∀ (l₁ : List Event) (c : WakeCall) (l₂ : List Event), l = l₁ ++ .wake c :: l₂ →
      ¬ Eligible (after s₀ l₁).registry c → ∀ r i,
      (after s₀ (l₁ ++ [.wake c])).registry.woken r i = (after s₀ l₁).registry.woken r i) ∧
    (∀ (l₁ : List Event) (c : WakeCall) (l₂ : List Event), l = l₁ ++ .wake c :: l₂ →
      Eligible (after s₀ l₁).registry c →
      ((c.run (after s₀ l₁).registry).result.skipped = some (js "coalesced") ↔
        ∃ (m₁ : List Event) (c₀ : WakeCall) (m₂ : List Event), l₁ = m₁ ++ .wake c₀ :: m₂ ∧
          c₀.realm = c.realm ∧ c₀.identity = c.identity ∧
          Passes (after s₀ m₁).registry c₀ ∧ Event.resetCoalesce c.realm c.identity ∉ m₂ ∧
          c.opts.now - c₀.opts.now < windowMs)) ∧
    ∀ (l₁ : List Event) (e : Event) (l₂ : List Event), l = l₁ ++ e :: l₂ → ∀ r i, ¬ e.isFor r i →
      (after s₀ (l₁ ++ [e])).registry.woken r i = (after s₀ l₁).registry.woken r i := by
  refine ⟨?_, ?_, ?_, ?_⟩
  · rintro l₁ c l₂ c' l₃ rfl hr hi hpass hpass' hreset
    have htime' : InTime (l₁ ++ .wake c :: l₂) := by
      have hsplit : l₁ ++ .wake c :: (l₂ ++ .wake c' :: l₃) = (l₁ ++ .wake c :: l₂) ++ .wake c' :: l₃ := by
        rw [List.append_assoc, List.cons_append]
      rw [hsplit] at htime
      exact (List.pairwise_append.mp htime).1
    have hc' := hwindow c' (List.mem_append_right _ (List.mem_cons_of_mem _
      (List.mem_append_right _ List.mem_cons_self)))
    rw [← hc']
    exact windowOf_le_of_passes htime' hr hi hpass hpass' hreset
  · rintro l₁ c l₂ rfl hnot r i
    rw [after_concat]
    rcases woken_step (after s₀ l₁) (.wake c) r i with ⟨c', hc, -, -, hpass, -⟩ | ⟨hc, -⟩ | ⟨-, -, hsame⟩
    · rw [← Event.wake.inj hc] at hpass
      exact absurd hpass.1 hnot
    · exact Event.noConfusion hc
    · exact hsame
  · rintro l₁ c l₂ rfl heligible
    have hc := hwindow c (List.mem_append_right _ List.mem_cons_self)
    rw [← hc]
    exact coalesced_iff hstart (List.pairwise_append.mp htime).1 heligible
  · rintro l₁ e l₂ rfl r i hother
    rw [after_concat]
    rcases woken_step (after s₀ l₁) e r i with ⟨c, rfl, hr, hi, -⟩ | ⟨rfl, -⟩ | ⟨-, -, hsame⟩
    · exact absurd ⟨hr, hi⟩ hother
    · exact absurd ⟨rfl, rfl⟩ hother
    · exact hsame

/-- A wake of the two devices at some time.
Kind: D -/
def wakeAt (now : ℤ) : WakeCall := ⟨bothAnswer, js "app", js "alice", plainWake now⟩

/-- The second of two wakes, seven seconds after the first, is held back.
Kind: C -/
theorem wakes_coalesced_twoDevices :
    ((wakeAt 8000).run (after twoDevices [.wake (wakeAt 1000)]).registry).result.skipped =
      some (js "coalesced") := by
  have hstart : Unwoken twoDevices := fun _ _ => rfl
  have htime : InTime [.wake (wakeAt 1000), .wake (wakeAt 8000)] := by
    unfold InTime
    rw [List.pairwise_pair]
    rintro t ht t' ht'
    rw [← Option.some.inj ht, ← Option.some.inj ht']
    decide
  have hwindow : ConstantWindow twoDevices 10000 [.wake (wakeAt 1000), .wake (wakeAt 8000)] := by
    intro c hc
    rcases List.mem_pair.mp hc with hc | hc
    · rw [Event.wake.inj hc]
      rfl
    · rw [Event.wake.inj hc]
      rfl
  have heligible : Eligible (after twoDevices [.wake (wakeAt 1000)]).registry (wakeAt 8000) := by
    decide +kernel
  have hpass : Passes twoDevices (wakeAt 1000) := by decide +kernel
  obtain ⟨-, -, hheld, -⟩ := wakes_coalesced twoDevices hstart 10000 _ htime hwindow
  refine (hheld [.wake (wakeAt 1000)] (wakeAt 8000) [] rfl heligible).mpr ?_
  exact ⟨[], wakeAt 1000, [], rfl, rfl, rfl, hpass, List.not_mem_nil, by decide⟩

end Coalescing

end TyoMq.Push
