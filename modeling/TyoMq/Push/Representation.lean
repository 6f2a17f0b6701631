import TyoMq.Push.RealmInvariant
import TyoMq.Push.Restart

/-!
# Push registrations: a registry in memory, over runs

A registry that starts empty, over runs of registrations, unregistrations, prunes, wakes and sweeps, in
any order, with a clock that does not run backwards.

* `Remembers`: what every call keeps. The maps of every realm are in step, a touch time is that of the
  last registration of the identity, and an endpoint is as old as the last registration of its place.
* **The representation of a run** (`represents_run`): the maps are in step, and each registration leaves
  its endpoint, within the cap, at the expense of the identities that were registered longest ago.
-/

namespace TyoMq.Push

open TyoMq.Lib

variable {τ : Type*} [DecidableEq τ] [Sqlite.Texts τ]

/-- The registry after a sweep of a realm.
Source: `lib/push.js`, `TokenRegistry.prototype._sweepExpired`
Kind: D -/
def Registry.sweep (b : Bounds) (s : Registry τ) (realm : τ) (now : ℤ) : Registry τ :=
  { s with realms := setRealm s.realms realm ((s.realms realm).sweepExpired b now) }

/-- A call of one of the methods of a registry, with the reading of the clock that it goes by.
Kind: D -/
inductive RegistryCall (τ : Type*)
  | register (realm identity : τ) (ep : Registration τ) (now : ℤ)
  | unregister (place : Place τ)
  | prune (place : Place τ)
  | markOk (place : Place τ) (now : ℤ)
  | sweep (realm : τ) (now : ℤ)

namespace RegistryCall

/-- One call.
Kind: D -/
def step (b : Bounds) (s : Broker τ) : RegistryCall τ → Broker τ
  | register realm identity ep now => ⟨s.registry.register b realm identity ep now, now⟩
  | unregister place => { s with registry := s.registry.unregister place }
  | prune place => { s with registry := s.registry.prune place }
  | markOk place now => { s with registry := s.registry.markOk place now }
  | sweep realm now => ⟨s.registry.sweep b realm now, now⟩

/-- The clock does not run backwards.
Kind: D -/
def InOrder (s : Broker τ) : RegistryCall τ → Prop
  | register _ _ _ now | sweep _ now => s.clock ≤ now
  | unregister _ | prune _ | markOk _ _ => True

instance : ∀ (s : Broker τ) (c : RegistryCall τ), Decidable (InOrder s c)
  | s, register _ _ _ now | s, sweep _ now => inferInstanceAs (Decidable (s.clock ≤ now))
  | _, unregister _ | _, prune _ | _, markOk _ _ => isTrue trivial

/-- A registry without endpoints, at time `t₀`.
Kind: D -/
def start (t₀ : ℤ) : Broker τ := ⟨⟨fun _ => RealmMaps.empty, RowTable.empty⟩, t₀⟩

/-- The registry after a run.
Kind: D -/
def after (b : Bounds) (t₀ : ℤ) (l : List (RegistryCall τ)) : Broker τ := runFrom (step b) (start t₀) l

/-- When the call registers the identity.
Kind: D -/
def registersIdentity (realm identity : τ) : RegistryCall τ → Option ℤ
  | register r i _ now => if r = realm ∧ i = identity then some now else none
  | unregister _ | prune _ | markOk _ _ | sweep _ _ => none

/-- When the call registers the place.
Kind: D -/
def registersPlace (place : Place τ) : RegistryCall τ → Option ℤ
  | register r i ep now => if ep.place r i = place then some now else none
  | unregister _ | prune _ | markOk _ _ | sweep _ _ => none

section

variable {realm identity : τ} {ep : Registration τ} {now : ℤ} {place : Place τ}

omit [Sqlite.Texts τ]

theorem registersIdentity_of_ne {r i : τ} (h : ¬ (realm = r ∧ identity = i)) :
    registersIdentity r i (.register realm identity ep now) = none := if_neg h

theorem registersPlace_of_eq (h : ep.place realm identity = place) :
    registersPlace place (.register realm identity ep now) = some now := if_pos h

theorem registersPlace_of_ne (h : ep.place realm identity ≠ place) :
    registersPlace place (.register realm identity ep now) = none := if_neg h

end

theorem after_append_singleton (b : Bounds) (t₀ : ℤ) (l : List (RegistryCall τ)) (c : RegistryCall τ) :
    after b t₀ (l ++ [c]) = step b (after b t₀ l) c := by
  rw [after, runFrom_append]
  rfl

/-! ### What every call keeps -/

/-- The registry against the calls that led to it.
Kind: D -/
structure Remembers (b : Bounds) (l : List (RegistryCall τ)) (s : Broker τ) : Prop where
  /-- The maps of every realm are in step. -/
  kept : ∀ r, (s.registry.realms r).Kept b
  /-- Their times are in order. -/
  ordered : ∀ r, (s.registry.realms r).Ordered s.clock
  /-- A touch time is that of the last registration of the identity. -/
  touched : ∀ r i ts, (s.registry.realms r).touch.get i = some ts →
    latest (registersIdentity r i) l = some ts
  /-- An endpoint is as old as the last registration of its place. -/
  added : ∀ r i, ∀ e ∈ s.registry.list r i,
    latest (registersPlace (e.place r i)) l = some e.added_at

section Steps

variable {b : Bounds} {s : Broker τ} {l : List (RegistryCall τ)} {c : RegistryCall τ}

omit [Sqlite.Texts τ] in
/-- A call that registers nothing and only takes out, or marks, keeps what the registry remembers.
Kind: L -/
theorem Remembers.of_less {s' : Broker τ} (h : Remembers b l s) (hclock : s.clock ≤ s'.clock)
    (hkept : ∀ r, (s'.registry.realms r).Kept b) (hord : ∀ r, (s'.registry.realms r).Ordered s.clock)
    (hi : ∀ r i, registersIdentity r i c = none) (hp : ∀ p, registersPlace p c = none)
    (htouch : ∀ r i ts, (s'.registry.realms r).touch.get i = some ts →
      (s.registry.realms r).touch.get i = some ts)
    (hlist : ∀ r i, ∀ e ∈ s'.registry.list r i, ∃ e' ∈ s.registry.list r i,
      e'.row r i = e.row r i) : Remembers b (l ++ [c]) s' := by
  refine ⟨hkept, fun r => (hord r).mono hclock, fun r i ts hts => ?_, fun r i e he => ?_⟩
  · rw [latest_append_of_none (hi r i)]
    exact h.touched r i ts (htouch r i ts hts)
  · obtain ⟨e', he', hrow⟩ := hlist r i e he
    have hplace : e'.place r i = e.place r i := congrArg Row.place hrow
    have hadded : e'.added_at = e.added_at := congrArg Row.added_at hrow
    rw [latest_append_of_none (hp _), ← hplace, ← hadded]
    exact h.added r i e' he'

omit [Sqlite.Texts τ] in
/-- A change of one realm.
Kind: L -/
theorem forall_setRealm {P : τ → RealmMaps τ → Prop} {realms : τ → RealmMaps τ} {realm : τ}
    {R : RealmMaps τ} (h : ∀ r, P r (realms r)) (hR : P realm R) (r : τ) :
    P r (Registry.setRealm realms realm R r) := by
  rw [Registry.setRealm]
  split_ifs with hr
  · exact hr ▸ hR
  · exact h r

theorem Remembers.unregister (h : Remembers b l s) (place : Place τ)
    (hi : ∀ r i, registersIdentity r i c = none) (hp : ∀ p, registersPlace p c = none) :
    Remembers b (l ++ [c]) { s with registry := s.registry.unregister place } := by
  have hrealms := Registry.realms_unregister s.registry place
  refine h.of_less (le_refl _) ?_ ?_ hi hp ?_ ?_
  · rw [hrealms]
    exact forall_setRealm (P := fun _ R => R.Kept b) h.kept ((h.kept _).unregister _ _ _)
  · rw [hrealms]
    exact forall_setRealm (P := fun _ R => R.Ordered s.clock) h.ordered
      ((h.ordered _).unregister _ _ _)
  · rw [hrealms]
    exact forall_setRealm (P := fun r R => ∀ i ts, R.touch.get i = some ts →
      (s.registry.realms r).touch.get i = some ts) (fun _ _ _ => id)
      fun _ _ => RealmMaps.touch_of_unregister
  · intro r i e he
    exact ⟨e, ((Registry.mem_list_unregister _ _).mp he).1, rfl⟩

theorem Remembers.markOk (h : Remembers b l s) (place : Place τ) (now : ℤ) :
    Remembers b (l ++ [.markOk place now]) (step b s (.markOk place now)) := by
  refine h.of_less (le_refl _) ?_ ?_ (fun _ _ => rfl) (fun _ => rfl) ?_ ?_
  · exact forall_setRealm (P := fun _ R => R.Kept b) h.kept ((h.kept _).markOk _ _ _ _)
  · exact forall_setRealm (P := fun _ R => R.Ordered s.clock) h.ordered ((h.ordered _).markOk _ _ _ _)
  · intro r i ts hts
    rwa [step, Registry.touch_get_markOk] at hts
  · intro r i e he
    exact Registry.exists_of_mem_markOk he

theorem Remembers.sweep (h : Remembers b l s) {realm : τ} {now : ℤ} (hle : s.clock ≤ now) :
    Remembers b (l ++ [.sweep realm now]) (step b s (.sweep realm now)) := by
  refine h.of_less hle ?_ ?_ (fun _ _ => rfl) (fun _ => rfl) ?_ ?_
  · exact forall_setRealm (P := fun _ R => R.Kept b) h.kept ((h.kept _).sweep _)
  · exact forall_setRealm (P := fun _ R => R.Ordered s.clock) h.ordered ((h.ordered _).sweep _)
  · exact forall_setRealm (P := fun r R => ∀ i ts, R.touch.get i = some ts →
      (s.registry.realms r).touch.get i = some ts) (fun _ _ _ => id)
      fun _ _ => RealmMaps.touch_of_sweepExpired
  · have hlists : ∀ r i, ∀ e ∈ ((s.registry.sweep b realm now).realms r).list i,
        e ∈ (s.registry.realms r).list i :=
      forall_setRealm (P := fun r R => ∀ i, ∀ e ∈ R.list i, e ∈ (s.registry.realms r).list i)
        (fun _ _ _ => id) fun i e he => (RealmMaps.list_sweepExpired_sublist _ _ _ i).subset he
    exact fun r i e he => ⟨e, hlists r i e he, rfl⟩

/-! ### Registering -/

/-- The identities that a registration evicts: they have not expired, and are gone.
Kind: D -/
def EvictsIdentity (b : Bounds) (s : Broker τ) (realm identity : τ) (ep : Registration τ) (now : ℤ)
    (i : τ) : Prop :=
  i ∈ ((s.registry.realms realm).sweepExpired b now).identities.keys ∧
    i ∉ ((step b s (.register realm identity ep now)).registry.realms realm).identities.keys

omit [Sqlite.Texts τ] in
theorem place_of_entered {b : Bounds} {ep : Registration τ} {now : ℤ} {l l' out : List (Endpoint τ)}
    {e₀ : Endpoint τ} (h : RealmMaps.Entered b ep now l l' out e₀) (r i : τ) :
    e₀.place r i = ep.place r i :=
  Registry.isAt_eq_true_iff.mp h.at_ep

instance (b : Bounds) (s : Broker τ) (realm identity : τ) (ep : Registration τ) (now : ℤ) (i : τ) :
    Decidable (EvictsIdentity b s realm identity ep now i) :=
  inferInstanceAs (Decidable (_ ∧ _))

omit [Sqlite.Texts τ] in
/-- The touch times once the list has been entered are those of the last registrations.
Kind: L -/
theorem Remembers.touched_entering (h : Remembers b l s) {realm identity : τ} {ep : Registration τ}
    {now : ℤ} {i : τ} {ts : ℤ}
    (hts : ((s.registry.realms realm).entering b identity ep now).touch.get i = some ts) :
    latest (registersIdentity realm i) (l ++ [.register realm identity ep now]) = some ts := by
  rw [latest_append_singleton, registersIdentity]
  rw [RealmMaps.entering, RealmMaps.touch_enter] at hts
  split_ifs at hts with hi
  · rw [if_pos ⟨rfl, hi.symm⟩, Option.some_or]
    exact hts
  · rw [if_neg fun hand => hi hand.2.symm, Option.none_or]
    exact h.touched realm i ts (RealmMaps.touch_of_sweepExpired hts)

omit [Sqlite.Texts τ] in
/-- An endpoint of another place is as old as before.
Kind: L -/
theorem Remembers.added_of_ne (h : Remembers b l s) {realm identity r i : τ} {ep : Registration τ} {now : ℤ}
    {e : Endpoint τ} (he : e ∈ s.registry.list r i) (hne : e.place r i ≠ ep.place realm identity) :
    latest (registersPlace (e.place r i)) (l ++ [.register realm identity ep now]) = some e.added_at := by
  rw [latest_append_of_none (registersPlace_of_ne (Ne.symm hne))]
  exact h.added r i e he

omit [Sqlite.Texts τ] in
/-- The endpoints of a realm that a registration has entered, before the identities in excess go.
Kind: L -/
theorem Remembers.added_entering (h : Remembers b l s) {realm identity i : τ} {ep : Registration τ} {now : ℤ}
    {e : Endpoint τ} (he : e ∈ ((s.registry.realms realm).entering b identity ep now).list i) :
    latest (registersPlace (e.place realm i)) (l ++ [.register realm identity ep now]) =
      some e.added_at := by
  have hin := (h.kept realm).entered identity ep now
  have hswept := RealmMaps.list_sweepExpired_sublist b (s.registry.realms realm) now
  rw [RealmMaps.entering, RealmMaps.list_enter] at he
  split_ifs at he with hi
  · subst hi
    rcases hin.sound e he with rfl | ⟨hel, hat⟩
    · have hplace := place_of_entered hin realm i
      rw [latest_append_of_some (registersPlace_of_eq hplace.symm), hin.added_at]
    · apply h.added_of_ne ((hswept _).subset hel)
      intro heq
      exact Bool.false_ne_true (hat.symm.trans (Registry.isAt_eq_true_iff.mpr heq))
  · apply h.added_of_ne ((hswept _).subset he)
    exact fun heq => hi (congrArg Place.identity heq)

theorem Remembers.register (h : Remembers b l s) {realm identity : τ} {ep : Registration τ} {now : ℤ}
    (hle : s.clock ≤ now) : Remembers b (l ++ [.register realm identity ep now])
      (step b s (.register realm identity ep now)) := by
  obtain ⟨p, -, heq, -, -⟩ := RealmMaps.register_without (h.kept realm) (h.ordered realm) hle identity ep
  have hrealms : (step b s (.register realm identity ep now)).registry.realms =
      Registry.setRealm s.registry.realms realm
        (((s.registry.realms realm).entering b identity ep now).without p) := by
    rw [← heq]
    rfl
  refine ⟨?_, ?_, ?_, ?_⟩
  · rw [hrealms]
    exact forall_setRealm (P := fun _ R => R.Kept b) h.kept
      (((h.kept realm).entering identity ep now).without p)
  · rw [hrealms]
    exact forall_setRealm (P := fun _ R => R.Ordered now) (fun r => (h.ordered r).mono hle)
      ((RealmMaps.Ordered.entering (h.kept realm) (h.ordered realm) hle identity ep).without p)
  · intro r i ts hts
    by_cases hr : r = realm
    · subst hr
      rw [hrealms, Registry.setRealm_self, RealmMaps.touch_without] at hts
      split_ifs at hts
      exact h.touched_entering hts
    · rw [hrealms, Registry.setRealm_of_ne _ _ hr] at hts
      rw [latest_append_of_none (registersIdentity_of_ne fun hand => hr hand.1.symm)]
      exact h.touched r i ts hts
  · intro r i e he
    rw [Registry.list, hrealms] at he
    by_cases hr : r = realm
    · subst hr
      rw [Registry.setRealm_self, RealmMaps.list_without] at he
      split_ifs at he
      · exact absurd he List.not_mem_nil
      · exact h.added_entering he
    · rw [Registry.setRealm_of_ne _ _ hr] at he
      exact h.added_of_ne he fun heq => hr (congrArg Place.realm heq)

/-- Every call keeps what the registry remembers.
Kind: L -/
theorem remembers_step (l : List (RegistryCall τ)) (s : Broker τ) (c : RegistryCall τ) (h : Remembers b l s)
    (hin : InOrder s c) : Remembers b (l ++ [c]) (step b s c) := by
  cases c with
  | register realm identity ep now => exact h.register hin
  | unregister place => exact h.unregister place (fun _ _ => rfl) fun _ => rfl
  | prune place => exact h.unregister place (fun _ _ => rfl) fun _ => rfl
  | markOk place now => exact h.markOk place now
  | sweep realm now => exact h.sweep hin

omit [Sqlite.Texts τ] in
theorem remembers_start (b : Bounds) (t₀ : ℤ) : Remembers b [] (start t₀ : Broker τ) :=
  ⟨fun _ => RealmMaps.kept_empty b, fun _ => RealmMaps.ordered_empty t₀,
    fun _ _ _ h => absurd h (by simp [start, RealmMaps.empty]), fun _ _ _ he => absurd he List.not_mem_nil⟩

/-- What a run keeps.
Kind: L -/
theorem remembers_after {t₀ : ℤ} (h : EachStep (step b) InOrder (start t₀) l) :
    Remembers b l (after b t₀ l) :=
  invariant_history remembers_step (remembers_start b t₀) h

end Steps

/-! ### The representation of a run -/

/-- One registration was no later than another.
Kind: D -/
def NoLater (first second : Option ℤ) : Prop := ∃ t t', first = some t ∧ second = some t' ∧ t ≤ t'

/-- What a registration leaves, in the registry `s'`, after the calls `l` and itself.
Kind: D -/
structure Registered (b : Bounds) (l : List (RegistryCall τ)) (s s' : Broker τ) (realm identity : τ)
    (ep : Registration τ) (now : ℤ) : Prop where
  /-- The identities are within their cap, when there is one. -/
  within : b.maxIdentities ≠ 0 → (s'.registry.realms realm).identities.size ≤ b.maxIdentities
  /-- The endpoint is there. -/
  present : ∃ e ∈ s'.registry.list realm identity,
    e.transport = ep.transport ∧ e.token = ep.token ∧ e.added_at = now
  /-- The identities that are evicted were registered no later than those that remain. -/
  oldest : ∀ i, EvictsIdentity b s realm identity ep now i →
    ∀ j ∈ (s'.registry.realms realm).identities.keys,
      NoLater (latest (registersIdentity realm i) l) (latest (registersIdentity realm j) l)

theorem Remembers.registered {b : Bounds} {l : List (RegistryCall τ)} {s : Broker τ} (h : Remembers b l s)
    {realm identity : τ} {ep : Registration τ} {now : ℤ} (hle : s.clock ≤ now) :
    Registered b (l ++ [.register realm identity ep now]) s
      (step b s (.register realm identity ep now)) realm identity ep now := by
  obtain ⟨p, hp, heq, hfits, hsorted⟩ :=
    RealmMaps.register_without (h.kept realm) (h.ordered realm) hle identity ep
  have hrealm : (step b s (.register realm identity ep now)).registry.realms realm =
      ((s.registry.realms realm).register b identity ep now).1 := Registry.setRealm_self ..
  have hin := (h.kept realm).entered identity ep now
  have hkeys := ((h.kept realm).entering identity ep now).keys
  refine ⟨?_, ?_, ?_⟩
  · rw [hrealm]
    exact hfits
  · obtain ⟨ht, hk⟩ := RealmMaps.isAt_iff.mp hin.at_ep
    refine ⟨_, ?_, ht, hk, hin.added_at⟩
    rw [Registry.list, hrealm, heq, RealmMaps.list_without, hp, if_neg Bool.false_ne_true,
      RealmMaps.entering, RealmMaps.list_enter, if_pos rfl]
    exact hin.mem
  · rintro i ⟨hi, hgone⟩ j hj
    rw [hrealm, heq, RealmMaps.mem_keys_without] at hgone hj
    -- the identity is entered, so it is the loop that evicts it
    have hentered : i ∈ ((s.registry.realms realm).entering b identity ep now).identities.keys :=
      JsMap.mem_keys_set.mpr (Or.inr hi)
    have hpi : p i = true := by
      by_contra hnot
      exact hgone ⟨Bool.eq_false_iff.mpr hnot, hentered⟩
    obtain ⟨ts, hts⟩ := JsMap.mem_keys_iff.mp ((hkeys i).mpr hentered)
    obtain ⟨ts', hts'⟩ := JsMap.mem_keys_iff.mp ((hkeys j).mpr hj.2)
    refine ⟨ts, ts', h.touched_entering hts, h.touched_entering hts', ?_⟩
    exact hsorted _ (JsMap.mem_entries_iff.mpr hts) _ (JsMap.mem_entries_iff.mpr hts') hpi hj.1

/-- **The representation of a run.** In every realm the maps are in step, and each registration leaves
its endpoint, within the cap, at the expense of the identities that were registered longest ago.
Kind: P -/
theorem represents_run (b : Bounds) (t₀ : ℤ) {l : List (RegistryCall τ)}
    (hrun : EachStep (step b) InOrder (start t₀) l) :
    (∀ realm, ((after b t₀ l).registry.realms realm).Kept b) ∧
      ∀ (l₁ l₂ : List (RegistryCall τ)) (realm identity : τ) (ep : Registration τ) (now : ℤ),
        l = l₁ ++ .register realm identity ep now :: l₂ →
          Registered b (l₁ ++ [.register realm identity ep now]) (after b t₀ l₁)
            (after b t₀ (l₁ ++ [.register realm identity ep now])) realm identity ep now := by
  refine ⟨(remembers_after hrun).kept, ?_⟩
  rintro l₁ l₂ realm identity ep now rfl
  obtain ⟨hrun₁, hin, -⟩ := eachStep_append.mp hrun
  rw [after_append_singleton]
  exact (remembers_after hrun₁).registered hin

/-- Three identities of one realm.
Kind: D -/
def crowd : List (RegistryCall JsString) :=
  [.register (js "public") (js "news") ⟨js "fcm", js "a", none, none, none⟩ 1,
    .register (js "public") (js "alerts") ⟨js "fcm", js "b", none, none, none⟩ 2,
    .register (js "public") (js "news") ⟨js "fcm", js "c", none, none, none⟩ 3,
    .register (js "public") (js "builds") ⟨js "apns", js "d", none, none, none⟩ 4]

/-- The bounds that go with `crowd`: two endpoints for an identity, two identities.
Kind: D -/
def crowdBounds : Bounds := ⟨2, 2, 0⟩

theorem represents_crowd :
    (∀ realm, ((after crowdBounds 1 crowd).registry.realms realm).Kept crowdBounds) ∧
      ∀ (l₁ l₂ : List (RegistryCall JsString)) (realm identity : JsString) (ep : Registration JsString)
        (now : ℤ), crowd = l₁ ++ .register realm identity ep now :: l₂ →
          Registered crowdBounds (l₁ ++ [.register realm identity ep now]) (after crowdBounds 1 l₁)
            (after crowdBounds 1 (l₁ ++ [.register realm identity ep now])) realm identity ep now :=
  represents_run crowdBounds 1 (by decide)

/-- The last of the registrations evicts the identity that was registered second.
Kind: C -/
example : EvictsIdentity crowdBounds (after crowdBounds 1 (crowd.take 3)) (js "public") (js "builds")
    ⟨js "apns", js "d", none, none, none⟩ 4 (js "alerts") := by
  decide

end RegistryCall

end TyoMq.Push
