import TyoMq.Lib.JsString
import TyoMq.Lib.Runs
import TyoMq.Push.Mirror

/-!
# Push registrations: what a restart keeps

A broker with a push registry, over runs of registrations, unregistrations, prunes, wakes and restarts
with a clock that does not run backwards.

The store does not keep every text and number as it is: a token is read back up to its first U+0000, a
lone surrogate as U+FFFD, and one number that cannot be read is enough for a restart to find nothing.
`Kept` is the condition on the events under which none of this shows. Under it:

* Endpoints leave in five ways only (`Removes`, `listed_or_removes`), and what has left stays away until
  it is registered again (`not_listed_of_removed`).
* What was registered within the TTL, and has been neither taken out nor evicted, is listed
  (`listed_of_registered`).
* A restart keeps the listed endpoints exactly when each of them was registered within the TTL
  (`survives_iff`). In memory an identity lives as long as its last touch, in the store each endpoint
  only as long as its own registration, so a device can be lost whose sibling is still in use
  (`not_survives_siblings`).

Without it a device that has been removed can come back (`listed_of_removed_cutToken`), and one that is
registered can be lost (`not_listed_of_registered_cutToken`).
-/

namespace TyoMq.Push

open TyoMq.Lib Sqlite

variable {τ : Type*} [DecidableEq τ] [Texts τ]

/-! ### Runs -/

/-- What happens to a registry. The clock readings are those the source takes; a wake may be recorded
late, with the reading taken when it was fired.
Kind: D -/
inductive Event (τ : Type*)
  /-- An endpoint is registered. -/
  | register (realm identity : τ) (ep : Registration τ) (now : ℤ)
  /-- An endpoint is taken out. -/
  | unregister (place : Place τ)
  /-- A wake found the endpoint gone. -/
  | prune (place : Place τ)
  /-- A wake went through. -/
  | markOk (place : Place τ) (now : ℤ)
  /-- The broker stops, and one starts on the same store. -/
  | restart (now : ℤ)

/-- A broker's registry, and the last reading of the clock that it went by.
Kind: D -/
structure Broker (τ : Type*) where
  /-- The registry. -/
  registry : Registry τ
  /-- The last reading. -/
  clock : ℤ

/-- One event.
Kind: D -/
def step (b : Bounds) (s : Broker τ) : Event τ → Broker τ
  | .register realm identity ep now => ⟨s.registry.register b realm identity ep now, now⟩
  | .unregister place => { s with registry := s.registry.unregister place }
  | .prune place => { s with registry := s.registry.prune place }
  | .markOk place now => { s with registry := s.registry.markOk place now }
  | .restart now => ⟨Registry.hydrate b s.registry.store now, now⟩

/-- The clock does not run backwards.
Kind: D -/
def InOrder (s : Broker τ) : Event τ → Prop
  | .register _ _ _ now | .restart now => s.clock ≤ now
  | .unregister _ | .prune _ | .markOk _ _ => True

instance : ∀ (s : Broker τ) (e : Event τ), Decidable (InOrder s e)
  | s, .register _ _ _ now | s, .restart now => inferInstanceAs (Decidable (s.clock ≤ now))
  | _, .unregister _ | _, .prune _ | _, .markOk _ _ => isTrue trivial

/-- Does the store keep what the event does? The texts and the numbers of an endpoint that is registered
are stored and read as they are, and taking one out deletes the row of no other.
Kind: D -/
def Kept (s : Broker τ) : Event τ → Prop
  | .register realm identity ep now => ((RealmMaps.create ep now).row realm identity).Whole
  | .unregister place | .prune place => ¬ s.registry.DeletesOther place
  | .markOk _ _ | .restart _ => True

instance : ∀ (s : Broker τ) (e : Event τ), Decidable (Kept s e)
  | _, .register realm identity ep now =>
      inferInstanceAs (Decidable ((RealmMaps.create ep now).row realm identity).Whole)
  | s, .unregister place | s, .prune place =>
      inferInstanceAs (Decidable (¬ s.registry.DeletesOther place))
  | _, .markOk _ _ | _, .restart _ => isTrue trivial

/-- The event is in order, and the store keeps what it does.
Kind: D -/
def Regular (s : Broker τ) (ev : Event τ) : Prop := InOrder s ev ∧ Kept s ev

instance (s : Broker τ) (e : Event τ) : Decidable (Regular s e) :=
  inferInstanceAs (Decidable (_ ∧ _))

/-- The broker just started at time `t₀`, on an empty store.
Kind: D -/
def start (b : Bounds) (t₀ : ℤ) : Broker τ := ⟨Registry.hydrate b RowTable.empty t₀, t₀⟩

/-- The broker after a run.
Kind: D -/
def after (b : Bounds) (t₀ : ℤ) (l : List (Event τ)) : Broker τ := runFrom (step b) (start b t₀) l

/-- Is the endpoint at this place listed?
Kind: D -/
def Listed (s : Broker τ) (place : Place τ) : Prop :=
  ∃ e ∈ s.registry.list place.realm place.identity, e.place place.realm place.identity = place

instance (s : Broker τ) (place : Place τ) : Decidable (Listed s place) :=
  inferInstanceAs (Decidable (∃ _ ∈ _, _))

/-- Does the event register this place?
Kind: D -/
def Event.Registers (place : Place τ) : Event τ → Prop
  | .register realm identity ep _ => ep.place realm identity = place
  | .unregister _ | .prune _ | .markOk _ _ | .restart _ => False

instance (place : Place τ) : ∀ e : Event τ, Decidable (e.Registers place)
  | .register realm identity ep _ => inferInstanceAs (Decidable (ep.place realm identity = place))
  | .unregister _ | .prune _ | .markOk _ _ | .restart _ => isFalse id

section Steps

variable {b : Bounds} {s : Broker τ} {ev : Event τ} {place : Place τ}

/-- The clock after an event.
Kind: L -/
theorem clock_le_step (h : InOrder s ev) : s.clock ≤ (step b s ev).clock := by
  cases ev with
  | register | restart => exact h
  | unregister | prune | markOk => exact le_refl _

theorem clock_le_runFrom {l : List (Event τ)} (h : EachStep (step b) Regular s l) :
    s.clock ≤ (runFrom (step b) s l).clock := by
  induction l generalizing s with
  | nil => exact le_refl _
  | cons ev l ih => exact (clock_le_step h.1.1).trans (ih h.2)

/-- What every event of a run keeps: memory and the store mirror each other, at a positive time.
Kind: D -/
def Sound (b : Bounds) (s : Broker τ) : Prop := Mirrors b s.registry s.clock ∧ 0 < s.clock

theorem sound_start (b : Bounds) {t₀ : ℤ} (ht₀ : 0 < t₀) : Sound b (start b t₀ : Broker τ) := by
  have hempty : Mirrors b (⟨fun _ => RealmMaps.empty, RowTable.empty⟩ : Registry τ) t₀ :=
    ⟨by simp [Registry.rows, Registry.list, RealmMaps.list, RealmMaps.empty], by simp, by simp,
      by simp, by simp, by simp, fun _ _ => List.nodup_nil, fun _ _ => Nat.zero_le _,
      by simp [Registry.rows, Registry.list, RealmMaps.list, RealmMaps.empty]⟩
  exact ⟨hempty.hydrate (le_refl _), ht₀⟩

theorem sound_step (s : Broker τ) (ev : Event τ) (h : Sound b s) (hin : Regular s ev) :
    Sound b (step b s ev) := by
  refine ⟨?_, h.2.trans_le (clock_le_step hin.1)⟩
  obtain ⟨hin, hkept⟩ := hin
  cases ev with
  | register realm identity ep now => exact h.1.register hkept h.2 hin
  | unregister place => exact h.1.unregister hkept
  | prune place => exact h.1.unregister hkept
  | markOk place now => exact h.1.markOk place now
  | restart now => exact h.1.hydrate hin

theorem sound_after {t₀ : ℤ} (ht₀ : 0 < t₀) {l : List (Event τ)}
    (h : EachStep (step b) Regular (start b t₀) l) : Sound b (after b t₀ l) :=
  invariant_run sound_step (sound_start b ht₀) h

/-! ### How endpoints leave -/

/-- The event takes the endpoint at this place out, or keeps it out.
Kind: D -/
inductive Removes (b : Bounds) (s : Broker τ) : Event τ → Place τ → Prop
  /-- It is unregistered. -/
  | unregister (place : Place τ) : Removes b s (.unregister place) place
  /-- It is pruned. -/
  | prune (place : Place τ) : Removes b s (.prune place) place
  /-- One of the two caps evicts it. -/
  | evict {realm identity : τ} {ep : Registration τ} {now : ℤ} {place : Place τ} :
      Registry.Evicts b s.registry realm identity ep now place →
        Removes b s (.register realm identity ep now) place
  /-- Another registration sweeps its identity. -/
  | sweep {realm identity : τ} {ep : Registration τ} {now : ℤ} {place : Place τ} :
      Registry.Sweeps b s.registry realm now place → ep.place realm identity ≠ place →
        Removes b s (.register realm identity ep now) place
  /-- A restart skips its row. -/
  | skip {now : ℤ} {row : Row τ} : row ∈ s.registry.store.scan → Stale b now row →
      Removes b s (.restart now) row.place

/-- What has been removed is not listed.
Kind: P -/
theorem not_listed_of_removes (h : Sound b s) (hin : Regular s ev) (hrem : Removes b s ev place) :
    ¬ Listed (step b s ev) place := by
  rintro ⟨e, he, hplace⟩
  cases hrem with
  | unregister => exact ((Registry.mem_list_unregister _ _).mp he).2 hplace
  | prune => exact ((Registry.mem_list_unregister _ _).mp he).2 hplace
  | @evict realm identity ep now place hev =>
      have hent := h.1.entering realm identity ep now
      rcases hent.sound _ _ e he with ⟨hr, hi, rfl⟩ | ⟨-, -, hnot, -⟩
      · rw [hr, hi, hent.place_eq] at hplace
        exact hent.evicts _ hev hplace.symm
      · exact hnot (hplace.symm ▸ hev)
  | @sweep realm identity ep now place hsw hne =>
      have hent := h.1.entering realm identity ep now
      rcases hent.sound _ _ e he with ⟨hr, hi, rfl⟩ | ⟨-, -, -, hnot⟩
      · rw [hr, hi, hent.place_eq] at hplace
        exact hne hplace
      · exact hnot (hplace.symm ▸ hsw)
  | @skip now row hrow hstale =>
      obtain ⟨hheld, hnot⟩ := (h.1.mem_rows_hydrate hin.1).mp (Registry.mem_rows.mpr ⟨e, he, rfl⟩)
      have heq := List.inj_on_of_nodup_map h.1.distinct (h.1.stored _ _ _ hheld) hrow hplace
      exact hnot (heq ▸ hstale)

/-- What is not listed is not listed after an event that does not register it.
Kind: P -/
theorem not_listed_step (h : Sound b s) (hin : Regular s ev) (hnot : ¬ Listed s place)
    (hreg : ¬ ev.Registers place) : ¬ Listed (step b s ev) place := by
  rintro ⟨e, he, hplace⟩
  cases ev with
  | register realm identity ep now =>
      have hent := h.1.entering realm identity ep now
      rcases hent.sound _ _ e he with ⟨hr, hi, rfl⟩ | ⟨hold, -⟩
      · rw [hr, hi, hent.place_eq] at hplace
        exact hreg hplace
      · exact hnot ⟨e, hold, hplace⟩
  | unregister p => exact hnot ⟨e, ((Registry.mem_list_unregister _ _).mp he).1, hplace⟩
  | prune p => exact hnot ⟨e, ((Registry.mem_list_unregister _ _).mp he).1, hplace⟩
  | markOk p now =>
      obtain ⟨e', he', heq⟩ := Registry.exists_of_mem_markOk he
      exact hnot ⟨e', he', (congrArg Row.place heq).trans hplace⟩
  | restart now =>
      obtain ⟨hheld, -⟩ := (h.1.mem_rows_hydrate hin.1).mp (Registry.mem_rows.mpr ⟨e, he, rfl⟩)
      obtain ⟨e', he', heq⟩ := Registry.mem_rows.mp hheld
      exact hnot ⟨e', he', (congrArg Row.place heq).trans hplace⟩

/-- Is an endpoint registered at `r` or later listed at this place?
Kind: D -/
def Young (s : Broker τ) (place : Place τ) (r : ℤ) : Prop :=
  ∃ e ∈ s.registry.list place.realm place.identity,
    e.place place.realm place.identity = place ∧ r ≤ e.added_at

/-- Does the event take the endpoint at this place out at once, whatever its age?
Kind: D -/
def Drops (b : Bounds) (s : Broker τ) (place : Place τ) : Event τ → Prop
  | .register realm identity ep now => Registry.Evicts b s.registry realm identity ep now place
  | .unregister p | .prune p => p = place
  | .markOk _ _ | .restart _ => False

instance (s : Broker τ) (place : Place τ) : ∀ ev, Decidable (Drops b s place ev)
  | .register realm identity ep now =>
      inferInstanceAs (Decidable (Registry.Evicts b s.registry realm identity ep now place))
  | .unregister p | .prune p => inferInstanceAs (Decidable (p = place))
  | .markOk _ _ | .restart _ => isFalse id

/-- An endpoint stays listed when another is taken out.
Kind: L -/
theorem young_unregister (b : Bounds) {p : Place τ} (hp : p ≠ place) {r : ℤ} (hy : Young s place r) :
    Young (step b s (.unregister p)) place r := by
  obtain ⟨e, he, hplace, hr⟩ := hy
  have hat : e.place place.realm place.identity ≠ p := fun hat => hp (hat.symm.trans hplace)
  exact ⟨e, (Registry.mem_list_unregister _ _).mpr ⟨he, hat⟩, hplace, hr⟩

/-- An endpoint stays listed, no older, or is dropped, or is removed past the TTL.
Kind: P -/
theorem young_step (h : Sound b s) (hin : Regular s ev) {r : ℤ} (hy : Young s place r) :
    Young (step b s ev) place r ∨ Drops b s place ev ∨
      Removes b s ev place ∧ b.ttlMs ≠ 0 ∧ r + b.ttlMs < (step b s ev).clock := by
  obtain ⟨e, he, hplace, hr⟩ := hy
  cases ev with
  | register realm identity ep now =>
      have hent := h.1.entering realm identity ep now
      by_cases hat : ep.place realm identity = place
      · -- registered again
        subst hat
        refine Or.inl ⟨_, hent.mem, hent.place_eq, ?_⟩
        rw [hent.added_at]
        have hpast := (h.1.past _ (h.1.stored _ _ _ (Registry.mem_rows.mpr ⟨e, he, rfl⟩))).2
        exact hr.trans (hpast.trans hin.1)
      · rcases hent.kept _ _ e he with hkept | hat' | hev | hsw
        · exact Or.inl ⟨e, hkept, hplace, hr⟩
        · exact absurd (hat'.symm.trans hplace) hat
        · exact Or.inr (Or.inl (hplace ▸ hev))
        · obtain ⟨httl, hlt⟩ := h.1.stale_of_sweeps he hsw
          refine Or.inr (Or.inr ⟨Removes.sweep (hplace ▸ hsw) hat, httl, ?_⟩)
          change e.added_at < now - b.ttlMs at hlt
          show r + b.ttlMs < now
          omega
  | unregister p =>
      by_cases hp : p = place
      · exact Or.inr (Or.inl hp)
      · exact Or.inl (young_unregister b hp ⟨e, he, hplace, hr⟩)
  | prune p =>
      by_cases hp : p = place
      · exact Or.inr (Or.inl hp)
      · exact Or.inl (young_unregister b hp ⟨e, he, hplace, hr⟩)
  | markOk p now =>
      obtain ⟨e', he', heq⟩ := Registry.exists_markOk_of_mem he
      refine Or.inl ⟨e', he', (congrArg Row.place heq).trans hplace, ?_⟩
      exact hr.trans_eq (congrArg Row.added_at heq).symm
  | restart now =>
      have hrow := Registry.mem_rows.mpr ⟨e, he, rfl⟩
      by_cases hstale : Stale b now (e.row place.realm place.identity)
      · have hskip := Removes.skip (h.1.stored _ _ _ hrow) hstale
        rw [Registry.place_row, hplace] at hskip
        refine Or.inr (Or.inr ⟨hskip, hstale.1, ?_⟩)
        have hlt := hstale.2
        change e.added_at < now - b.ttlMs at hlt
        show r + b.ttlMs < now
        omega
      · obtain ⟨e', he', heq⟩ :=
          Registry.mem_rows.mp ((h.1.mem_rows_hydrate hin.1).mpr ⟨hrow, hstale⟩)
        refine Or.inl ⟨e', he', (congrArg Row.place heq).trans hplace, ?_⟩
        exact hr.trans_eq (congrArg Row.added_at heq).symm

/-- Endpoints leave in no other way.
Kind: P -/
theorem listed_or_removes (h : Sound b s) (hin : Regular s ev) (hlisted : Listed s place) :
    Listed (step b s ev) place ∨ Removes b s ev place := by
  obtain ⟨e, he, hplace⟩ := hlisted
  rcases young_step h hin ⟨e, he, hplace, le_refl _⟩ with ⟨e', he', hplace', -⟩ | hdrop | ⟨hrem, -⟩
  · exact Or.inl ⟨e', he', hplace'⟩
  · refine Or.inr ?_
    cases ev with
    | register => exact Removes.evict hdrop
    | unregister => exact hdrop ▸ Removes.unregister _
    | prune => exact hdrop ▸ Removes.prune _
    | markOk | restart => exact hdrop.elim
  · exact Or.inr hrem

end Steps

theorem after_append_cons (b : Bounds) (t₀ : ℤ) (l₁ : List (Event τ)) (ev : Event τ)
    (l₂ : List (Event τ)) :
    after b t₀ (l₁ ++ ev :: l₂) = runFrom (step b) (step b (after b t₀ l₁) ev) l₂ := by
  rw [after, runFrom_append, runFrom_cons, after]

/-- A run from the start, cut at an event.
Kind: L -/
theorem regular_append_cons {b : Bounds} {t₀ : ℤ} {l₁ l₂ : List (Event τ)} {ev : Event τ} :
    EachStep (step b) Regular (start b t₀) (l₁ ++ ev :: l₂) ↔
      EachStep (step b) Regular (start b t₀) l₁ ∧ Regular (after b t₀ l₁) ev ∧
        EachStep (step b) Regular (step b (after b t₀ l₁) ev) l₂ :=
  eachStep_append

/-! ### No resurrection -/

/-- Two devices of one topic, registered at 1 and at 90, with a TTL of 100.
Kind: D -/
def siblings : List (Event JsString) :=
  [.register (js "public") (js "alerts") ⟨js "fcm", js "old", none, none, none⟩ 1,
    .register (js "public") (js "alerts") ⟨js "fcm", js "new", none, none, none⟩ 90]

/-- The bounds that go with `siblings`.
Kind: D -/
def siblingBounds : Bounds := ⟨0, 0, 100⟩

/-- The place of the first of the two.
Kind: D -/
def oldPlace : Place JsString := ⟨js "public", js "alerts", js "fcm", js "old"⟩

/-- What is not listed is not listed after a run that does not register it.
Kind: P -/
theorem not_listed_runFrom {b : Bounds} {s : Broker τ} {l : List (Event τ)} {place : Place τ}
    (h : Sound b s) (hrun : EachStep (step b) Regular s l) (hnot : ¬ Listed s place)
    (hreg : ∀ ev ∈ l, ¬ ev.Registers place) : ¬ Listed (runFrom (step b) s l) place := by
  induction l generalizing s with
  | nil => exact hnot
  | cons ev l ih =>
      refine ih (sound_step _ _ h hrun.1) hrun.2 ?_ fun e he => hreg e (List.mem_cons_of_mem _ he)
      exact not_listed_step h hrun.1 hnot (hreg ev List.mem_cons_self)

/-- **What has been removed is not listed again**, whatever happens then, until it is registered.
Kind: P -/
theorem not_listed_of_removed (b : Bounds) {t₀ : ℤ} (ht₀ : 0 < t₀) {l₁ l₂ : List (Event τ)}
    {ev : Event τ} {place : Place τ}
    (hrun : EachStep (step b) Regular (start b t₀) (l₁ ++ ev :: l₂))
    (hrem : Removes b (after b t₀ l₁) ev place) (hreg : ∀ ev' ∈ l₂, ¬ ev'.Registers place) :
    ¬ Listed (after b t₀ (l₁ ++ ev :: l₂)) place := by
  obtain ⟨hrun₁, hin, hrun₂⟩ := regular_append_cons.mp hrun
  have hsound := sound_after ht₀ hrun₁
  have hnot := not_listed_of_removes hsound hin hrem
  rw [after_append_cons]
  exact not_listed_runFrom (sound_step _ _ hsound hin) hrun₂ hnot hreg

theorem not_listed_oldPlace :
    ¬ Listed (after siblingBounds 1 (siblings ++ .unregister oldPlace :: [.restart 95])) oldPlace :=
  not_listed_of_removed siblingBounds (by decide) (by decide) (.unregister _) (by decide)

/-- A device token with a U+0000 in it.
Kind: D -/
def cutToken : JsString := js "old" ++ 0 :: js "er"

/-- A device with this token is registered, and then there is a restart.
Kind: D -/
def cutDevice : List (Event JsString) :=
  [.register (js "public") (js "alerts") ⟨js "fcm", cutToken, none, none, none⟩ 92, .restart 95]

/-- A device whose token begins with that of a device that has been taken out, up to a U+0000, brings it
back at a restart.
Kind: P -/
theorem listed_of_removed_cutToken :
    EachStep (step siblingBounds) InOrder (start siblingBounds 1)
        (siblings ++ .unregister oldPlace :: cutDevice) ∧
      Removes siblingBounds (after siblingBounds 1 siblings) (.unregister oldPlace) oldPlace ∧
        (∀ ev ∈ cutDevice, ¬ ev.Registers oldPlace) ∧
          Listed (after siblingBounds 1 (siblings ++ .unregister oldPlace :: cutDevice)) oldPlace :=
  ⟨by decide, .unregister _, by decide, by decide⟩

/-! ### No early expiry -/

/-- What is listed stays listed through a run that does not drop it and ends within the TTL.
Kind: P -/
theorem young_runFrom {b : Bounds} {s : Broker τ} {l : List (Event τ)} {place : Place τ} {r : ℤ}
    (h : Sound b s) (hrun : EachStep (step b) Regular s l) (hy : Young s place r)
    (hkept : EachStep (step b) (fun s ev => ¬ Drops b s place ev) s l)
    (httl : b.ttlMs ≠ 0 → (runFrom (step b) s l).clock ≤ r + b.ttlMs) :
    Young (runFrom (step b) s l) place r := by
  induction l generalizing s with
  | nil => exact hy
  | cons ev l ih =>
      refine ih (sound_step _ _ h hrun.1) hrun.2 ?_ hkept.2 httl
      rcases young_step h hrun.1 hy with hstays | hdrop | ⟨-, h0, hlt⟩
      · exact hstays
      · exact absurd hdrop hkept.1
      · -- too early for the TTL
        have := (clock_le_runFrom hrun.2).trans (httl h0)
        omega

/-- **What was registered within the TTL is listed**, unless it has since been taken out or evicted.
Kind: P -/
theorem listed_of_registered (b : Bounds) {t₀ : ℤ} (ht₀ : 0 < t₀) {l₁ l₂ : List (Event τ)}
    {realm identity : τ} {ep : Registration τ} {r : ℤ}
    (hrun : EachStep (step b) Regular (start b t₀) (l₁ ++ .register realm identity ep r :: l₂))
    (hkept : EachStep (step b) (fun s ev => ¬ Drops b s (ep.place realm identity) ev)
      (step b (after b t₀ l₁) (.register realm identity ep r)) l₂)
    (httl : b.ttlMs ≠ 0 →
      (after b t₀ (l₁ ++ .register realm identity ep r :: l₂)).clock ≤ r + b.ttlMs) :
    Listed (after b t₀ (l₁ ++ .register realm identity ep r :: l₂)) (ep.place realm identity) := by
  obtain ⟨hrun₁, hin, hrun₂⟩ := regular_append_cons.mp hrun
  have hsound := sound_after ht₀ hrun₁
  have hent := hsound.1.entering realm identity ep r
  rw [after_append_cons] at httl ⊢
  obtain ⟨e, he, hplace, -⟩ := young_runFrom (sound_step _ _ hsound hin) hrun₂
    ⟨_, hent.mem, hent.place_eq, hent.added_at.ge⟩ hkept httl
  exact ⟨e, he, hplace⟩

theorem listed_oldPlace :
    Listed (after siblingBounds 1 (siblings ++ [.restart 101])) oldPlace :=
  @listed_of_registered _ _ _ siblingBounds _ (by decide) [] _ _ _ _ _ (by decide) (by decide)
    (by decide)

/-- A device whose token has a U+0000 in it is not listed after a restart.
Kind: P -/
theorem not_listed_of_registered_cutToken :
    EachStep (step siblingBounds) InOrder (start siblingBounds 1)
        [.register (js "public") (js "alerts") ⟨js "fcm", cutToken, none, none, none⟩ 1,
          .restart 2] ∧
      EachStep (step siblingBounds)
          (fun s ev => ¬ Drops siblingBounds s ⟨js "public", js "alerts", js "fcm", cutToken⟩ ev)
          (after siblingBounds 1
            [.register (js "public") (js "alerts") ⟨js "fcm", cutToken, none, none, none⟩ 1])
          [.restart 2] ∧
        ¬ Listed (after siblingBounds 1
            [.register (js "public") (js "alerts") ⟨js "fcm", cutToken, none, none, none⟩ 1,
              .restart 2]) ⟨js "public", js "alerts", js "fcm", cutToken⟩ :=
  ⟨by decide, by decide, by decide⟩

/-! ### No loss -/

/-- Does every endpoint that is listed after a sweep come back, with the same data, from a restart at
`now`?
Kind: D -/
def Survives (b : Bounds) (s : Registry τ) (now : ℤ) : Prop :=
  ∀ realm identity, ∀ e ∈ ((s.realms realm).sweepExpired b now).list identity,
    ∃ e' ∈ (Registry.hydrate b s.store now).list realm identity,
      e'.row realm identity = e.row realm identity

/-- **A restart keeps the listed endpoints exactly when each was registered within the TTL**, in every
state that a run reaches.
Kind: P -/
theorem survives_iff (b : Bounds) {t₀ : ℤ} (ht₀ : 0 < t₀) {l : List (Event τ)}
    (hrun : EachStep (step b) Regular (start b t₀) l) {now : ℤ} (hnow : (after b t₀ l).clock ≤ now) :
    Survives b (after b t₀ l).registry now ↔ ∀ realm identity,
      ∀ e ∈ (((after b t₀ l).registry.realms realm).sweepExpired b now).list identity,
        b.ttlMs ≠ 0 → now - b.ttlMs ≤ e.added_at := by
  have hm := (sound_after ht₀ hrun).1
  generalize (after b t₀ l).registry = s at hm ⊢
  refine forall₂_congr fun r i => forall₂_congr fun e he => ?_
  have hlisted : e ∈ s.list r i := by
    rw [RealmMaps.list_sweepExpired] at he
    split_ifs at he
    · exact absurd he List.not_mem_nil
    · exact he
  rw [← Registry.mem_rows, hm.mem_rows_hydrate hnow,
    and_iff_right (Registry.mem_rows.mpr ⟨e, hlisted, rfl⟩), Stale, not_and]
  exact forall_congr' fun _ => not_lt

theorem survives_iff_siblings :
    Survives siblingBounds (after siblingBounds 1 siblings).registry 101 := by
  have hrun : EachStep (step siblingBounds) Regular (start siblingBounds 1) siblings := by decide
  have hm := (sound_after (by decide) hrun).1
  refine (survives_iff siblingBounds (by decide) hrun (by decide)).mpr fun r i e he _ => ?_
  have hlisted := (RealmMaps.list_sweepExpired_sublist _ _ _ _).subset he
  exact (hm.past _ (hm.stored r i _ (Registry.mem_rows.mpr ⟨e, hlisted, rfl⟩))).1

/-- The device registered at 1 is still listed at 150, its topic having been touched at 90, and is
lost by a restart.
Kind: P -/
theorem not_survives_siblings :
    EachStep (step siblingBounds) InOrder (start siblingBounds 1) siblings ∧
      (after siblingBounds 1 siblings).clock ≤ 150 ∧
        ¬ Survives siblingBounds (after siblingBounds 1 siblings).registry 150 := by
  refine ⟨by decide, by decide, fun h => ?_⟩
  have hback := h (js "public") (js "alerts")
    ⟨js "fcm", js "old", none, none, none, 1, none⟩ (by decide)
  exact absurd hback (by decide)

end TyoMq.Push
