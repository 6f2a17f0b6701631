import Mathlib.Data.List.Induction
import TyoMq.Push.RealmSteps

/-!
# Push registrations: what each operation does to the registry and its store

* `register_entering`: all that a registration does to the lists and the touch times.
* `mem_list_unregister`, `map_row_list_markOk`: the lists after the other two.
* `Row.Whole`: the rows that the store keeps as they are. `scan_register`, `scan_unregister`: the rows,
  in the order in which a scan finds them.
* `hydrate_eq`, `list_loadAll`, `touch_loadAll`: what hydration makes of the rows it loads.

Whatever is said about restarts is derived from these.
-/

namespace TyoMq.Push

open TyoMq.Lib Sqlite

variable {τ : Type*}

/-! ### Rows that are kept as they are -/

section Whole

variable [Texts τ]

/-- Is the row stored as it is, and read as it was stored?
Kind: D -/
def Row.Whole (row : Row τ) : Prop := row.stored = row ∧ row.read = some row

instance [DecidableEq τ] (row : Row τ) : Decidable row.Whole := inferInstanceAs (Decidable (_ ∧ _))

theorem Row.Whole.place_stored {row : Row τ} (h : row.Whole) : row.place.stored = row.place :=
  congrArg Row.place h.1

/-- A row is kept when its texts are, and its numbers can be read and are neither the negative zero nor
`NaN`.
Kind: P -/
theorem Row.whole_iff {row : Row τ} : row.Whole ↔
    (Sqlite.Whole row.realm ∧ Sqlite.Whole row.identity ∧ Sqlite.Whole row.transport ∧
        Sqlite.Whole row.token) ∧
      (∀ s ∈ row.app_id, Sqlite.Whole s) ∧ (∀ s ∈ row.env, Sqlite.Whole s) ∧
        (∀ n ∈ row.min_priority, n.stored = some n ∧ n.readable = true) ∧
          readable row.added_at = true := by
  obtain ⟨realm, identity, transport, token, app_id, env, min_priority, added_at⟩ := row
  rw [← whole_option_iff, ← whole_option_iff]
  have hnumber : (∀ n ∈ min_priority, n.stored = some n ∧ n.readable = true) ↔
      min_priority.bind Number.stored = min_priority ∧ min_priority.all Number.readable = true := by
    cases min_priority with
    | none => simp
    | some n => simp
  rw [hnumber]
  simp only [Row.Whole, Row.stored, Row.read, Sqlite.Whole, Row.mk.injEq, Option.ite_none_right_eq_some,
    Bool.and_eq_true, Option.some.injEq, and_true]
  tauto

end Whole

/-- The place a registration is for.
Kind: D -/
def Registration.place (ep : Registration τ) (realm identity : τ) : Place τ :=
  ⟨realm, identity, ep.transport, ep.token⟩

namespace Registry

open RealmMaps

variable [DecidableEq τ]

variable {b : Bounds} {s : Registry τ} {realm identity : τ} {ep : Registration τ} {now : ℤ}

theorem setRealm_self (realms : τ → RealmMaps τ) (realm : τ) (R : RealmMaps τ) :
    setRealm realms realm R realm = R := if_pos rfl

theorem setRealm_of_ne (realms : τ → RealmMaps τ) {realm r : τ} (R : RealmMaps τ) (h : r ≠ realm) :
    setRealm realms realm R r = realms r := if_neg h

/-! ### Registering -/

/-- The endpoint that a registration leaves at its place.
Kind: D -/
def entered (b : Bounds) (s : Registry τ) (realm identity : τ) (ep : Registration τ) (now : ℤ) :
    Endpoint τ :=
  ((s.realms realm).register b identity ep now).2.1

/-- Does a registration push the endpoint at this place out under one of the two caps?
Kind: D -/
def Evicts (b : Bounds) (s : Registry τ) (realm identity : τ) (ep : Registration τ) (now : ℤ)
    (place : Place τ) : Prop :=
  ∃ out ∈ ((s.realms realm).register b identity ep now).2.2, out.2.place realm out.1 = place

instance (place : Place τ) : Decidable (Evicts b s realm identity ep now place) :=
  inferInstanceAs (Decidable (∃ _ ∈ _, _))

/-- Does the sweep of a registration in this realm drop the endpoints of the place?
Kind: D -/
def Sweeps (b : Bounds) (s : Registry τ) (realm : τ) (now : ℤ) (place : Place τ) : Prop :=
  place.realm = realm ∧ Swept b (s.realms realm) now place.identity

instance (place : Place τ) : Decidable (Sweeps b s realm now place) :=
  inferInstanceAs (Decidable (_ ∧ _))

omit [DecidableEq τ] in
@[simp] theorem place_realm (e : Endpoint τ) (r i : τ) : (e.place r i).realm = r := rfl

omit [DecidableEq τ] in
@[simp] theorem place_identity (e : Endpoint τ) (r i : τ) : (e.place r i).identity = i := rfl

omit [DecidableEq τ] in
@[simp] theorem place_row (e : Endpoint τ) (r i : τ) : (e.row r i).place = e.place r i := rfl

theorem isAt_eq_true_iff {e : Endpoint τ} :
    isAt ep.transport ep.token e = true ↔
      e.place realm identity = ep.place realm identity := by
  simp [isAt_iff, Endpoint.place, Registration.place]

/-- All that a registration does to the lists and to the touch times, in every realm.
Kind: D -/
structure Entering (b : Bounds) (s : Registry τ) (realm identity : τ) (ep : Registration τ) (now : ℤ)
    (e₀ : Endpoint τ) (s' : Registry τ) : Prop where
  /-- The endpoint registered is at its place. -/
  place_eq : e₀.place realm identity = ep.place realm identity
  /-- It is as old as the registration. -/
  added_at : e₀.added_at = now
  /-- It is listed. -/
  mem : e₀ ∈ s'.list realm identity
  /-- Nothing else comes in. -/
  sound : ∀ r i, ∀ e ∈ s'.list r i, (r = realm ∧ i = identity ∧ e = e₀) ∨
    (e ∈ s.list r i ∧ e.place r i ≠ ep.place realm identity ∧
      ¬ Evicts b s realm identity ep now (e.place r i) ∧ ¬ Sweeps b s realm now (e.place r i))
  /-- What goes out is at the place, or has been evicted or swept. -/
  kept : ∀ r i, ∀ e ∈ s.list r i, e ∈ s'.list r i ∨
    e.place r i = ep.place realm identity ∨
      Evicts b s realm identity ep now (e.place r i) ∨ Sweeps b s realm now (e.place r i)
  /-- The endpoint registered is not evicted. -/
  evicts : ∀ place, Evicts b s realm identity ep now place →
    place ≠ ep.place realm identity
  /-- The identity that registers is touched, and no other. -/
  touch : ∀ r i, s'.list r i ≠ [] → (s'.realms r).touch.get i =
    if r = realm ∧ i = identity then some now else (s.realms r).touch.get i
  /-- Devices are distinct. -/
  nodup : ∀ r i, (devices (s'.list r i)).Nodup
  /-- Lists are not too long. -/
  length_le : ∀ r i, (s'.list r i).length ≤ b.maxPerIdentity

/-- What it takes to evict the endpoint at the place of another.
Kind: L -/
theorem evicts_place_iff {r i : τ} {e : Endpoint τ} :
    Evicts b s realm identity ep now (e.place r i) ↔
      r = realm ∧ ∃ e', (i, e') ∈ ((s.realms realm).register b identity ep now).2.2 ∧
        e'.transport = e.transport ∧ e'.token = e.token := by
  simp only [Evicts, Prod.exists, Endpoint.place, Place.mk.injEq]
  constructor
  · rintro ⟨i', e', hout, rfl, rfl, ht, hk⟩
    exact ⟨rfl, e', hout, ht, hk⟩
  · rintro ⟨rfl, e', hout, ht, hk⟩
    exact ⟨i, e', hout, rfl, rfl, ht, hk⟩

/-- What a sweep leaves.
Kind: L -/
theorem of_mem_sweepExpired {i : τ} {e : Endpoint τ}
    (he : e ∈ ((s.realms realm).sweepExpired b now).list i) :
    e ∈ s.list realm i ∧ ¬ Sweeps b s realm now (e.place realm i) := by
  rw [list_sweepExpired] at he
  split_ifs at he with hs
  · exact absurd he List.not_mem_nil
  · exact ⟨he, fun h => hs h.2⟩

section Writes

variable [Texts τ]

theorem realms_register (b : Bounds) (s : Registry τ) (realm identity : τ) (ep : Registration τ)
    (now : ℤ) : (s.register b realm identity ep now).realms =
      setRealm s.realms realm ((s.realms realm).register b identity ep now).1 := rfl

theorem list_register (b : Bounds) (s : Registry τ) (realm identity : τ) (ep : Registration τ)
    (now : ℤ) (i : τ) : (s.register b realm identity ep now).list realm i =
      ((s.realms realm).register b identity ep now).1.list i := by
  rw [list, realms_register, setRealm_self]

theorem list_register_of_ne (b : Bounds) (s : Registry τ) {realm r : τ} (identity : τ)
    (ep : Registration τ) (now : ℤ) (hr : r ≠ realm) (i : τ) :
    (s.register b realm identity ep now).list r i = s.list r i := by
  rw [list, realms_register, setRealm_of_ne _ _ hr, list]

/-- The lists after a registration: the one that is registered in, and the others, from which endpoints
only go out.
Kind: L -/
theorem list_register_cases (b : Bounds) (s : Registry τ) (realm identity : τ) (ep : Registration τ)
    (now : ℤ) (r i : τ) :
    (s.register b realm identity ep now).list r i =
        (registerInList b (((s.realms realm).sweepExpired b now).list identity) ep now).1 ∨
      ((s.register b realm identity ep now).list r i).Sublist (s.list r i) := by
  obtain ⟨gone, -, hlist, -, -, -⟩ := register_spec b (s.realms realm) identity ep now
  by_cases hr : r = realm
  · subst hr
    rw [list_register, hlist]
    split_ifs
    · exact Or.inl rfl
    · exact Or.inr (List.nil_sublist _)
    · exact Or.inr (list_sweepExpired_sublist _ _ _ _)
  · rw [list_register_of_ne _ _ _ _ _ hr]
    exact Or.inr (List.Sublist.refl _)

/-- The touch times after a registration.
Kind: L -/
theorem touch_register (b : Bounds) (s : Registry τ) (realm identity : τ) (ep : Registration τ)
    (now : ℤ) {r i : τ} (h : (s.register b realm identity ep now).list r i ≠ []) :
    ((s.register b realm identity ep now).realms r).touch.get i =
      if r = realm ∧ i = identity then some now else (s.realms r).touch.get i := by
  obtain ⟨gone, -, hlist, htouch, -, -⟩ := register_spec b (s.realms realm) identity ep now
  by_cases hr : r = realm
  · subst hr
    rw [list_register, hlist] at h
    rw [realms_register, setRealm_self, htouch, touch_sweepExpired]
    by_cases hi : i = identity
    · rw [if_pos hi, if_pos ⟨rfl, hi⟩]
    · rw [if_neg hi] at h ⊢
      have hg : i ∉ gone := fun hg => h (if_pos hg)
      rw [if_neg hg, list_sweepExpired] at h
      have hs : ¬ Swept b (s.realms r) now i := fun hs => h (if_pos hs)
      rw [if_neg hg, if_neg hs, if_neg fun h => hi h.2]
  · rw [realms_register, setRealm_of_ne _ _ hr, if_neg fun h => hr h.1]

section Register

variable (hnodup : ∀ r i, (devices (s.list r i)).Nodup)
  (hlen : ∀ r i, (s.list r i).length ≤ b.maxPerIdentity)

include hnodup hlen

omit [Texts τ] in
/-- The list that is registered in has been swept first.
Kind: L -/
theorem entered_spec (realm identity : τ) (ep : Registration τ) (now : ℤ) :
    Entered b ep now (((s.realms realm).sweepExpired b now).list identity)
      (registerInList b (((s.realms realm).sweepExpired b now).list identity) ep now).1
      (registerInList b (((s.realms realm).sweepExpired b now).list identity) ep now).2.1
      (entered b s realm identity ep now) := by
  obtain ⟨-, -, -, -, he₀, -⟩ := register_spec b (s.realms realm) identity ep now
  have hsub := list_sweepExpired_sublist b (s.realms realm) now identity
  have hin := registerInList_spec ep now ((hnodup realm identity).sublist (hsub.map _))
    (hsub.length_le.trans (hlen realm identity))
  rw [← he₀] at hin
  exact hin

/-- What is listed after a registration.
Kind: P -/
theorem sound_register {r i : τ} {e : Endpoint τ}
    (he : e ∈ (s.register b realm identity ep now).list r i) :
    (r = realm ∧ i = identity ∧ e = entered b s realm identity ep now) ∨
      (e ∈ s.list r i ∧ e.place r i ≠ ep.place realm identity ∧
        ¬ Evicts b s realm identity ep now (e.place r i) ∧
          ¬ Sweeps b s realm now (e.place r i)) := by
  obtain ⟨gone, hid, hlist, -, -, hout⟩ := register_spec b (s.realms realm) identity ep now
  have hin := entered_spec hnodup hlen realm identity ep now
  by_cases hr : r = realm
  · subst hr
    rw [list_register, hlist] at he
    split_ifs at he with hi hg
    · subst hi
      rcases hin.sound e he with h | ⟨hel, hat⟩
      · exact Or.inl ⟨rfl, rfl, h⟩
      obtain ⟨hold, hsweeps⟩ := of_mem_sweepExpired hel
      refine Or.inr ⟨hold, ?_, ?_, hsweeps⟩
      · intro h
        exact Bool.false_ne_true (hat.symm.trans (isAt_eq_true_iff.mpr h))
      · -- what is pushed out of the list is not the endpoint that stays
        intro h
        obtain ⟨-, e', he', ht, hk⟩ := evicts_place_iff.mp h
        rcases (hout i e').mp he' with ⟨-, hpushed⟩ | ⟨hgone, -⟩
        · obtain ⟨hel', -, hnot⟩ := hin.pushed e' hpushed
          have heq := eq_of_device (hnodup r i) (of_mem_sweepExpired hel').1 hold ht hk
          exact hnot (heq ▸ he)
        · exact hid hgone
    · exact absurd he List.not_mem_nil
    · obtain ⟨hold, hsweeps⟩ := of_mem_sweepExpired he
      refine Or.inr ⟨hold, ?_, ?_, hsweeps⟩
      · intro h
        exact hi (congrArg Place.identity h)
      · intro h
        obtain ⟨-, e', he', -, -⟩ := evicts_place_iff.mp h
        rcases (hout i e').mp he' with ⟨hi', -⟩ | ⟨hgone, -⟩
        · exact hi hi'
        · exact hg hgone
  · rw [list_register_of_ne _ _ _ _ _ hr] at he
    refine Or.inr ⟨he, ?_, ?_, fun h => hr h.1⟩
    · intro h
      exact hr (congrArg Place.realm h)
    · intro h
      exact hr (evicts_place_iff.mp h).1

/-- What is listed before a registration.
Kind: P -/
theorem kept_register {r i : τ} {e : Endpoint τ} (he : e ∈ s.list r i) :
    e ∈ (s.register b realm identity ep now).list r i ∨
      e.place r i = ep.place realm identity ∨
        Evicts b s realm identity ep now (e.place r i) ∨ Sweeps b s realm now (e.place r i) := by
  obtain ⟨gone, -, hlist, -, -, hout⟩ := register_spec b (s.realms realm) identity ep now
  have hin := entered_spec hnodup hlen realm identity ep now
  by_cases hr : r = realm
  · subst hr
    by_cases hs : Swept b (s.realms r) now i
    · exact Or.inr (Or.inr (Or.inr ⟨rfl, hs⟩))
    · have hel : e ∈ ((s.realms r).sweepExpired b now).list i := by
        rw [list_sweepExpired, if_neg hs]
        exact he
      -- an endpoint among those that the registration evicts
      have hevict : (i, e) ∈ ((s.realms r).register b identity ep now).2.2 →
          Evicts b s r identity ep now (e.place r i) := by
        intro hmem
        exact evicts_place_iff.mpr ⟨rfl, e, hmem, rfl, rfl⟩
      rw [list_register, hlist]
      split_ifs with hi hg
      · subst hi
        rcases hin.kept e hel with h | h | h
        · exact Or.inl h
        · exact Or.inr (Or.inl (isAt_eq_true_iff.mp h))
        · exact Or.inr (Or.inr (Or.inl (hevict ((hout i e).mpr (Or.inl ⟨rfl, h⟩)))))
      · exact Or.inr (Or.inr (Or.inl (hevict ((hout i e).mpr (Or.inr ⟨hg, hel⟩)))))
      · exact Or.inl hel
  · rw [list_register_of_ne _ _ _ _ _ hr]
    exact Or.inl he

omit [Texts τ] in
/-- A registration does not evict its own endpoint.
Kind: L -/
theorem ne_place_of_evicts {place : Place τ} (h : Evicts b s realm identity ep now place) :
    place ≠ ep.place realm identity := by
  obtain ⟨gone, hid, -, -, -, hout⟩ := register_spec b (s.realms realm) identity ep now
  have hin := entered_spec hnodup hlen realm identity ep now
  obtain ⟨⟨i, e⟩, he, rfl⟩ := h
  intro h
  rcases (hout i e).mp he with ⟨rfl, hpushed⟩ | ⟨hgone, -⟩
  · exact Bool.false_ne_true ((hin.pushed e hpushed).2.1.symm.trans (isAt_eq_true_iff.mpr h))
  · obtain rfl : i = identity := congrArg Place.identity h
    exact hid hgone

omit [Texts τ] in
/-- What a registration evicts was listed.
Kind: L -/
theorem mem_list_of_evicted {out : τ × Endpoint τ}
    (h : out ∈ ((s.realms realm).register b identity ep now).2.2) : out.2 ∈ s.list realm out.1 := by
  obtain ⟨gone, -, -, -, -, hout⟩ := register_spec b (s.realms realm) identity ep now
  have hin := entered_spec hnodup hlen realm identity ep now
  obtain ⟨i, e⟩ := out
  rcases (hout i e).mp h with ⟨rfl, hpushed⟩ | ⟨-, hlisted⟩
  · exact (of_mem_sweepExpired (hin.pushed e hpushed).1).1
  · exact (of_mem_sweepExpired hlisted).1

/-- Registering, in a registry whose lists have distinct devices and are not too long.
Kind: P -/
theorem register_entering (realm identity : τ) (ep : Registration τ) (now : ℤ) :
    Entering b s realm identity ep now (entered b s realm identity ep now)
      (s.register b realm identity ep now) := by
  have hin := entered_spec hnodup hlen realm identity ep now
  refine ⟨isAt_eq_true_iff.mp hin.at_ep, hin.added_at, ?_, ?_, ?_, ?_, ?_, ?_, ?_⟩
  · obtain ⟨gone, -, hlist, -, -, -⟩ := register_spec b (s.realms realm) identity ep now
    rw [list_register, hlist, if_pos rfl]
    exact hin.mem
  · exact fun r i e he => sound_register hnodup hlen he
  · exact fun r i e he => kept_register hnodup hlen he
  · exact fun place h => ne_place_of_evicts hnodup hlen h
  · exact fun r i h => touch_register b s realm identity ep now h
  · intro r i
    rcases list_register_cases b s realm identity ep now r i with h | h
    · rw [h]
      exact hin.nodup
    · exact (hnodup r i).sublist (h.map _)
  · intro r i
    rcases list_register_cases b s realm identity ep now r i with h | h
    · rw [h]
      exact hin.length_le
    · exact h.length_le.trans (hlen r i)

end Register

omit [Texts τ] in
/-- The endpoint registered is a new one, or refreshes one that was listed.
Kind: L -/
theorem entered_cases (b : Bounds) (s : Registry τ) (realm identity : τ) (ep : Registration τ)
    (now : ℤ) : entered b s realm identity ep now = create ep now ∨
      ∃ e ∈ s.list realm identity, entered b s realm identity ep now = refresh ep now e := by
  obtain ⟨-, -, -, -, he₀, -⟩ := register_spec b (s.realms realm) identity ep now
  rw [entered, he₀, registerInList]
  rcases hfind : (((s.realms realm).sweepExpired b now).list identity).find?
    (isAt ep.transport ep.token) with _ | e
  · exact Or.inl rfl
  · exact Or.inr ⟨e, (of_mem_sweepExpired (List.mem_of_find?_eq_some hfind)).1, rfl⟩

/-- A registration whose texts and numbers are kept, among endpoints that are, leaves one that is.
Kind: L -/
theorem whole_entered (hlisted : ∀ e ∈ s.list realm identity, (e.row realm identity).Whole)
    (hnew : ((create ep now).row realm identity).Whole) :
    ((entered b s realm identity ep now).row realm identity).Whole := by
  rcases entered_cases b s realm identity ep now with h | ⟨e, he, h⟩
  · rw [h]
    exact hnew
  · rw [h]
    obtain ⟨htexts, happ, henv, hleast, -⟩ := Row.whole_iff.mp (hlisted e he)
    obtain ⟨-, happ', henv', hleast', hnow⟩ := Row.whole_iff.mp hnew
    refine Row.whole_iff.mpr ⟨htexts, ?_, ?_, ?_, hnow⟩
    · cases happ_id : ep.app_id with
      | none => simpa [refresh, Endpoint.row, happ_id] using happ
      | some app_id => simpa [create, refresh, Endpoint.row, happ_id] using happ'
    · cases henv_eq : ep.env with
      | none => simpa [refresh, Endpoint.row, henv_eq] using henv
      | some env => simpa [create, refresh, Endpoint.row, henv_eq] using henv'
    · cases hmin : ep.min_priority with
      | none => simpa [refresh, Endpoint.row, hmin] using hleast
      | some least => simpa [create, refresh, Endpoint.row, hmin] using hleast'

/-! ### The rows -/

theorem scan_del (t : RowTable (Row τ)) (place : Place τ) :
    (PushStore.del t place).scan = t.scan.filter fun row => !decide (row.place = place.stored) :=
  RowTable.scan_deleteWhere t _

/-- Deleting some places from the store, where none is stored as another.
Kind: L -/
theorem scan_foldl_del {realm : τ} {out : List (τ × Endpoint τ)}
    (h : ∀ e ∈ out, (e.2.place realm e.1).stored = e.2.place realm e.1) (t : RowTable (Row τ)) :
    (out.foldl (fun t e => PushStore.del t (e.2.place realm e.1)) t).scan =
      t.scan.filter fun row => !decide (∃ e ∈ out, e.2.place realm e.1 = row.place) := by
  induction out generalizing t with
  | nil => simp
  | cons e out ih =>
      rw [List.foldl_cons, ih fun e' he' => h e' (List.mem_cons_of_mem _ he'), scan_del,
        h e List.mem_cons_self, List.filter_filter]
      apply List.filter_congr
      intro row _
      by_cases hat : e.2.place realm e.1 = row.place
      · simp [hat]
      · simp [hat, Ne.symm hat]

section Stored

variable (hout : ∀ e ∈ ((s.realms realm).register b identity ep now).2.2,
    (e.2.place realm e.1).stored = e.2.place realm e.1)
  (hrow : ((entered b s realm identity ep now).row realm identity).Whole)

include hout hrow

/-- The rows after a registration: those of the places that it evicts, and of its own, give way to the
row of the endpoint registered.
Kind: P -/
theorem scan_register :
    (s.register b realm identity ep now).store.scan =
      (s.store.scan.filter fun row =>
        !decide (row.place = (entered b s realm identity ep now).place realm identity) &&
          !decide (Evicts b s realm identity ep now row.place)) ++
        [(entered b s realm identity ep now).row realm identity] := by
  have hplace := hrow.place_stored
  rw [place_row] at hplace
  rw [register, PushStore.put, RowTable.scan_replaceWhere]
  rw [scan_foldl_del hout, List.filter_filter]
  change List.filter (fun row => !decide (row.place =
      ((entered b s realm identity ep now).place realm identity).stored) && _) _ ++
    [((entered b s realm identity ep now).row realm identity).stored] = _
  rw [hplace, hrow.1]
  rfl

/-- A row that is stored after a registration is the new one, or was stored and is not in its way.
Kind: L -/
theorem mem_scan_register {row : Row τ} :
    row ∈ (s.register b realm identity ep now).store.scan ↔
      (row ∈ s.store.scan ∧
        row.place ≠ (entered b s realm identity ep now).place realm identity ∧
        ¬ Evicts b s realm identity ep now row.place) ∨
      row = (entered b s realm identity ep now).row realm identity := by
  rw [scan_register hout hrow]
  simp [List.mem_filter]

end Stored

/-- The rows after an endpoint has been taken out of an identity that is in memory.
Kind: L -/
theorem scan_unregister (s : Registry τ) (place : Place τ) :
    (s.unregister place).store.scan = s.store.scan ∧ s.list place.realm place.identity = [] ∨
      ((s.realms place.realm).identities.get place.identity).isSome ∧
        (s.unregister place).store.scan =
          s.store.scan.filter fun row => !decide (row.place = place.stored) := by
  rw [unregister]
  rcases hget : (s.realms place.realm).identities.get place.identity with _ | l
  · exact Or.inl ⟨rfl, by simp [list, RealmMaps.list, hget]⟩
  · exact Or.inr ⟨rfl, scan_del s.store place⟩

/-- The maps after an endpoint has been taken out, whether or not its identity is in memory.
Kind: L -/
theorem realms_unregister (s : Registry τ) (place : Place τ) :
    (s.unregister place).realms = setRealm s.realms place.realm
      ((s.realms place.realm).unregister place.identity place.transport place.token) := by
  rw [unregister]
  rcases hget : (s.realms place.realm).identities.get place.identity with _ | l
  · funext r
    by_cases hr : r = place.realm
    · simp [setRealm, hr, RealmMaps.unregister, hget]
    · simp [setRealm, hr]
  · rfl

/-- The lists after an endpoint has been taken out.
Kind: L -/
theorem mem_list_unregister (s : Registry τ) (place : Place τ) {r i : τ} {e : Endpoint τ} :
    e ∈ (s.unregister place).list r i ↔ e ∈ s.list r i ∧ e.place r i ≠ place := by
  obtain ⟨realm, identity, transport, token⟩ := place
  simp only [list, realms_unregister, setRealm, Endpoint.place, ne_eq, Place.mk.injEq]
  by_cases hr : r = realm
  · subst hr
    rw [if_pos rfl, RealmMaps.list_unregister]
    by_cases hi : i = identity
    · simp only [hi, List.mem_filter, isAt, if_true, true_and, not_and_or]
      simp
    · simp [hi]
  · simp [hr]

/-- The touch time of an identity that still has an endpoint is as before.
Kind: L -/
theorem touch_get_unregister (s : Registry τ) (place : Place τ) {r i : τ}
    (h : (s.unregister place).list r i ≠ []) :
    ((s.unregister place).realms r).touch.get i = (s.realms r).touch.get i := by
  rw [list, realms_unregister] at h
  rw [realms_unregister]
  by_cases hr : r = place.realm
  · subst hr
    rw [setRealm_self] at h ⊢
    exact touch_unregister _ _ _ _ h
  · rw [setRealm_of_ne _ _ hr]

/-- Taking an endpoint out makes no list longer.
Kind: L -/
theorem list_unregister_sublist (s : Registry τ) (place : Place τ) (r i : τ) :
    ((s.unregister place).list r i).Sublist (s.list r i) := by
  rw [list, realms_unregister]
  by_cases hr : r = place.realm
  · subst hr
    rw [setRealm_self, RealmMaps.list_unregister]
    split_ifs
    · exact List.filter_sublist
    · exact List.Sublist.refl _
  · rw [setRealm_of_ne _ _ hr]
    exact List.Sublist.refl _

end Writes

/-! ### Marking -/

/-- The lists after an endpoint has been marked, as far as the store goes.
Kind: L -/
theorem map_row_list_markOk (s : Registry τ) (place : Place τ) (now : ℤ) (r i : τ) :
    ((s.markOk place now).list r i).map (fun e => e.row r i) =
      (s.list r i).map fun e => e.row r i := by
  simp only [list, markOk]
  by_cases hr : r = place.realm
  · subst hr
    rw [setRealm_self, list_markOk]
    split_ifs
    · exact map_modifyFirst fun e => rfl
    · rfl
  · rw [setRealm_of_ne _ _ hr]

/-- An endpoint comes from one that had the same row.
Kind: L -/
theorem exists_of_mem_markOk {place : Place τ} {r i : τ} {e : Endpoint τ}
    (h : e ∈ (s.markOk place now).list r i) : ∃ e' ∈ s.list r i, e'.row r i = e.row r i := by
  have := List.mem_map_of_mem (f := fun e => e.row r i) h
  rw [map_row_list_markOk] at this
  exact List.mem_map.mp this

/-- An endpoint is left with the same row.
Kind: L -/
theorem exists_markOk_of_mem {place : Place τ} {r i : τ} {e : Endpoint τ} (h : e ∈ s.list r i) :
    ∃ e' ∈ (s.markOk place now).list r i, e'.row r i = e.row r i := by
  have := List.mem_map_of_mem (f := fun e => e.row r i) h
  rw [← map_row_list_markOk s place now] at this
  exact List.mem_map.mp this

theorem touch_get_markOk (s : Registry τ) (place : Place τ) (now : ℤ) (r i : τ) :
    ((s.markOk place now).realms r).touch.get i = (s.realms r).touch.get i := by
  simp only [markOk]
  by_cases hr : r = place.realm
  · subst hr
    rw [setRealm_self, RealmMaps.markOk]
    split <;> rfl
  · rw [setRealm_of_ne _ _ hr]

/-! ### Loading -/

/-- The rows that are not stale.
Kind: D -/
def fresh (b : Bounds) (store : RowTable (Row τ)) (now : ℤ) : List (Row τ) :=
  store.scan.filter fun row => !decide (cutoff b now ≠ 0 ∧ row.added_at < cutoff b now)

/-- The maps of every realm once some rows have been loaded.
Kind: D -/
def loadAll (b : Bounds) (now : ℤ) (rows : List (Row τ)) : τ → RealmMaps τ :=
  rows.foldl (fun realms row => setRealm realms row.realm ((realms row.realm).load b now row))
    fun _ => RealmMaps.empty

/-- A store whose rows are all kept as they are is read as it is.
Kind: L -/
theorem hydrate_eq [Texts τ] {store : RowTable (Row τ)} (h : ∀ row ∈ store.scan, row.Whole) (b : Bounds)
    (now : ℤ) : hydrate b store now =
      ⟨loadAll b now (fresh b store now),
        if cutoff b now = 0 then store else PushStore.pruneOlderThan store (cutoff b now)⟩ := by
  have hall : PushStore.all store = some store.scan :=
    readAll_eq_self_iff.mpr fun row hrow => (h row hrow).2
  rw [hydrate, hall]
  rfl

theorem loadAll_append (b : Bounds) (now : ℤ) (rows : List (Row τ)) (row : Row τ) :
    loadAll b now (rows ++ [row]) =
      setRealm (loadAll b now rows) row.realm ((loadAll b now rows row.realm).load b now row) := by
  rw [loadAll, List.foldl_append]
  rfl

/-- The rows of one identity.
Kind: D -/
def rowsOf (r i : τ) (rows : List (Row τ)) : List (Row τ) :=
  rows.filter fun row => decide (row.realm = r ∧ row.identity = i)

theorem list_load_self {R : RealmMaps τ} {row : Row τ}
    (h : (R.list row.identity ++ [row.endpoint]).length ≤ b.maxPerIdentity) :
    (R.load b now row).list row.identity = R.list row.identity ++ [row.endpoint] := by
  rw [RealmMaps.list, RealmMaps.load, JsMap.get_set_self, Option.getD_some, Nat.sub_eq_zero_of_le h,
    List.drop_zero]

theorem list_load_of_ne (R : RealmMaps τ) {row : Row τ} {i : τ} (h : i ≠ row.identity) :
    (R.load b now row).list i = R.list i := by
  rw [RealmMaps.list, RealmMaps.load, JsMap.get_set_of_ne _ h, RealmMaps.list]

/-- When no identity has more rows than fit, its list is that of its rows, in the same order.
Kind: P -/
theorem list_loadAll {rows : List (Row τ)} (r i : τ)
    (h : (rowsOf r i rows).length ≤ b.maxPerIdentity) :
    (loadAll b now rows r).list i = (rowsOf r i rows).map Row.endpoint := by
  induction rows using List.reverseRecOn with
  | nil => rfl
  | append_singleton rows row ih =>
      rw [rowsOf, List.filter_append, List.length_append] at h
      have ih := ih (by rw [rowsOf]; omega)
      rw [loadAll_append, rowsOf, List.filter_append, List.map_append, ← rowsOf, ← ih]
      by_cases hr : row.realm = r
      · subst hr
        rw [setRealm_self]
        by_cases hi : row.identity = i
        · subst hi
          have hfit : ((loadAll b now rows row.realm).list row.identity ++ [row.endpoint]).length ≤
              b.maxPerIdentity := by
            rw [ih, List.length_append, List.length_map, rowsOf]
            simpa using h
          rw [list_load_self hfit]
          simp
        · rw [list_load_of_ne _ (Ne.symm hi)]
          simp [hi]
      · rw [setRealm_of_ne _ _ (Ne.symm hr)]
        simp [hr]

/-- When the rows come in the order of their ages, an identity was touched when its last row was
added.
Kind: P -/
theorem touch_loadAll {rows : List (Row τ)} (hzero : ∀ row ∈ rows, row.added_at ≠ 0)
    (hsorted : rows.Pairwise fun row row' => row.added_at ≤ row'.added_at) :
    ∀ row ∈ rows, ∃ ts, (loadAll b now rows row.realm).touch.get row.identity = some ts ∧
      row.added_at ≤ ts := by
  induction rows using List.reverseRecOn with
  | nil => exact fun row h => absurd h List.not_mem_nil
  | append_singleton rows last ih =>
      rw [List.pairwise_append] at hsorted
      have ih := ih (fun row h => hzero row (List.mem_append_left _ h)) hsorted.1
      intro row hrow
      rw [loadAll_append]
      have hle : row.added_at ≤ last.added_at := by
        rcases List.mem_append.mp hrow with h | h
        · exact hsorted.2.2 row h last (List.mem_singleton_self _)
        · rw [List.mem_singleton.mp h]
      by_cases hlast : last.realm = row.realm ∧ last.identity = row.identity
      · refine ⟨last.added_at, ?_, hle⟩
        rw [hlast.1, setRealm_self, RealmMaps.load, hlast.2, JsMap.get_set_self,
          if_neg (hzero last (by simp))]
      · have hin : row ∈ rows := by
          rcases List.mem_append.mp hrow with h | h
          · exact h
          · exact absurd (by rw [List.mem_singleton.mp h]; exact ⟨rfl, rfl⟩) hlast
        obtain ⟨ts, hts, hle'⟩ := ih row hin
        refine ⟨ts, ?_, hle'⟩
        rw [← hts]
        by_cases hr : row.realm = last.realm
        · rw [hr, setRealm_self, RealmMaps.load]
          have hi : row.identity ≠ last.identity := fun hi => hlast ⟨hr.symm, hi.symm⟩
          rw [JsMap.get_set_of_ne _ hi, JsMap.get_delete_of_ne _ hi]
        · rw [setRealm_of_ne _ _ hr]

end Registry

end TyoMq.Push
