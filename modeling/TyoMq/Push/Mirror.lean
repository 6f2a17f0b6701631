import TyoMq.Push.RegistrySteps

/-!
# Push registrations: memory and the store mirror each other

The invariant that every operation of the registry keeps (`Mirrors`): every endpoint in memory has its
row in the store, and every row of the store that is not past the TTL has its endpoint in memory.

* The rows of an identity that has been swept from memory stay in the store. They are past the TTL
  because an identity was touched no earlier than any of its endpoints was registered.
* A scan finds the rows in the order of their ages, so that hydration leaves each identity touched when
  the last of its endpoints was registered.
* No identity has more rows that are not past the TTL than fit, so hydration pushes nothing out.
* Every row is stored and read as it is, so that what is deleted in memory is what is deleted in the
  store, and hydration reads all rows. That takes a condition on what is registered and taken out.
-/

namespace TyoMq.Push

open TyoMq.Lib Sqlite RealmMaps

variable {τ : Type*}

/-- Is the row past the TTL?
Kind: D -/
def Stale (b : Bounds) (t : ℤ) (row : Row τ) : Prop := b.ttlMs ≠ 0 ∧ row.added_at < t - b.ttlMs

instance (b : Bounds) (t : ℤ) (row : Row τ) : Decidable (Stale b t row) :=
  inferInstanceAs (Decidable (_ ∧ _))

theorem Stale.mono {b : Bounds} {t now : ℤ} {row : Row τ} (h : Stale b t row) (hle : t ≤ now) :
    Stale b now row :=
  ⟨h.1, by have := h.2; omega⟩

variable [DecidableEq τ]

/-- The rows that an identity has in memory.
Kind: D -/
def Registry.rows (s : Registry τ) (realm identity : τ) : List (Row τ) :=
  (s.list realm identity).map fun e => e.row realm identity

theorem Registry.mem_rows {s : Registry τ} {r i : τ} {row : Row τ} :
    row ∈ s.rows r i ↔ ∃ e ∈ s.list r i, e.row r i = row := List.mem_map

variable [Texts τ]

/-- Does taking out the endpoint of this place delete the row of another one that is listed, whose place
is what is stored of this one?
Kind: D -/
def Registry.DeletesOther (s : Registry τ) (place : Place τ) : Prop :=
  ((s.realms place.realm).identities.get place.identity).isSome ∧ place.stored ≠ place ∧
    ∃ e ∈ s.list place.stored.realm place.stored.identity,
      e.place place.stored.realm place.stored.identity = place.stored

instance (s : Registry τ) (place : Place τ) : Decidable (s.DeletesOther place) :=
  inferInstanceAs (Decidable (_ ∧ _))

/-- Memory and the store at time `t`.
Kind: D -/
structure Mirrors (b : Bounds) (s : Registry τ) (t : ℤ) : Prop where
  /-- What is in memory is in the store. -/
  stored : ∀ r i, ∀ row ∈ s.rows r i, row ∈ s.store.scan
  /-- What is in the store is past the TTL or in memory. -/
  held : ∀ row ∈ s.store.scan, Stale b t row ∨ row ∈ s.rows row.realm row.identity
  /-- A place has one row. -/
  distinct : (s.store.scan.map Row.place).Nodup
  /-- The rows come in the order of their ages. -/
  ordered : s.store.scan.Pairwise fun row row' => row.added_at ≤ row'.added_at
  /-- The rows are stored and read as they are. -/
  whole : ∀ row ∈ s.store.scan, row.Whole
  /-- The rows are not from the future. -/
  past : ∀ row ∈ s.store.scan, 0 < row.added_at ∧ row.added_at ≤ t
  /-- A device is in a list once. -/
  unique : ∀ r i, (devices (s.list r i)).Nodup
  /-- Lists are not too long. -/
  capped : ∀ r i, (s.list r i).length ≤ b.maxPerIdentity
  /-- An identity was touched no earlier than its endpoints were registered. -/
  touched : ∀ r i, ∀ row ∈ s.rows r i, ∃ ts, (s.realms r).touch.get i = some ts ∧ row.added_at ≤ ts

namespace Mirrors

open Registry

variable {b : Bounds} {s : Registry τ} {t now : ℤ}

/-- Time passes.
Kind: L -/
theorem mono (h : Mirrors b s t) (hle : t ≤ now) : Mirrors b s now :=
  { h with
    held := fun row hrow => (h.held row hrow).imp_left fun hs => hs.mono hle
    past := fun row hrow => ⟨(h.past row hrow).1, (h.past row hrow).2.trans hle⟩ }

/-- What a sweep drops is past the TTL: its identity was touched no earlier than it was registered.
Kind: L -/
theorem stale_of_sweeps (h : Mirrors b s t) {realm r i : τ} {e : Endpoint τ} (he : e ∈ s.list r i)
    (hs : Sweeps b s realm now (e.place r i)) : Stale b now (e.row r i) := by
  obtain ⟨rfl, httl, ts, hts, hlt⟩ := hs
  obtain ⟨ts', hts', hle⟩ := h.touched r i _ (mem_rows.mpr ⟨e, he, rfl⟩)
  rw [place_realm, place_identity, hts', Option.some.injEq] at hts
  exact ⟨httl, by omega⟩

theorem entering (h : Mirrors b s t) (realm identity : τ) (ep : Registration τ) (now : ℤ) :
    Entering b s realm identity ep now (entered b s realm identity ep now)
      (s.register b realm identity ep now) :=
  register_entering h.unique h.capped realm identity ep now

/-- What is in memory is stored and read as it is.
Kind: L -/
theorem whole_of_mem (h : Mirrors b s t) {r i : τ} {e : Endpoint τ} (he : e ∈ s.list r i) :
    (e.row r i).Whole :=
  h.whole _ (h.stored r i _ (mem_rows.mpr ⟨e, he, rfl⟩))

/-! ### Registration -/

section Register

variable {realm identity : τ} {ep : Registration τ}

/-- What a registration evicts is deleted from the store.
Kind: L -/
theorem place_stored_of_evicted (h : Mirrors b s t) {out : τ × Endpoint τ}
    (hout : out ∈ ((s.realms realm).register b identity ep now).2.2) :
    (out.2.place realm out.1).stored = out.2.place realm out.1 :=
  (h.whole_of_mem (mem_list_of_evicted h.unique h.capped hout)).place_stored

variable (hnew : ((create ep now).row realm identity).Whole)

include hnew

/-- What a registration enters is stored and read as it is.
Kind: L -/
theorem whole_entered (h : Mirrors b s t) :
    ((entered b s realm identity ep now).row realm identity).Whole :=
  Registry.whole_entered (fun _ he => h.whole_of_mem he) hnew

/-- The rows that a registration leaves in the store.
Kind: L -/
theorem mem_scan_register (h : Mirrors b s t) {row : Row τ} :
    row ∈ (s.register b realm identity ep now).store.scan ↔
      (row ∈ s.store.scan ∧
        row.place ≠ (entered b s realm identity ep now).place realm identity ∧
        ¬ Evicts b s realm identity ep now row.place) ∨
      row = (entered b s realm identity ep now).row realm identity :=
  Registry.mem_scan_register (fun _ => h.place_stored_of_evicted) (h.whole_entered hnew)

/-- What is listed after a registration is stored.
Kind: L -/
theorem stored_register (h : Mirrors b s t) (r i : τ) :
    ∀ row ∈ (s.register b realm identity ep now).rows r i,
      row ∈ (s.register b realm identity ep now).store.scan := by
  have hin := h.entering realm identity ep now
  intro row hrow
  obtain ⟨e, he, rfl⟩ := mem_rows.mp hrow
  rw [h.mem_scan_register hnew]
  rcases hin.sound r i e he with ⟨rfl, rfl, rfl⟩ | ⟨hold, hne, hev, -⟩
  · exact Or.inr rfl
  · rw [hin.place_eq]
    exact Or.inl ⟨h.stored r i _ (mem_rows.mpr ⟨e, hold, rfl⟩), hne, hev⟩

/-- What is stored after a registration is listed, or past the TTL.
Kind: L -/
theorem held_register (h : Mirrors b s t) (hle : t ≤ now) :
    ∀ row ∈ (s.register b realm identity ep now).store.scan, Stale b now row ∨
      row ∈ (s.register b realm identity ep now).rows row.realm row.identity := by
  have hin := h.entering realm identity ep now
  intro row hrow
  rcases (h.mem_scan_register hnew).mp hrow with ⟨hold, hne, hev⟩ | rfl
  · rcases h.held row hold with hstale | hheld
    · exact Or.inl (hstale.mono hle)
    · obtain ⟨e, he, herow⟩ := mem_rows.mp hheld
      have hplace : e.place row.realm row.identity = row.place := by rw [← place_row, herow]
      rcases hin.kept _ _ e he with hkept | hat | hout | hswept
      · exact Or.inr (mem_rows.mpr ⟨e, hkept, herow⟩)
      · exact absurd (hplace ▸ hat.trans hin.place_eq.symm) hne
      · exact absurd (hplace ▸ hout) hev
      · rw [← herow]
        exact Or.inl (h.stale_of_sweeps he hswept)
  · exact Or.inr (mem_rows.mpr ⟨_, hin.mem, rfl⟩)

/-- A registration whose texts and numbers are kept as they are keeps the mirror.
Kind: P -/
theorem register (h : Mirrors b s t) (ht : 0 < t) (hle : t ≤ now) :
    Mirrors b (s.register b realm identity ep now) now := by
  have hin := h.entering realm identity ep now
  have hstored := h.stored_register hnew
  have hpast : ∀ row ∈ (s.register b realm identity ep now).store.scan,
      0 < row.added_at ∧ row.added_at ≤ now := by
    intro row hrow
    rcases (h.mem_scan_register hnew).mp hrow with ⟨hold, -⟩ | rfl
    · exact ⟨(h.past row hold).1, (h.past row hold).2.trans hle⟩
    · show 0 < (entered b s realm identity ep now).added_at ∧
        (entered b s realm identity ep now).added_at ≤ now
      rw [hin.added_at]
      exact ⟨by omega, le_refl _⟩
  have hscan := Registry.scan_register (fun _ => h.place_stored_of_evicted) (h.whole_entered hnew)
  refine ⟨hstored, h.held_register hnew hle, ?_, ?_, ?_, hpast, hin.nodup, hin.length_le, ?_⟩
  · rw [hscan, List.map_append, List.nodup_append]
    refine ⟨h.distinct.sublist (List.filter_sublist.map _), List.nodup_singleton _, ?_⟩
    intro place hplace place' hplace'
    obtain ⟨row, hrow, rfl⟩ := List.mem_map.mp hplace
    rw [List.map_singleton, List.mem_singleton, place_row] at hplace'
    rw [hplace']
    have := (List.mem_filter.mp hrow).2
    simp only [Bool.and_eq_true, Bool.not_eq_true', decide_eq_false_iff_not] at this
    exact this.1
  · rw [hscan, List.pairwise_append]
    refine ⟨h.ordered.sublist List.filter_sublist, List.pairwise_singleton _ _, ?_⟩
    intro row hrow row' hrow'
    rw [List.mem_singleton.mp hrow']
    show row.added_at ≤ (entered b s realm identity ep now).added_at
    rw [hin.added_at]
    exact (h.past row (List.mem_of_mem_filter hrow)).2.trans hle
  · intro row hrow
    rcases (h.mem_scan_register hnew).mp hrow with ⟨hold, -⟩ | rfl
    · exact h.whole row hold
    · exact h.whole_entered hnew
  · intro r i row hrow
    obtain ⟨e, he, rfl⟩ := mem_rows.mp hrow
    have htouch := hin.touch r i (List.ne_nil_of_mem he)
    split_ifs at htouch with hri
    · exact ⟨now, htouch, (hpast _ (hstored r i _ hrow)).2⟩
    · rcases hin.sound r i e he with ⟨hr, hi, -⟩ | ⟨hold, -⟩
      · exact absurd ⟨hr, hi⟩ hri
      · rw [htouch]
        exact h.touched r i _ (mem_rows.mpr ⟨e, hold, rfl⟩)

end Register

/-! ### The other operations -/

/-- Taking an endpoint out keeps the mirror, unless it deletes the row of another.
Kind: P -/
theorem unregister (h : Mirrors b s t) {place : Place τ} (hkept : ¬ s.DeletesOther place) :
    Mirrors b (s.unregister place) t := by
  have hlist : ∀ {r i e}, e ∈ (s.unregister place).list r i ↔
      e ∈ s.list r i ∧ e.place r i ≠ place := mem_list_unregister s place
  have hsub : ((s.unregister place).store.scan).Sublist s.store.scan := by
    rcases scan_unregister s place with ⟨hscan, -⟩ | ⟨-, hscan⟩
    · rw [hscan]
    · rw [hscan]
      exact List.filter_sublist
  refine ⟨?_, ?_, h.distinct.sublist (hsub.map _), h.ordered.sublist hsub,
    fun row hrow => h.whole row (hsub.subset hrow), fun row hrow => h.past row (hsub.subset hrow),
    ?_, ?_, ?_⟩
  · intro r i row hrow
    obtain ⟨e, he, rfl⟩ := mem_rows.mp hrow
    obtain ⟨hold, hne⟩ := hlist.mp he
    have hin := h.stored r i _ (mem_rows.mpr ⟨e, hold, rfl⟩)
    rcases scan_unregister s place with ⟨hscan, -⟩ | ⟨hget, hscan⟩
    · rw [hscan]
      exact hin
    · have hother : e.place r i ≠ place.stored := by
        intro hat
        obtain rfl : r = place.stored.realm := congrArg Place.realm hat
        obtain rfl : i = place.stored.identity := congrArg Place.identity hat
        exact hkept ⟨hget, fun heq => hne (hat.trans heq), e, hold, hat⟩
      rw [hscan, List.mem_filter]
      exact ⟨hin, by simp [hother]⟩
  · intro row hrow
    apply (h.held row (hsub.subset hrow)).imp_right
    intro hheld
    obtain ⟨e, he, herow⟩ := mem_rows.mp hheld
    refine mem_rows.mpr ⟨e, hlist.mpr ⟨he, fun hat => ?_⟩, herow⟩
    rcases scan_unregister s place with ⟨-, hnil⟩ | ⟨-, hscan⟩
    · -- the identity has nothing in memory
      have hr : row.realm = place.realm := by rw [← hat]; rfl
      have hi : row.identity = place.identity := by rw [← hat]; rfl
      rw [hr, hi, hnil] at he
      exact List.not_mem_nil he
    · have hself : place.stored = place := hat ▸ (h.whole_of_mem he).place_stored
      rw [hscan, List.mem_filter, ← herow, place_row, hat, hself] at hrow
      simp at hrow
  · intro r i
    exact (h.unique r i).sublist ((list_unregister_sublist s place r i).map _)
  · intro r i
    exact (list_unregister_sublist s place r i).length_le.trans (h.capped r i)
  · intro r i row hrow
    obtain ⟨e, he, rfl⟩ := mem_rows.mp hrow
    rw [touch_get_unregister s place (List.ne_nil_of_mem he)]
    exact h.touched r i _ (mem_rows.mpr ⟨e, (hlist.mp he).1, rfl⟩)

omit [DecidableEq τ] [Texts τ] in
/-- The devices of a list, from its rows.
Kind: L -/
theorem devices_eq (l : List (Endpoint τ)) (r i : τ) :
    devices l = (l.map fun e => e.row r i).map fun row => (row.transport, row.token) := by
  rw [List.map_map]
  rfl

/-- Marking an endpoint keeps the mirror.
Kind: P -/
theorem markOk (h : Mirrors b s t) (place : Place τ) (now : ℤ) :
    Mirrors b (s.markOk place now) t := by
  have hrows : ∀ r i, (s.markOk place now).rows r i = s.rows r i := map_row_list_markOk s place now
  refine ⟨?_, ?_, h.distinct, h.ordered, h.whole, h.past, ?_, ?_, ?_⟩
  · intro r i
    rw [hrows]
    exact h.stored r i
  · intro row hrow
    rw [hrows]
    exact h.held row hrow
  · intro r i
    rw [devices_eq _ r i]
    rw [show ((s.markOk place now).list r i).map _ = _ from hrows r i, Registry.rows, ← devices_eq]
    exact h.unique r i
  · intro r i
    have := congrArg List.length (hrows r i)
    rw [Registry.rows, Registry.rows, List.length_map, List.length_map] at this
    rw [this]
    exact h.capped r i
  · intro r i
    rw [hrows, touch_get_markOk]
    exact h.touched r i

/-! ### Restarts -/

omit [DecidableEq τ] [Texts τ] in
/-- With the clock where it can be, the rows that are skipped are those past the TTL.
Kind: L -/
theorem skipped_iff {row : Row τ} (hrow : 0 < row.added_at) :
    (cutoff b now ≠ 0 ∧ row.added_at < cutoff b now) ↔ Stale b now row := by
  unfold cutoff Stale
  split_ifs with httl
  · simp [httl]
  · simp only [ne_eq, httl, not_false_eq_true, true_and]
    omega

theorem mem_fresh (h : Mirrors b s t) {row : Row τ} :
    row ∈ fresh b s.store now ↔ row ∈ s.store.scan ∧ ¬ Stale b now row := by
  rw [fresh, List.mem_filter]
  apply and_congr_right
  intro hrow
  rw [← skipped_iff (h.past row hrow).1, Bool.not_eq_true', decide_eq_false_iff_not]

/-- What an identity has left in the store fits in its list.
Kind: L -/
theorem length_rowsOf_fresh_le (h : Mirrors b s t) (hle : t ≤ now) (r i : τ) :
    (rowsOf r i (fresh b s.store now)).length ≤ b.maxPerIdentity := by
  have hsub : rowsOf r i (fresh b s.store now) ⊆ s.rows r i := by
    intro row hrow
    obtain ⟨hfresh, hri⟩ := List.mem_filter.mp hrow
    obtain ⟨rfl, rfl⟩ := of_decide_eq_true hri
    obtain ⟨hscan, hnot⟩ := h.mem_fresh.mp hfresh
    exact (h.held row hscan).resolve_left fun hs => hnot (hs.mono hle)
  have hnodup : (rowsOf r i (fresh b s.store now)).Nodup :=
    (h.distinct.of_map _).sublist (List.filter_sublist.trans List.filter_sublist)
  have hlen := (List.subperm_of_subset hnodup hsub).length_le
  rw [Registry.rows, List.length_map] at hlen
  exact hlen.trans (h.capped r i)

/-- The rows that an identity has in memory after a restart.
Kind: P -/
theorem rows_hydrate (h : Mirrors b s t) (hle : t ≤ now) (r i : τ) :
    (hydrate b s.store now).rows r i = rowsOf r i (fresh b s.store now) := by
  rw [Registry.rows, Registry.list, hydrate_eq h.whole,
    list_loadAll r i (h.length_rowsOf_fresh_le hle r i), List.map_map]
  refine (List.map_congr_left fun row hrow => ?_).trans (List.map_id _)
  obtain ⟨rfl, rfl⟩ := of_decide_eq_true (List.mem_filter.mp hrow).2
  rfl

/-- A restart keeps in memory what is not past the TTL.
Kind: P -/
theorem mem_rows_hydrate (h : Mirrors b s t) (hle : t ≤ now) {r i : τ} {row : Row τ} :
    row ∈ (hydrate b s.store now).rows r i ↔ row ∈ s.rows r i ∧ ¬ Stale b now row := by
  rw [h.rows_hydrate hle]
  constructor
  · intro hrow
    obtain ⟨hfresh, hri⟩ := List.mem_filter.mp hrow
    obtain ⟨rfl, rfl⟩ := of_decide_eq_true hri
    obtain ⟨hscan, hnot⟩ := h.mem_fresh.mp hfresh
    exact ⟨(h.held row hscan).resolve_left fun hs => hnot (hs.mono hle), hnot⟩
  · rintro ⟨hrow, hnot⟩
    have hri : row.realm = r ∧ row.identity = i := by
      obtain ⟨e, -, rfl⟩ := mem_rows.mp hrow
      exact ⟨rfl, rfl⟩
    exact List.mem_filter.mpr ⟨h.mem_fresh.mpr ⟨h.stored r i row hrow, hnot⟩, decide_eq_true hri⟩

theorem scan_hydrate (h : Mirrors b s t) (now : ℤ) :
    (hydrate b s.store now).store.scan = fresh b s.store now := by
  rw [hydrate_eq h.whole, fresh]
  dsimp only
  split_ifs with hcutoff
  · simp [hcutoff]
  · rw [PushStore.pruneOlderThan, RowTable.scan_deleteWhere]
    simp [hcutoff]

/-- A restart keeps the mirror.
Kind: P -/
theorem hydrate (h : Mirrors b s t) (hle : t ≤ now) :
    Mirrors b (hydrate b s.store now) now := by
  have hrows := h.rows_hydrate hle
  have hsub : (fresh b s.store now).Sublist s.store.scan := List.filter_sublist
  have hin : ∀ r i, ∀ row ∈ (Registry.hydrate b s.store now).rows r i,
      row ∈ fresh b s.store now ∧ row.realm = r ∧ row.identity = i := by
    intro r i row hrow
    rw [hrows] at hrow
    exact ⟨(List.mem_filter.mp hrow).1, of_decide_eq_true (List.mem_filter.mp hrow).2⟩
  have hscan := h.scan_hydrate now
  refine ⟨?_, ?_, ?_, ?_, ?_, ?_, ?_, ?_, ?_⟩
  · intro r i row hrow
    rw [hscan]
    exact (hin r i row hrow).1
  · intro row hrow
    rw [hscan] at hrow
    rw [hrows]
    exact Or.inr (List.mem_filter.mpr ⟨hrow, by simp⟩)
  · rw [hscan]
    exact h.distinct.sublist (hsub.map _)
  · rw [hscan]
    exact h.ordered.sublist hsub
  · intro row hrow
    rw [hscan] at hrow
    exact h.whole row (hsub.subset hrow)
  · intro row hrow
    rw [hscan] at hrow
    have := h.past row (hsub.subset hrow)
    exact ⟨this.1, this.2.trans hle⟩
  · intro r i
    rw [devices_eq _ r i]
    rw [show ((Registry.hydrate b s.store now).list r i).map _ = _ from hrows r i]
    refine List.Nodup.map_on ?_ ((h.distinct.of_map _).sublist
      (List.filter_sublist.trans hsub))
    intro row hrow row' hrow' heq
    obtain ⟨hr, hi⟩ := of_decide_eq_true (List.mem_filter.mp hrow).2
    obtain ⟨hr', hi'⟩ := of_decide_eq_true (List.mem_filter.mp hrow').2
    refine List.inj_on_of_nodup_map h.distinct (hsub.subset (List.mem_filter.mp hrow).1)
      (hsub.subset (List.mem_filter.mp hrow').1) ?_
    simp only [Row.place, Place.mk.injEq]
    obtain ⟨ht, hk⟩ := Prod.mk.injEq .. ▸ heq
    exact ⟨hr.trans hr'.symm, hi.trans hi'.symm, ht, hk⟩
  · intro r i
    have hlen := congrArg List.length (hrows r i)
    rw [Registry.rows, List.length_map] at hlen
    rw [hlen]
    exact h.length_rowsOf_fresh_le hle r i
  · intro r i row hrow
    obtain ⟨hfresh, rfl, rfl⟩ := hin r i row hrow
    rw [hydrate_eq h.whole]
    exact touch_loadAll (fun row hrow => (h.past row (hsub.subset hrow)).1.ne')
      (h.ordered.sublist hsub) row hfresh

end Mirrors

end TyoMq.Push
