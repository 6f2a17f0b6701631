import TyoMq.Push.RealmSteps

/-!
# Push registrations: the two maps of a realm stay in step

* **The representation** (`RealmMaps.Kept`): devices are distinct, no identity has an empty list, no
  list is too long, and the touch map has the identities of the realm as its keys.
* The touch map is in the order of its times (`RealmMaps.Ordered`). So the loop that evicts identities
  stops within the cap (`evictIdentities_eq`), and takes those that were touched first
  (`register_without`).
-/

namespace TyoMq.Push

open TyoMq.Lib

variable {τ : Type*} [DecidableEq τ]

namespace RealmMaps

/-! ### The representation -/

/-- What is always so of the maps of a realm.
Kind: D -/
structure Kept (b : Bounds) (R : RealmMaps τ) : Prop where
  /-- No identity has two endpoints with the same transport and token. -/
  distinct : ∀ i, (devices (R.list i)).Nodup
  /-- No identity has an empty list. -/
  nonempty : ∀ i l, R.identities.get i = some l → l ≠ []
  /-- No list is too long. -/
  capped : ∀ i, (R.list i).length ≤ b.maxPerIdentity
  /-- The touch map has the identities as its keys. -/
  keys : ∀ i, i ∈ R.touch.keys ↔ i ∈ R.identities.keys

/-- The times in the maps of a realm, at time `t`.
Kind: D -/
structure Ordered (R : RealmMaps τ) (t : ℤ) : Prop where
  /-- The touch map is in the order of its times. -/
  ordered : R.touch.entries.Pairwise fun e e' => e.2 ≤ e'.2
  /-- They are not from the future. -/
  past : ∀ e ∈ R.touch.entries, e.2 ≤ t
  /-- Neither are those of the endpoints. -/
  aged : ∀ i, ∀ e ∈ R.list i, e.added_at ≤ t

section Kept

variable {b : Bounds} {R : RealmMaps τ} {identity : τ} {t now : ℤ}

theorem kept_empty (b : Bounds) : (empty : RealmMaps τ).Kept b :=
  ⟨fun _ => List.nodup_nil, by simp [empty], fun _ => Nat.zero_le _, by simp [empty, JsMap.empty, JsMap.keys]⟩

theorem ordered_empty (t : ℤ) : (empty : RealmMaps τ).Ordered t :=
  ⟨List.Pairwise.nil, by simp [empty, JsMap.empty], by simp [empty, list]⟩

theorem Ordered.mono (h : R.Ordered t) (hle : t ≤ now) : R.Ordered now :=
  ⟨h.ordered, fun e he => (h.past e he).trans hle, fun i e he => (h.aged i e he).trans hle⟩

/-- Taking identities out.
Kind: L -/
theorem Kept.without (h : R.Kept b) (p : τ → Bool) : (R.without p).Kept b := by
  refine ⟨fun i => ?_, fun i l hl => ?_, fun i => ?_, fun i => ?_⟩
  · rw [list_without]
    split_ifs
    · exact List.nodup_nil
    · exact h.distinct i
  · rw [get_without] at hl
    split_ifs at hl
    exact h.nonempty i l hl
  · rw [list_without]
    split_ifs
    · exact Nat.zero_le _
    · exact h.capped i
  · rw [mem_keys_without, ← h.keys i]
    exact JsMap.mem_keys_deleteWhere_key

theorem Ordered.without (h : R.Ordered t) (p : τ → Bool) : (R.without p).Ordered t := by
  refine ⟨h.ordered.sublist List.filter_sublist, fun e he => ?_, fun i e he => ?_⟩
  · exact h.past e (List.mem_filter.mp he).1
  · rw [list_without] at he
    split_ifs at he
    · exact absurd he List.not_mem_nil
    · exact h.aged i e he

theorem touch_of_sweepExpired {i : τ} {ts : ℤ}
    (h : (R.sweepExpired b now).touch.get i = some ts) : R.touch.get i = some ts := by
  rw [touch_sweepExpired] at h
  split_ifs at h
  exact h

theorem Kept.sweep (h : R.Kept b) (now : ℤ) : (R.sweepExpired b now).Kept b := by
  rw [sweepExpired_eq]
  split_ifs
  · exact h
  · exact h.without _

theorem Ordered.sweep (h : R.Ordered t) (now : ℤ) : (R.sweepExpired b now).Ordered t := by
  rw [sweepExpired_eq]
  split_ifs
  · exact h
  · exact h.without _

/-! ### Entering -/

/-- Touching moves an identity to the end.
Kind: L -/
theorem entries_touch_enter (R : RealmMaps τ) (identity : τ) (l : List (Endpoint τ)) (now : ℤ) :
    (R.enter identity l now).touch.entries =
      (R.touch.delete identity).entries ++ [(identity, now)] := by
  apply JsMap.entries_set_of_not_mem
  rw [JsMap.mem_keys_delete]
  exact fun h => h.1 rfl

theorem Kept.enter (h : R.Kept b) {l : List (Endpoint τ)} (hl : l ≠ []) (hnodup : (devices l).Nodup)
    (hlen : l.length ≤ b.maxPerIdentity) : (R.enter identity l now).Kept b := by
  refine ⟨fun i => ?_, fun i l' hl' => ?_, fun i => ?_, fun i => ?_⟩
  · rw [list_enter]
    split_ifs
    · exact hnodup
    · exact h.distinct i
  · rw [RealmMaps.enter, JsMap.get_set] at hl'
    split_ifs at hl'
    · exact Option.some.inj hl' ▸ hl
    · exact h.nonempty i l' hl'
  · rw [list_enter]
    split_ifs
    · exact hlen
    · exact h.capped i
  · rw [RealmMaps.enter, JsMap.mem_keys_set, JsMap.mem_keys_set, JsMap.mem_keys_delete, h.keys i]
    by_cases hi : i = identity <;> simp [hi]

theorem Ordered.enter (h : R.Ordered t) (hle : t ≤ now) {l : List (Endpoint τ)}
    (hl : ∀ e ∈ l, e.added_at ≤ now) : (R.enter identity l now).Ordered now := by
  have hold : ∀ e ∈ (R.touch.delete identity).entries, e.2 ≤ now := by
    intro e he
    exact (h.past e (List.mem_filter.mp he).1).trans hle
  refine ⟨?_, fun e he => ?_, fun i e he => ?_⟩
  · rw [entries_touch_enter, List.pairwise_append]
    refine ⟨h.ordered.sublist List.filter_sublist, List.pairwise_singleton _ _, ?_⟩
    intro e he e' he'
    rw [List.mem_singleton.mp he']
    exact hold e he
  · rw [entries_touch_enter, List.mem_append, List.mem_singleton] at he
    rcases he with he | rfl
    · exact hold e he
    · exact le_refl _
  · rw [list_enter] at he
    split_ifs at he
    · exact hl e he
    · exact (h.aged i e he).trans hle

/-! ### Evicting -/

/-- Nothing evicted: without the identities of an empty list.
Kind: L -/
theorem without_nil (R : RealmMaps τ) :
    (R.without fun i => decide (i ∈ ([] : List (τ × ℤ)).map Prod.fst)) = R := by
  rw [RealmMaps.without, JsMap.deleteWhere_of_false, JsMap.deleteWhere_of_false]
  · intro _ _
    rfl
  · intro _ _
    rfl

omit [DecidableEq τ] in
/-- The identity that was touched last is not the first of several.
Kind: L -/
theorem oldest_ne {oldest : τ} {ts : ℤ} {l : List (τ × ℤ)}
    (hlast : R.touch.entries = (oldest, ts) :: l ++ [(identity, now)]) : oldest ≠ identity := by
  have hnodup := R.touch.nodup
  rw [hlast, List.cons_append, List.map_cons, List.nodup_cons] at hnodup
  rintro rfl
  exact hnodup.1 (by simp)

/-- **The loop that evicts identities** goes through the touch map from the least recently touched
identity, and stops within the cap, before the one that registers.
Kind: P -/
theorem evictIdentities_eq {maxIdentities : ℕ} (hmax : maxIdentities ≠ 0) {l : List (τ × ℤ)}
    (hkeys : ∀ i, i ∈ R.touch.keys ↔ i ∈ R.identities.keys)
    (hlast : R.touch.entries = l ++ [(identity, now)]) :
    ∃ gone rest, l = gone ++ rest ∧
      (evictIdentities maxIdentities identity R.touch.keys R).1 =
        R.without (fun i => decide (i ∈ gone.map Prod.fst)) ∧
      (evictIdentities maxIdentities identity R.touch.keys R).1.identities.size ≤ maxIdentities := by
  have hsize : R.identities.size = R.touch.size := (JsMap.size_eq_of_keys hkeys).symm
  induction l generalizing R with
  | nil =>
      have htouch : R.touch.keys = [identity] := by rw [JsMap.keys, hlast]; rfl
      have hone : R.identities.size = 1 := by rw [hsize, JsMap.size, hlast]; rfl
      rw [htouch, evictIdentities_stop (Or.inr rfl)]
      refine ⟨[], [], rfl, (without_nil R).symm, ?_⟩
      rw [hone]
      omega
  | cons e l ih =>
      obtain ⟨oldest, ts⟩ := e
      have htouch : R.touch.keys = oldest :: (l ++ [(identity, now)]).map Prod.fst := by
        rw [JsMap.keys, hlast]
        rfl
      by_cases hfits : R.identities.size ≤ maxIdentities
      · rw [htouch, evictIdentities_stop (Or.inl hfits)]
        exact ⟨[], (oldest, ts) :: l, rfl, (without_nil R).symm, hfits⟩
      · have hgo : ¬ (R.identities.size ≤ maxIdentities ∨ oldest = identity) := by
          rintro (h | h)
          · exact hfits h
          · exact oldest_ne hlast h
        -- the maps without the oldest identity, on which the loop goes on
        generalize hR' : (R.without fun j => decide (j = oldest)) = R'
        have hdelete : (⟨R.identities.delete oldest, R.touch.delete oldest⟩ : RealmMaps τ) = R' := by
          rw [delete_eq_without, hR']
        have hentries : R'.touch.entries = l ++ [(identity, now)] := by
          rw [← hdelete]
          exact JsMap.entries_delete_head hlast
        have hkeys' : ∀ i, i ∈ R'.touch.keys ↔ i ∈ R'.identities.keys := by
          intro i
          rw [← hdelete, JsMap.mem_keys_delete, JsMap.mem_keys_delete, hkeys i]
        have htail : (l ++ [(identity, now)]).map Prod.fst = R'.touch.keys := by
          rw [JsMap.keys, hentries]
        obtain ⟨gone, rest, rfl, heq, hle⟩ :=
          ih hkeys' hentries (JsMap.size_eq_of_keys hkeys').symm
        rw [htouch, evictIdentities_next hgo, hR', htail]
        refine ⟨(oldest, ts) :: gone, rest, rfl, ?_, hle⟩
        rw [heq, ← hR', without_without]
        congr 1
        funext i
        simp only [List.map_cons, List.mem_cons, Bool.decide_or]

/-! ### The operations -/

theorem register_eq (b : Bounds) (R : RealmMaps τ) (identity : τ) (ep : Registration τ) (now : ℤ) :
    (R.register b identity ep now).1 =
      if b.maxIdentities = 0 then R.entering b identity ep now
      else (evictIdentities b.maxIdentities identity (R.entering b identity ep now).touch.keys
        (R.entering b identity ep now)).1 := by
  unfold register
  split_ifs <;> rfl

theorem Kept.entered (h : R.Kept b) (identity : τ) (ep : Registration τ) (now : ℤ) :
    Entered b ep now ((R.sweepExpired b now).list identity) (enteredList b R identity ep now)
      (registerInList b ((R.sweepExpired b now).list identity) ep now).2.1
      (registerInList b ((R.sweepExpired b now).list identity) ep now).2.2 :=
  registerInList_spec ep now ((h.sweep now).distinct identity) ((h.sweep now).capped identity)

theorem Kept.entering (h : R.Kept b) (identity : τ) (ep : Registration τ) (now : ℤ) :
    (R.entering b identity ep now).Kept b := by
  have hin := h.entered identity ep now
  exact (h.sweep now).enter (List.ne_nil_of_mem hin.mem) hin.nodup hin.length_le

theorem Ordered.entering (hk : R.Kept b) (h : R.Ordered t) (hle : t ≤ now) (identity : τ)
    (ep : Registration τ) : (R.entering b identity ep now).Ordered now := by
  refine (h.sweep now).enter hle fun e he => ?_
  have hin := hk.entered identity ep now
  rcases hin.sound e he with rfl | ⟨hold, -⟩
  · exact hin.added_at.le
  · exact ((h.sweep now).aged identity e hold).trans hle

/-- **A registration** evicts the identities that were touched first, and comes within the cap.
Kind: P -/
theorem register_without (h : R.Kept b) (hord : R.Ordered t) (hle : t ≤ now) (identity : τ)
    (ep : Registration τ) :
    ∃ p : τ → Bool, p identity = false ∧
      (R.register b identity ep now).1 = (R.entering b identity ep now).without p ∧
      (b.maxIdentities ≠ 0 → (R.register b identity ep now).1.identities.size ≤ b.maxIdentities) ∧
      ∀ e ∈ (R.entering b identity ep now).touch.entries,
        ∀ e' ∈ (R.entering b identity ep now).touch.entries,
          p e.1 = true → p e'.1 = false → e.2 ≤ e'.2 := by
  rw [register_eq]
  split_ifs with hmax
  · refine ⟨fun i => decide (i ∈ ([] : List (τ × ℤ)).map Prod.fst), rfl, ?_, ?_, ?_⟩
    · rw [without_nil]
    · exact fun hne => absurd hmax hne
    · intro e _ e' _ hp
      exact Bool.noConfusion hp
  · have hlast := (R.sweepExpired b now).entries_touch_enter identity
      (enteredList b R identity ep now) now
    have hkeys := (h.entering identity ep now).keys
    obtain ⟨gone, rest, hsplit, heq, hfits⟩ := evictIdentities_eq hmax hkeys hlast
    have hentries : (R.entering b identity ep now).touch.entries =
        gone ++ (rest ++ [(identity, now)]) := by
      rw [RealmMaps.entering, hlast, hsplit, List.append_assoc]
    have hnodup := (R.entering b identity ep now).touch.nodup
    rw [hentries, List.map_append, List.nodup_append] at hnodup
    refine ⟨_, ?_, heq, fun _ => hfits, ?_⟩
    · apply decide_eq_false
      intro hin
      exact hnodup.2.2 _ hin _ (by simp) rfl
    · intro e he e' he' hp hp'
      have hsorted := (Ordered.entering h hord hle identity ep).ordered
      rw [hentries, List.pairwise_append] at hsorted
      rw [hentries, List.mem_append] at he he'
      have hnot : ∀ x ∈ gone, x.1 ∈ gone.map Prod.fst := fun x hx => List.mem_map_of_mem hx
      refine hsorted.2.2 e ?_ e' ?_
      · rcases he with he | he
        · exact he
        · obtain ⟨x, hx, hxe⟩ := List.mem_map.mp (of_decide_eq_true hp)
          exact absurd hxe (hnodup.2.2 _ (hnot x hx) _ (List.mem_map_of_mem he))
      · rcases he' with he' | he'
        · exact absurd (hnot e' he') (of_decide_eq_false hp')
        · exact he'

/-- Taking an endpoint out.
Kind: L -/
theorem Kept.unregister (h : R.Kept b) (identity transport token : τ) :
    (R.unregister identity transport token).Kept b := by
  unfold RealmMaps.unregister
  rcases hget : R.identities.get identity with _ | l
  · exact h
  · have hlist : R.list identity = l := by rw [list, hget, Option.getD_some]
    dsimp only
    split_ifs with hnil
    · rw [delete_eq_without]
      exact h.without _
    · have hsub : (l.filter fun e => !isAt transport token e).Sublist l := List.filter_sublist
      refine ⟨fun i => ?_, fun i l' hl' => ?_, fun i => ?_, fun i => ?_⟩
      · rw [list, JsMap.get_set]
        split_ifs
        · rw [← hlist] at hsub ⊢
          exact (h.distinct identity).sublist (hsub.map _)
        · exact h.distinct i
      · rw [JsMap.get_set] at hl'
        split_ifs at hl'
        · cases hl'
          exact fun h0 => hnil (by rw [h0]; rfl)
        · exact h.nonempty i l' hl'
      · rw [list, JsMap.get_set]
        split_ifs
        · rw [← hlist] at hsub ⊢
          exact hsub.length_le.trans (h.capped identity)
        · exact h.capped i
      · rw [JsMap.mem_keys_set, h.keys i]
        refine ⟨Or.inr, ?_⟩
        rintro (rfl | hi)
        · exact JsMap.mem_keys_iff.mpr ⟨l, hget⟩
        · exact hi

theorem Ordered.unregister (h : R.Ordered t) (identity transport token : τ) :
    (R.unregister identity transport token).Ordered t := by
  refine ⟨?_, ?_, fun i e he => ?_⟩
  · unfold RealmMaps.unregister
    split
    · exact h.ordered
    · dsimp only
      split_ifs
      · exact h.ordered.sublist List.filter_sublist
      · exact h.ordered
  · unfold RealmMaps.unregister
    split
    · exact h.past
    · dsimp only
      split_ifs
      · exact fun e he => h.past e (List.mem_filter.mp he).1
      · exact h.past
  · rw [list_unregister] at he
    split_ifs at he
    · exact h.aged i e (List.mem_filter.mp he).1
    · exact h.aged i e he

theorem touch_of_unregister {identity transport token i : τ} {ts : ℤ}
    (h : (R.unregister identity transport token).touch.get i = some ts) : R.touch.get i = some ts := by
  unfold RealmMaps.unregister at h
  split at h
  · exact h
  · dsimp only at h
    split_ifs at h
    · change (R.touch.delete identity).get i = some ts at h
      rw [JsMap.delete_eq_deleteWhere, JsMap.get_deleteWhere_key] at h
      split_ifs at h
      exact h
    · exact h

/-- An endpoint is marked.
Kind: L -/
theorem Kept.markOk (h : R.Kept b) (identity transport token : τ) (now : ℤ) :
    (R.markOk identity transport token now).Kept b := by
  have hmap : ∀ (l : List (Endpoint τ)),
      devices (modifyFirst transport token (fun e => { e with last_ok := some now }) l) = devices l :=
    fun l => map_modifyFirst fun _ => rfl
  have hlength : ∀ (l : List (Endpoint τ)),
      (modifyFirst transport token (fun e => { e with last_ok := some now }) l).length = l.length := by
    intro l
    have := congrArg List.length (hmap l)
    rwa [devices, devices, List.length_map, List.length_map] at this
  refine ⟨fun i => ?_, fun i l' hl' => ?_, fun i => ?_, fun i => ?_⟩
  · rw [list_markOk]
    split_ifs
    · rw [hmap]
      exact h.distinct i
    · exact h.distinct i
  · unfold RealmMaps.markOk at hl'
    split at hl'
    · exact h.nonempty i l' hl'
    · rename_i l hget
      rw [JsMap.get_set] at hl'
      split_ifs at hl'
      · cases hl'
        rw [← List.length_pos_iff, hlength, List.length_pos_iff]
        exact h.nonempty identity l hget
      · exact h.nonempty i l' hl'
  · rw [list_markOk]
    split_ifs
    · rw [hlength]
      exact h.capped i
    · exact h.capped i
  · unfold RealmMaps.markOk
    split
    · exact h.keys i
    · rename_i l hget
      rw [JsMap.mem_keys_set, h.keys i]
      refine ⟨Or.inr, ?_⟩
      rintro (rfl | hi)
      · exact JsMap.mem_keys_iff.mpr ⟨l, hget⟩
      · exact hi

theorem Ordered.markOk (h : R.Ordered t) (identity transport token : τ) (now : ℤ) :
    (R.markOk identity transport token now).Ordered t := by
  have htouch : (R.markOk identity transport token now).touch = R.touch := by
    unfold RealmMaps.markOk
    split <;> rfl
  refine ⟨htouch ▸ h.ordered, htouch ▸ h.past, fun i e he => ?_⟩
  have hsame : (modifyFirst transport token (fun e => { e with last_ok := some now })
      (R.list i)).map Endpoint.added_at = (R.list i).map Endpoint.added_at :=
    map_modifyFirst fun _ => rfl
  have hadded : e.added_at ∈ (R.list i).map Endpoint.added_at := by
    rw [list_markOk] at he
    split_ifs at he
    · exact hsame ▸ List.mem_map_of_mem he
    · exact List.mem_map_of_mem he
  obtain ⟨e', he', heq⟩ := List.mem_map.mp hadded
  exact heq ▸ h.aged i e' he'

end Kept

end RealmMaps

end TyoMq.Push
