import TyoMq.Push.Registry

/-!
# Push registrations: what each operation does to a realm

For each operation of the registry, what it makes of the list and of the touch time of every identity
of its realm: `registerInList_spec` for the list that is registered in, `register_spec` for the whole
realm, `list_unregister`, `list_markOk`. Whatever takes identities out takes them out of both maps of the
realm (`without`).
-/

namespace TyoMq.Push

open TyoMq.Lib

variable {τ : Type*} [DecidableEq τ]

namespace RealmMaps

/-- What an endpoint is told by within its identity.
Kind: D -/
def devices (l : List (Endpoint τ)) : List (τ × τ) := l.map fun e => (e.transport, e.token)

omit [DecidableEq τ] in
/-- In a list without repeated devices a device is at most one endpoint.
Kind: L -/
theorem eq_of_device {l : List (Endpoint τ)} (h : (devices l).Nodup) {e e' : Endpoint τ} (he : e ∈ l)
    (he' : e' ∈ l) (ht : e.transport = e'.transport) (hk : e.token = e'.token) : e = e' :=
  List.inj_on_of_nodup_map h he he' (by rw [ht, hk])

theorem isAt_iff {transport token : τ} {e : Endpoint τ} :
    isAt transport token e = true ↔ e.transport = transport ∧ e.token = token := by
  simp [isAt]

/-! ### One list -/

section OneList

variable {transport token : τ} {f : Endpoint τ → Endpoint τ} {l : List (Endpoint τ)}

/-- Changing the first endpoint of a device changes it in place.
Kind: L -/
theorem modifyFirst_append {e : Endpoint τ} {l₁ l₂ : List (Endpoint τ)}
    (h₁ : ∀ x ∈ l₁, isAt transport token x = false) (he : isAt transport token e = true) :
    modifyFirst transport token f (l₁ ++ e :: l₂) = l₁ ++ f e :: l₂ := by
  induction l₁ with
  | nil => rw [List.nil_append, modifyFirst, if_pos he]; rfl
  | cons x l₁ ih =>
      have hx := h₁ x List.mem_cons_self
      rw [List.cons_append, modifyFirst, hx, if_neg Bool.false_ne_true,
        ih fun y hy => h₁ y (List.mem_cons_of_mem _ hy)]
      rfl

/-- A change keeps what does not depend on it.
Kind: L -/
theorem map_modifyFirst {γ : Type*} {g : Endpoint τ → γ} (hf : ∀ e, g (f e) = g e) :
    (modifyFirst transport token f l).map g = l.map g := by
  induction l with
  | nil => rfl
  | cons e l ih =>
      rw [modifyFirst]
      split_ifs
      · rw [List.map_cons, List.map_cons, hf]
      · rw [List.map_cons, List.map_cons, ih]

variable {b : Bounds} {ep : Registration τ} {now : ℤ}

theorem maxPerIdentity_pos (b : Bounds) : 0 < b.maxPerIdentity := by
  unfold Bounds.maxPerIdentity PUSH_MAX_TOKENS_PER_IDENTITY
  split_ifs <;> omega

/-- What a registration makes of the list of its identity.
Kind: D -/
structure Entered (b : Bounds) (ep : Registration τ) (now : ℤ) (l l' out : List (Endpoint τ))
    (e₀ : Endpoint τ) : Prop where
  /-- The endpoint registered is at its device. -/
  at_ep : isAt ep.transport ep.token e₀ = true
  /-- It is as old as the registration. -/
  added_at : e₀.added_at = now
  /-- It is in the list. -/
  mem : e₀ ∈ l'
  /-- Nothing else comes in. -/
  sound : ∀ e ∈ l', e = e₀ ∨ e ∈ l ∧ isAt ep.transport ep.token e = false
  /-- What goes out is at the device or has been pushed out. -/
  kept : ∀ e ∈ l, e ∈ l' ∨ isAt ep.transport ep.token e = true ∨ e ∈ out
  /-- What has been pushed out was there, and is not any more. -/
  pushed : ∀ e ∈ out, e ∈ l ∧ isAt ep.transport ep.token e = false ∧ e ∉ l'
  /-- The devices are distinct. -/
  nodup : (devices l').Nodup
  /-- The list is not too long. -/
  length_le : l'.length ≤ b.maxPerIdentity

/-- A new device goes to the end, and the oldest endpoints go out.
Kind: L -/
theorem entered_create (ep : Registration τ) (now : ℤ) (hnodup : (devices l).Nodup)
    (hnone : ∀ x ∈ l, isAt ep.transport ep.token x = false) {excess : ℕ}
    (hexcess : (l ++ [create ep now]).length - b.maxPerIdentity = excess) :
    Entered b ep now l ((l ++ [create ep now]).drop excess) ((l ++ [create ep now]).take excess)
      (create ep now) := by
  have hcreate : isAt ep.transport ep.token (create ep now) = true := isAt_iff.mpr ⟨rfl, rfl⟩
  have hall : (devices (l ++ [create ep now])).Nodup := by
    rw [devices, List.map_append, List.nodup_append]
    refine ⟨hnodup, List.nodup_singleton _, ?_⟩
    intro d hd d' hd'
    obtain ⟨x, hx, rfl⟩ := List.mem_map.mp hd
    rw [List.map_singleton, List.mem_singleton] at hd'
    rintro rfl
    have hat : isAt ep.transport ep.token x = true := by
      obtain ⟨h₁, h₂⟩ := Prod.mk.injEq .. ▸ hd'
      exact isAt_iff.mpr ⟨h₁, h₂⟩
    exact Bool.false_ne_true ((hnone x hx).symm.trans hat)
  have hlength : (l ++ [create ep now]).length = l.length + 1 := by simp
  have hmax := maxPerIdentity_pos b
  have hle : excess ≤ l.length := by omega
  have hdrop : (l ++ [create ep now]).drop excess = l.drop excess ++ [create ep now] :=
    List.drop_append_of_le_length hle
  have htake : (l ++ [create ep now]).take excess = l.take excess :=
    List.take_append_of_le_length hle
  have hdisjoint := List.disjoint_take_drop (List.Nodup.of_map _ hall) (le_refl excess)
  refine ⟨hcreate, rfl, ?_, ?_, ?_, ?_, ?_, ?_⟩
  · rw [hdrop]
    exact List.mem_append_right _ (List.mem_singleton_self _)
  · intro x hx
    rw [hdrop] at hx
    rcases List.mem_append.mp hx with hx | hx
    · have hxl := List.mem_of_mem_drop hx
      exact Or.inr ⟨hxl, hnone x hxl⟩
    · exact Or.inl (List.mem_singleton.mp hx)
  · intro x hx
    rw [hdrop, htake]
    rw [← List.take_append_drop excess l] at hx
    rcases List.mem_append.mp hx with hx | hx
    · exact Or.inr (Or.inr hx)
    · exact Or.inl (List.mem_append_left _ hx)
  · intro x hx
    refine ⟨?_, ?_, ?_⟩
    · rw [htake] at hx
      exact List.mem_of_mem_take hx
    · rw [htake] at hx
      exact hnone x (List.mem_of_mem_take hx)
    · intro hx'
      exact hdisjoint hx hx'
  · exact hall.sublist ((List.drop_sublist _ _).map _)
  · rw [List.length_drop]
    omega

/-- A repeat is refreshed where it is.
Kind: L -/
theorem entered_refresh (ep : Registration τ) (now : ℤ) {e : Endpoint τ} {l₁ l₂ : List (Endpoint τ)}
    (hnodup : (devices (l₁ ++ e :: l₂)).Nodup) (hlen : (l₁ ++ e :: l₂).length ≤ b.maxPerIdentity)
    (hat : isAt ep.transport ep.token e = true)
    (h₁ : ∀ x ∈ l₁, isAt ep.transport ep.token x = false) :
    Entered b ep now (l₁ ++ e :: l₂) (l₁ ++ refresh ep now e :: l₂) [] (refresh ep now e) := by
  have hunique : ∀ x ∈ l₁ ++ e :: l₂, isAt ep.transport ep.token x = true → x = e := by
    intro x hx hxat
    obtain ⟨ht, hk⟩ := isAt_iff.mp hxat
    obtain ⟨ht', hk'⟩ := isAt_iff.mp hat
    exact eq_of_device hnodup hx (by simp) (ht.trans ht'.symm) (hk.trans hk'.symm)
  have hnotin : e ∉ l₁ ++ l₂ :=
    (List.nodup_cons.mp (List.nodup_middle.mp (List.Nodup.of_map _ hnodup))).1
  have hdev : devices (l₁ ++ refresh ep now e :: l₂) = devices (l₁ ++ e :: l₂) := by
    simp [devices, refresh]
  refine ⟨isAt_iff.mpr (isAt_iff.mp hat), rfl, by simp, ?_, ?_, ?_, ?_, ?_⟩
  · intro x hx
    rcases List.mem_append.mp hx with hx | hx
    · exact Or.inr ⟨List.mem_append_left _ hx, h₁ x hx⟩
    · rcases List.mem_cons.mp hx with rfl | hx
      · exact Or.inl rfl
      · have hxl : x ∈ l₁ ++ e :: l₂ := by simp [hx]
        refine Or.inr ⟨hxl, ?_⟩
        apply Bool.eq_false_iff.mpr
        intro hxat
        rw [hunique x hxl hxat] at hx
        exact hnotin (List.mem_append_right _ hx)
  · intro x hx
    rcases List.mem_append.mp hx with hx | hx
    · exact Or.inl (List.mem_append_left _ hx)
    · rcases List.mem_cons.mp hx with rfl | hx
      · exact Or.inr (Or.inl hat)
      · exact Or.inl (by simp [hx])
  · intro x hx
    exact absurd hx List.not_mem_nil
  · rw [hdev]
    exact hnodup
  · simpa using hlen

/-- Registering in a list without repeated devices that is not too long.
Kind: P -/
theorem registerInList_spec (ep : Registration τ) (now : ℤ) (hnodup : (devices l).Nodup)
    (hlen : l.length ≤ b.maxPerIdentity) :
    Entered b ep now l (registerInList b l ep now).1 (registerInList b l ep now).2.1
      (registerInList b l ep now).2.2 := by
  unfold registerInList
  rcases hfind : l.find? (isAt ep.transport ep.token) with _ | e
  · refine entered_create ep now hnodup ?_ rfl
    intro x hx
    exact Bool.eq_false_iff.mpr (List.find?_eq_none.mp hfind x hx)
  · obtain ⟨hat, l₁, l₂, rfl, h₁⟩ := List.find?_eq_some_iff_append.mp hfind
    have h₁' : ∀ x ∈ l₁, isAt ep.transport ep.token x = false := by
      intro x hx
      simpa using h₁ x hx
    rw [modifyFirst_append h₁' hat]
    exact entered_refresh ep now hnodup hlen hat h₁'

end OneList

/-! ### The maps of a realm -/

section Realm

variable {b : Bounds} {R : RealmMaps τ} {identity : τ} {now : ℤ}

/-- The maps without some identities.
Kind: D -/
def without (p : τ → Bool) (R : RealmMaps τ) : RealmMaps τ :=
  ⟨R.identities.deleteWhere fun i _ => p i, R.touch.deleteWhere fun i _ => p i⟩

theorem sweepExpired_eq (b : Bounds) (R : RealmMaps τ) (now : ℤ) :
    R.sweepExpired b now = if b.ttlMs = 0 then R else R.without (R.isExpired (now - b.ttlMs)) := rfl

theorem delete_eq_without (R : RealmMaps τ) (i : τ) :
    (⟨R.identities.delete i, R.touch.delete i⟩ : RealmMaps τ) = R.without fun j => decide (j = i) := by
  rw [without, ← JsMap.delete_eq_deleteWhere, ← JsMap.delete_eq_deleteWhere]

omit [DecidableEq τ] in
theorem without_without (p q : τ → Bool) (R : RealmMaps τ) :
    (R.without p).without q = R.without fun i => p i || q i := by
  rw [without, without, without, JsMap.deleteWhere_deleteWhere, JsMap.deleteWhere_deleteWhere]

theorem get_without (p : τ → Bool) (R : RealmMaps τ) (i : τ) :
    (R.without p).identities.get i = if p i then none else R.identities.get i :=
  JsMap.get_deleteWhere_key ..

theorem touch_without (p : τ → Bool) (R : RealmMaps τ) (i : τ) :
    (R.without p).touch.get i = if p i then none else R.touch.get i :=
  JsMap.get_deleteWhere_key ..

theorem mem_keys_without {p : τ → Bool} {R : RealmMaps τ} {i : τ} :
    i ∈ (R.without p).identities.keys ↔ p i = false ∧ i ∈ R.identities.keys :=
  JsMap.mem_keys_deleteWhere_key

theorem list_without (p : τ → Bool) (R : RealmMaps τ) (i : τ) :
    (R.without p).list i = if p i then [] else R.list i := by
  rw [list, get_without]
  split_ifs <;> rfl

/-- The maps once an identity has got a list, and has been touched.
Kind: D -/
def enter (R : RealmMaps τ) (identity : τ) (l : List (Endpoint τ)) (now : ℤ) : RealmMaps τ :=
  ⟨R.identities.set identity l, (R.touch.delete identity).set identity now⟩

theorem list_enter (R : RealmMaps τ) (identity : τ) (l : List (Endpoint τ)) (now : ℤ) (i : τ) :
    (R.enter identity l now).list i = if i = identity then l else R.list i := by
  rw [list, enter, JsMap.get_set]
  split_ifs <;> rfl

/-- The list that a registration enters.
Kind: D -/
def enteredList (b : Bounds) (R : RealmMaps τ) (identity : τ) (ep : Registration τ) (now : ℤ) :
    List (Endpoint τ) :=
  (registerInList b ((R.sweepExpired b now).list identity) ep now).1

/-- The maps once the list has been entered, before identities are evicted.
Kind: D -/
def entering (b : Bounds) (R : RealmMaps τ) (identity : τ) (ep : Registration τ) (now : ℤ) :
    RealmMaps τ :=
  (R.sweepExpired b now).enter identity (enteredList b R identity ep now) now

/-- The touch times once an identity has been entered.
Kind: L -/
theorem touch_enter (R : RealmMaps τ) (identity : τ) (l : List (Endpoint τ)) (now : ℤ) (i : τ) :
    (R.enter identity l now).touch.get i = if i = identity then some now else R.touch.get i := by
  rw [enter, JsMap.get_set]
  split_ifs with hi
  · rfl
  · exact JsMap.get_delete_of_ne _ hi

/-- Does a sweep drop the identity?
Kind: D -/
def Swept (b : Bounds) (R : RealmMaps τ) (now : ℤ) (identity : τ) : Prop :=
  b.ttlMs ≠ 0 ∧ ∃ ts, R.touch.get identity = some ts ∧ ts < now - b.ttlMs

instance : Decidable (Swept b R now identity) :=
  match h : R.touch.get identity with
  | none => isFalse fun ⟨_, _, hts, _⟩ => by rw [h] at hts; exact absurd hts (by simp)
  | some ts =>
      decidable_of_iff (b.ttlMs ≠ 0 ∧ ts < now - b.ttlMs)
        ⟨fun ⟨h₁, h₂⟩ => ⟨h₁, ts, h, h₂⟩, fun ⟨h₁, ts', hts', h₂⟩ => by
          rw [h, Option.some.injEq] at hts'
          exact ⟨h₁, hts' ▸ h₂⟩⟩

theorem isExpired_iff {cutoff : ℤ} :
    R.isExpired cutoff identity = true ↔ ∃ ts, R.touch.get identity = some ts ∧ ts < cutoff := by
  simp [isExpired, Option.any_eq_true]

theorem swept_iff (httl : b.ttlMs ≠ 0) :
    Swept b R now identity ↔ R.isExpired (now - b.ttlMs) identity = true := by
  rw [isExpired_iff, Swept, and_iff_right httl]

/-- The lists after a sweep.
Kind: L -/
theorem list_sweepExpired (b : Bounds) (R : RealmMaps τ) (now : ℤ) (identity : τ) :
    (R.sweepExpired b now).list identity = if Swept b R now identity then [] else R.list identity := by
  rw [sweepExpired_eq]
  by_cases httl : b.ttlMs = 0
  · rw [if_pos httl, if_neg fun h => h.1 httl]
  · rw [if_neg httl, list_without]
    simp only [swept_iff httl]

/-- A sweep makes no list longer.
Kind: L -/
theorem list_sweepExpired_sublist (b : Bounds) (R : RealmMaps τ) (now : ℤ) (identity : τ) :
    ((R.sweepExpired b now).list identity).Sublist (R.list identity) := by
  rw [list_sweepExpired]
  split_ifs
  · exact List.nil_sublist _
  · exact List.Sublist.refl _

/-- The touch times after a sweep.
Kind: L -/
theorem touch_sweepExpired (b : Bounds) (R : RealmMaps τ) (now : ℤ) (identity : τ) :
    (R.sweepExpired b now).touch.get identity =
      if Swept b R now identity then none else R.touch.get identity := by
  rw [sweepExpired_eq]
  by_cases httl : b.ttlMs = 0
  · rw [if_pos httl, if_neg fun h => h.1 httl]
  · rw [if_neg httl, touch_without]
    simp only [swept_iff httl]

/-- The loop stops within the cap, and at the identity that registers.
Kind: L -/
theorem evictIdentities_stop {maxIdentities : ℕ} {identity oldest : τ} {R : RealmMaps τ}
    (h : R.identities.size ≤ maxIdentities ∨ oldest = identity) (rest : List τ) :
    evictIdentities maxIdentities identity (oldest :: rest) R = (R, []) := by
  rw [evictIdentities, if_pos h]

/-- Otherwise it goes on without the identity it has come to.
Kind: L -/
theorem evictIdentities_next {maxIdentities : ℕ} {identity oldest : τ} {R : RealmMaps τ}
    (h : ¬ (R.identities.size ≤ maxIdentities ∨ oldest = identity)) (rest : List τ) :
    evictIdentities maxIdentities identity (oldest :: rest) R =
      ((evictIdentities maxIdentities identity rest (R.without fun j => decide (j = oldest))).1,
        (R.list oldest).map (fun e => (oldest, e)) ++
          (evictIdentities maxIdentities identity rest (R.without fun j => decide (j = oldest))).2) := by
  rw [evictIdentities, if_neg h, delete_eq_without]

/-- The loop over the least recently used identities makes some of them go, not the one that
registers, and deletes their endpoints from the store.
Kind: P -/
theorem evictIdentities_spec (maxIdentities : ℕ) (identity : τ) (keys : List τ) (R : RealmMaps τ) :
    ∃ gone : List τ, identity ∉ gone ∧
      (∀ i, (evictIdentities maxIdentities identity keys R).1.list i =
        if i ∈ gone then [] else R.list i) ∧
      (∀ i, (evictIdentities maxIdentities identity keys R).1.touch.get i =
        if i ∈ gone then none else R.touch.get i) ∧
      ∀ i e, (i, e) ∈ (evictIdentities maxIdentities identity keys R).2 ↔ i ∈ gone ∧ e ∈ R.list i := by
  induction keys generalizing R with
  | nil => exact ⟨[], by simp, by simp [evictIdentities], by simp [evictIdentities], by simp
      [evictIdentities]⟩
  | cons oldest rest ih =>
      by_cases hstop : R.identities.size ≤ maxIdentities ∨ oldest = identity
      · rw [evictIdentities_stop hstop]
        exact ⟨[], by simp, by simp, by simp, by simp⟩
      · obtain ⟨gone, hid, hlist, htouch, hout⟩ := ih (R.without fun j => decide (j = oldest))
        have hne : identity ≠ oldest := fun h => hstop (Or.inr h.symm)
        simp only [list_without, touch_without, decide_eq_true_eq] at hlist htouch hout
        rw [evictIdentities_next hstop]
        refine ⟨oldest :: gone, ?_, ?_, ?_, ?_⟩
        · simp [hne, hid]
        · intro i
          rw [hlist]
          by_cases hg : i ∈ gone <;> by_cases hi : i = oldest <;> simp [hg, hi]
        · intro i
          rw [htouch]
          by_cases hg : i ∈ gone <;> by_cases hi : i = oldest <;> simp [hg, hi]
        · intro i e
          simp only [List.mem_append, hout, List.mem_map, Prod.mk.injEq, List.mem_cons]
          by_cases hi : i = oldest
          · subst hi
            simp
          · simp [hi, Ne.symm hi]

/-- Without a cap on the identities none goes.
Kind: L -/
theorem register_of_unlimited {b : Bounds} (hmax : b.maxIdentities = 0) (R : RealmMaps τ) (identity : τ)
    (ep : Registration τ) (now : ℤ) :
    R.register b identity ep now = (R.entering b identity ep now,
      (registerInList b ((R.sweepExpired b now).list identity) ep now).2.2,
      (registerInList b ((R.sweepExpired b now).list identity) ep now).2.1.map
        fun e => (identity, e)) := by
  rw [register]
  exact if_pos hmax

/-- With a cap the loop goes through the identities of the touch map.
Kind: L -/
theorem register_of_limited {b : Bounds} (hmax : b.maxIdentities ≠ 0) (R : RealmMaps τ) (identity : τ)
    (ep : Registration τ) (now : ℤ) :
    R.register b identity ep now =
      ((evictIdentities b.maxIdentities identity (R.entering b identity ep now).touch.keys
          (R.entering b identity ep now)).1,
        (registerInList b ((R.sweepExpired b now).list identity) ep now).2.2,
        ((registerInList b ((R.sweepExpired b now).list identity) ep now).2.1.map
          fun e => (identity, e)) ++
          (evictIdentities b.maxIdentities identity (R.entering b identity ep now).touch.keys
            (R.entering b identity ep now)).2) := by
  rw [register]
  exact if_neg hmax

/-- What a registration makes of the maps of its realm: the list of its identity is entered, and some
other identities go.
Kind: P -/
theorem register_spec (b : Bounds) (R : RealmMaps τ) (identity : τ) (ep : Registration τ) (now : ℤ) :
    ∃ gone : List τ, identity ∉ gone ∧
      (∀ i, (R.register b identity ep now).1.list i =
        if i = identity then (registerInList b ((R.sweepExpired b now).list identity) ep now).1
        else if i ∈ gone then [] else (R.sweepExpired b now).list i) ∧
      (∀ i, (R.register b identity ep now).1.touch.get i =
        if i = identity then some now
        else if i ∈ gone then none else (R.sweepExpired b now).touch.get i) ∧
      (R.register b identity ep now).2.1 =
        (registerInList b ((R.sweepExpired b now).list identity) ep now).2.2 ∧
      ∀ i e, (i, e) ∈ (R.register b identity ep now).2.2 ↔
        (i = identity ∧
          e ∈ (registerInList b ((R.sweepExpired b now).list identity) ep now).2.1) ∨
        (i ∈ gone ∧ e ∈ (R.sweepExpired b now).list i) := by
  have hlist : ∀ i, (R.entering b identity ep now).list i =
      if i = identity then (registerInList b ((R.sweepExpired b now).list identity) ep now).1
      else (R.sweepExpired b now).list i := fun i => list_enter ..
  have htouch : ∀ i, (R.entering b identity ep now).touch.get i =
      if i = identity then some now else (R.sweepExpired b now).touch.get i := fun i => touch_enter ..
  by_cases hmax : b.maxIdentities = 0
  · rw [register_of_unlimited hmax]
    refine ⟨[], List.not_mem_nil, fun i => ?_, fun i => ?_, rfl, fun i e => ?_⟩
    · simp [hlist]
    · simp [htouch]
    · simp [List.mem_map, eq_comm, and_comm]
  · obtain ⟨gone, hid, hlist', htouch', hout⟩ := evictIdentities_spec b.maxIdentities identity
      (R.entering b identity ep now).touch.keys (R.entering b identity ep now)
    rw [register_of_limited hmax]
    refine ⟨gone, hid, fun i => ?_, fun i => ?_, rfl, fun i e => ?_⟩
    · rw [hlist', hlist]
      by_cases hi : i = identity
      · simp [hi, hid]
      · simp [hi]
    · rw [htouch', htouch]
      by_cases hi : i = identity
      · simp [hi, hid]
      · simp [hi]
    · rw [List.mem_append, hout, hlist, List.mem_map]
      refine or_congr ?_ (and_congr_right ?_)
      · simp [eq_comm, and_comm]
      · intro hi
        rw [if_neg fun he : i = identity => hid (he ▸ hi)]

/-- The lists after an endpoint has been taken out.
Kind: L -/
theorem list_unregister (R : RealmMaps τ) (identity transport token i : τ) :
    (R.unregister identity transport token).list i =
      if i = identity then (R.list i).filter fun e => !isAt transport token e else R.list i := by
  unfold unregister
  rcases hget : R.identities.get identity with _ | l
  · dsimp only
    split_ifs with hi
    · simp [list, hi, hget]
    · rfl
  · dsimp only
    by_cases hi : i = identity
    · subst hi
      rw [if_pos rfl]
      have hl : R.list i = l := by simp [list, hget]
      split_ifs with hnil
      · rw [list, JsMap.get_delete_self, hl, List.length_eq_zero_iff.mp hnil]
        rfl
      · rw [list, JsMap.get_set_self, hl]
        rfl
    · rw [if_neg hi]
      split_ifs
      · simp [list, JsMap.get_delete_of_ne _ hi]
      · simp [list, JsMap.get_set_of_ne _ hi]

/-- The touch time of an identity that still has an endpoint is as before.
Kind: L -/
theorem touch_unregister (R : RealmMaps τ) (identity transport token : τ) {i : τ}
    (h : (R.unregister identity transport token).list i ≠ []) :
    (R.unregister identity transport token).touch.get i = R.touch.get i := by
  rw [list_unregister] at h
  unfold unregister
  rcases hget : R.identities.get identity with _ | l
  · rfl
  · dsimp only
    split_ifs with hnil
    · by_cases hi : i = identity
      · subst hi
        rw [if_pos rfl, list, hget, Option.getD_some] at h
        exact absurd (List.length_eq_zero_iff.mp hnil) h
      · exact JsMap.get_delete_of_ne _ hi
    · rfl

/-- The lists after an endpoint has been marked.
Kind: L -/
theorem list_markOk (R : RealmMaps τ) (identity transport token i : τ) (now : ℤ) :
    (R.markOk identity transport token now).list i =
      if i = identity then
        modifyFirst transport token (fun e => { e with last_ok := some now }) (R.list i)
      else R.list i := by
  unfold markOk
  rcases hget : R.identities.get identity with _ | l
  · dsimp only
    split_ifs with hi
    · simp [list, hi, hget, modifyFirst]
    · rfl
  · by_cases hi : i = identity
    · subst hi
      simp [list, hget]
    · simp [list, JsMap.get_set_of_ne _ hi, hi]

end Realm

end RealmMaps

end TyoMq.Push
