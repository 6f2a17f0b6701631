import Mathlib.Data.List.Induction
import TyoMq.Auth.Store

/-!
# The auth store: what a load reads back

* **Round trip** (`load_sync_iff`): after any history in which a load cut no key, a load reads back what was
  synced last exactly when this has no entry named `__proto__` and no realm with a U+0000 in its name, and
  keeps those earlier entries that are named like something every object inherits.
* The store's belief is never wrong (`Believed`): what it does not know of are rows with such names.
* A realm that was loaded under a name that had been cut stays in the file for good
  (`not_roundTrip`).
-/

namespace TyoMq.Auth

open TyoMq.Lib Sqlite

variable {J : Type*} {json : Json J}

namespace AuthStore

/-! ### Statements -/

/-- A table after the statements of a transaction: only its own count.
Kind: L -/
theorem exec_apply (db : Section → JsMap JsString JsString) (l : List (Section × Statement))
    (s : Section) :
    exec db l s =
      ((l.filter fun e => e.1 = s).map Prod.snd).foldl Statement.run (db s) := by
  induction l generalizing db with
  | nil => rfl
  | cons e l ih =>
      have hcons : exec db (e :: l) = exec (fun s => if s = e.1 then e.2.run (db s) else db s) l := rfl
      rw [hcons, ih]
      by_cases hs : e.1 = s
      · subst hs
        simp
      · have hs' : s ≠ e.1 := Ne.symm hs
        simp [hs, hs']

/-- The statements of a sync for one table.
Kind: L -/
theorem statements_filter (store : AuthStore) (auth : AuthObject J) (s : Section) :
    ((store.statements json auth).filter fun e => e.1 = s).map Prod.snd =
      diff (store.cache json s) (_sections json auth s) := by
  have hown : ∀ s' : Section, ∀ l : List Statement,
      (((l.map fun statement => (s', statement)).filter fun e => e.1 = s).map Prod.snd) =
        if s' = s then l else [] := by
    intro s' l
    induction l with
    | nil => exact (ite_self _).symm
    | cons e l ih =>
        by_cases hs : s' = s <;> simp_all
  simp only [statements, sections, List.flatMap_cons, List.flatMap_nil, List.append_nil,
    List.filter_append, List.map_append, hown]
  cases s <;> simp

/-- Are the texts of the object stored as they are?
Kind: D -/
def Tidy (o : JsObject JsString) : Prop :=
  ∀ k t, o.own.get k = some t → WellFormed k ∧ WellFormed t

theorem run_upsert (rows : JsMap JsString JsString) {key value : JsString} (hkey : WellFormed key)
    (hvalue : WellFormed value) : Statement.run rows (.upsert key value) = rows.set key value :=
  congrArg₂ rows.set hkey hvalue

theorem run_delete (rows : JsMap JsString JsString) {key : JsString} (hkey : WellFormed key) :
    Statement.run rows (.delete key) = rows.delete key :=
  congrArg rows.delete hkey

/-- A table after the upserts of distinct keys.
Kind: L -/
theorem get_upserts {rows : JsMap JsString JsString} {l : List (JsString × JsString)}
    (hl : (l.map Prod.fst).Nodup) (hwell : ∀ e ∈ l, WellFormed e.1 ∧ WellFormed e.2)
    (k t : JsString) :
    ((l.map fun e => Statement.upsert e.1 e.2).foldl Statement.run rows).get k = some t ↔
      (k, t) ∈ l ∨ k ∉ l.map Prod.fst ∧ rows.get k = some t := by
  induction l generalizing rows with
  | nil => simp
  | cons e l ih =>
      obtain ⟨k', t'⟩ := e
      obtain ⟨hk', hl⟩ := List.nodup_cons.mp hl
      obtain ⟨hkey, hvalue⟩ := hwell _ List.mem_cons_self
      rw [List.map_cons, List.foldl_cons, ih hl fun e he => hwell e (List.mem_cons_of_mem _ he),
        run_upsert _ hkey hvalue, JsMap.get_set]
      by_cases hk : k = k'
      · subst hk
        have hnot : ∀ w, (k, w) ∉ l := by
          intro w hw
          exact hk' (List.mem_map.mpr ⟨(k, w), hw, rfl⟩)
        simp [hnot, hk', eq_comm]
      · simp [hk]

/-- A table after some deletes.
Kind: L -/
theorem get_deletes {rows : JsMap JsString JsString} {keys : List JsString}
    (hwell : ∀ k ∈ keys, WellFormed k) (k : JsString) :
    ((keys.map Statement.delete).foldl Statement.run rows).get k =
      if k ∈ keys then none else rows.get k := by
  induction keys generalizing rows with
  | nil => rfl
  | cons k' keys ih =>
      rw [List.map_cons, List.foldl_cons, ih fun k hk => hwell k (List.mem_cons_of_mem _ hk),
        run_delete _ (hwell k' List.mem_cons_self)]
      by_cases hk : k = k'
      · simp [hk]
      · rw [JsMap.get_delete_of_ne _ hk]
        simp [hk]

/-- What a store believes of a table is there, and what it does not know of is named like something every
object inherits.
Kind: D -/
structure Believed (rows : JsMap JsString JsString) (current : JsObject JsString) : Prop where
  /-- What it believes is there. -/
  known : ∀ k t, current.own.get k = some t → rows.get k = some t
  /-- It is stored as it is. -/
  tidy : Tidy current
  /-- It knows of the rest. -/
  complete : ∀ k ∉ objectPrototype, rows.get k = current.own.get k

/-- A table after the upserts of a sync holds what is wanted, and what it held.
Kind: L -/
theorem get_wanted {rows : JsMap JsString JsString} {current wanted : JsObject JsString}
    (h : Believed rows current) (hwanted : Tidy wanted) (k : JsString) :
    (((wanted.own.entries.filter fun e => current.lookup e.1 ≠ .own e.2).map
        fun e => Statement.upsert e.1 e.2).foldl Statement.run rows).get k =
      (wanted.own.get k).or (rows.get k) := by
  have hmem : ∀ t, (k, t) ∈ (wanted.own.entries.filter fun e => current.lookup e.1 ≠ .own e.2) ↔
      wanted.own.get k = some t ∧ current.own.get k ≠ some t := by
    intro t
    rw [List.mem_filter, JsMap.mem_entries_iff, decide_eq_true_eq, ne_eq, JsObject.lookup_eq_own_iff]
  have hkeys : k ∈ (wanted.own.entries.filter fun e => current.lookup e.1 ≠ .own e.2).map Prod.fst ↔
      ∃ t, wanted.own.get k = some t ∧ current.own.get k ≠ some t := by
    simp only [List.mem_map, Prod.exists, ← hmem]
    constructor
    · rintro ⟨k', t, h, rfl⟩
      exact ⟨t, h⟩
    · rintro ⟨t, h⟩
      exact ⟨k, t, h, rfl⟩
  have hwell : ∀ e ∈ wanted.own.entries.filter fun e => current.lookup e.1 ≠ .own e.2,
      WellFormed e.1 ∧ WellFormed e.2 := fun e he =>
    hwanted e.1 e.2 (JsMap.mem_entries_iff.mp (List.mem_of_mem_filter he))
  apply Option.ext
  intro t
  rw [get_upserts (wanted.own.nodup_filter _) hwell, hmem, hkeys]
  rcases hget : wanted.own.get k with _ | t'
  · simp
  · by_cases hcurrent : current.own.get k = some t'
    · simp [hcurrent, h.known k t' hcurrent]
    · simp only [Option.some.injEq, Option.some_or]
      constructor
      · rintro (⟨rfl, -⟩ | ⟨hnone, -⟩)
        · rfl
        · exact absurd ⟨t', rfl, hcurrent⟩ hnone
      · rintro rfl
        exact Or.inl ⟨rfl, hcurrent⟩

/-- A table after it was brought in line.
Kind: P -/
theorem get_diff {rows : JsMap JsString JsString} {current wanted : JsObject JsString}
    (h : Believed rows current) (htidy : Tidy wanted) (k : JsString) :
    ((diff current wanted).foldl Statement.run rows).get k =
      (wanted.own.get k).or (if k ∈ objectPrototype then rows.get k else none) := by
  have hdelete : k ∈ current.own.keys.filter (fun key => !wanted.has key) ↔
      (∃ t, current.own.get k = some t) ∧ wanted.own.get k = none ∧ k ∉ objectPrototype := by
    rw [List.mem_filter, JsMap.mem_keys_iff, Bool.not_eq_true', ← Bool.not_eq_true,
      JsObject.has_iff, not_or, Option.not_isSome_iff_eq_none]
  have hwell : ∀ k ∈ current.own.keys.filter (fun key => !wanted.has key), WellFormed k := by
    intro k hk
    obtain ⟨t, hget⟩ := JsMap.mem_keys_iff.mp (List.mem_of_mem_filter hk)
    exact (h.tidy k t hget).1
  rw [diff, List.foldl_append, get_deletes hwell, get_wanted h htidy]
  rcases hwanted : wanted.own.get k with _ | t
  · by_cases hproto : k ∈ objectPrototype
    · simp [hdelete, hproto]
    · rcases hcurrent : current.own.get k with _ | t
      · simp [hproto, h.complete k hproto, hcurrent]
      · simp [hdelete, hproto, hcurrent, hwanted]
  · simp [hdelete, hwanted]

/-- What has been synced is believed, and rightly so.
Kind: L -/
theorem Believed.diff {rows : JsMap JsString JsString} {current wanted : JsObject JsString}
    (h : Believed rows current) (htidy : Tidy wanted) :
    Believed ((diff current wanted).foldl Statement.run rows) wanted where
  known k t hwanted := by rw [get_diff h htidy, hwanted, Option.some_or]
  tidy := htidy
  complete k hproto := by rw [get_diff h htidy, if_neg hproto, Option.or_none]

/-! ### Rows -/

/-- The names under which an auth object has something for a table.
Kind: D -/
def keys (json : Json J) (auth : AuthObject J) (s : Section) : List JsString :=
  (rows json auth s).map Prod.fst

/-- Are the names of an auth object well formed?
Kind: D -/
def WellNamed (json : Json J) (auth : AuthObject J) : Prop :=
  ∀ s ∈ sections, ∀ k ∈ keys json auth s, WellFormed k

instance (json : Json J) (auth : AuthObject J) : Decidable (WellNamed json auth) :=
  inferInstanceAs (Decidable (∀ _ ∈ _, _))

theorem mem_sections_all (s : Section) : s ∈ sections := by
  cases s <;> decide

/-- What is stored for an auth object: the last entry of each name but one.
Kind: L -/
theorem get_sections {auth : AuthObject J} {s : Section} {k t : JsString} :
    (_sections json auth s).own.get k = some t ↔
      k ≠ protoName ∧ ∃ j, (k, j) ∈ lastWins (rows json auth s) ∧ json.stableStringify j = t := by
  rw [_sections, JsObject.get_own_assignAll_iff, lastWins_map]
  simp [Prod.ext_iff]

/-- Is anything stored under the name?
Kind: L -/
theorem isSome_sections {auth : AuthObject J} {s : Section} {k : JsString} :
    ((_sections json auth s).own.get k).isSome = true ↔ k ≠ protoName ∧ k ∈ keys json auth s := by
  rw [Option.isSome_iff_exists, keys, ← mem_keys_lastWins]
  simp only [get_sections, exists_and_left, List.mem_map, Prod.exists]
  refine and_congr_right fun _ => ⟨?_, ?_⟩
  · rintro ⟨_, j, hj, -⟩
    exact ⟨k, j, hj, rfl⟩
  · rintro ⟨_, j, hj, rfl⟩
    exact ⟨_, j, hj, rfl⟩

theorem tidy_sections {auth : AuthObject J} (hnamed : WellNamed json auth) (s : Section) :
    Tidy (_sections json auth s) := by
  intro k t hget
  obtain ⟨-, j, hmem, rfl⟩ := get_sections.mp hget
  exact ⟨hnamed s (mem_sections_all s) k (mem_keys_lastWins.mp (List.mem_map.mpr ⟨_, hmem, rfl⟩)),
    (json.whole_stableStringify j).1⟩

/-- Every entry of a token list is under its own key.
Kind: L -/
theorem keyed_of_mem_rows {auth : AuthObject J} {s : Section} (hs : s ≠ .realms) {k : JsString} {j : J}
    (h : (k, j) ∈ rows json auth s) : keyed json (some j) = some (k, j) := by
  have hkeyed : ∀ entry, keyed json entry = some (k, j) → entry = some j := by
    intro entry hentry
    rcases entry with _ | entry
    · exact absurd hentry (by simp [keyed])
    · rw [keyed] at hentry
      split at hentry
      · exact congrArg (fun e => some e.2) (Option.some.inj hentry)
      · obtain ⟨_, -, heq⟩ := Option.map_eq_some_iff.mp hentry
        exact congrArg (fun e => some e.2) heq
  cases s with
  | realms => exact absurd rfl hs
  | tokens =>
      obtain ⟨entry, -, hentry⟩ := List.mem_filterMap.mp h
      rw [← hkeyed entry hentry, hentry]
  | management_tokens =>
      obtain ⟨entry, -, hentry⟩ := List.mem_filterMap.mp h
      rw [← hkeyed entry hentry, hentry]

/-- The rows of a file that stores have written: texts of objects, those of tokens under their own keys.
Kind: D -/
def Legible (json : Json J) (db : Section → JsMap JsString JsString) : Prop :=
  ∀ s k t, (db s).get k = some t → k ≠ protoName ∧ WellFormed k ∧ ∃ j, json.stableStringify j = t ∧
    (s ≠ .realms → keyed json (some j) = some (k, j))

/-- The rows of a table that can be read, with the keys that they have.
Kind: D -/
def held (json : Json J) (db : Section → JsMap JsString JsString) (s : Section) :
    List (JsString × J) :=
  (db s).entries.filterMap fun row =>
    (json.parse (Texts.read row.2)).map fun j => (row.1, j)

/-- The keys that are read are those of the rows, cut.
Kind: L -/
theorem readable_eq (json : Json J) (db : Section → JsMap JsString JsString) (s : Section) :
    readable json db s = (held json db s).map fun e => (cut e.1, e.2) := by
  rw [readable, held, List.map_filterMap]
  simp only [Option.map_map]
  rfl

theorem map_snd_readable (json : Json J) (db : Section → JsMap JsString JsString) (s : Section) :
    (readable json db s).map Prod.snd = (held json db s).map Prod.snd := by
  rw [readable_eq, List.map_map]
  rfl

section Legible

variable {db : Section → JsMap JsString JsString} {s : Section}

theorem cut_stableStringify (json : Json J) (j : J) :
    Texts.read (json.stableStringify j) = json.stableStringify j := (json.whole_stableStringify j).2

/-- All rows are read.
Kind: L -/
theorem mem_held (h : Legible json db) {k : JsString} {j : J} :
    (k, j) ∈ held json db s ↔ (db s).get k = some (json.stableStringify j) := by
  rw [held, List.mem_filterMap, ← JsMap.mem_entries_iff]
  constructor
  · rintro ⟨⟨k', t⟩, hrow, hparse⟩
    obtain ⟨j', hj', heq⟩ := Option.map_eq_some_iff.mp hparse
    obtain ⟨-, -, j'', rfl, -⟩ := h s k' t (JsMap.mem_entries_iff.mp hrow)
    rw [cut_stableStringify, json.parse_stableStringify] at hj'
    obtain ⟨rfl, rfl⟩ := Prod.mk.inj heq
    rwa [Option.some.inj hj'] at hrow
  · intro hrow
    exact ⟨_, hrow, by rw [cut_stableStringify, json.parse_stableStringify]; rfl⟩

/-- No key is held twice.
Kind: L -/
theorem nodup_held (json : Json J) (db : Section → JsMap JsString JsString) (s : Section) :
    ((held json db s).map Prod.fst).Nodup := by
  have hsub : ∀ l : List (JsString × JsString),
      ((l.filterMap fun row => (json.parse (Texts.read row.2)).map fun j => (row.1, j)).map
        Prod.fst).Sublist (l.map Prod.fst) := by
    intro l
    induction l with
    | nil => exact List.Sublist.slnil
    | cons row l ih =>
        rw [List.filterMap_cons]
        rcases json.parse (Texts.read row.2) with _ | j
        · exact ih.cons _
        · exact ih.cons_cons _
  exact (db s).nodup.sublist (hsub _)

/-- Where no key has a U+0000, none is cut.
Kind: L -/
theorem readable_eq_held (h : Legible json db) (huncut : ∀ k ∈ (db s).keys, 0 ∉ k) :
    readable json db s = held json db s := by
  rw [readable_eq]
  refine (List.map_congr_left fun e he => ?_).trans (List.map_id _)
  have hkey : e.1 ∈ (db s).keys := JsMap.mem_keys_iff.mpr ⟨_, (mem_held h).mp he⟩
  exact congrArg (fun k => (k, e.2)) (cut_eq_self_iff.mpr (huncut e.1 hkey))

/-- A load that cuts no key primes the cache with what is there.
Kind: L -/
theorem get_primed (h : Legible json db) (huncut : ∀ k ∈ (db s).keys, 0 ∉ k) (k : JsString) :
    (primed json db s).own.get k = (db s).get k := by
  apply Option.ext
  intro t
  rw [primed, readable_eq_held h huncut, JsObject.get_own_assignAll_iff, lastWins_map,
    lastWins_eq_self (nodup_held json db s)]
  simp only [List.mem_map, Prod.mk.injEq, Prod.exists, JsObject.get_own_empty, reduceCtorEq, and_false,
    or_false]
  constructor
  · rintro ⟨-, _, j, hmem, rfl, rfl⟩
    exact (mem_held h).mp hmem
  · intro hget
    obtain ⟨hk, -, j, rfl, -⟩ := h s k t hget
    exact ⟨hk, k, j, (mem_held h).mpr hget, rfl, rfl⟩

end Legible

/-! ### The invariant -/

/-- What holds of a store after some syncs.
Kind: D -/
structure Sound (json : Json J) (earlier : List (AuthObject J)) (store : AuthStore) : Prop where
  /-- The file can be read. -/
  legible : Legible json store.db
  /-- The rows that are named like something every object inherits stay for good. -/
  stale : ∀ s, ∀ k ∈ objectPrototype, k ≠ protoName →
    (((store.db s).get k).isSome = true ↔ ∃ auth ∈ earlier, k ∈ keys json auth s)
  /-- What the store believes is so. -/
  believed : ∀ c ∈ store._cache, ∀ s, Believed (store.db s) (c s)

namespace Sound

variable {earlier : List (AuthObject J)} {store : AuthStore}

theorem init : Sound json [] AuthStore.init := by
  refine ⟨?_, ?_, ?_⟩ <;> simp [AuthStore.init, Legible]

/-- So is what it loads, when no key is cut.
Kind: L -/
theorem believed_primed (h : Sound json earlier store) (huncut : Uncut store.db) (s : Section) :
    Believed (store.db s) (primed json store.db s) := by
  have hget := get_primed h.legible (huncut s (mem_sections_all s))
  refine ⟨fun k t hk => ?_, fun k t hk => ?_, fun k _ => (hget k).symm⟩
  · rwa [hget] at hk
  · rw [hget] at hk
    obtain ⟨-, hwell, j, rfl, -⟩ := h.legible s k t hk
    exact ⟨hwell, (json.whole_stableStringify j).1⟩

theorem believed_cache (h : Sound json earlier store) (hloads : store._cache = none → Uncut store.db)
    (s : Section) : Believed (store.db s) (store.cache json s) := by
  rw [cache]
  rcases hcache : store._cache with _ | c
  · exact h.believed_primed (hloads hcache) s
  · exact h.believed c hcache s

end Sound

/-- A table after a sync.
Kind: L -/
theorem db_sync (store : AuthStore) (auth : AuthObject J) (s : Section) :
    (store.sync json auth).1.db s =
      (diff (store.cache json s) (_sections json auth s)).foldl Statement.run (store.db s) := by
  rw [← statements_filter, ← exec_apply, sync]
  split_ifs with hnone
  · rw [List.eq_nil_of_length_eq_zero hnone]
    rfl
  · rfl

/-- What a row is after a sync.
Kind: P -/
theorem Sound.get_sync {earlier : List (AuthObject J)} {store : AuthStore} {auth : AuthObject J}
    (h : Sound json earlier store) (hloads : store._cache = none → Uncut store.db)
    (hnamed : WellNamed json auth) (s : Section) (k : JsString) :
    ((store.sync json auth).1.db s).get k =
      ((_sections json auth s).own.get k).or
        (if k ∈ objectPrototype then (store.db s).get k else none) := by
  rw [db_sync, get_diff (h.believed_cache hloads s) (tidy_sections hnamed s)]

/-- A sync keeps all this.
Kind: P -/
theorem Sound.sync {earlier : List (AuthObject J)} {store : AuthStore} {auth : AuthObject J}
    (h : Sound json earlier store) (hloads : store._cache = none → Uncut store.db)
    (hnamed : WellNamed json auth) : Sound json (earlier ++ [auth]) (store.sync json auth).1 where
  legible s k t hget := by
    rw [h.get_sync hloads hnamed, Option.or_eq_some_iff] at hget
    rcases hget with hwanted | ⟨-, hold⟩
    · obtain ⟨hwell, -⟩ := tidy_sections hnamed s k t hwanted
      obtain ⟨hk, j, hmem, rfl⟩ := get_sections.mp hwanted
      refine ⟨hk, hwell, j, rfl, fun hs => keyed_of_mem_rows hs (mem_of_mem_lastWins hmem)⟩
    · split_ifs at hold
      exact h.legible s k t hold
  stale s k hproto hk := by
    rw [h.get_sync hloads hnamed, if_pos hproto, Option.isSome_or, Bool.or_eq_true, isSome_sections,
      h.stale s k hproto hk]
    simp [hk, or_comm]
  believed c hc s := by
    have hdb : (store.sync json auth).1.db s = _ := db_sync store auth s
    have hbelieved := h.believed_cache hloads s
    rw [AuthStore.sync] at hc hdb ⊢
    split_ifs at hc hdb ⊢ with hnone
    · obtain rfl := Option.some.inj hc
      exact hbelieved
    · obtain rfl := Option.some.inj hc
      rw [hdb]
      exact hbelieved.diff (tidy_sections hnamed s)

/-! ### What is read back -/

/-- An auth object has no entry named `__proto__`, and has those earlier entries that are named like
something every object inherits.
Kind: D -/
structure KeepsEarlier (json : Json J) (earlier : List (AuthObject J)) (auth : AuthObject J) (s : Section) :
    Prop where
  /-- Nothing is named `__proto__`. -/
  named : protoName ∉ keys json auth s
  /-- Nothing else with an inherited name is gone. -/
  kept : ∀ k ∈ objectPrototype, k ≠ protoName → (∃ auth' ∈ earlier, k ∈ keys json auth' s) →
    k ∈ keys json auth s

theorem zero_not_mem_objectPrototype : ∀ k ∈ objectPrototype, 0 ∉ k := by
  decide +kernel

section Synced

variable {earlier : List (AuthObject J)} {store : AuthStore} {auth : AuthObject J} {s : Section}
  (hloads : store._cache = none → Uncut store.db) (hnamed : WellNamed json auth)

include hloads hnamed

/-- Where what is held is what was synced, the condition holds.
Kind: L -/
theorem Sound.keeps_of_held (h : Sound json earlier store)
    (hall : ∀ k j, (k, j) ∈ held json (store.sync json auth).1.db s ↔
      (k, j) ∈ lastWins (rows json auth s)) : KeepsEarlier json earlier auth s := by
  have hafter := h.sync hloads hnamed
  refine ⟨fun hproto => ?_, fun k hk hne hearlier => ?_⟩
  · obtain ⟨⟨_, j⟩, hmem, rfl⟩ := List.mem_map.mp (mem_keys_lastWins.mpr hproto)
    have hread := (mem_held hafter.legible).mp ((hall _ j).mpr hmem)
    exact (hafter.legible s _ _ hread).1 rfl
  · have hsome := (hafter.stale s k hk hne).mpr
      (hearlier.imp fun _ h => ⟨List.mem_append_left _ h.1, h.2⟩)
    obtain ⟨t, hget⟩ := Option.isSome_iff_exists.mp hsome
    obtain ⟨-, -, j, rfl, -⟩ := hafter.legible s k t hget
    have hmem := (hall k j).mp ((mem_held hafter.legible).mpr hget)
    exact mem_keys_lastWins.mp (List.mem_map.mpr ⟨_, hmem, rfl⟩)

/-- Under the condition what is held is what was synced.
Kind: L -/
theorem Sound.held_of_keeps (h : Sound json earlier store) (hkeeps : KeepsEarlier json earlier auth s)
    (k : JsString) (j : J) :
    (k, j) ∈ held json (store.sync json auth).1.db s ↔ (k, j) ∈ lastWins (rows json auth s) := by
  rw [mem_held (h.sync hloads hnamed).legible, h.get_sync hloads hnamed]
  rcases hwanted : (_sections json auth s).own.get k with _ | t
  · -- the name is not synced, and so neither is there
    have hkey : k ∉ keys json auth s := by
      intro hkey
      have hk : k ≠ protoName := fun heq => hkeeps.named (heq ▸ hkey)
      have := isSome_sections.mpr ⟨hk, hkey⟩
      rw [hwanted] at this
      exact absurd this (by simp)
    have hnot : (k, j) ∉ lastWins (rows json auth s) := by
      intro hmem
      exact hkey (mem_keys_lastWins.mp (List.mem_map.mpr ⟨_, hmem, rfl⟩))
    refine iff_of_false ?_ hnot
    rw [Option.none_or]
    split_ifs with hproto
    · intro hget
      have hk : k ≠ protoName := (h.legible s k _ hget).1
      have hearlier := (h.stale s k hproto hk).mp (by rw [hget]; rfl)
      exact hkey (hkeeps.kept k hproto hk hearlier)
    · simp
  · obtain ⟨hk, j', hmem, rfl⟩ := get_sections.mp hwanted
    rw [Option.some_or, Option.some.injEq]
    constructor
    · intro heq
      rwa [← Json.stableStringify_inj heq]
    · intro hmem'
      rw [← Option.some.injEq, ← hwanted]
      exact get_sections.mpr ⟨hk, j, hmem', rfl⟩

/-- **A table after a sync** holds what was synced exactly under the condition.
Kind: P -/
theorem Sound.held_iff (h : Sound json earlier store) (s : Section) :
    (∀ k j, (k, j) ∈ held json (store.sync json auth).1.db s ↔
      (k, j) ∈ lastWins (rows json auth s)) ↔ KeepsEarlier json earlier auth s :=
  ⟨h.keeps_of_held hloads hnamed, h.held_of_keeps hloads hnamed⟩

/-- The names of the rows after a sync are those that were synced, or are inherited by every object.
Kind: L -/
theorem Sound.key_sync (h : Sound json earlier store) {k : JsString}
    (hk : k ∈ ((store.sync json auth).1.db s).keys) : k ∈ keys json auth s ∨ k ∈ objectPrototype := by
  obtain ⟨t, hget⟩ := JsMap.mem_keys_iff.mp hk
  rw [h.get_sync hloads hnamed, Option.or_eq_some_iff] at hget
  rcases hget with hwanted | ⟨-, hold⟩
  · exact Or.inl (isSome_sections.mp (Option.isSome_iff_exists.mpr ⟨t, hwanted⟩)).2
  · split_ifs at hold with hproto
    exact Or.inr hproto

end Synced

/-- The entries that are read of a token list are the right ones when their keys are right.
Kind: L -/
theorem perm_iff {db : Section → JsMap JsString JsString} (h : Legible json db) (auth : AuthObject J)
    {s : Section} (hs : s ≠ .realms) :
    ((readable json db s).map Prod.snd).Perm ((lastWins (rows json auth s)).map Prod.snd) ↔
      ∀ k j, (k, j) ∈ held json db s ↔ (k, j) ∈ lastWins (rows json auth s) := by
  have hread : ∀ {k j}, (k, j) ∈ held json db s → keyed json (some j) = some (k, j) := by
    intro k j hmem
    obtain ⟨-, -, j', heq, hkey⟩ := h s k _ ((mem_held h).mp hmem)
    exact Json.stableStringify_inj heq ▸ hkey hs
  have hlast : ∀ {k j}, (k, j) ∈ lastWins (rows json auth s) →
      keyed json (some j) = some (k, j) := fun hmem => keyed_of_mem_rows hs (mem_of_mem_lastWins hmem)
  rw [map_snd_readable]
  constructor
  · intro hperm k j
    constructor
    · intro hmem
      obtain ⟨⟨k', _⟩, hmem', rfl⟩ := List.mem_map.mp (hperm.subset (List.mem_map.mpr ⟨_, hmem, rfl⟩))
      have heq := (hread hmem).symm.trans (hlast hmem')
      rwa [(Prod.mk.inj (Option.some.inj heq)).1]
    · intro hmem
      obtain ⟨⟨k', _⟩, hmem', rfl⟩ :=
        List.mem_map.mp (hperm.symm.subset (List.mem_map.mpr ⟨_, hmem, rfl⟩))
      have heq := (hlast hmem).symm.trans (hread hmem')
      rwa [(Prod.mk.inj (Option.some.inj heq)).1]
  · intro hall
    have hperm : (held json db s).Perm (lastWins (rows json auth s)) := by
      rw [List.perm_ext_iff_of_nodup (nodup_held json db s).of_map nodup_lastWins.of_map]
      exact fun e => hall e.1 e.2
    exact hperm.map Prod.snd

/-- Where no realm is cut, the realms that are read are the right ones when the rows are.
Kind: L -/
theorem realms_iff {db : Section → JsMap JsString JsString} (h : Legible json db)
    (huncut : ∀ k ∈ (db .realms).keys, 0 ∉ k) {auth : AuthObject J} :
    (∀ name, (JsObject.empty.assignAll (readable json db .realms)).own.get name =
      (auth.realms.getD JsMap.empty).get name) ↔
      ∀ k j, (k, j) ∈ held json db .realms ↔ (k, j) ∈ lastWins (rows json auth .realms) := by
  have hread : ∀ k j, (JsObject.empty.assignAll (readable json db .realms)).own.get k = some j ↔
      (k, j) ∈ held json db .realms := by
    intro k j
    rw [readable_eq_held h huncut, JsObject.get_own_assignAll_iff,
      lastWins_eq_self (nodup_held json db .realms)]
    simp only [JsObject.get_own_empty, reduceCtorEq, and_false, or_false, and_iff_right_iff_imp]
    exact fun hmem => (h _ _ _ ((mem_held h).mp hmem)).1
  have hrows : lastWins (rows json auth .realms) = (auth.realms.getD JsMap.empty).entries :=
    lastWins_eq_self (JsMap.nodup _)
  simp only [hrows, JsMap.mem_entries_iff, ← hread]
  exact forall_congr' fun k => Option.ext_iff

/-- A realm that is read has no U+0000 in its name.
Kind: L -/
theorem uncut_of_read {db : Section → JsMap JsString JsString} {k : JsString} {j : J}
    (h : (JsObject.empty.assignAll (readable json db .realms)).own.get k = some j) : 0 ∉ k := by
  rcases JsObject.get_own_assignAll h with hnone | hmem
  · exact absurd hnone (by simp)
  · rw [readable_eq] at hmem
    obtain ⟨e, -, heq⟩ := List.mem_map.mp hmem
    obtain rfl : cut e.1 = k := congrArg Prod.fst heq
    exact zero_not_mem_cut e.1

/-- What is read back is what was synced.
Kind: D -/
structure RoundTrip (json : Json J) (auth : AuthObject J) (loaded : Loaded J) : Prop where
  /-- The realms are. -/
  realms : ∀ name, loaded.realms.own.get name = (auth.realms.getD JsMap.empty).get name
  /-- The tokens are, in some order, the last one of each key. -/
  tokens : loaded.tokens.Perm ((lastWins (rows json auth .tokens)).map Prod.snd)
  /-- So are the management tokens. -/
  management_tokens :
    loaded.management_tokens.Perm ((lastWins (rows json auth .management_tokens)).map Prod.snd)

/-- A load reads what is in the file, whatever was in the cache.
Kind: L -/
theorem load_open (json : Json J) (store : AuthStore) : (store.open.load json).2 =
    ⟨JsObject.empty.assignAll (readable json store.db .realms),
      (readable json store.db .tokens).map Prod.snd,
      (readable json store.db .management_tokens).map Prod.snd⟩ := rfl

/-- **A load after a sync** reads back what was synced exactly under the condition, and when no realm
that was synced has a U+0000 in its name.
Kind: P -/
theorem Sound.roundTrip_iff {earlier : List (AuthObject J)} {store : AuthStore} {auth : AuthObject J}
    (h : Sound json earlier store) (hloads : store._cache = none → Uncut store.db)
    (hnamed : WellNamed json auth) :
    RoundTrip json auth ((store.sync json auth).1.open.load json).2 ↔
      (∀ s, KeepsEarlier json earlier auth s) ∧ ∀ name ∈ keys json auth .realms, 0 ∉ name := by
  have hlegible := (h.sync hloads hnamed).legible
  have hheld := h.held_iff hloads hnamed
  rw [load_open]
  -- rows that are not synced have plain names
  have huncut : (∀ name ∈ keys json auth .realms, 0 ∉ name) →
      ∀ k ∈ ((store.sync json auth).1.db .realms).keys, 0 ∉ k := by
    intro hnames k hk
    rcases h.key_sync hloads hnamed hk with hsynced | hproto
    · exact hnames k hsynced
    · exact zero_not_mem_objectPrototype k hproto
  have htokens := perm_iff (s := .tokens) hlegible auth (by simp)
  have hmanagement := perm_iff (s := .management_tokens) hlegible auth (by simp)
  constructor
  · rintro ⟨hrealms, hread, hread'⟩
    dsimp only at hrealms hread hread'
    have hnames : ∀ name ∈ keys json auth .realms, 0 ∉ name := by
      intro name hname
      obtain ⟨j, hget⟩ := JsMap.mem_keys_iff.mp hname
      exact uncut_of_read ((hrealms name).trans hget)
    refine ⟨fun s => (hheld s).mp ?_, hnames⟩
    cases s with
    | realms => exact (realms_iff hlegible (huncut hnames)).mp hrealms
    | tokens => exact htokens.mp hread
    | management_tokens => exact hmanagement.mp hread'
  · rintro ⟨hkeeps, hnames⟩
    have hall := fun s => (hheld s).mpr (hkeeps s)
    constructor <;> dsimp only
    · exact (realms_iff hlegible (huncut hnames)).mpr (hall .realms)
    · exact htokens.mpr (hall .tokens)
    · exact hmanagement.mpr (hall .management_tokens)

end AuthStore

open AuthStore

/-! ### Runs -/

/-- What a step takes: no load cuts a key, and the names of what is synced are well formed.
Kind: D -/
def Proper (json : Json J) (store : AuthStore) (e : Event J) : Prop :=
  LoadsUncut store e ∧ ∀ auth ∈ synced [e], WellNamed json auth

instance (json : Json J) (store : AuthStore) (e : Event J) : Decidable (Proper json store e) :=
  inferInstanceAs (Decidable (_ ∧ _))

/-- Every such history leaves a sound store.
Kind: P -/
theorem sound_run {l : List (Event J)} (hl : EachStep (step json) (Proper json) AuthStore.init l) :
    Sound json (synced l) (runFrom (step json) AuthStore.init l) := by
  refine invariant_history (I := fun l store => Sound json (synced l) store) ?_ Sound.init hl
  intro l store e ih hproper
  obtain ⟨hloads, hnamed⟩ := hproper
  rw [synced, List.filterMap_append, ← synced]
  cases e with
  | «open» =>
      simp only [List.filterMap_cons, List.filterMap_nil, List.append_nil]
      exact ⟨ih.legible, ih.stale, fun c hc => absurd hc (by simp [step, AuthStore.open])⟩
  | load =>
      simp only [List.filterMap_cons, List.filterMap_nil, List.append_nil]
      refine ⟨ih.legible, ih.stale, fun c hc s => ?_⟩
      obtain rfl := Option.some.inj hc
      exact ih.believed_primed hloads s
  | sync auth => exact ih.sync hloads (hnamed auth (List.mem_singleton_self auth))

/-- **The round trip**: after any history of well-formed names in which no load has cut a key, a store
opened on the file after a sync reads back what was synced exactly when this has no entry named
`__proto__` and no realm with a U+0000 in its name, and has all earlier entries that are named like
something every object inherits.
Kind: P -/
theorem load_sync_iff (json : Json J) (l : List (Event J)) (auth : AuthObject J)
    (hrun : EachStep (step json) (Proper json) AuthStore.init (l ++ [.sync auth])) :
    RoundTrip json auth
        ((runFrom (step json) AuthStore.init (l ++ [.sync auth])).open.load json).2 ↔
      (∀ s, KeepsEarlier json (synced l) auth s) ∧ ∀ name ∈ keys json auth .realms, 0 ∉ name := by
  obtain ⟨hl, ⟨hloads, hnamed⟩, -⟩ := eachStep_append.mp hrun
  rw [runFrom_append]
  exact (sound_run hl).roundTrip_iff hloads (hnamed auth (List.mem_singleton_self auth))

/-- A codec that knows the object `{}`.
Kind: D -/
def emptyObjects : Json Unit where
  stableStringify _ := js "{}"
  parse text := if text = js "{}" then some () else none
  parse_stableStringify _ := rfl
  whole_stableStringify _ := by decide
  token _ := none
  token_hash _ := none

/-- An auth object with realms of these names, without configs.
Kind: D -/
def ofRealms (names : List JsString) : AuthObject Unit where
  realms := some (names.foldl (fun realms name => realms.set name ()) JsMap.empty)
  tokens := none
  management_tokens := none
  managementTokens := none

/-- A realm name with a U+0000 in it.
Kind: D -/
def cutRealm : JsString := js "acme" ++ 0 :: js "eu"

/-- A realm is removed, another one with an inherited name stays.
Kind: P -/
theorem load_sync_iff_constructor :
    RoundTrip emptyObjects (ofRealms [js "constructor"])
      ((runFrom (step emptyObjects) AuthStore.init
        ([.sync (ofRealms [js "acme", js "constructor"]), .open, .load] ++
          [.sync (ofRealms [js "constructor"])])).open.load emptyObjects).2 := by
  refine (load_sync_iff emptyObjects _ _ (by decide +kernel)).mpr ⟨fun s => ⟨?_, ?_⟩, ?_⟩
  · cases s <;> decide +kernel
  · cases s <;> decide +kernel
  · decide +kernel

/-- A removed realm named `constructor` comes back, and one named `__proto__` is lost. A realm whose name
has a U+0000 in it comes back cut, once it has been loaded and removed.
Kind: P -/
theorem not_roundTrip :
    ¬ RoundTrip emptyObjects (ofRealms [])
        ((runFrom (step emptyObjects) AuthStore.init
          [.sync (ofRealms [js "constructor"]), .sync (ofRealms [])]).open.load emptyObjects).2 ∧
      ¬ RoundTrip emptyObjects (ofRealms [protoName])
        ((runFrom (step emptyObjects) AuthStore.init
          [.sync (ofRealms [protoName])]).open.load emptyObjects).2 ∧
      ¬ RoundTrip emptyObjects (ofRealms [])
        ((runFrom (step emptyObjects) AuthStore.init
          [.sync (ofRealms [cutRealm]), .open, .sync (ofRealms [])]).open.load emptyObjects).2 := by
  refine ⟨fun h => ?_, fun h => ?_, fun h => ?_⟩
  · have hread := h.realms (js "constructor")
    revert hread
    decide +kernel
  · have hread := h.realms protoName
    revert hread
    decide +kernel
  · have hread := h.realms (js "acme")
    revert hread
    decide +kernel

end TyoMq.Auth
