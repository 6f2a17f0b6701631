import Mathlib.Data.List.Induction
import TyoMq.Chat.Prekeys

/-!
# The prekey store mirrors the directory

* While the events are kept, the tables hold what the directory has, row for row (`Holds`), and
  `allBundles` reads it back (`Holds.shows`).
* The store shows the directory in every state of a run exactly when every event is kept (`mirrored_iff`):
  no pool that is put repeats an id, all texts and numbers come back as they were, and no account is taken
  from or deleted under a name that is stored as that of another.
* One repeated id takes an entry (`not_mirrored_repeated`), and one id that cannot be read makes
  `allBundles` throw for every account (`allBundles_largeId`).
-/

namespace TyoMq.Chat

open TyoMq.Lib Sqlite

variable {τ : Type*} [DecidableEq τ]

/-! ### Pools in the table -/

namespace PrekeyStore

variable {account a a' : τ × τ} {t : RowTable (OneTimeRow τ)}

/-- The entries of an account, as they are stored.
Kind: D -/
def heldOf (t : RowTable (OneTimeRow τ)) (a : τ × τ) : List (ℤ × τ) :=
  (t.scan.filter fun row => row.account = a).map fun row => (row.otk_id, row.key)

theorem heldOf_delAccount_self (a : τ × τ) (t : RowTable (OneTimeRow τ)) :
    heldOf (t.deleteWhere fun row => row.account = a) a = [] := by
  rw [heldOf, RowTable.scan_deleteWhere, List.filter_filter]
  simp

theorem heldOf_delAccount_of_ne (h : a' ≠ a) (t : RowTable (OneTimeRow τ)) :
    heldOf (t.deleteWhere fun row => row.account = a) a' = heldOf t a' := by
  apply congrArg (List.map _)
  apply RowTable.filter_scan_deleteWhere
  intro row hrow
  exact decide_eq_false fun heq => h ((of_decide_eq_true hrow).symm.trans heq)

theorem heldOf_consume_self (a : τ × τ) (otkId : Option ℤ) (t : RowTable (OneTimeRow τ)) :
    heldOf (t.deleteWhere fun row => row.account = a ∧ some row.otk_id = otkId) a =
      (heldOf t a).filter fun e => some e.1 ≠ otkId := by
  rw [heldOf, RowTable.scan_deleteWhere, heldOf, List.filter_map, List.filter_filter, List.filter_filter]
  apply congrArg
  apply List.filter_congr
  intro row _
  by_cases h : row.account = a <;> simp [h]

theorem heldOf_consume_of_ne (h : a' ≠ a) (otkId : Option ℤ) (t : RowTable (OneTimeRow τ)) :
    heldOf (t.deleteWhere fun row => row.account = a ∧ some row.otk_id = otkId) a' = heldOf t a' := by
  apply congrArg (List.map _)
  apply RowTable.filter_scan_deleteWhere
  intro row hrow
  exact decide_eq_false fun heq => h ((of_decide_eq_true hrow).symm.trans heq.1)

/-- Deleting rows that are not there changes nothing.
Kind: L -/
theorem scan_deleteWhere_of_none {ρ : Type*} {t : RowTable ρ} {p : ρ → Bool}
    (h : ∀ row ∈ t.scan, p row = false) : (t.deleteWhere p).scan = t.scan := by
  rw [RowTable.scan_deleteWhere, List.filter_eq_self]
  intro row hrow
  rw [h row hrow]
  rfl

section Insert

variable [Texts τ]

theorem heldOf_insertOtk_self (ha : Texts.stored account = a) (t : RowTable (OneTimeRow τ))
    (e : ℤ × τ) : heldOf (insertOtk account t e) a =
      (heldOf t a).filter (fun e' => e'.1 ≠ e.1) ++ [(e.1, Texts.stored e.2)] := by
  subst ha
  rw [heldOf, insertOtk, RowTable.scan_replaceWhere, List.filter_append, List.map_append, heldOf,
    List.filter_map, List.filter_filter, List.filter_filter]
  congr 1
  · apply congrArg
    apply List.filter_congr
    intro row _
    by_cases h : row.account = Texts.stored account <;> simp [h]
  · simp

theorem heldOf_insertOtk_of_ne (h : a ≠ Texts.stored account) (t : RowTable (OneTimeRow τ))
    (e : ℤ × τ) : heldOf (insertOtk account t e) a = heldOf t a := by
  apply congrArg (List.map _)
  apply RowTable.filter_scan_replaceWhere
  · intro row hrow
    exact decide_eq_false fun heq => h ((of_decide_eq_true hrow).symm.trans heq.1)
  · exact decide_eq_false (Ne.symm h)

/-- Publishing leaves the pools of the other accounts alone.
Kind: P -/
theorem heldOf_foldl_of_ne (h : a ≠ Texts.stored account) (pool : List (ℤ × τ)) :
    heldOf (pool.foldl (insertOtk account) t) a = heldOf t a := by
  induction pool generalizing t with
  | nil => rfl
  | cons e pool ih =>
      rw [List.foldl_cons, ih]
      exact heldOf_insertOtk_of_ne h t e

/-- An id is in the table once.
Kind: P -/
theorem nodup_heldOf_foldl (ha : Texts.stored account = a) (pool : List (ℤ × τ))
    (h : ((heldOf t a).map Prod.fst).Nodup) :
    ((heldOf (pool.foldl (insertOtk account) t) a).map Prod.fst).Nodup := by
  induction pool generalizing t with
  | nil => exact h
  | cons e pool ih =>
      apply ih
      rw [heldOf_insertOtk_self ha, List.map_append, List.nodup_append]
      refine ⟨h.sublist (List.filter_sublist.map _), List.nodup_singleton _, ?_⟩
      rintro id hid _ he rfl
      obtain ⟨e', he', rfl⟩ := List.mem_map.mp hid
      rw [List.map_singleton, List.mem_singleton] at he
      have hne := of_decide_eq_true (List.mem_filter.mp he').2
      exact hne he

/-- Where no id repeats, every entry of the pool is stored.
Kind: P -/
theorem heldOf_foldl_of_nodup (ha : Texts.stored account = a) (pool : List (ℤ × τ))
    (h : ((heldOf t a ++ pool).map Prod.fst).Nodup) :
    heldOf (pool.foldl (insertOtk account) t) a =
      heldOf t a ++ pool.map fun e => (e.1, Texts.stored e.2) := by
  induction pool generalizing t with
  | nil => rw [List.map_nil, List.append_nil]; rfl
  | cons e pool ih =>
      have hkeep : (heldOf t a).filter (fun e' => e'.1 ≠ e.1) = heldOf t a := by
        rw [List.filter_eq_self]
        intro e' he'
        rw [List.map_append, List.map_cons] at h
        have hne := (List.nodup_append.mp h).2.2 e'.1 (List.mem_map_of_mem he') e.1 (List.mem_cons_self ..)
        exact decide_eq_true hne
      have hinsert : heldOf (insertOtk account t e) a = heldOf t a ++ [(e.1, Texts.stored e.2)] := by
        rw [heldOf_insertOtk_self ha, hkeep]
      rw [List.foldl_cons, ih, hinsert, List.append_assoc, List.map_cons, List.singleton_append]
      rw [hinsert, List.append_assoc, List.singleton_append]
      rw [List.map_append, List.map_cons] at h ⊢
      exact h

/-- The rows after a publish: those that were there, and those of the pool.
Kind: L -/
theorem mem_scan_foldl {pool : List (ℤ × τ)} {row : OneTimeRow τ}
    (h : row ∈ (pool.foldl (insertOtk account) t).scan) :
    row ∈ t.scan ∨ ∃ e ∈ pool, row = ⟨Texts.stored account, e.1, Texts.stored e.2⟩ := by
  induction pool generalizing t with
  | nil => exact Or.inl h
  | cons e pool ih =>
      rcases ih h with hold | ⟨e', he', hrow⟩
      · rw [insertOtk, RowTable.scan_replaceWhere] at hold
        rcases List.mem_append.mp hold with hold | hnew
        · exact Or.inl (List.mem_of_mem_filter hold)
        · exact Or.inr ⟨e, List.mem_cons_self, List.mem_singleton.mp hnew⟩
      · exact Or.inr ⟨e', List.mem_cons_of_mem _ he', hrow⟩

/-- A pool whose ids can be read, and whose keys are read as they are.
Kind: L -/
theorem poolOf_eq (hrows : ∀ row ∈ t.scan, readable row.otk_id ∧ Whole row.key) (ha : Whole a) :
    poolOf t a = some ((heldOf t a).mergeSort fun e e' => e.1 ≤ e'.1) := by
  have hread : ∀ row ∈ t.scan.filter fun row => row.account = a,
      OneTimeRow.read row = some (row.otk_id, row.key) := by
    intro row hrow
    obtain ⟨hid, -, hkey⟩ := hrows row (List.mem_of_mem_filter hrow)
    rw [OneTimeRow.read, if_pos hid, hkey]
  rw [poolOf, ha.1, readAll_eq_some_map hread]
  rfl

end Insert

end PrekeyStore

/-! ### The store holds the directory -/

variable [Texts τ]

/-- What the tables hold of each account.
Kind: D -/
structure Holds (s : PrekeyStore τ) (d : Directory τ) : Prop where
  /-- An account of the directory has one row with its key material, another has none. -/
  material : ∀ a, ((s.prekey_bundles.scan.filter fun row => row.account = a).map BundleRow.material) =
    ((d a).map Prod.fst).toList
  /-- Its pool is the one of the directory. -/
  pool : ∀ a, (PrekeyStore.heldOf s.prekey_one_time a : Multiset (ℤ × τ)) = ((d a).map Prod.snd).getD 0
  /-- An id is there once. -/
  distinct : ∀ a, ((PrekeyStore.heldOf s.prekey_one_time a).map Prod.fst).Nodup
  /-- The bundles are stored and read as they are. -/
  whole : ∀ row ∈ s.prekey_bundles.scan, Whole row.account ∧ row.material.Whole
  /-- So are the pools. -/
  legible : ∀ row ∈ s.prekey_one_time.scan, readable row.otk_id ∧ Whole row.key

omit [Texts τ] in
/-- A list of distinct ids, after a take: it has lost one entry, or had none.
Kind: L -/
theorem minus_filter_iff {l : List (ℤ × τ)} (h : (l.map Prod.fst).Nodup) {otkId : Option ℤ}
    {pool : Multiset (ℤ × τ)} :
    Minus (l : Multiset (ℤ × τ)) otkId pool ↔ pool = ↑(l.filter fun e => some e.1 ≠ otkId) := by
  have herase : ∀ e ∈ l, (l : Multiset (ℤ × τ)).erase e =
      ↑(l.filter fun e' => some e'.1 ≠ some e.1) := by
    intro e he
    rw [(Multiset.coe_nodup.mpr (List.Nodup.of_map _ h)).erase_eq_filter, Multiset.filter_coe]
    apply congrArg
    apply List.filter_congr
    intro e' he'
    have hiff : e'.1 = e.1 ↔ e' = e :=
      ⟨fun hid => List.inj_on_of_nodup_map h he' he hid, fun heq => by rw [heq]⟩
    simp [hiff]
  have hkeep : (∀ e ∈ l, some e.1 ≠ otkId) → l.filter (fun e => some e.1 ≠ otkId) = l := by
    intro hnone
    rw [List.filter_eq_self]
    exact fun e he => decide_eq_true (hnone e he)
  constructor
  · intro hminus
    generalize hl : (l : Multiset (ℤ × τ)) = m at hminus
    cases hminus with
    | @present e he =>
        rw [← hl] at he ⊢
        exact herase e (Multiset.mem_coe.mp he)
    | absent hnone =>
        rw [← hl] at hnone ⊢
        rw [hkeep fun e he => hnone e (Multiset.mem_coe.mpr he)]
  · rintro rfl
    by_cases hin : ∃ e ∈ l, some e.1 = otkId
    · obtain ⟨e, he, rfl⟩ := hin
      rw [← herase e he]
      exact Minus.present (Multiset.mem_coe.mpr he)
    · have hnone : ∀ e ∈ l, some e.1 ≠ otkId := fun e he hid => hin ⟨e, he, hid⟩
      rw [hkeep hnone]
      exact Minus.absent fun e he => hnone e (Multiset.mem_coe.mp he)

namespace Holds

open PrekeyStore

variable {s : PrekeyStore τ} {d : Directory τ}

omit [Texts τ] in
/-- The rows of an account in the table of the bundles, after it has been written.
Kind: L -/
theorem material_replace (t : RowTable (BundleRow τ)) (account : τ × τ) (m : Material τ) (a : τ × τ) :
    ((t.replaceWhere (fun row => row.account = account) ⟨account, m⟩).scan.filter
        fun row => row.account = a).map BundleRow.material =
      if a = account then [m] else (t.scan.filter fun row => row.account = a).map BundleRow.material := by
  split_ifs with ha
  · subst ha
    rw [RowTable.scan_replaceWhere, List.filter_append, List.filter_filter]
    simp
  · apply congrArg
    apply RowTable.filter_scan_replaceWhere
    · intro row hrow
      exact decide_eq_false fun heq => ha ((of_decide_eq_true hrow).symm.trans heq)
    · exact decide_eq_false (Ne.symm ha)

omit [Texts τ] in
/-- The rows of an account in the table of the bundles, after one has been deleted.
Kind: L -/
theorem material_delete (t : RowTable (BundleRow τ)) (account a : τ × τ) :
    ((t.deleteWhere fun row => row.account = account).scan.filter
        fun row => row.account = a).map BundleRow.material =
      if a = account then [] else (t.scan.filter fun row => row.account = a).map BundleRow.material := by
  split_ifs with ha
  · subst ha
    rw [RowTable.scan_deleteWhere, List.filter_filter]
    simp
  · apply congrArg
    apply RowTable.filter_scan_deleteWhere
    intro row hrow
    exact decide_eq_false fun heq => ha ((of_decide_eq_true hrow).symm.trans heq)

/-- An account is in the directory exactly when it has a row.
Kind: L -/
theorem isSome_iff (h : Holds s d) (a : τ × τ) :
    (d a).isSome = true ↔ ∃ row ∈ s.prekey_bundles.scan, row.account = a := by
  have hmaterial := h.material a
  rcases hd : d a with _ | x
  · rw [hd, Option.map_none, Option.toList_none, List.map_eq_nil_iff, List.filter_eq_nil_iff] at hmaterial
    simpa using hmaterial
  · rw [hd, Option.map_some, Option.toList_some, List.map_eq_singleton_iff] at hmaterial
    obtain ⟨row, hrows, -⟩ := hmaterial
    have hrow : row ∈ s.prekey_bundles.scan.filter fun row => row.account = a := by
      rw [hrows]
      exact List.mem_singleton_self row
    obtain ⟨hmem, hat⟩ := List.mem_filter.mp hrow
    simpa using ⟨row, hmem, of_decide_eq_true hat⟩

/-- An account of the directory is stored and read as it is.
Kind: L -/
theorem eq_none_of_not_stored (h : Holds s d) {a : τ × τ} (ha : Texts.stored a ≠ a) : d a = none := by
  rw [← Option.not_isSome_iff_eq_none, h.isSome_iff]
  rintro ⟨row, hrow, rfl⟩
  exact ha (h.whole row hrow).1.1

/-- An account that is not in the directory has no pool.
Kind: L -/
theorem heldOf_eq_nil (h : Holds s d) {a : τ × τ} (ha : d a = none) :
    heldOf s.prekey_one_time a = [] := by
  have hpool := h.pool a
  rwa [ha, Option.map_none, Option.getD_none, Multiset.coe_eq_zero] at hpool

/-- A new file holds nothing.
Kind: P -/
theorem init : Holds (PrekeyStore.open none : PrekeyStore τ) fun _ => none :=
  ⟨fun _ => rfl, fun _ => rfl, fun _ => List.nodup_nil, fun _ h => absurd h List.not_mem_nil,
    fun _ h => absurd h List.not_mem_nil⟩

/-- A bundle is put that is kept as it is.
Kind: P -/
theorem put (h : Holds s d) {account : τ × τ} {bundle : Bundle τ} (haccount : Whole account)
    (hmaterial : bundle.material.Whole) (hpool : KeptPool bundle.pool) :
    Holds (s.putBundle account bundle)
      (Function.update d account (some (bundle.material, ↑bundle.pool))) := by
  obtain ⟨hdistinct, hkept⟩ := hpool
  have ha : Texts.stored account = account := haccount.1
  have hgone := heldOf_delAccount_self account s.prekey_one_time
  have hself : heldOf (s.putBundle account bundle).prekey_one_time account = bundle.pool := by
    have hempty : (heldOf (s.prekey_one_time.deleteWhere fun row => row.account = account) account ++
        bundle.pool) = bundle.pool := by
      rw [hgone, List.nil_append]
    have hstored := heldOf_foldl_of_nodup ha bundle.pool (hempty.symm ▸ hdistinct)
    have hpool : bundle.pool.map (fun e => (e.1, Texts.stored e.2)) = bundle.pool :=
      (List.map_congr_left fun e he => congrArg (Prod.mk e.1) (hkept e he).2.1).trans (List.map_id _)
    rw [hgone, List.nil_append, hpool] at hstored
    rw [putBundle, ha]
    exact hstored
  have hother : ∀ a, a ≠ account →
      heldOf (s.putBundle account bundle).prekey_one_time a = heldOf s.prekey_one_time a := by
    intro a hne
    rw [putBundle, ha]
    exact (heldOf_foldl_of_ne (by rwa [ha]) bundle.pool).trans (heldOf_delAccount_of_ne hne _)
  refine ⟨fun a => ?_, fun a => ?_, fun a => ?_, fun row hrow => ?_, fun row hrow => ?_⟩
  · rw [putBundle, ha, hmaterial.1, material_replace, h.material, Function.update_apply]
    split_ifs <;> rfl
  · rw [Function.update_apply]
    split_ifs with heq
    · rw [heq, hself]
      rfl
    · rw [hother a heq]
      exact h.pool a
  · by_cases heq : a = account
    · rw [heq, hself]
      exact hdistinct
    · rw [hother a heq]
      exact h.distinct a
  · rw [putBundle, ha, hmaterial.1, RowTable.scan_replaceWhere] at hrow
    rcases List.mem_append.mp hrow with hold | hnew
    · exact h.whole row (List.mem_of_mem_filter hold)
    · rw [List.mem_singleton.mp hnew]
      exact ⟨haccount, hmaterial⟩
  · rcases mem_scan_foldl hrow with hold | ⟨e, he, rfl⟩
    · rw [RowTable.scan_deleteWhere] at hold
      exact h.legible row (List.mem_of_mem_filter hold)
    · obtain ⟨hid, hkey⟩ := hkept e he
      exact ⟨hid, by rw [hkey.1]; exact hkey⟩

/-- A one-time prekey is consumed, of an account that is stored as it is.
Kind: P -/
theorem consume (h : Holds s d) {account : τ × τ} (ha : Texts.stored account = account)
    (otkId : Option ℤ) {d' : Directory τ} (hmakes : Makes d (.consume account otkId) d') :
    Holds (s.consumeOneTime account otkId) d' := by
  have hself := heldOf_consume_self account otkId s.prekey_one_time
  have hother : ∀ a, a ≠ account →
      heldOf (s.consumeOneTime account otkId).prekey_one_time a = heldOf s.prekey_one_time a := by
    intro a hne
    rw [consumeOneTime, ha]
    exact heldOf_consume_of_ne hne otkId _
  rw [consumeOneTime, ha] at hother ⊢
  have hdistinct : ∀ a, ((heldOf (s.prekey_one_time.deleteWhere fun row =>
      row.account = account ∧ some row.otk_id = otkId) a).map Prod.fst).Nodup := by
    intro a
    by_cases heq : a = account
    · rw [heq, hself]
      exact (h.distinct account).sublist (List.filter_sublist.map _)
    · rw [hother a heq]
      exact h.distinct a
  have hlegible : ∀ row ∈ (s.prekey_one_time.deleteWhere fun row =>
      row.account = account ∧ some row.otk_id = otkId).scan, readable row.otk_id ∧ Whole row.key := by
    intro row hrow
    rw [RowTable.scan_deleteWhere] at hrow
    exact h.legible row (List.mem_of_mem_filter hrow)
  cases hmakes with
  | unknown hd =>
      -- there is no bundle, and its pool is empty
      refine ⟨h.material, fun a => ?_, hdistinct, h.whole, hlegible⟩
      by_cases heq : a = account
      · rw [heq, hself, h.heldOf_eq_nil hd, hd]
        rfl
      · rw [hother a heq]
        exact h.pool a
  | @consume _ _ m pool pool' hd hminus =>
      have hpool : (heldOf s.prekey_one_time account : Multiset (ℤ × τ)) = pool := by
        have := h.pool account
        rwa [hd] at this
      rw [← hpool, minus_filter_iff (h.distinct account)] at hminus
      refine ⟨fun a => ?_, fun a => ?_, hdistinct, h.whole, hlegible⟩
      · rw [h.material, Function.update_apply]
        split_ifs with heq
        · rw [heq, hd]
          rfl
        · rfl
      · rw [Function.update_apply]
        split_ifs with heq
        · rw [heq, hself, hminus]
          rfl
        · rw [hother a heq]
          exact h.pool a

/-- A bundle is deleted, of an account that is stored as it is.
Kind: P -/
theorem del (h : Holds s d) {account : τ × τ} (ha : Texts.stored account = account) :
    Holds (s.delBundle account) (Function.update d account none) := by
  have hself := heldOf_delAccount_self account s.prekey_one_time
  have hother : ∀ a, a ≠ account → heldOf (s.prekey_one_time.deleteWhere fun row =>
      row.account = account) a = heldOf s.prekey_one_time a :=
    fun a hne => heldOf_delAccount_of_ne hne _
  rw [delBundle, ha]
  refine ⟨fun a => ?_, fun a => ?_, fun a => ?_, fun row hrow => ?_, fun row hrow => ?_⟩
  · rw [material_delete, h.material, Function.update_apply]
    split_ifs <;> rfl
  · rw [Function.update_apply]
    split_ifs with heq
    · rw [heq, hself]
      rfl
    · rw [hother a heq]
      exact h.pool a
  · by_cases heq : a = account
    · rw [heq, hself]
      exact List.nodup_nil
    · rw [hother a heq]
      exact h.distinct a
  · rw [RowTable.scan_deleteWhere] at hrow
    exact h.whole row (List.mem_of_mem_filter hrow)
  · rw [RowTable.scan_deleteWhere] at hrow
    exact h.legible row (List.mem_of_mem_filter hrow)

/-- Only the rows count, in the order in which a scan finds them.
Kind: L -/
theorem of_scan (h : Holds s d) {s' : PrekeyStore τ}
    (hbundles : s'.prekey_bundles.scan = s.prekey_bundles.scan)
    (hpools : s'.prekey_one_time.scan = s.prekey_one_time.scan) : Holds s' d := by
  have hheld : ∀ a, heldOf s'.prekey_one_time a = heldOf s.prekey_one_time a := by
    intro a
    rw [heldOf, heldOf, hpools]
  refine ⟨?_, ?_, ?_, ?_, ?_⟩
  · rw [hbundles]
    exact h.material
  · simp only [hheld]
    exact h.pool
  · simp only [hheld]
    exact h.distinct
  · rw [hbundles]
    exact h.whole
  · rw [hpools]
    exact h.legible

/-- Any event that is kept makes of the tables what it makes of the directory.
Kind: P -/
theorem step (h : Holds s d) {e : PrekeyEvent τ} (hkept : Kept s e) {d' : Directory τ}
    (hmakes : Makes d e d') : Holds (prekeyStep s e) d' := by
  cases e with
  | put account bundle =>
      cases hmakes
      exact h.put hkept.1 hkept.2.1 hkept.2.2
  | consume account otkId =>
      by_cases ha : Texts.stored account = account
      · exact h.consume ha otkId hmakes
      · -- nothing is there for the account, and its name is not stored as that of another entry
        have hrows := hkept.resolve_left ha
        have hd : d account = none := h.eq_none_of_not_stored ha
        rw [hmakes.eq_of_none hd]
        exact h.of_scan rfl (scan_deleteWhere_of_none fun row hrow => decide_eq_false (hrows row hrow))
  | del account =>
      cases hmakes
      by_cases ha : Texts.stored account = account
      · exact h.del ha
      · have hrows := hkept.resolve_left ha
        have hd : d account = none := h.eq_none_of_not_stored ha
        have hsame : Function.update d account none = d := by
          rw [← hd]
          exact Function.update_eq_self account d
        have hnone : d (Texts.stored account) = none := by
          rw [← Option.not_isSome_iff_eq_none, h.isSome_iff]
          rintro ⟨row, hrow, hat⟩
          exact hrows row hrow hat
        have hempty := List.filter_eq_nil_iff.mp (List.map_eq_nil_iff.mp (h.heldOf_eq_nil hnone))
        rw [hsame]
        exact h.of_scan (scan_deleteWhere_of_none fun row hrow => decide_eq_false (hrows row hrow))
          (scan_deleteWhere_of_none fun row hrow => Bool.eq_false_iff.mpr (hempty row hrow))
  | reopen =>
      cases hmakes
      exact h

/-- What the tables hold is what is read.
Kind: P -/
theorem shows (h : Holds s d) : ∃ bundles, s.allBundles = some bundles ∧ Shows bundles d := by
  have hrows : readAll BundleRow.read s.prekey_bundles.scan = some s.prekey_bundles.scan := by
    refine readAll_eq_self_iff.mpr fun row hrow => ?_
    obtain ⟨haccount, hmaterial⟩ := h.whole row hrow
    rw [BundleRow.read, hmaterial.2, Option.map_some, haccount.2]
  have hpools : ∀ row ∈ s.prekey_bundles.scan,
      (poolOf s.prekey_one_time row.account).map (fun pool =>
        (⟨row.account, row.material, pool⟩ : StoredBundle τ)) =
      some ⟨row.account, row.material,
        (heldOf s.prekey_one_time row.account).mergeSort fun e e' => e.1 ≤ e'.1⟩ := by
    intro row hrow
    rw [poolOf_eq h.legible (h.whole row hrow).1]
    rfl
  refine ⟨_, by rw [allBundles, hrows, Option.bind_some, readAll_eq_some_map hpools], ?_⟩
  intro account
  rw [List.filter_map]
  have hmaterial := h.material account
  have hpool := h.pool account
  rcases hd : d account with _ | ⟨m, pool⟩
  · rw [hd, Option.map_none, Option.toList_none, List.map_eq_nil_iff] at hmaterial
    exact List.map_eq_nil_iff.mpr hmaterial
  · rw [hd, Option.map_some, Option.toList_some, List.map_eq_singleton_iff] at hmaterial
    obtain ⟨row, hread, rfl⟩ := hmaterial
    have hrow : row ∈ s.prekey_bundles.scan.filter fun row => row.account = account := by
      rw [hread]
      exact List.mem_singleton_self row
    have haccount := of_decide_eq_true (List.mem_filter.mp hrow).2
    refine ⟨(heldOf s.prekey_one_time account).mergeSort fun e e' => e.1 ≤ e'.1, ?_, ?_⟩
    · rw [hd] at hpool
      exact (Multiset.coe_eq_coe.mpr (List.mergeSort_perm _ _)).trans hpool
    · change List.map _ (s.prekey_bundles.scan.filter fun row => row.account = account) = _
      rw [hread, List.map_singleton, haccount]

end Holds

/-! ### Runs -/

section Reference

omit [Texts τ]

/-- A pool can always lose an entry, or have none to lose.
Kind: L -/
theorem exists_minus (pool : Multiset (ℤ × τ)) (otkId : Option ℤ) : ∃ pool', Minus pool otkId pool' := by
  by_cases h : ∃ e ∈ pool, some e.1 = otkId
  · obtain ⟨e, he, rfl⟩ := h
    exact ⟨_, Minus.present he⟩
  · exact ⟨pool, Minus.absent fun e he hid => h ⟨e, he, hid⟩⟩

theorem exists_makes (d : Directory τ) (e : PrekeyEvent τ) : ∃ d', Makes d e d' := by
  cases e with
  | put account bundle => exact ⟨_, Makes.put d account bundle⟩
  | consume account otkId =>
      rcases hd : d account with _ | ⟨m, pool⟩
      · exact ⟨d, Makes.unknown hd⟩
      · obtain ⟨pool', hminus⟩ := exists_minus pool otkId
        exact ⟨_, Makes.consume hd hminus⟩
  | del account => exact ⟨_, Makes.del d account⟩
  | reopen => exact ⟨d, Makes.reopen d⟩

/-- The directory after one more event.
Kind: L -/
theorem expected_append_singleton_iff {l : List (PrekeyEvent τ)} {e : PrekeyEvent τ}
    {d' : Directory τ} : Expected (l ++ [e]) d' ↔ ∃ d, Expected l d ∧ Makes d e d' := by
  constructor
  · intro h
    generalize hl : l ++ [e] = l' at h
    cases h with
    | nil => exact absurd hl (by simp)
    | @snoc l₀ e₀ d _ hd hmakes =>
        obtain ⟨rfl, he⟩ := List.append_inj' hl rfl
        obtain rfl := List.singleton_inj.mp he
        exact ⟨d, hd, hmakes⟩
  · rintro ⟨d, hd, hmakes⟩
    exact hd.snoc hmakes

end Reference

/-- After events that are kept the tables hold the directory, whichever of those it may be.
Kind: P -/
theorem holds_after {l : List (PrekeyEvent τ)} (h : EachStep prekeyStep Kept (PrekeyStore.open none) l) :
    (∃ d, Expected l d) ∧ ∀ d, Expected l d → Holds (prekeysAfter l) d := by
  refine invariant_history (I := fun l s => (∃ d, Expected l d) ∧ ∀ d, Expected l d → Holds s d)
    ?_ ?_ h
  · rintro l s e ⟨⟨d, hd⟩, hholds⟩ hkept
    obtain ⟨d', hmakes⟩ := exists_makes d e
    refine ⟨⟨d', hd.snoc hmakes⟩, fun d' hd' => ?_⟩
    obtain ⟨d, hd, hmakes⟩ := expected_append_singleton_iff.mp hd'
    exact (hholds d hd).step hkept hmakes
  · refine ⟨⟨_, Expected.nil⟩, fun d hd => ?_⟩
    generalize hl : ([] : List (PrekeyEvent τ)) = l at hd
    cases hd with
    | nil => exact Holds.init
    | snoc => exact absurd hl.symm (by simp)

/-- The store shows the directory after every run of events that are kept.
Kind: P -/
theorem mirrored_of_kept {l : List (PrekeyEvent τ)}
    (h : EachStep prekeyStep Kept (PrekeyStore.open none) l) : Mirrored l := by
  obtain ⟨⟨d, hd⟩, hholds⟩ := holds_after h
  exact ⟨d, hd, (hholds d hd).shows⟩

/-! ### What is shown has been kept -/

section Shown

open PrekeyStore

variable {s : PrekeyStore τ} {d : Directory τ} {bundles : List (StoredBundle τ)} {account : τ × τ}

/-- A bundle that is read is in the table, and its pool has been read under its account.
Kind: L -/
theorem exists_row_of_bundle (h : s.allBundles = some bundles) {b : StoredBundle τ} (hb : b ∈ bundles) :
    (∃ row ∈ s.prekey_bundles.scan, row.read = some ⟨b.account, b.material⟩) ∧
      poolOf s.prekey_one_time b.account = some b.one_time := by
  obtain ⟨rows, hrows, hread⟩ := Option.bind_eq_some_iff.mp h
  obtain ⟨row', hrow', hb'⟩ := exists_row_of_mem hread hb
  obtain ⟨pool, hpool, rfl⟩ := Option.map_eq_some_iff.mp hb'
  obtain ⟨row, hrow, hrowread⟩ := exists_row_of_mem hrows hrow'
  exact ⟨⟨row, hrow, hrowread⟩, hpool⟩

/-- What is shown of an account of the directory.
Kind: L -/
theorem exists_row_of_shows (h : s.allBundles = some bundles) (hshows : Shows bundles d)
    {m : Material τ} {pool : Multiset (ℤ × τ)} (hd : d account = some (m, pool)) :
    (∃ row ∈ s.prekey_bundles.scan, row.read = some ⟨account, m⟩) ∧
      ∃ one_time : List (ℤ × τ), ↑one_time = pool ∧
        poolOf s.prekey_one_time account = some one_time := by
  have haccount := hshows account
  rw [hd] at haccount
  obtain ⟨one_time, hpool, hfilter⟩ := haccount
  have hmem : (⟨account, m, one_time⟩ : StoredBundle τ) ∈ bundles := by
    apply List.mem_of_mem_filter (p := fun b => b.account = account)
    rw [hfilter]
    exact List.mem_singleton_self _
  obtain ⟨hrow, hread⟩ := exists_row_of_bundle h hmem
  exact ⟨hrow, one_time, hpool, hread⟩

omit [DecidableEq τ] in
/-- Key material that comes back as it was is stored and read as it is.
Kind: L -/
theorem Material.whole_of_read {m : Material τ} (h : m.stored.read = some m) : m.Whole := by
  have hstored : m.stored = m := by
    rw [Material.read, Option.ite_none_right_eq_some, Option.some.injEq] at h
    obtain ⟨-, heq⟩ := h
    have hkey := Texts.stored_eq_of_read _ (congrArg Material.identity_key heq)
    have hsigned := Texts.stored_eq_of_read _ (congrArg Material.signed_prekey heq)
    have hsig := Texts.stored_eq_of_read _ (congrArg Material.signed_prekey_sig heq)
    have hkyber := Texts.stored_eq_of_read _ (congrArg Material.kyber_prekey heq)
    have hksig := Texts.stored_eq_of_read _ (congrArg Material.kyber_prekey_sig heq)
    have hat := Texts.stored_eq_of_read _ (congrArg Material.updated_at heq)
    rw [Material.stored, hkey, hsigned, hsig, hkyber, hksig, hat]
  rw [hstored] at h
  exact ⟨hstored, h⟩

/-- What is read of the pool of an account that is stored as it is.
Kind: L -/
theorem eq_of_poolOf {t : RowTable (OneTimeRow τ)} (ha : Texts.stored account = account)
    {one_time : List (ℤ × τ)} (h : poolOf t account = some one_time) :
    one_time.Perm ((heldOf t account).map fun e => (e.1, Texts.read e.2)) ∧
      ∀ e ∈ heldOf t account, readable e.1 = true := by
  rw [poolOf, ha] at h
  obtain ⟨rows, hrows, rfl⟩ := Option.map_eq_some_iff.mp h
  have hreadable : ∀ row ∈ t.scan.filter fun row => row.account = account,
      readable row.otk_id = true ∧ OneTimeRow.read row = some (row.otk_id, Texts.read row.key) := by
    intro row hrow
    obtain ⟨e, -, hread⟩ := exists_of_readAll_eq_some hrows row hrow
    have hid := (Option.ite_none_right_eq_some.mp hread).1
    exact ⟨hid, by rw [OneTimeRow.read, if_pos hid]⟩
  have heq := (readAll_eq_some_map fun row hrow => (hreadable row hrow).2).symm.trans hrows
  constructor
  · refine (List.mergeSort_perm _ _).trans ?_
    rw [← Option.some.inj heq, heldOf, List.map_map]
    rfl
  · intro e he
    obtain ⟨row, hrow, rfl⟩ := List.mem_map.mp he
    exact (hreadable row hrow).1

/-- A pool that has been put and is read back as it was is kept.
Kind: L -/
theorem keptPool_of_read {t : RowTable (OneTimeRow τ)} (ha : Texts.stored account = account)
    (hempty : heldOf t account = []) {pool one_time : List (ℤ × τ)} (hperm : one_time.Perm pool)
    (hread : poolOf (pool.foldl (insertOtk account) t) account = some one_time) : KeptPool pool := by
  obtain ⟨hheld, hreadable⟩ := eq_of_poolOf ha hread
  have hback := hperm.symm.trans hheld
  -- the table has one row for an id, so the pool that is read repeats none
  have hids : (pool.map Prod.fst).Perm
      ((heldOf (pool.foldl (insertOtk account) t) account).map Prod.fst) := by
    have := hback.map Prod.fst
    rwa [List.map_map] at this
  have hnodup : (pool.map Prod.fst).Nodup := by
    rw [hids.nodup_iff]
    exact nodup_heldOf_foldl ha pool (by rw [hempty]; exact List.nodup_nil)
  have hstored := heldOf_foldl_of_nodup (t := t) ha pool (by rwa [hempty, List.nil_append])
  rw [hempty, List.nil_append] at hstored
  rw [hstored] at hback hreadable
  refine ⟨hnodup, fun e he => ⟨?_, ?_⟩⟩
  · exact hreadable (e.1, Texts.stored e.2) (List.mem_map.mpr ⟨e, he, rfl⟩)
  · have hmem : (e.1, Texts.read (Texts.stored e.2)) ∈ pool := by
      rw [hback.mem_iff, List.map_map]
      exact List.mem_map_of_mem (f := fun e => (e.1, Texts.read (Texts.stored e.2))) he
    have hsame := List.inj_on_of_nodup_map hnodup hmem he rfl
    exact whole_iff_read.mpr (congrArg Prod.snd hsame)

end Shown

section Exact

open PrekeyStore

variable {s : PrekeyStore τ} {d : Directory τ} {bundles : List (StoredBundle τ)} {account : τ × τ}

/-- A bundle that is shown as it was put is kept.
Kind: P -/
theorem kept_of_put (h : Holds s d) {bundle : Bundle τ}
    (hread : (s.putBundle account bundle).allBundles = some bundles)
    (hshows : Shows bundles (Function.update d account (some (bundle.material, ↑bundle.pool)))) :
    Kept s (.put account bundle) := by
  obtain ⟨⟨row, hrow, hrowread⟩, one_time, hpool, hpoolread⟩ :=
    exists_row_of_shows hread hshows (Function.update_self ..)
  obtain ⟨m, hm, hat⟩ := Option.map_eq_some_iff.mp hrowread
  obtain ⟨haccount, rfl⟩ := BundleRow.mk.injEq .. ▸ hat
  rw [putBundle, RowTable.scan_replaceWhere] at hrow
  have hnew : row = ⟨Texts.stored account, bundle.material.stored⟩ := by
    rcases List.mem_append.mp hrow with hold | hnew
    · -- a row that was there is not read as the account
      obtain ⟨hin, hne⟩ := List.mem_filter.mp hold
      obtain ⟨hwhole, -⟩ := h.whole row hin
      have hself : row.account = account := hwhole.2.symm.trans haccount
      rw [Bool.not_eq_true', decide_eq_false_iff_not] at hne
      exact absurd (hwhole.1.symm.trans (congrArg Texts.stored hself)) hne
    · exact List.mem_singleton.mp hnew
  subst hnew
  have hwhole : Whole account := whole_iff_read.mpr haccount
  refine ⟨hwhole, Material.whole_of_read hm, ?_⟩
  have hempty : heldOf (s.prekey_one_time.deleteWhere fun row =>
      row.account = Texts.stored account) account = [] := by
    rw [hwhole.1]
    exact heldOf_delAccount_self account s.prekey_one_time
  exact keptPool_of_read hwhole.1 hempty (Multiset.coe_eq_coe.mp hpool) hpoolread

/-- A take that leaves the bundles of the others as they were is kept.
Kind: P -/
theorem kept_of_consume (h : Holds s d) {otkId : Option ℤ} {d' : Directory τ}
    (hmakes : Makes d (.consume account otkId) d')
    (hread : (s.consumeOneTime account otkId).allBundles = some bundles) (hshows : Shows bundles d') :
    Kept s (.consume account otkId) := by
  by_cases ha : Texts.stored account = account
  · exact Or.inl ha
  refine Or.inr fun row hrow hat => ?_
  have hd : d account = none := h.eq_none_of_not_stored ha
  have hsame : d' = d := hmakes.eq_of_none hd
  -- the entry that is taken is one of another account, which still has it in the directory
  obtain ⟨hother, hid⟩ := hat
  have hentry : (row.otk_id, row.key) ∈ heldOf s.prekey_one_time (Texts.stored account) :=
    List.mem_map.mpr ⟨row, List.mem_filter.mpr ⟨hrow, decide_eq_true hother⟩, rfl⟩
  rcases hsome : d (Texts.stored account) with _ | ⟨m, pool⟩
  · rw [h.heldOf_eq_nil hsome] at hentry
    exact List.not_mem_nil hentry
  · obtain ⟨b, hb, hbat⟩ := (h.isSome_iff _).mp (Option.isSome_iff_exists.mpr ⟨_, hsome⟩)
    have hstored : Texts.stored (Texts.stored account) = Texts.stored account :=
      hbat ▸ (h.whole b hb).1.1
    obtain ⟨-, one_time, hpool, hpoolread⟩ := exists_row_of_shows hread hshows (hsame ▸ hsome)
    have hperm := (eq_of_poolOf hstored hpoolread).1.length_eq
    rw [consumeOneTime, heldOf_consume_self, List.length_map] at hperm
    have hheld : (heldOf s.prekey_one_time (Texts.stored account) : Multiset (ℤ × τ)) = pool := by
      have := h.pool (Texts.stored account)
      rwa [hsome] at this
    have hlength := (Multiset.coe_eq_coe.mp (hpool.trans hheld.symm)).length_eq
    rw [hperm, List.length_filter_eq_length_iff] at hlength
    exact of_decide_eq_true (hlength _ hentry) hid

/-- A deletion that leaves the bundles of the others as they were is kept.
Kind: P -/
theorem kept_of_del (h : Holds s d) (hread : (s.delBundle account).allBundles = some bundles)
    (hshows : Shows bundles (Function.update d account none)) : Kept s (.del account) := by
  by_cases ha : Texts.stored account = account
  · exact Or.inl ha
  refine Or.inr fun b hb hbat => ?_
  obtain ⟨x, hsome⟩ := Option.isSome_iff_exists.mp ((h.isSome_iff _).mpr ⟨b, hb, hbat⟩)
  have hshown : Function.update d account none (Texts.stored account) = some (x.1, x.2) :=
    (Function.update_of_ne ha _ _).trans hsome
  obtain ⟨⟨row, hrow, hrowread⟩, -⟩ := exists_row_of_shows hread hshows hshown
  obtain ⟨m, -, hat⟩ := Option.map_eq_some_iff.mp hrowread
  rw [delBundle, RowTable.scan_deleteWhere] at hrow
  obtain ⟨hin, hne⟩ := List.mem_filter.mp hrow
  rw [Bool.not_eq_true', decide_eq_false_iff_not] at hne
  exact hne ((h.whole row hin).1.2.symm.trans (congrArg BundleRow.account hat))

/-- An event after which the store shows the directory is kept.
Kind: P -/
theorem kept_of_mirrored {l : List (PrekeyEvent τ)} {e : PrekeyEvent τ}
    (hholds : ∀ d, Expected l d → Holds (prekeysAfter l) d) (h : Mirrored (l ++ [e])) :
    Kept (prekeysAfter l) e := by
  obtain ⟨d', hd', bundles, hread, hshows⟩ := h
  obtain ⟨d, hd, hmakes⟩ := expected_append_singleton_iff.mp hd'
  have hafter : prekeysAfter (l ++ [e]) = prekeyStep (prekeysAfter l) e := runFrom_append ..
  rw [hafter] at hread
  cases e with
  | put account bundle =>
      cases hmakes
      exact kept_of_put (hholds d hd) hread hshows
  | consume account otkId => exact kept_of_consume (hholds d hd) hmakes hread hshows
  | del account =>
      cases hmakes
      exact kept_of_del (hholds d hd) hread hshows
  | reopen => trivial

end Exact

/-- **The store shows the directory** in every state of a run exactly when every event of it is kept.
Kind: P -/
theorem mirrored_iff (l : List (PrekeyEvent τ)) :
    (∀ l₁ l₂, l₁ ++ l₂ = l → Mirrored l₁) ↔ EachStep prekeyStep Kept (PrekeyStore.open none) l := by
  constructor
  · intro h
    induction l using List.reverseRecOn with
    | nil => exact trivial
    | append_singleton l e ih =>
        have hl := ih fun l₁ l₂ hl₁ => h l₁ (l₂ ++ [e]) (by rw [← List.append_assoc, hl₁])
        have hlast := kept_of_mirrored (holds_after hl).2 (h (l ++ [e]) [] (List.append_nil _))
        exact eachStep_append.mpr ⟨hl, hlast, trivial⟩
  · rintro h l₁ l₂ rfl
    exact mirrored_of_kept (eachStep_append.mp h).1

/-- A bundle with these entries in its pool.
Kind: D -/
def aliceBundle (one_time : List (PoolEntry JsString)) : Bundle JsString where
  identity_key := js "ik"
  registration_id := .finite 7
  device_id := .finite 1
  signed_prekey_id := .finite 1
  signed_prekey := some (js "spk")
  signed_prekey_sig := some (js "sig")
  kyber_prekey_id := .finite 1
  kyber_prekey := some (js "kpk")
  kyber_prekey_sig := some (js "sig")
  updated_at := none
  one_time := some (one_time.map some)

/-- Of two entries under one id the second takes the place of the first.
Kind: P -/
theorem not_mirrored_repeated :
    ¬ Mirrored [.put (js "acme", js "alice")
      (aliceBundle [⟨some 1, some (js "A")⟩, ⟨some 1, some (js "B")⟩])] := by
  intro h
  have hkept := kept_of_mirrored (l := []) (holds_after (l := []) trivial).2 h
  exact absurd hkept (by decide +kernel)

/-- One id that cannot be read is enough for nobody's bundle to be.
Kind: P -/
theorem allBundles_largeId :
    (prekeysAfter [.put (js "acme", js "bob") (aliceBundle [⟨some 1, some (js "A")⟩]),
      .put (js "acme", js "alice") (aliceBundle [⟨some (2 ^ 53), some (js "B")⟩])]).allBundles = none := by
  decide +kernel

end TyoMq.Chat
