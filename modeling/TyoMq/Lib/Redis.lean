import Mathlib.Data.List.Sort
import TyoMq.Lib.JsMap

/-!
# Redis

The commands of Redis that a message store uses, on a keyspace whose keys hold strings, which may
expire, and sorted sets.

* The members of a sorted set come by their scores, and by their own order where the scores are equal;
  that is part of the structure (`SortedSet`).
* A string expires once the clock has passed its time, and `PEXPIREAT` with a time already reached
  deletes it at once.
* One key is never used for a string and for a sorted set, so no command meets a value of the wrong
  kind.
-/

namespace TyoMq.Lib

/-! ### Sorted sets -/

section Members

variable {μ : Type*} [LinearOrder μ]

/-- The order of the members with their scores.
Kind: D -/
def Before (a b : ℤ × μ) : Prop := a.1 < b.1 ∨ a.1 = b.1 ∧ a.2 ≤ b.2

instance (a b : ℤ × μ) : Decidable (Before a b) := inferInstanceAs (Decidable (_ ∨ _))

instance : IsTrans (ℤ × μ) Before where
  trans a b c hab hbc := by
    rcases hab with h | ⟨h, hle⟩ <;> rcases hbc with h' | ⟨h', hle'⟩
    · exact Or.inl (h.trans h')
    · exact Or.inl (h' ▸ h)
    · exact Or.inl (h ▸ h')
    · exact Or.inr ⟨h.trans h', hle.trans hle'⟩

instance : Std.Total (Before : ℤ × μ → ℤ × μ → Prop) where
  total a b := by
    rcases lt_trichotomy a.1 b.1 with h | h | h
    · exact Or.inl (Or.inl h)
    · exact (le_total a.2 b.2).imp (fun hle => Or.inr ⟨h, hle⟩) fun hle => Or.inr ⟨h.symm, hle⟩
    · exact Or.inr (Or.inl h)

end Members

/-- A sorted set.
Kind: D -/
structure SortedSet (μ : Type*) [LinearOrder μ] where
  /-- The members with their scores. -/
  entries : List (ℤ × μ)
  /-- They are in order. -/
  sorted : entries.Pairwise Before
  /-- A member is there once. -/
  nodup : (entries.map Prod.snd).Nodup

namespace SortedSet

variable {μ : Type*} [LinearOrder μ]

/-- A key that does not exist.
Kind: D -/
def empty : SortedSet μ := ⟨[], List.Pairwise.nil, List.nodup_nil⟩

/-- `ZREM`.
Kind: D -/
def rem (s : SortedSet μ) (m : μ) : SortedSet μ where
  entries := s.entries.filter fun e => e.2 ≠ m
  sorted := s.sorted.sublist List.filter_sublist
  nodup := s.nodup.sublist (List.filter_sublist.map _)

/-- `ZADD`: a member that is there already moves.
Kind: D -/
def add (s : SortedSet μ) (score : ℤ) (m : μ) : SortedSet μ where
  entries := (s.rem m).entries.orderedInsert Before (score, m)
  sorted := (s.rem m).sorted.orderedInsert _ _
  nodup := by
    refine (((List.perm_orderedInsert Before (score, m) _).map Prod.snd).nodup_iff).mpr ?_
    rw [List.map_cons, List.nodup_cons]
    refine ⟨fun h => ?_, (s.rem m).nodup⟩
    obtain ⟨e, he, hem⟩ := List.mem_map.mp h
    exact of_decide_eq_true (List.mem_filter.mp he).2 hem

/-- `ZRANGE key 0 -1`.
Kind: D -/
def range (s : SortedSet μ) : List μ := s.entries.map Prod.snd

/-- `ZCARD`.
Kind: D -/
def card (s : SortedSet μ) : ℕ := s.entries.length

@[simp] theorem mem_empty (e : ℤ × μ) : e ∉ (empty : SortedSet μ).entries := List.not_mem_nil

theorem mem_rem {s : SortedSet μ} {m : μ} {e : ℤ × μ} :
    e ∈ (s.rem m).entries ↔ e ∈ s.entries ∧ e.2 ≠ m := by
  simp [rem]

theorem mem_add {s : SortedSet μ} {score : ℤ} {m : μ} {e : ℤ × μ} :
    e ∈ (s.add score m).entries ↔ e = (score, m) ∨ e ∈ s.entries ∧ e.2 ≠ m := by
  rw [add, List.mem_orderedInsert, mem_rem]

theorem mem_range {s : SortedSet μ} {m : μ} : m ∈ s.range ↔ ∃ score, (score, m) ∈ s.entries := by
  simp [range]

end SortedSet

/-! ### The keyspace -/

/-- A database with keys `κ`, string values `ν` and members `μ`.
Kind: D -/
structure Redis (κ ν μ : Type*) [DecidableEq κ] [LinearOrder μ] where
  /-- The strings, each with the time after which it has expired. -/
  strings : JsMap κ (ν × Option ℤ)
  /-- The sorted sets. -/
  zsets : JsMap κ (SortedSet μ)

namespace Redis

variable {κ ν μ : Type*} [DecidableEq κ] [LinearOrder μ] {db : Redis κ ν μ}

/-- The database just started.
Kind: D -/
def empty : Redis κ ν μ := ⟨JsMap.empty, JsMap.empty⟩

/-- `GET`.
Kind: D -/
def get (db : Redis κ ν μ) (now : ℤ) (k : κ) : Option ν :=
  (db.strings.get k).bind fun v => if v.2.any (· < now) then none else some v.1

/-- `SET`.
Kind: D -/
def set (db : Redis κ ν μ) (k : κ) (v : ν) : Redis κ ν μ :=
  ⟨db.strings.set k (v, none), db.zsets.delete k⟩

/-- `DEL`.
Kind: D -/
def del (db : Redis κ ν μ) (k : κ) : Redis κ ν μ := ⟨db.strings.delete k, db.zsets.delete k⟩

/-- `PEXPIREAT`.
Kind: D -/
def pexpireat (db : Redis κ ν μ) (now : ℤ) (k : κ) (time : ℤ) : Redis κ ν μ :=
  match db.get now k with
  | none => db
  | some v => if time ≤ now then db.del k else { db with strings := db.strings.set k (v, some time) }

/-- The sorted set at a key.
Kind: D -/
def zset (db : Redis κ ν μ) (k : κ) : SortedSet μ := (db.zsets.get k).getD SortedSet.empty

/-- `ZADD`.
Kind: D -/
def zadd (db : Redis κ ν μ) (k : κ) (score : ℤ) (m : μ) : Redis κ ν μ :=
  { db with zsets := db.zsets.set k ((db.zset k).add score m) }

/-- `ZREM`: a sorted set that has lost its last member is gone.
Kind: D -/
def zrem (db : Redis κ ν μ) (k : κ) (m : μ) : Redis κ ν μ :=
  if ((db.zset k).rem m).card = 0 then { db with zsets := db.zsets.delete k }
  else { db with zsets := db.zsets.set k ((db.zset k).rem m) }

/-- `ZRANGE key 0 -1`.
Kind: D -/
def zrange (db : Redis κ ν μ) (k : κ) : List μ := (db.zset k).range

/-- `ZCARD`.
Kind: D -/
def zcard (db : Redis κ ν μ) (k : κ) : ℕ := (db.zset k).card

theorem zcard_eq_length (db : Redis κ ν μ) (k : κ) : db.zcard k = (db.zrange k).length :=
  (List.length_map ..).symm

/-- The keys that match a pattern, found by a complete `SCAN`.
Kind: D -/
def scan (db : Redis κ ν μ) (p : κ → Bool) : List κ := (db.zsets.keys ++ db.strings.keys).filter p

/-! ### The strings after each command -/

section Strings

variable {now t time score : ℤ} {k k' : κ} {v : ν} {m : μ}

@[simp] theorem get_empty (t : ℤ) (k : κ) : (empty : Redis κ ν μ).get t k = none := rfl

@[simp] theorem get_set_self : (db.set k v).get t k = some v := by simp [get, set]

theorem get_set_of_ne (h : k' ≠ k) : (db.set k v).get t k' = db.get t k' := by
  simp [get, set, JsMap.get_set_of_ne _ h]

@[simp] theorem get_del_self : (db.del k).get t k = none := by simp [get, del]

theorem get_del_of_ne (h : k' ≠ k) : (db.del k).get t k' = db.get t k' := by
  simp [get, del, JsMap.get_delete_of_ne _ h]

@[simp] theorem get_zadd : (db.zadd k score m).get t k' = db.get t k' := rfl

@[simp] theorem get_zrem : (db.zrem k m).get t k' = db.get t k' := by
  unfold zrem
  split <;> rfl

theorem get_pexpireat_of_ne (h : k' ≠ k) : (db.pexpireat now k time).get t k' = db.get t k' := by
  unfold pexpireat
  split
  · rfl
  · split_ifs
    · exact get_del_of_ne h
    · simp [get, JsMap.get_set_of_ne _ h]

/-- A string that is there expires at its time.
Kind: L -/
theorem get_pexpireat_self (hv : db.get now k = some v) :
    (db.pexpireat now k time).get t k = if time ≤ now ∨ time < t then none else some v := by
  unfold pexpireat
  rw [hv]
  dsimp only
  split_ifs with hnow hor hor
  · exact get_del_self
  · exact absurd (Or.inl hnow) hor
  · have hlt : time < t := hor.resolve_left hnow
    simp [get, hlt]
  · have hlt : ¬ time < t := fun hlt => hor (Or.inr hlt)
    simp [get, hlt]

/-- What is there now was there before, if nothing happened in between.
Kind: L -/
theorem get_mono (hle : now ≤ t) (h : db.get t k = some v) : db.get now k = some v := by
  unfold get at h ⊢
  rcases hk : db.strings.get k with _ | ⟨w, time⟩
  · rw [hk] at h
    exact absurd h (by simp)
  · rw [hk] at h
    rcases time with _ | time
    · exact h
    · have hlt : ¬ time < t := fun hlt => by simp [hlt] at h
      have hlt' : ¬ time < now := by omega
      simpa [hlt, hlt'] using h

end Strings

/-! ### The sorted sets after each command -/

section Zsets

variable {now time score : ℤ} {k k' : κ} {v : ν} {m : μ}

theorem zset_set_of_ne (h : k' ≠ k) : (db.set k v).zset k' = db.zset k' := by
  simp [zset, set, JsMap.get_delete_of_ne _ h]

@[simp] theorem zset_del_self : (db.del k).zset k = SortedSet.empty := by simp [zset, del]

theorem zset_del_of_ne (h : k' ≠ k) : (db.del k).zset k' = db.zset k' := by
  simp [zset, del, JsMap.get_delete_of_ne _ h]

theorem zset_pexpireat_of_ne (h : k' ≠ k) : (db.pexpireat now k time).zset k' = db.zset k' := by
  unfold pexpireat
  split
  · rfl
  · split_ifs
    · exact zset_del_of_ne h
    · rfl

@[simp] theorem zset_zadd_self : (db.zadd k score m).zset k = (db.zset k).add score m := by
  simp [zset, zadd]

theorem zset_zadd_of_ne (h : k' ≠ k) : (db.zadd k score m).zset k' = db.zset k' := by
  simp [zset, zadd, JsMap.get_set_of_ne _ h]

theorem zset_zrem_of_ne (h : k' ≠ k) : (db.zrem k m).zset k' = db.zset k' := by
  unfold zrem
  split_ifs
  · simp [zset, JsMap.get_delete_of_ne _ h]
  · simp [zset, JsMap.get_set_of_ne _ h]

/-- The members left by `ZREM`.
Kind: L -/
theorem mem_zrem {e : ℤ × μ} :
    e ∈ ((db.zrem k m).zset k').entries ↔ e ∈ (db.zset k').entries ∧ ¬ (k' = k ∧ e.2 = m) := by
  by_cases h : k' = k
  · subst h
    unfold zrem
    split_ifs with hnil
    · have hrem := SortedSet.mem_rem (s := db.zset k') (m := m) (e := e)
      rw [List.length_eq_zero_iff.mp hnil] at hrem
      simpa [zset, SortedSet.empty] using hrem
    · simp [zset, SortedSet.mem_rem]
  · simp [zset_zrem_of_ne h, h]

/-- The members that `ZRANGE` finds after `ZADD`.
Kind: L -/
theorem mem_zrange_zadd {m' : μ} :
    m' ∈ (db.zadd k score m).zrange k' ↔ k' = k ∧ m' = m ∨ m' ∈ db.zrange k' := by
  by_cases h : k' = k
  · subst h
    simp only [zrange, zset_zadd_self, SortedSet.mem_range, SortedSet.mem_add, Prod.mk.injEq]
    by_cases hm : m' = m <;> simp [hm]
  · rw [zrange, zset_zadd_of_ne h, ← zrange, or_iff_right (fun hk => h hk.1)]

/-- The members that `ZRANGE` finds after `ZREM`.
Kind: L -/
theorem mem_zrange_zrem {m' : μ} :
    m' ∈ (db.zrem k m).zrange k' ↔ m' ∈ db.zrange k' ∧ ¬ (k' = k ∧ m' = m) := by
  simp only [zrange, SortedSet.mem_range, mem_zrem, exists_and_right]

/-- A sorted set with a member is found by a scan.
Kind: L -/
theorem mem_scan {p : κ → Bool} {e : ℤ × μ} (he : e ∈ (db.zset k).entries) (hp : p k = true) :
    k ∈ db.scan p := by
  refine List.mem_filter.mpr ⟨List.mem_append_left _ (JsMap.mem_keys_iff.mpr ?_), hp⟩
  rcases hget : db.zsets.get k with _ | s
  · rw [zset, hget] at he
    exact absurd he (SortedSet.mem_empty e)
  · exact ⟨s, rfl⟩

end Zsets

/-- The strings after some keys have been deleted.
Kind: L -/
theorem get_foldl_del {ks : List κ} {k : κ} {t : ℤ} :
    (ks.foldl del db).get t k = if k ∈ ks then none else db.get t k := by
  induction ks generalizing db with
  | nil => simp
  | cons k' ks ih =>
      rw [List.foldl_cons, ih]
      by_cases hk : k = k'
      · subst hk
        simp
      · simp only [get_del_of_ne hk, List.mem_cons, hk, false_or]

/-- The sorted sets after some keys have been deleted.
Kind: L -/
theorem zset_foldl_del {ks : List κ} {k : κ} :
    (ks.foldl del db).zset k = if k ∈ ks then SortedSet.empty else db.zset k := by
  induction ks generalizing db with
  | nil => simp
  | cons k' ks ih =>
      rw [List.foldl_cons, ih]
      by_cases hk : k = k'
      · subst hk
        simp
      · simp only [zset_del_of_ne hk, List.mem_cons, hk, false_or]

/-! ### Scans -/

/-- The byte of `*`.
Kind: D -/
def globStar : Fin 256 := ⟨42, by decide⟩

/-- The bytes that mean something in a pattern: `*`, `?`, `[` and the backslash.
Kind: D -/
def globSpecial : List (Fin 256) := [globStar, ⟨63, by decide⟩, ⟨91, by decide⟩, ⟨92, by decide⟩]

/-- How `MATCH` compares a pattern with a key.
Kind: D -/
structure Glob where
  /-- Does the key match the pattern? -/
  isMatch : List (Fin 256) → List (Fin 256) → Bool
  /-- Other bytes stand for themselves, and a star for any rest. -/
  literal_star : ∀ text key, (∀ b ∈ text, b ∉ globSpecial) →
    isMatch (text ++ [globStar]) key = text.isPrefixOf key

/-- A loop of `SCAN`: each reply has the next cursor, and the loop ends when that is `0`.
Kind: D -/
def scanLoop {κ : Type*} : List (List (Fin 256) × List κ) → List κ → Option (List κ)
  | [], _ => none
  | (next, found) :: replies, keys =>
      if next = [⟨48, by decide⟩] then some (keys ++ found) else scanLoop replies (keys ++ found)

/-! ### Other keys -/

/-- A key has the same string and the same sorted set in two databases.
Kind: D -/
structure SameAt (db db' : Redis κ ν μ) (k : κ) : Prop where
  /-- The string is the same, whatever the time. -/
  get : ∀ t, db'.get t k = db.get t k
  /-- The sorted set is the same. -/
  zset : db'.zset k = db.zset k

namespace SameAt

variable {db' db'' : Redis κ ν μ} {k k' : κ}

theorem refl (db : Redis κ ν μ) (k : κ) : SameAt db db k := ⟨fun _ => rfl, rfl⟩

theorem trans (h : SameAt db db' k) (h' : SameAt db' db'' k) : SameAt db db'' k :=
  ⟨fun t => (h'.get t).trans (h.get t), h'.zset.trans h.zset⟩

theorem set (db : Redis κ ν μ) (h : k' ≠ k) (v : ν) : SameAt db (db.set k v) k' :=
  ⟨fun _ => get_set_of_ne h, zset_set_of_ne h⟩

theorem del (db : Redis κ ν μ) (h : k' ≠ k) : SameAt db (db.del k) k' :=
  ⟨fun _ => get_del_of_ne h, zset_del_of_ne h⟩

theorem pexpireat (db : Redis κ ν μ) (h : k' ≠ k) (now time : ℤ) :
    SameAt db (db.pexpireat now k time) k' :=
  ⟨fun _ => get_pexpireat_of_ne h, zset_pexpireat_of_ne h⟩

theorem zadd (db : Redis κ ν μ) (h : k' ≠ k) (score : ℤ) (m : μ) : SameAt db (db.zadd k score m) k' :=
  ⟨fun _ => get_zadd, zset_zadd_of_ne h⟩

theorem zrem (db : Redis κ ν μ) (h : k' ≠ k) (m : μ) : SameAt db (db.zrem k m) k' :=
  ⟨fun _ => get_zrem, zset_zrem_of_ne h⟩

/-- What each of some steps leaves alone, all of them do.
Kind: L -/
theorem foldl {α : Type*} {f : Redis κ ν μ → α → Redis κ ν μ} {l : List α}
    (h : ∀ db, ∀ a ∈ l, SameAt db (f db a) k) (db : Redis κ ν μ) : SameAt db (l.foldl f db) k := by
  induction l generalizing db with
  | nil => exact refl db k
  | cons a l ih =>
      have hhead := h db a (List.mem_cons_self ..)
      exact hhead.trans (ih (fun db a' ha' => h db a' (List.mem_cons_of_mem _ ha')) (f db a))

end SameAt

end Redis

end TyoMq.Lib
