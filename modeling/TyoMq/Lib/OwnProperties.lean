import TyoMq.Lib.JsMap
import TyoMq.Lib.JsString

/-!
# The own properties of an object

The own properties of a JavaScript object as a list, in the order in which `for (k in o)` goes through them:
array indices first, in ascending order, then the other names as they were first assigned.

* `set` overwrites a property in place, or puts a new one where its name belongs; `get` finds the value
  that was set last (`get_set`).
* After an assignment there is the new property, and the old ones under other names (`mem_set`).
-/

namespace TyoMq.Lib.OwnProperties

variable {ν ν' : Type*}

/-- `o[k]`, of the object's own properties.
Kind: D -/
def get (l : List (JsString × ν)) (k : JsString) : Option ν := (l.find? fun e => e.1 = k).map Prod.snd

/-- Is the name an array index, written as numbers are?
Kind: D -/
def isIndex (k : JsString) : Bool :=
  decide (toRadix 10 (readDigits 10 k) = k ∧ readDigits 10 k < 2 ^ 32 - 1)

/-- Does a new property with the one name come before one with the other?
Kind: D -/
def comesBefore (k k' : JsString) : Bool :=
  isIndex k && (!isIndex k' || decide (readDigits 10 k < readDigits 10 k'))

/-- A new property at the place where its name belongs.
Kind: D -/
def insert (k : JsString) (v : ν) : List (JsString × ν) → List (JsString × ν)
  | [] => [(k, v)]
  | e :: l => if comesBefore k e.1 then (k, v) :: e :: l else e :: insert k v l

/-- `o[k] = v`, as an own property.
Kind: D -/
def set (l : List (JsString × ν)) (k : JsString) (v : ν) : List (JsString × ν) :=
  if (get l k).isSome then l.map fun e => if e.1 = k then (k, v) else e else insert k v l

variable {l l' : List (JsString × ν)} {k k' : JsString} {v : ν}

/-! ### What is found -/

@[simp] theorem get_nil : get ([] : List (JsString × ν)) k = none := rfl

theorem get_cons (e : JsString × ν) (l : List (JsString × ν)) (k : JsString) :
    get (e :: l) k = if e.1 = k then some e.2 else get l k := by
  unfold get
  rw [List.find?_cons]
  by_cases h : e.1 = k <;> simp [h]

theorem get_eq_none_iff : get l k = none ↔ k ∉ l.map Prod.fst := by
  induction l with
  | nil => simp
  | cons e l ih =>
      rw [get_cons]
      by_cases h : e.1 = k
      · simp [h]
      · simp [h, ih, Ne.symm h]

theorem mem_of_get (h : get l k = some v) : (k, v) ∈ l := by
  obtain ⟨e, he, rfl⟩ := Option.map_eq_some_iff.mp h
  have hk : e.1 = k := by simpa using List.find?_some he
  rw [← hk]
  exact List.mem_of_find?_eq_some he

/-- With distinct names every property is found.
Kind: L -/
theorem get_of_mem (hl : (l.map Prod.fst).Nodup) (h : (k, v) ∈ l) : get l k = some v := by
  obtain ⟨pre, post, rfl⟩ := List.append_of_mem h
  induction pre with
  | nil => rw [List.nil_append, get_cons, if_pos rfl]
  | cons e pre ih =>
      obtain ⟨he, hrest⟩ := List.nodup_cons.mp hl
      have hne : e.1 ≠ k := by
        rintro rfl
        exact he (List.mem_map.mpr ⟨(e.1, v), by simp, rfl⟩)
      rw [List.cons_append, get_cons, if_neg hne]
      exact ih hrest (by simp)

/-- What is found once the values are replaced.
Kind: L -/
theorem get_map (f : JsString → ν → ν') (l : List (JsString × ν)) (k : JsString) :
    get (l.map fun e => (e.1, f e.1 e.2)) k = (get l k).map (f k) := by
  induction l with
  | nil => rfl
  | cons e l ih =>
      rw [List.map_cons, get_cons, get_cons, ih]
      by_cases h : e.1 = k <;> simp [h]

theorem get_insert (hk : k ∉ l.map Prod.fst) :
    get (insert k v l) k' = if k' = k then some v else get l k' := by
  induction l with
  | nil =>
      rw [insert, get_cons]
      simp only [eq_comm]
  | cons e l ih =>
      obtain ⟨he, hl⟩ := not_or.mp fun hm => hk (List.mem_cons.mpr hm)
      rw [insert]
      split_ifs with hb hkk' hkk'
      · rw [get_cons, if_pos hkk'.symm]
      · rw [get_cons, if_neg (Ne.symm hkk')]
      · rw [get_cons, ih hl, if_pos hkk', if_neg fun h => he (hkk'.symm.trans h.symm)]
      · rw [get_cons, get_cons, ih hl, if_neg hkk']

/-- What is found once a property is overwritten.
Kind: L -/
theorem get_overwrite : get (l.map fun e => if e.1 = k then (k, v) else e) k' =
    if k' = k then (get l k).map fun _ => v else get l k' := by
  induction l with
  | nil => simp
  | cons e l ih =>
      rw [List.map_cons, get_cons, get_cons, get_cons, ih]
      by_cases he : e.1 = k
      · by_cases hk : k' = k
        · simp [he, hk]
        · simp [he, hk, Ne.symm hk]
      · by_cases hk : k' = k
        · simp [he, hk]
        · simp [he, hk]

theorem set_of_mem (h : k ∈ l.map Prod.fst) : set l k v = l.map fun e => if e.1 = k then (k, v) else e := by
  rw [set, if_pos]
  rw [Option.isSome_iff_ne_none]
  exact fun hnone => get_eq_none_iff.mp hnone h

theorem set_of_not_mem (h : k ∉ l.map Prod.fst) : set l k v = insert k v l := by
  rw [set, get_eq_none_iff.mpr h, Option.isSome_none, if_neg Bool.false_ne_true]

/-- What is found after an assignment.
Kind: L -/
theorem get_set (l : List (JsString × ν)) (k : JsString) (v : ν) (k' : JsString) :
    get (set l k v) k' = if k' = k then some v else get l k' := by
  by_cases hmem : k ∈ l.map Prod.fst
  · obtain ⟨w, hw⟩ := Option.ne_none_iff_exists'.mp fun hnone => get_eq_none_iff.mp hnone hmem
    rw [set_of_mem hmem, get_overwrite, hw, Option.map_some]
  · rw [set_of_not_mem hmem, get_insert hmem]

/-! ### What is in the list -/

theorem mem_insert {e : JsString × ν} (h : e ∈ insert k v l) : e = (k, v) ∨ e ∈ l := by
  induction l with
  | nil => exact Or.inl (List.mem_singleton.mp h)
  | cons e' l ih =>
      rw [insert] at h
      split_ifs at h
      · exact List.mem_cons.mp h
      · rcases List.mem_cons.mp h with rfl | h
        · exact Or.inr List.mem_cons_self
        · exact (ih h).imp_right (List.mem_cons_of_mem _)

/-- After an assignment there is the new property, and the old ones under other names.
Kind: L -/
theorem mem_set {e : JsString × ν} (h : e ∈ set l k v) : e = (k, v) ∨ e ∈ l ∧ e.1 ≠ k := by
  by_cases hk : k ∈ l.map Prod.fst
  · rw [set_of_mem hk] at h
    obtain ⟨e', he', rfl⟩ := List.mem_map.mp h
    by_cases hek : e'.1 = k
    · exact Or.inl (if_pos hek)
    · rw [if_neg hek]
      exact Or.inr ⟨he', hek⟩
  · rw [set_of_not_mem hk] at h
    rcases mem_insert h with rfl | he
    · exact Or.inl rfl
    · exact Or.inr ⟨he, fun hek => hk (List.mem_map.mpr ⟨e, he, hek⟩)⟩

/-- Assigning what is there changes nothing.
Kind: L -/
theorem set_eq_self (hk : k ∈ l.map Prod.fst) (h : ∀ e ∈ l, e.1 = k → e.2 = v) : set l k v = l := by
  rw [set_of_mem hk, List.map_congr_left (g := id), List.map_id]
  intro e he
  by_cases hek : e.1 = k
  · rw [if_pos hek, ← hek, ← h e he hek]
    rfl
  · exact if_neg hek

end TyoMq.Lib.OwnProperties
