import TyoMq.Lib.JsMap
import TyoMq.Lib.JsString

/-!
# Plain JavaScript objects as tables

An object literal whose properties are assigned one by one and looked up by names that come from
outside. It is not a `Map`: every object inherits the properties of `Object.prototype`, so that `k in o`
holds of some names that were never assigned (`has_iff`), and assigning a primitive value to
`__proto__` leaves no property behind (`get_own_assign`).

* What remains of some assignments is, for each key but that one, the last of them
  (`get_own_assignAll_iff`).
* The values are primitive, or the name assigned is never `__proto__`: else the prototype would change.
-/

namespace TyoMq.Lib

/-- The name of the accessor to an object's prototype.
Kind: D -/
def protoName : JsString := js "__proto__"

/-- The names of the properties of `Object.prototype`.
Kind: D -/
def objectPrototype : List JsString :=
  [protoName, js "constructor", js "hasOwnProperty", js "isPrototypeOf", js "propertyIsEnumerable",
    js "toLocaleString", js "toString", js "valueOf", js "__defineGetter__", js "__defineSetter__",
    js "__lookupGetter__", js "__lookupSetter__"]

/-- What `o[k]` is.
Kind: D -/
inductive Property (ν : Type*)
  /-- A property of the object itself. -/
  | own (v : ν)
  /-- A member of `Object.prototype`: a function or an object, and so neither falsy nor a primitive. -/
  | inherited
  /-- Nothing. -/
  | undefined
  deriving DecidableEq

/-- An object with values `ν`.
Kind: D -/
structure JsObject (ν : Type*) where
  /-- Its own properties, in the order in which they were first assigned. -/
  own : JsMap JsString ν
  /-- None of them is `__proto__`. -/
  get_proto : own.get protoName = none

namespace JsObject

variable {ν : Type*} {o : JsObject ν} {k k' : JsString} {v : ν}

/-- `{}`.
Kind: D -/
def empty : JsObject ν := ⟨JsMap.empty, rfl⟩

/-- `o[k] = v`.
Kind: D -/
def assign (o : JsObject ν) (k : JsString) (v : ν) : JsObject ν :=
  if h : k = protoName then o
  else ⟨o.own.set k v, (JsMap.get_set_of_ne _ (Ne.symm h) v).trans o.get_proto⟩

/-- The object after some assignments, one after the other.
Kind: D -/
def assignAll (o : JsObject ν) (l : List (JsString × ν)) : JsObject ν :=
  l.foldl (fun o e => o.assign e.1 e.2) o

/-- `o[k]`.
Kind: D -/
def lookup (o : JsObject ν) (k : JsString) : Property ν :=
  match o.own.get k with
  | some v => .own v
  | none => if k ∈ objectPrototype then .inherited else .undefined

/-- `k in o`.
Kind: D -/
def has (o : JsObject ν) (k : JsString) : Bool := (o.own.get k).isSome || decide (k ∈ objectPrototype)

@[simp] theorem get_own_empty : (empty : JsObject ν).own.get k = none := rfl

/-- The properties of its own after an assignment.
Kind: L -/
theorem get_own_assign :
    (o.assign k v).own.get k' = if k' = k ∧ k ≠ protoName then some v else o.own.get k' := by
  unfold assign
  by_cases h : k = protoName
  · rw [dif_pos h, if_neg fun hc => hc.2 h]
  · rw [dif_neg h, JsMap.get_set]
    simp only [ne_eq, h, not_false_eq_true, and_true]

theorem has_iff : o.has k = true ↔ (o.own.get k).isSome ∨ k ∈ objectPrototype := by simp [has]

/-- A lookup finds something exactly under the names the object has.
Kind: L -/
theorem lookup_ne_undefined_iff : o.lookup k ≠ .undefined ↔ o.has k = true := by
  rw [has_iff, lookup]
  rcases o.own.get k with _ | v
  · by_cases h : k ∈ objectPrototype <;> simp [h]
  · simp

/-- A lookup finds a property of the object itself where there is one.
Kind: L -/
theorem lookup_eq_own_iff : o.lookup k = .own v ↔ o.own.get k = some v := by
  rw [lookup]
  rcases o.own.get k with _ | w
  · by_cases h : k ∈ objectPrototype <;> simp [h]
  · simp

/-- What an object has after some assignments it had before, or was assigned.
Kind: L -/
theorem has_assignAll {l : List (JsString × ν)} (h : (o.assignAll l).has k = true) :
    o.has k = true ∨ k ∈ l.map Prod.fst := by
  induction l generalizing o with
  | nil => exact Or.inl h
  | cons e l ih =>
      rcases ih h with h | h
      · rw [has_iff, get_own_assign] at h
        split_ifs at h with hk
        · exact Or.inr (by simp [hk.1])
        · exact Or.inl (has_iff.mpr h)
      · exact Or.inr (List.mem_cons_of_mem _ h)

/-- A property of an object was there before some assignments, or is one of them.
Kind: L -/
theorem get_own_assignAll {l : List (JsString × ν)} (h : (o.assignAll l).own.get k = some v) :
    o.own.get k = some v ∨ (k, v) ∈ l := by
  induction l generalizing o with
  | nil => exact Or.inl h
  | cons e l ih =>
      rcases ih h with h | h
      · rw [get_own_assign] at h
        split_ifs at h with hk
        · obtain rfl := Option.some.inj h
          exact Or.inr (by simp [hk.1])
        · exact Or.inl h
      · exact Or.inr (List.mem_cons_of_mem _ h)

end JsObject

/-! ### The last of several assignments -/

section LastWins

variable {κ ν ν' : Type*} [DecidableEq κ] {l : List (κ × ν)} {k : κ}

/-- The pairs whose keys do not come again.
Kind: D -/
def lastWins : List (κ × ν) → List (κ × ν)
  | [] => []
  | e :: l => if e.1 ∈ l.map Prod.fst then lastWins l else e :: lastWins l

/-- Every key is kept.
Kind: L -/
theorem mem_keys_lastWins : k ∈ (lastWins l).map Prod.fst ↔ k ∈ l.map Prod.fst := by
  induction l with
  | nil => exact Iff.rfl
  | cons e l ih =>
      rw [lastWins]
      split_ifs with he
      · rw [ih, List.map_cons, List.mem_cons]
        exact ⟨Or.inr, fun h => h.elim (fun heq => heq ▸ he) id⟩
      · rw [List.map_cons, List.map_cons, List.mem_cons, List.mem_cons, ih]

theorem mem_of_mem_lastWins {e : κ × ν} (h : e ∈ lastWins l) : e ∈ l := by
  induction l with
  | nil => exact h
  | cons e' l ih =>
      rw [lastWins] at h
      split_ifs at h
      · exact List.mem_cons_of_mem _ (ih h)
      · rcases List.mem_cons.mp h with rfl | h
        · exact List.mem_cons_self ..
        · exact List.mem_cons_of_mem _ (ih h)

/-- It is kept once.
Kind: L -/
theorem nodup_lastWins : ((lastWins l).map Prod.fst).Nodup := by
  induction l with
  | nil => exact List.nodup_nil
  | cons e l ih =>
      rw [lastWins]
      split_ifs with he
      · exact ih
      · exact List.nodup_cons.mpr ⟨fun h => he (mem_keys_lastWins.mp h), ih⟩

/-- Only keys count.
Kind: L -/
theorem lastWins_map (f : ν → ν') (l : List (κ × ν)) :
    lastWins (l.map fun e => (e.1, f e.2)) = (lastWins l).map fun e => (e.1, f e.2) := by
  induction l with
  | nil => rfl
  | cons e l ih =>
      rw [List.map_cons, lastWins, lastWins, ih, List.map_map]
      by_cases he : e.1 ∈ l.map Prod.fst
      · rw [if_pos he, if_pos]
        exact he
      · rw [if_neg he, if_neg, List.map_cons]
        exact he

/-- Without repeated keys all pairs are kept.
Kind: L -/
theorem lastWins_eq_self (h : (l.map Prod.fst).Nodup) : lastWins l = l := by
  induction l with
  | nil => rfl
  | cons e l ih =>
      obtain ⟨he, hl⟩ := List.nodup_cons.mp h
      rw [lastWins, if_neg he, ih hl]

end LastWins

/-- The properties of an object after some assignments: the last ones, and those that it had.
Kind: P -/
theorem JsObject.get_own_assignAll_iff {ν : Type*} {o : JsObject ν} {l : List (JsString × ν)}
    {k : JsString} {v : ν} :
    (o.assignAll l).own.get k = some v ↔
      k ≠ protoName ∧ ((k, v) ∈ lastWins l ∨ k ∉ l.map Prod.fst ∧ o.own.get k = some v) := by
  induction l generalizing o with
  | nil =>
      have hproto : o.own.get k = some v → k ≠ protoName := by
        rintro h rfl
        exact absurd (h.symm.trans o.get_proto) (by simp)
      show o.own.get k = some v ↔ _
      simp only [lastWins, List.not_mem_nil, false_or, List.map_nil, not_false_eq_true, true_and]
      exact ⟨fun h => ⟨hproto h, h⟩, And.right⟩
  | cons e l ih =>
      obtain ⟨k', v'⟩ := e
      have hassign : (o.assignAll ((k', v') :: l)) = (o.assign k' v').assignAll l := rfl
      rw [hassign, ih, JsObject.get_own_assign, lastWins]
      refine and_congr_right fun hk => ?_
      by_cases hkk' : k = k'
      · subst hkk'
        by_cases hmem : k ∈ l.map Prod.fst
        · rw [if_pos hmem]
          simp [hmem]
        · have hnot : ∀ w, (k, w) ∉ lastWins l := by
            intro w hw
            exact hmem (mem_keys_lastWins.mp (List.mem_map_of_mem (f := Prod.fst) hw))
          rw [if_neg hmem, if_pos ⟨rfl, hk⟩]
          simp [hmem, hnot, eq_comm]
      · rw [if_neg fun h => hkk' h.1]
        split_ifs with hmem
        · simp [hkk']
        · simp [hkk']

end TyoMq.Lib
