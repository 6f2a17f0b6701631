import TyoMq.Lib.Json
import TyoMq.Lib.OwnProperties

/-!
# JSON values as trees

The objects in a JSON value, and what is found at a path of names through them. An array is a leaf, as a
scalar is.

* What holds of every leaf, and of an object when it holds of its members, holds of every value
  (`induction_obj`).
* What is at a path of a copy is the copy of what is there (`valueAt_copy`), and a copy that is another value is
  so at a scalar or an array (`exists_leaf_of_copy_ne`).
* `nest` makes an object that has objects down a path.
-/

namespace TyoMq.Lib

variable {N : Type*}

namespace JsonValue

/-- Is the value an object, and no array?
Kind: D -/
def isObject : JsonValue N → Bool
  | .obj _ => true
  | _ => false

/-- The value at a path of names.
Kind: D -/
def valueAt (v : JsonValue N) : List JsString → Option (JsonValue N)
  | [] => some v
  | k :: path => (v.member k).bind fun w => valueAt w path

/-- The value holds a scalar or an array.
Kind: D -/
def HasLeaf (v : JsonValue N) : Prop := ∃ path w, valueAt v path = some w ∧ isObject w = false

end JsonValue

/-- A JSON object: the names of its members, and of those of every object in it, are distinct.
Kind: D -/
structure JsonObject (N : Type*) where
  /-- The members. -/
  members : List (JsString × JsonValue N)
  /-- Their names are distinct. -/
  proper : (JsonValue.obj members).Proper

/-- The object as a value.
Kind: D -/
def JsonObject.value (o : JsonObject N) : JsonValue N := .obj o.members

namespace JsonValue

mutual

/-- What holds of every value that is no object, and of an object when it holds of its members.
Kind: L -/
theorem induction_obj {P : JsonValue N → Prop} (other : ∀ v, isObject v = false → P v)
    (obj : ∀ members, (∀ e ∈ members, P e.2) → P (.obj members)) : ∀ v, P v
  | .null => other _ rfl
  | .bool _ => other _ rfl
  | .num _ => other _ rfl
  | .str _ => other _ rfl
  | .arr _ => other _ rfl
  | .obj members => obj members (induction_members other obj members)

theorem induction_members {P : JsonValue N → Prop} (other : ∀ v, isObject v = false → P v)
    (obj : ∀ members, (∀ e ∈ members, P e.2) → P (.obj members)) :
    ∀ members : List (JsString × JsonValue N), ∀ e ∈ members, P e.2
  | [], _, he => absurd he List.not_mem_nil
  | (_, v) :: members, e, he => by
      rcases List.mem_cons.mp he with rfl | he
      · exact induction_obj other obj v
      · exact induction_members other obj members e he

end

variable {w : JsonValue N} {path : List JsString} {k : JsString}

theorem valueAt_cons (v : JsonValue N) (k : JsString) (path : List JsString) :
    valueAt v (k :: path) = (v.member k).bind fun w => valueAt w path := by
  rw [valueAt]

theorem valueAt_append (v : JsonValue N) (path rest : List JsString) :
    valueAt v (path ++ rest) = (valueAt v path).bind fun w => valueAt w rest := by
  induction path generalizing v with
  | nil => rfl
  | cons k path ih =>
      rw [List.cons_append, valueAt_cons, valueAt_cons]
      cases v.member k with
      | none => rfl
      | some w => exact ih w

theorem member_obj (members : List (JsString × JsonValue N)) (k : JsString) :
    (JsonValue.obj members).member k = OwnProperties.get members k := rfl

theorem exists_members (h : isObject w = true) : ∃ members, w = .obj members := by
  cases w <;> first | exact ⟨_, rfl⟩ | exact absurd h (by simp [isObject])

/-- Only objects have members.
Kind: L -/
theorem isObject_of_valueAt {v : JsonValue N} (h : valueAt w (k :: path) = some v) : isObject w = true := by
  rw [valueAt_cons] at h
  cases w <;> first | rfl | exact absurd h (by simp [JsonValue.member])

/-- Objects in objects, down a path.
Kind: D -/
def nest : List JsString → List (JsString × JsonValue N)
  | [] => []
  | k :: path => [(k, .obj (nest path))]

theorem proper_nest (path : List JsString) :
    (JsonValue.obj (nest path : List (JsString × JsonValue N))).Proper := by
  induction path with
  | nil => exact ⟨List.nodup_nil, trivial⟩
  | cons k path ih => exact ⟨List.nodup_singleton k, ih, trivial⟩

/-! ### Copies -/

section Copies

variable {num : NumberTexts N} {v : JsonValue N}

/-- A copy of an object or an array, and anything else as it is.
Kind: D -/
def clone (num : NumberTexts N) (v : JsonValue N) : JsonValue N :=
  match v with
  | .arr _ | .obj _ => copy num v
  | _ => v

theorem clone_of_isObject (h : isObject v = true) : clone num v = copy num v := by
  obtain ⟨members, rfl⟩ := exists_members h
  rfl

theorem clone_of_copy_eq (h : copy num v = v) : clone num v = v := by
  unfold clone
  split
  · exact h
  · exact h
  · rfl

@[simp] theorem isObject_copy (v : JsonValue N) : isObject (copy num v) = isObject v := by
  cases v with
  | num n => rw [copy]; cases num.reread n <;> rfl
  | _ => rw [copy] <;> rfl

@[simp] theorem isObject_clone (v : JsonValue N) : isObject (clone num v) = isObject v := by
  unfold clone
  split
  · exact isObject_copy _
  · exact isObject_copy _
  · rfl

theorem member_copy (v : JsonValue N) (k : JsString) :
    (copy num v).member k = (v.member k).map (copy num) := by
  cases v with
  | num n => rw [copy]; cases num.reread n <;> rfl
  | obj members =>
      rw [copy, copyMembers_eq_map, member_obj, member_obj]
      exact OwnProperties.get_map (fun _ => copy num) members k
  | _ => rw [copy]; rfl

/-- What is at a path of a copy.
Kind: P -/
theorem valueAt_copy (v : JsonValue N) (path : List JsString) :
    valueAt (copy num v) path = (valueAt v path).map (copy num) := by
  induction path generalizing v with
  | nil => rfl
  | cons k path ih =>
      rw [valueAt_cons, valueAt_cons, member_copy]
      cases v.member k with
      | none => rfl
      | some w => exact ih w

theorem copy_nest (path : List JsString) : copy num (.obj (nest path)) = .obj (nest path) := by
  induction path with
  | nil => rw [nest, copy, copyMembers]
  | cons k path ih => rw [nest, copy, copyMembers_cons, ih, copyMembers]

theorem proper_of_valueAt {w : JsonValue N} {path : List JsString} (hv : v.Proper)
    (h : valueAt v path = some w) : w.Proper := by
  induction path generalizing v with
  | nil => exact Option.some.inj h ▸ hv
  | cons k path ih =>
      obtain ⟨members, rfl⟩ := exists_members (isObject_of_valueAt h)
      rw [valueAt_cons, member_obj] at h
      obtain ⟨u, hu, hrest⟩ := Option.bind_eq_some_iff.mp h
      exact ih (proper_of_mem hv.2 (OwnProperties.mem_of_get hu)) hrest

/-- A member of an object that is its own copy is so, too.
Kind: L -/
theorem copy_eq_of_mem {members : List (JsString × JsonValue N)}
    (h : copy num (.obj members) = .obj members) {e : JsString × JsonValue N} (he : e ∈ members) :
    copy num e.2 = e.2 := by
  rw [copy, copyMembers_eq_map, JsonValue.obj.injEq] at h
  have hmap : members.map (fun e => (e.1, copy num e.2)) = members.map id := h.trans (List.map_id _).symm
  exact congrArg Prod.snd (List.map_inj_left.mp hmap e he)

/-- A copy that is another value is so at a scalar or an array. By induction on the objects.
Kind: P -/
theorem exists_leaf_of_copy_ne (hv : v.Proper) (h : copy num v ≠ v) :
    ∃ path w, valueAt v path = some w ∧ isObject w = false ∧ copy num w ≠ w := by
  induction v using induction_obj with
  | other v hleaf => exact ⟨[], v, rfl, hleaf, h⟩
  | obj members ih =>
      obtain ⟨e, he, hne⟩ : ∃ e ∈ members, copy num e.2 ≠ e.2 := by
        by_contra hno
        push Not at hno
        apply h
        rw [copy, copyMembers_eq_map, JsonValue.obj.injEq]
        conv_rhs => rw [← List.map_id members]
        exact List.map_congr_left fun e he => Prod.ext rfl (hno e he)
      obtain ⟨path, w, hpath, hleaf, hw⟩ := ih e he (proper_of_mem hv.2 he) hne
      refine ⟨e.1 :: path, w, ?_, hleaf, hw⟩
      rw [valueAt_cons, member_obj, OwnProperties.get_of_mem hv.1 he, Option.bind_some, hpath]

end Copies

end JsonValue

end TyoMq.Lib
