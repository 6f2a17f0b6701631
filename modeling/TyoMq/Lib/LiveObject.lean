import TyoMq.Lib.JsObject
import TyoMq.Lib.JsonTree

/-!
# Objects with prototypes

Objects that come from JSON and are assigned to. They have a prototype besides their own members: an
assignment to `__proto__` sets it where there is no own member of that name, and the members of the
prototypes are found under the names that the object itself has not.

* A copy through JSON has copies of the own members only (`LiveObject.clone`).
* What an assignment leaves: `LiveObject.get_assign_self`, `LiveObject.get_assign_of_ne`, and for the
  accessor `LiveObject.own_assign_of_setsPrototype`.
-/

namespace TyoMq.Lib

variable {N : Type*}

/-- A value in the settings. Arrays come from copies only, so that what is in them is plain.
Kind: D -/
inductive Live (N : Type*)
  | null
  | bool (b : Bool)
  | num (n : N)
  | str (s : JsString)
  | arr (items : List (JsonValue N))
  | obj (own : List (JsString × Live N)) (proto : Live N)
  /-- `Object.prototype`. Its members cannot be enumerated, and none but `__proto__` is an object. -/
  | objectPrototype

/-- An object in the settings.
Kind: D -/
structure LiveObject (N : Type*) where
  /-- Its own members. -/
  own : List (JsString × Live N)
  /-- Its prototype, an object or `null`. -/
  proto : Live N

namespace Live

mutual

/-- What `JSON.stringify` sees of a value: the own members at every level.
Kind: D -/
def toJson : Live N → JsonValue N
  | null => .null
  | bool b => .bool b
  | num n => .num n
  | str s => .str s
  | arr items => .arr items
  | obj own _ => .obj (membersToJson own)
  | objectPrototype => .obj []

/-- So it is for some members.
Kind: D -/
def membersToJson : List (JsString × Live N) → List (JsString × JsonValue N)
  | [] => []
  | (k, v) :: own => (k, toJson v) :: membersToJson own

end

mutual

/-- What `JSON.parse` makes: plain objects at every level.
Kind: D -/
def ofJson : JsonValue N → Live N
  | .null => null
  | .bool b => bool b
  | .num n => num n
  | .str s => str s
  | .arr items => arr items
  | .obj members => obj (membersOfJson members) objectPrototype

/-- So it is for some members.
Kind: D -/
def membersOfJson : List (JsString × JsonValue N) → List (JsString × Live N)
  | [] => []
  | (k, v) :: members => (k, ofJson v) :: membersOfJson members

end

/-- What a value is in a copy of an object that holds it.
Kind: D -/
def copy (num : NumberTexts N) (v : Live N) : Live N := ofJson (v.toJson.copy num)

/-- The object, where the value is one and no array.
Kind: D -/
def object? : Live N → Option (LiveObject N)
  | obj own proto => some ⟨own, proto⟩
  | objectPrototype => some ⟨[], null⟩
  | _ => none

/-- What an object inherits under a name from its prototypes, the last of which is given first, where it is no
function: `__proto__` of `Object.prototype` is an accessor, and gives the object's own prototype.
Kind: D -/
def inherited (proto : Live N) : Live N → JsString → Option (Live N)
  | obj own next, k =>
      match OwnProperties.get own k with
      | some v => some v
      | none => inherited proto next k
  | arr items, k =>
      if k = protoName then some proto
      else if OwnProperties.isIndex k then (items[readDigits 10 k]?).map ofJson
      else none
  | objectPrototype, k => if k = protoName then some proto else none
  | _, _ => none

/-- Is the accessor `__proto__` found along these prototypes?
Kind: D -/
def hasAccessor : Live N → Bool
  | obj own next => (OwnProperties.get own protoName).isNone && hasAccessor next
  | arr _ => true
  | objectPrototype => true
  | _ => false

end Live

namespace LiveObject

/-- The object as a value.
Kind: D -/
def val (o : LiveObject N) : Live N := .obj o.own o.proto

/-- A plain object.
Kind: D -/
def ofMembers (members : List (JsString × JsonValue N)) : LiveObject N :=
  ⟨Live.membersOfJson members, .objectPrototype⟩

/-- The own members as JSON.
Kind: D -/
def toJson (o : LiveObject N) : JsonValue N := o.val.toJson

/-- A copy: `JSON.parse(JSON.stringify(o))`.
Kind: D -/
def clone (num : NumberTexts N) (o : LiveObject N) : LiveObject N :=
  ofMembers (JsonValue.copyMembers num (Live.membersToJson o.own))

/-- `o[k]`, where it is no function.
Kind: D -/
def read (o : LiveObject N) (k : JsString) : Option (Live N) :=
  match OwnProperties.get o.own k with
  | some v => some v
  | none => Live.inherited o.proto o.proto k

/-- What the accessor `__proto__` does with a value: a primitive changes nothing.
Kind: D -/
def setPrototype (o : LiveObject N) (v : Live N) : LiveObject N :=
  match v with
  | .bool _ | .num _ | .str _ => o
  | _ => { o with proto := v }

/-- Does an assignment to the name go to the accessor `__proto__`?
Kind: D -/
def setsPrototype (o : LiveObject N) (k : JsString) : Bool :=
  decide (k = protoName) && (OwnProperties.get o.own k).isNone && o.proto.hasAccessor

/-- `o[k] = v`.
Kind: D -/
def assign (o : LiveObject N) (k : JsString) (v : Live N) : LiveObject N :=
  if o.setsPrototype k then o.setPrototype v else { o with own := OwnProperties.set o.own k v }

end LiveObject

/-! ### Copies -/

namespace Live

theorem membersToJson_eq_map (own : List (JsString × Live N)) :
    membersToJson own = own.map fun e => (e.1, e.2.toJson) := by
  induction own with
  | nil => rfl
  | cons e own ih => rw [membersToJson, ih, List.map_cons]

theorem membersOfJson_eq_map (members : List (JsString × JsonValue N)) :
    membersOfJson members = members.map fun e => (e.1, ofJson e.2) := by
  induction members with
  | nil => rfl
  | cons e members ih => rw [membersOfJson, ih, List.map_cons]

/-- Reading undoes writing.
Kind: L -/
@[simp] theorem toJson_ofJson (v : JsonValue N) : (ofJson v).toJson = v := by
  induction v using JsonValue.induction_obj with
  | other v hv => cases v <;> first | rfl | exact absurd hv (by simp [JsonValue.isObject])
  | obj members ih =>
      rw [ofJson, toJson, membersToJson_eq_map, membersOfJson_eq_map, List.map_map]
      congr 1
      rw [List.map_congr_left (g := id), List.map_id]
      intro e he
      exact Prod.ext rfl (ih e he)

@[simp] theorem membersToJson_membersOfJson (members : List (JsString × JsonValue N)) :
    membersToJson (membersOfJson members) = members := by
  have h := toJson_ofJson (.obj members)
  rw [ofJson, toJson] at h
  exact JsonValue.obj.inj h

theorem object?_copy (num : NumberTexts N) (v : Live N) :
    (v.copy num).object? = v.object?.map (LiveObject.clone num) := by
  cases v with
  | num n => rw [copy, toJson, JsonValue.copy]; cases num.reread n <;> rfl
  | _ => rfl

@[simp] theorem toJson_copy (num : NumberTexts N) (v : Live N) : (v.copy num).toJson = v.toJson.copy num :=
  toJson_ofJson _

theorem copy_ofJson_copy {num : NumberTexts N} (v : JsonValue N) :
    (ofJson (v.copy num)).copy num = ofJson (v.copy num) := by
  rw [copy, toJson_ofJson, JsonValue.copy_copy]

theorem object?_val (o : LiveObject N) : o.val.object? = some o := rfl

end Live

namespace LiveObject

variable {num : NumberTexts N} {o : LiveObject N} {k k' : JsString} {v : Live N}

@[simp] theorem toJson_val (o : LiveObject N) : o.val.toJson = o.toJson := rfl

@[simp] theorem toJson_ofMembers (members : List (JsString × JsonValue N)) :
    (ofMembers members).toJson = .obj members := Live.toJson_ofJson (.obj members)

theorem clone_ofMembers (members : List (JsString × JsonValue N)) :
    (ofMembers members).clone num = ofMembers (JsonValue.copyMembers num members) :=
  congrArg (fun ms => ofMembers (JsonValue.copyMembers num ms)) (Live.membersToJson_membersOfJson members)

theorem clone_clone (o : LiveObject N) : (o.clone num).clone num = o.clone num :=
  (clone_ofMembers _).trans (congrArg ofMembers (JsonValue.copyMembers_copyMembers _))

theorem toJson_clone (o : LiveObject N) : (o.clone num).toJson = o.toJson.copy num := by
  rw [clone, toJson_ofMembers, toJson, val, Live.toJson, JsonValue.copy]

theorem get_ofMembers (members : List (JsString × JsonValue N)) (k : JsString) :
    OwnProperties.get (ofMembers members).own k = (OwnProperties.get members k).map Live.ofJson := by
  rw [ofMembers, Live.membersOfJson_eq_map]
  exact OwnProperties.get_map (fun _ => Live.ofJson) members k

theorem get_clone (o : LiveObject N) (k : JsString) :
    OwnProperties.get (o.clone num).own k = (OwnProperties.get o.own k).map (Live.copy num) := by
  rw [clone, get_ofMembers, JsonValue.copyMembers_eq_map, OwnProperties.get_map fun _ => JsonValue.copy num,
    Live.membersToJson_eq_map, OwnProperties.get_map fun _ => Live.toJson, Option.map_map, Option.map_map]
  rfl

/-- The members of the JSON text.
Kind: L -/
theorem member_toJson (o : LiveObject N) (k : JsString) :
    o.toJson.member k = (OwnProperties.get o.own k).map Live.toJson := by
  rw [toJson, val, Live.toJson, Live.membersToJson_eq_map]
  exact OwnProperties.get_map (fun _ => Live.toJson) o.own k

/-! ### Assignments -/

theorem read_of_get (h : OwnProperties.get o.own k = some v) : o.read k = some v := by
  rw [read, h]

theorem setsPrototype_of_ne (h : k ≠ protoName) : o.setsPrototype k = false := by
  simp [setsPrototype, h]

theorem setsPrototype_clone (o : LiveObject N) :
    (o.clone num).setsPrototype protoName = (OwnProperties.get o.own protoName).isNone := by
  rw [setsPrototype, get_clone]
  simp [clone, ofMembers, Live.hasAccessor]

@[simp] theorem own_setPrototype (o : LiveObject N) (v : Live N) : (o.setPrototype v).own = o.own := by
  cases v <;> rfl

theorem proto_setPrototype_congr {o' : LiveObject N} (h : o.proto = o'.proto) (v : Live N) :
    (o.setPrototype v).proto = (o'.setPrototype v).proto := by
  cases v <;> first | exact h | rfl

theorem get_of_setsPrototype (h : o.setsPrototype k = true) : OwnProperties.get o.own k = none := by
  simp only [setsPrototype, Bool.and_eq_true, Option.isNone_iff_eq_none] at h
  exact h.1.2

theorem get_assign_of_ne (h : k' ≠ k) :
    OwnProperties.get (o.assign k v).own k' = OwnProperties.get o.own k' := by
  unfold assign
  split_ifs
  · rw [own_setPrototype]
  · exact (OwnProperties.get_set _ _ _ _).trans (if_neg h)

theorem get_assign_self (h : o.setsPrototype k = false) :
    OwnProperties.get (o.assign k v).own k = some v := by
  rw [assign, h, if_neg Bool.false_ne_true]
  exact (OwnProperties.get_set _ _ _ _).trans (if_pos rfl)

theorem proto_assign (h : o.setsPrototype k = false) : (o.assign k v).proto = o.proto := by
  rw [assign, h, if_neg Bool.false_ne_true]

/-- The accessor leaves the own members alone.
Kind: L -/
theorem own_assign_of_setsPrototype (h : o.setsPrototype k = true) : (o.assign k v).own = o.own := by
  rw [assign, if_pos h, own_setPrototype]

theorem setsPrototype_of_get (h : OwnProperties.get o.own k = some v) : o.setsPrototype k = false := by
  simp [setsPrototype, h]

/-- Assigning what is there changes nothing.
Kind: L -/
theorem assign_eq_self (h : OwnProperties.get o.own k = some v) (hall : ∀ e ∈ o.own, e.1 = k → e.2 = v) :
    o.assign k v = o := by
  have hmem : k ∈ o.own.map Prod.fst := by
    by_contra hno
    rw [OwnProperties.get_eq_none_iff.mpr hno] at h
    exact absurd h (by simp)
  rw [assign, setsPrototype_of_get h, if_neg Bool.false_ne_true, OwnProperties.set_eq_self hmem hall]

/-- Whether the prototype will be set does not depend on other names.
Kind: L -/
theorem setsPrototype_assign_of_ne (h : k' ≠ k) : (o.assign k v).setsPrototype k' = o.setsPrototype k' := by
  by_cases hk' : k' = protoName
  · subst hk'
    have hproto : (o.assign k v).proto = o.proto := proto_assign (setsPrototype_of_ne (Ne.symm h))
    rw [setsPrototype, setsPrototype, get_assign_of_ne h, hproto]
  · rw [setsPrototype_of_ne hk', setsPrototype_of_ne hk']

theorem mem_of_mem_assign {e : JsString × Live N} (he : e ∈ (o.assign k v).own) (hne : e.1 ≠ k) :
    e ∈ o.own := by
  unfold assign at he
  split_ifs at he
  · rwa [own_setPrototype] at he
  · rcases OwnProperties.mem_set he with rfl | ⟨he, -⟩
    · exact absurd rfl hne
    · exact he

/-- After an assignment there is the new member under the name, and no other.
Kind: L -/
theorem eq_of_mem_assign {e : JsString × Live N} (h : o.setsPrototype k = false)
    (he : e ∈ (o.assign k v).own) (hek : e.1 = k) : e.2 = v := by
  rw [assign, h, if_neg Bool.false_ne_true] at he
  rcases OwnProperties.mem_set he with rfl | ⟨-, hne⟩
  · rfl
  · exact absurd hek hne

end LiveObject

end TyoMq.Lib
