import TyoMq.Config.Reload
import TyoMq.Lib.LiveObject

/-!
# Settings that are merged

`_deepMerge` of `lib/settings.js`, which merges a JSON object into the settings: an object is merged into
an object, and a copy of anything else replaces what was there. The settings are a live object, and an
assignment to `__proto__` may set its prototype.

* One turn of the loop for each name: `get_mergeMembers`, `get_mergeMembers_of_not_mem`.
* **Merging again changes nothing** (`deepMerge_deepMerge`), whatever the names, where the values that are copied
  are their own copies: an infinite number is not, and comes back with a merge into what a copy has left
  (`Changes`).
-/

namespace TyoMq.Config

open TyoMq.Lib
open TyoMq.Lib.JsonValue (isObject induction_obj exists_members)
open TyoMq.Lib.LiveObject

variable {N : Type*} {num : NumberTexts N}

/-! ### Merging -/

/-- A copy of an object is the one of `JSON.parse` and `JSON.stringify`, where the names are distinct.
Kind: P -/
theorem val_clone {o : LiveObject N} (ho : o.toJson.Proper) :
    (o.clone num).val = .ofJson (clone num o.toJson) := by
  rw [Settings.clone_of_proper ho, JsonValue.clone_of_isObject rfl, ← toJson_clone]
  exact (congrArg Live.ofJson (toJson_ofMembers _)).symm

section Definitions

variable (num : NumberTexts N)

mutual

/-- Merge a value into an object.
Source: `lib/settings.js`, `Settings.prototype._deepMerge`
Kind: D -/
def deepMerge (target : LiveObject N) : JsonValue N → LiveObject N
  | .obj members => mergeMembers (target.clone num) members
  -- `for (var key in source)` goes through the indices of an array
  | .arr items => mergeItems (target.clone num) 0 items
  | _ => target.clone num

/-- The loop of the merge, through the members of an object.
Source: `lib/settings.js`, `Settings.prototype._deepMerge`
Kind: D -/
def mergeMembers (result : LiveObject N) : List (JsString × JsonValue N) → LiveObject N
  | [] => result
  | (key, v) :: rest =>
      let value := match isObject v, (result.read key).bind Live.object? with
        | true, some old => (deepMerge old v).val
        | _, _ => Live.ofJson (v.clone num)
      mergeMembers (result.assign key value) rest

/-- The loop of the merge, through the items of an array.
Source: `lib/settings.js`, `Settings.prototype._deepMerge`
Kind: D -/
def mergeItems (result : LiveObject N) : ℕ → List (JsonValue N) → LiveObject N
  | _, [] => result
  | i, v :: rest =>
      let key := toRadix 10 i
      let value := match isObject v, (result.read key).bind Live.object? with
        | true, some old => (deepMerge old v).val
        | _, _ => Live.ofJson (v.clone num)
      mergeItems (result.assign key value) (i + 1) rest

end

/-- The settings once something has been merged into them, and what the listeners of `change` are given.
Source: `lib/settings.js`, `Settings.prototype.merge`, and with `_mergeMode` true
`Settings.prototype.reloadSync`, `Settings.prototype._loadFile`
Kind: D -/
def merge (data : LiveObject N) (source : JsonValue N) : LiveObject N × LiveObject N × LiveObject N :=
  let next := deepMerge num data source
  (next, next.clone num, data.clone num)

end Definitions

variable {o : LiveObject N} {k k' : JsString} {v : Live N}

/-! ### The loop -/

/-- What a value becomes that is merged over an object, or over something else.
Kind: D -/
def mergeOver (num : NumberTexts N) (old : Option (LiveObject N)) (w : JsonValue N) : Live N :=
  match isObject w, old with
  | true, some old => (deepMerge num old w).val
  | _, _ => Live.ofJson (w.clone num)

/-- The object that is found under a name.
Kind: D -/
def met (result : LiveObject N) (key : JsString) : Option (LiveObject N) :=
  (result.read key).bind Live.object?

theorem mergeOver_of_not_object {old : Option (LiveObject N)} {w : JsonValue N} (h : isObject w = false) :
    mergeOver num old w = Live.ofJson (w.clone num) := by
  unfold mergeOver
  rw [h]

theorem mergeOver_some {w : JsonValue N} (old : LiveObject N) (h : isObject w = true) :
    mergeOver num (some old) w = (deepMerge num old w).val := by
  unfold mergeOver
  rw [h]

theorem mergeOver_none (w : JsonValue N) : mergeOver num none w = Live.ofJson (w.clone num) := by
  unfold mergeOver
  cases isObject w <;> rfl

section Loop

variable {r : LiveObject N} {ms pre post : List (JsString × JsonValue N)} {w : JsonValue N}

theorem mergeMembers_cons (r : LiveObject N) (k : JsString) (w : JsonValue N)
    (ms : List (JsString × JsonValue N)) :
    mergeMembers num r ((k, w) :: ms) = mergeMembers num (r.assign k (mergeOver num (met r k) w)) ms := by
  rw [mergeMembers]
  rfl

theorem mergeMembers_append (r : LiveObject N) (pre post : List (JsString × JsonValue N)) :
    mergeMembers num r (pre ++ post) = mergeMembers num (mergeMembers num r pre) post := by
  induction pre generalizing r with
  | nil => rw [List.nil_append, mergeMembers]
  | cons e pre ih => rw [List.cons_append, mergeMembers_cons, mergeMembers_cons, ih]

/-- What the source does not name stays.
Kind: L -/
theorem get_mergeMembers_of_not_mem (h : k ∉ ms.map Prod.fst) :
    OwnProperties.get (mergeMembers num r ms).own k = OwnProperties.get r.own k := by
  induction ms generalizing r with
  | nil => rw [mergeMembers]
  | cons e ms ih =>
      obtain ⟨hne, hms⟩ := not_or.mp fun hm => h (List.mem_cons.mpr hm)
      rw [mergeMembers_cons, ih hms, get_assign_of_ne hne]

theorem proto_mergeMembers_of_get (h : OwnProperties.get r.own protoName ≠ none) :
    (mergeMembers num r ms).proto = r.proto := by
  induction ms generalizing r with
  | nil => rw [mergeMembers]
  | cons e ms ih =>
      have hsets : r.setsPrototype e.1 = false := by
        by_cases hk : e.1 = protoName
        · obtain ⟨v, hv⟩ := Option.ne_none_iff_exists'.mp h
          exact hk ▸ setsPrototype_of_get hv
        · exact setsPrototype_of_ne hk
      rw [mergeMembers_cons, ih, proto_assign hsets]
      by_cases hk : e.1 = protoName
      · rw [← hk, get_assign_self hsets]
        exact Option.some_ne_none _
      · rw [get_assign_of_ne (Ne.symm hk)]
        exact h

/-- Whether the prototype will be set shows before the loop.
Kind: L -/
theorem setsPrototype_mergeMembers (h : k ∉ ms.map Prod.fst) :
    (mergeMembers num r ms).setsPrototype k = r.setsPrototype k := by
  induction ms generalizing r with
  | nil => rw [mergeMembers]
  | cons e ms ih =>
      obtain ⟨hne, hms⟩ := not_or.mp fun hm => h (List.mem_cons.mpr hm)
      rw [mergeMembers_cons, ih hms, setsPrototype_assign_of_ne hne]

/-- What is found after the loop is what it assigned, unless that became the prototype.
Kind: L -/
theorem get_mergeMembers (hpre : k ∉ pre.map Prod.fst) (hpost : k ∉ post.map Prod.fst)
    (h : r.setsPrototype k = false) :
    OwnProperties.get (mergeMembers num r (pre ++ (k, w) :: post)).own k =
      some (mergeOver num (met (mergeMembers num r pre) k) w) := by
  rw [mergeMembers_append, mergeMembers_cons, get_mergeMembers_of_not_mem hpost]
  exact get_assign_self ((setsPrototype_mergeMembers hpre).trans h)

theorem get_mergeMembers_of_setsPrototype (hpre : k ∉ pre.map Prod.fst) (hpost : k ∉ post.map Prod.fst)
    (h : r.setsPrototype k = true) :
    OwnProperties.get (mergeMembers num r (pre ++ (k, w) :: post)).own k = OwnProperties.get r.own k := by
  rw [mergeMembers_append, mergeMembers_cons, get_mergeMembers_of_not_mem hpost,
    own_assign_of_setsPrototype ((setsPrototype_mergeMembers hpre).trans h),
    get_mergeMembers_of_not_mem hpre]

theorem mem_of_mem_mergeMembers {e : JsString × Live N} (h : e.1 ∉ ms.map Prod.fst)
    (he : e ∈ (mergeMembers num r ms).own) : e ∈ r.own := by
  induction ms generalizing r with
  | nil => rwa [mergeMembers] at he
  | cons e' ms ih =>
      obtain ⟨hne, hms⟩ := not_or.mp fun hm => h (List.mem_cons.mpr hm)
      rw [mergeMembers_cons] at he
      exact mem_of_mem_assign (ih hms he) hne

theorem eq_of_mem_mergeMembers {e : JsString × Live N} (hpre : k ∉ pre.map Prod.fst)
    (hpost : k ∉ post.map Prod.fst) (h : r.setsPrototype k = false)
    (he : e ∈ (mergeMembers num r (pre ++ (k, w) :: post)).own) (hek : e.1 = k) :
    e.2 = mergeOver num (met (mergeMembers num r pre) k) w := by
  rw [mergeMembers_append, mergeMembers_cons] at he
  refine eq_of_mem_assign (o := mergeMembers num r pre) ((setsPrototype_mergeMembers hpre).trans h) ?_ hek
  exact mem_of_mem_mergeMembers (hek ▸ hpost) he

/-- What the prototype will be shows before the loop.
Kind: L -/
theorem proto_mergeMembers_congr {r r' : LiveObject N} (hproto : r.proto = r'.proto)
    (hget : (OwnProperties.get r.own protoName).isNone = (OwnProperties.get r'.own protoName).isNone) :
    (mergeMembers num r ms).proto = (mergeMembers num r' ms).proto := by
  induction ms generalizing r r' with
  | nil => rw [mergeMembers, mergeMembers, hproto]
  | cons e ms ih =>
      obtain ⟨k, w⟩ := e
      rw [mergeMembers_cons, mergeMembers_cons]
      have hsets : r.setsPrototype k = r'.setsPrototype k := by
        rw [setsPrototype, setsPrototype, hproto]
        by_cases hk : k = protoName
        · rw [hk, hget]
        · simp [hk]
      cases hr : r.setsPrototype k with
      | false =>
          have hr' := hsets.symm.trans hr
          apply ih
          · rw [proto_assign hr, proto_assign hr', hproto]
          · by_cases hk : k = protoName
            · subst hk
              rw [get_assign_self hr, get_assign_self hr']
              rfl
            · rw [get_assign_of_ne (Ne.symm hk), get_assign_of_ne (Ne.symm hk), hget]
      | true =>
          have hr' := hsets.symm.trans hr
          have hmet : met r k = met r' k := by
            rw [met, met, LiveObject.read, LiveObject.read, get_of_setsPrototype hr,
              get_of_setsPrototype hr', hproto]
          apply ih
          · rw [hmet, assign, assign, if_pos hr, if_pos hr']
            exact proto_setPrototype_congr hproto _
          · rw [own_assign_of_setsPrototype hr, own_assign_of_setsPrototype hr', hget]

/-- A member of an object with distinct names has its turn in the loop.
Kind: L -/
theorem exists_turn (hnodup : (ms.map Prod.fst).Nodup) (h : (k, w) ∈ ms) :
    ∃ pre post, ms = pre ++ (k, w) :: post ∧ k ∉ pre.map Prod.fst ∧ k ∉ post.map Prod.fst := by
  obtain ⟨pre, post, rfl⟩ := List.append_of_mem h
  rw [List.map_append, List.map_cons, List.nodup_append, List.nodup_cons] at hnodup
  obtain ⟨-, ⟨hpost, -⟩, hdisjoint⟩ := hnodup
  exact ⟨pre, post, rfl, fun hm => hdisjoint k hm k List.mem_cons_self rfl, hpost⟩

end Loop

/-! ### Merging again -/

section Again

variable {r : LiveObject N} {ms pre post : List (JsString × JsonValue N)} {w : JsonValue N}

/-- Only a copy of the target counts.
Kind: L -/
theorem deepMerge_clone (o : LiveObject N) (w : JsonValue N) :
    deepMerge num (o.clone num) w = deepMerge num o w := by
  cases w <;> simp only [deepMerge, clone_clone]

/-- A loop that puts back what is there changes nothing.
Kind: L -/
theorem mergeMembers_eq_self (h : ∀ e ∈ ms, r.assign e.1 (mergeOver num (met r e.1) e.2) = r) :
    mergeMembers num r ms = r := by
  induction ms with
  | nil => rw [mergeMembers]
  | cons e ms ih =>
      have hfirst : r.assign e.1 (mergeOver num (met r e.1) e.2) = r := h e List.mem_cons_self
      rw [mergeMembers_cons, hfirst]
      exact ih fun e' he' => h e' (List.mem_cons_of_mem _ he')

/-- The live copy of an object has under a name what the object has, and nothing else.
Kind: L -/
theorem assign_ofMembers {members : List (JsString × JsonValue N)} (hnodup : (members.map Prod.fst).Nodup)
    (h : (k, w) ∈ members) : (ofMembers members).assign k (Live.ofJson w) = ofMembers members := by
  have hget : OwnProperties.get members k = some w := OwnProperties.get_of_mem hnodup h
  apply assign_eq_self
  · rw [get_ofMembers, hget, Option.map_some]
  · intro e he hek
    rw [ofMembers, Live.membersOfJson_eq_map] at he
    obtain ⟨⟨k', w'⟩, he', rfl⟩ := List.mem_map.mp he
    obtain rfl : k' = k := hek
    have hsame := OwnProperties.get_of_mem hnodup he'
    rw [hget, Option.some.injEq] at hsame
    rw [hsame]

/-- An object that is its own copy changes nothing when it is merged into a copy of it.
Kind: L -/
theorem deepMerge_ofMembers {members : List (JsString × JsonValue N)} (h : (JsonValue.obj members).Proper)
    (hcopy : JsonValue.copy num (.obj members) = .obj members) :
    deepMerge num (ofMembers members) (.obj members) = ofMembers members := by
  suffices hall : ∀ v : JsonValue N, v.Proper → JsonValue.copy num v = v → ∀ members, v = .obj members →
      deepMerge num (ofMembers members) v = ofMembers members from hall _ h hcopy members rfl
  clear h hcopy members
  intro v
  induction v using induction_obj with
  | other v hv =>
      rintro - - members rfl
      exact absurd hv (by simp [isObject])
  | obj members ih =>
      rintro ⟨hnodup, hproper⟩ hcopy members' heq
      obtain rfl := JsonValue.obj.inj heq
      have hmembers : JsonValue.copyMembers num members = members := by
        rw [JsonValue.copy] at hcopy
        exact JsonValue.obj.inj hcopy
      rw [deepMerge, clone_ofMembers, hmembers]
      apply mergeMembers_eq_self
      rintro ⟨k, w⟩ hmem
      have hlive : OwnProperties.get (ofMembers members).own k = some (Live.ofJson w) := by
        rw [get_ofMembers, OwnProperties.get_of_mem hnodup hmem, Option.map_some]
      have hexact : JsonValue.copy num w = w := JsonValue.copy_eq_of_mem hcopy hmem
      have hvalue : mergeOver num (met (ofMembers members) k) w = Live.ofJson w := by
        rw [met, read_of_get hlive, Option.bind_some]
        cases hobj : isObject w with
        | false => rw [mergeOver_of_not_object hobj, JsonValue.clone_of_copy_eq hexact]
        | true =>
            obtain ⟨inner, rfl⟩ := exists_members hobj
            have hinner := ih _ hmem (JsonValue.proper_of_mem hproper hmem) hexact inner rfl
            have hobject : (Live.ofJson (.obj inner)).object? = some (ofMembers inner) := rfl
            rw [hobject, mergeOver_some _ hobj, hinner]
            rfl
      rw [hvalue]
      exact assign_ofMembers hnodup hmem

/-- What was merged over a value, merged again over a copy of the result.
Kind: L -/
theorem mergeOver_again {old : Option (LiveObject N)} (hw : w.Proper)
    (hcopy : isObject w = true → old = none → JsonValue.copy num w = w)
    (ih : isObject w = true → ∀ o, old = some o → deepMerge num (deepMerge num o w) w = deepMerge num o w) :
    mergeOver num ((mergeOver num old w).copy num).object? w = mergeOver num old w := by
  rw [Live.object?_copy]
  cases hobj : isObject w with
  | false => rw [mergeOver_of_not_object hobj, mergeOver_of_not_object hobj]
  | true =>
      rcases old with _ | o
      · obtain ⟨members, rfl⟩ := exists_members hobj
        have hexact := hcopy hobj rfl
        have hmembers : JsonValue.copyMembers num members = members := by
          rw [JsonValue.copy] at hexact
          exact JsonValue.obj.inj hexact
        have hlive : (Live.ofJson (.obj members)).object? = some (ofMembers members) := rfl
        rw [mergeOver_none, JsonValue.clone_of_copy_eq hexact, hlive, Option.map_some, mergeOver_some _ hobj,
          clone_ofMembers, hmembers, deepMerge_ofMembers hw hexact]
        rfl
      · rw [mergeOver_some o hobj, Live.object?_val, Option.map_some, mergeOver_some _ hobj, deepMerge_clone,
          ih hobj o rfl]

/-- Members of which those with some names are copies.
Kind: D -/
def recopied (num : NumberTexts N) (names : List JsString) (own : List (JsString × Live N)) :
    List (JsString × Live N) :=
  own.map fun e => (e.1, if names.contains e.1 then e.2.copy num else e.2)

section Recopied

variable {names : List JsString} {own : List (JsString × Live N)}

theorem get_recopied (names : List JsString) (own : List (JsString × Live N)) (k : JsString) :
    OwnProperties.get (recopied num names own) k =
      (OwnProperties.get own k).map fun v => if names.contains k then v.copy num else v :=
  OwnProperties.get_map (fun k (v : Live N) => if names.contains k then v.copy num else v) own k

theorem recopied_nil (own : List (JsString × Live N)) : recopied num [] own = own := by
  simp [recopied]

theorem recopied_cons_of_get (h : OwnProperties.get own k = none) :
    recopied num (k :: names) own = recopied num names own := by
  apply List.map_congr_left
  intro e he
  have hne : e.1 ≠ k := by
    rintro rfl
    exact OwnProperties.get_eq_none_iff.mp h (List.mem_map_of_mem (f := Prod.fst) he)
  simp [hne]

/-- A copy is replaced by what it is a copy of.
Kind: L -/
theorem set_recopied (hnot : k ∉ names) (h : OwnProperties.get own k = some v)
    (hall : ∀ e ∈ own, e.1 = k → e.2 = v) :
    OwnProperties.set (recopied num (k :: names) own) k v = recopied num names own := by
  have hmem : k ∈ (recopied num (k :: names) own).map Prod.fst := by
    by_contra hno
    have hget := OwnProperties.get_eq_none_iff.mpr hno
    rw [get_recopied, h] at hget
    exact absurd hget (by simp)
  rw [OwnProperties.set_of_mem hmem, recopied, recopied, List.map_map]
  apply List.map_congr_left
  intro e he
  by_cases hek : e.1 = k
  · have hv : e.2 = v := hall e he hek
    simp [hek, hv, hnot]
  · simp [hek]

end Recopied

/-- The loop, begun with the result of which the members it assigns are copies, gives the result.
Kind: L -/
theorem own_mergeMembers_again {R D : LiveObject N} (hnodup : (ms.map Prod.fst).Nodup)
    (hown : D.own = recopied num (ms.map Prod.fst) R.own)
    (hms : ∀ e ∈ ms, D.setsPrototype e.1 = true ∧ OwnProperties.get R.own e.1 = none ∨
      D.setsPrototype e.1 = false ∧ ∃ x, OwnProperties.get R.own e.1 = some x ∧
        (∀ e' ∈ R.own, e'.1 = e.1 → e'.2 = x) ∧ mergeOver num (x.copy num).object? e.2 = x) :
    (mergeMembers num D ms).own = R.own := by
  induction ms generalizing D with
  | nil => rw [mergeMembers, hown, List.map_nil, recopied_nil]
  | cons e ms ih =>
      obtain ⟨k, w⟩ := e
      obtain ⟨hk, hnodup'⟩ := List.nodup_cons.mp hnodup
      rw [List.map_cons] at hown
      rw [mergeMembers_cons]
      apply ih hnodup'
      · rcases hms _ List.mem_cons_self with ⟨hsets, hget⟩ | ⟨hsets, x, hget, hall, hagain⟩
        · -- the prototype is set: there is no such member
          rw [own_assign_of_setsPrototype hsets, hown, recopied_cons_of_get hget]
        · have hcopy : OwnProperties.get D.own k = some (x.copy num) := by
            rw [hown, get_recopied, hget]
            simp
          have hvalue : mergeOver num (met D k) w = x := by
            rw [met, read_of_get hcopy, Option.bind_some]
            exact hagain
          rw [hvalue, assign, hsets, if_neg Bool.false_ne_true, hown]
          exact set_recopied hk hget hall
      · intro e he
        have hmem : e.1 ∈ ms.map Prod.fst := List.mem_map_of_mem he
        have hne : e.1 ≠ k := fun hek => hk (hek ▸ hmem)
        rw [setsPrototype_assign_of_ne hne]
        exact hms e (List.mem_cons_of_mem _ he)

theorem recopied_eq_clone {o : LiveObject N}
    (h : ∀ e ∈ r.own, e.1 ∉ ms.map Prod.fst → e ∈ (o.clone num).own) :
    (r.clone num).own = recopied num (ms.map Prod.fst) r.own := by
  rw [LiveObject.clone, ofMembers, Live.membersOfJson_eq_map, JsonValue.copyMembers_eq_map,
    Live.membersToJson_eq_map, List.map_map, List.map_map, recopied]
  apply List.map_congr_left
  intro e he
  by_cases hmem : e.1 ∈ ms.map Prod.fst
  · rw [if_pos (List.contains_iff_mem.mpr hmem)]
    rfl
  · rw [if_neg fun hc => hmem (List.contains_iff_mem.mp hc)]
    -- a member that the loop leaves alone is a copy already
    have hcopy := h e he hmem
    rw [LiveObject.clone, ofMembers, Live.membersOfJson_eq_map, JsonValue.copyMembers_eq_map,
      List.map_map] at hcopy
    obtain ⟨e', -, rfl⟩ := List.mem_map.mp hcopy
    exact Prod.ext rfl (Live.copy_ofJson_copy e'.2)

/-- The loop gives or takes no member `__proto__` to a copy.
Kind: L -/
theorem isNone_get_proto (hnodup : (ms.map Prod.fst).Nodup) (o : LiveObject N) :
    (OwnProperties.get (mergeMembers num (o.clone num) ms).own protoName).isNone =
      (OwnProperties.get o.own protoName).isNone := by
  have hclone : (OwnProperties.get (o.clone num).own protoName).isNone =
      (OwnProperties.get o.own protoName).isNone := by
    rw [get_clone, Option.isNone_map]
  by_cases hmem : protoName ∈ ms.map Prod.fst
  · obtain ⟨⟨k, w⟩, he, hk⟩ := List.mem_map.mp hmem
    obtain rfl : k = protoName := hk
    obtain ⟨pre, post, rfl, hpre, hpost⟩ := exists_turn hnodup he
    cases hsets : (o.clone num).setsPrototype protoName with
    | true => rw [get_mergeMembers_of_setsPrototype hpre hpost hsets, hclone]
    | false =>
        rw [get_mergeMembers hpre hpost hsets]
        rw [setsPrototype_clone] at hsets
        exact hsets.symm
  · rw [get_mergeMembers_of_not_mem hmem, hclone]

/-- A value of the source is another one in the settings, where it may be found: it is copied as a whole, alone or
in an object of the source, and the copy is not the same.
Kind: D -/
inductive Changes (num : NumberTexts N) : LiveObject N → JsonValue N → Prop
  /-- Here. -/
  | copied {target : LiveObject N} {pre post : List (JsString × JsonValue N)} {k : JsString} {v : JsonValue N}
      (hown : k = protoName → OwnProperties.get target.own protoName ≠ none)
      (hold : isObject v = true → met (mergeMembers num (target.clone num) pre) k = none)
      (hv : v.clone num ≠ v) : Changes num target (.obj (pre ++ (k, v) :: post))
  /-- In what is merged into the object that is found under a name in its turn. -/
  | under {target old : LiveObject N} {pre post : List (JsString × JsonValue N)} {k : JsString}
      {v : JsonValue N} (hobj : isObject v = true)
      (hown : k = protoName → OwnProperties.get target.own protoName ≠ none)
      (hold : met (mergeMembers num (target.clone num) pre) k = some old) (h : Changes num old v) :
      Changes num target (.obj (pre ++ (k, v) :: post))

/-- **Merging again changes nothing**, where no copy does. By induction on the source: what the loop assigned to a
name it assigns again, whatever the members that stay and the prototype are.
Kind: P -/
theorem deepMerge_deepMerge {w : JsonValue N} (hobj : isObject w = true) (hw : w.Proper) {o : LiveObject N}
    (h : ¬ Changes num o w) : deepMerge num (deepMerge num o w) w = deepMerge num o w := by
  induction w using induction_obj generalizing o with
  | other v hv => exact absurd (hv.symm.trans hobj) Bool.false_ne_true
  | obj ms ih =>
      obtain ⟨hnodup, hproper⟩ := hw
      have honce : ∀ o : LiveObject N, deepMerge num o (.obj ms) = mergeMembers num (o.clone num) ms :=
        fun o => by rw [deepMerge]
      rw [honce, honce]
      set once := mergeMembers num (o.clone num) ms with honce_def
      have hproto : (OwnProperties.get once.own protoName).isNone =
          (OwnProperties.get o.own protoName).isNone :=
        isNone_get_proto hnodup o
      have hsame : ∀ k, (once.clone num).setsPrototype k = (o.clone num).setsPrototype k := by
        intro k
        by_cases hk : k = protoName
        · rw [hk, setsPrototype_clone, setsPrototype_clone, hproto]
        · rw [setsPrototype_of_ne hk, setsPrototype_of_ne hk]
      have hown : (mergeMembers num (once.clone num) ms).own = once.own := by
        apply own_mergeMembers_again hnodup
        · exact recopied_eq_clone fun e he hmem => mem_of_mem_mergeMembers hmem he
        · rintro ⟨k, w⟩ he
          rw [hsame]
          obtain ⟨pre, post, hms, hpre, hpost⟩ := exists_turn hnodup he
          cases hsets : (o.clone num).setsPrototype k with
          | true =>
              refine Or.inl ⟨rfl, ?_⟩
              rw [honce_def, hms]
              exact (get_mergeMembers_of_setsPrototype hpre hpost hsets).trans (get_of_setsPrototype hsets)
          | false =>
              have hfound : k = protoName → OwnProperties.get o.own protoName ≠ none := by
                rintro rfl hnone
                rw [setsPrototype_clone, hnone] at hsets
                exact absurd hsets (by simp)
              refine Or.inr ⟨rfl, mergeOver num (met (mergeMembers num (o.clone num) pre) k) w, ?_, ?_, ?_⟩
              · rw [honce_def, hms]
                exact get_mergeMembers hpre hpost hsets
              · intro e' he' hek
                rw [honce_def, hms] at he'
                exact eq_of_mem_mergeMembers hpre hpost hsets he' hek
              · apply mergeOver_again (JsonValue.proper_of_mem hproper he)
                · intro hobj hnone
                  by_contra hne
                  rw [← JsonValue.clone_of_isObject hobj] at hne
                  exact h (hms ▸ .copied hfound (fun _ => hnone) hne)
                · intro hobj old hold
                  apply ih _ he hobj (JsonValue.proper_of_mem hproper he)
                  exact fun hchanges => h (hms ▸ .under hobj hfound hold hchanges)
      have hchain : (mergeMembers num (once.clone num) ms).proto = once.proto := by
        apply proto_mergeMembers_congr (show (once.clone num).proto = (o.clone num).proto from rfl)
        rw [get_clone, get_clone, Option.isNone_map, Option.isNone_map, hproto]
      calc mergeMembers num (once.clone num) ms
          = ⟨(mergeMembers num (once.clone num) ms).own, (mergeMembers num (once.clone num) ms).proto⟩ := rfl
        _ = once := by rw [hown, hchain]

end Again

end TyoMq.Config
