import Mathlib.Logic.Function.Iterate
import TyoMq.Config.Merge

/-!
# The laws of merging settings

What a merge of a JSON object into the settings leaves at each path, for all names.

* What the source neither replaces nor adds to is copied (`valueAt_deepMerge`), and merging a file again and again
  is merging it once where no copy changes a number (`iterate_merge`).
* What the source holds is found at its path exactly when nothing of it is set as a prototype, as `__proto__` is
  assigned like any other name, and no copy changes a number of it. So the laws of merging hold (`lawful_iff`).
-/

namespace TyoMq.Config

open TyoMq.Lib
open TyoMq.Lib.JsonValue (isObject valueAt HasLeaf nest proper_nest valueAt_cons member_obj exists_members
  isObject_of_valueAt)
open TyoMq.Lib.LiveObject

variable {N : Type*} {num : NumberTexts N}

/-! ### Paths -/

/-- The source names nothing on the way to the path, or has an object there that is merged into an object.
Kind: D -/
def Spared (t s : JsonValue N) (path : List JsString) : Prop :=
  ∀ q, q <+: path → ∀ w, valueAt s q = some w →
    isObject w = true ∧ ∃ v, valueAt t q = some v ∧ isObject v = true

/-- A scalar or an array of the source is set as a prototype, or in one: a member `__proto__` holds it, and
the object that it is merged into has no such member.
Kind: D -/
inductive Loses (num : NumberTexts N) : LiveObject N → JsonValue N → Prop
  /-- Here. -/
  | here {target : LiveObject N} {members : List (JsString × JsonValue N)} {v : JsonValue N}
      (hmem : (protoName, v) ∈ members) (hown : OwnProperties.get target.own protoName = none)
      (hleaf : HasLeaf v) : Loses num target (.obj members)
  /-- In what is merged into the object that is found under a name in its turn. -/
  | under {target old : LiveObject N} {pre post : List (JsString × JsonValue N)} {k : JsString}
      {v : JsonValue N} (hobj : isObject v = true)
      (hown : k = protoName → OwnProperties.get target.own protoName ≠ none)
      (hold : met (mergeMembers num (target.clone num) pre) k = some old) (h : Loses num old v) :
      Loses num target (.obj (pre ++ (k, v) :: post))

/-- The settings that a JSON object makes.
Kind: D -/
def settingsOf (t : JsonObject N) : LiveObject N := ofMembers t.members

/-- The laws of merging, for a target and a source.
Kind: D -/
structure Lawful (num : NumberTexts N) (t s : JsonObject N) : Prop where
  /-- Merging the source twice is merging it once. -/
  idempotent : deepMerge num (deepMerge num (settingsOf t) s.value) s.value = deepMerge num (settingsOf t) s.value
  /-- What the source neither replaces nor adds to keeps its value. -/
  kept : ∀ path v, valueAt t.value path = some v → Spared t.value s.value path →
    valueAt s.value path = none → valueAt (deepMerge num (settingsOf t) s.value).toJson path = some v
  /-- An object into which an object is merged stays one. -/
  merged : ∀ path v w, valueAt t.value path = some v → Spared t.value s.value path →
    valueAt s.value path = some w → ∃ v', valueAt (deepMerge num (settingsOf t) s.value).toJson path = some v' ∧
      isObject v' = true
  /-- A scalar or an array of the source is found at its path. -/
  found : ∀ path w, valueAt s.value path = some w → isObject w = false →
    valueAt (deepMerge num (settingsOf t) s.value).toJson path = some w

/-- No number of the target that the source leaves alone is another one in a copy.
Kind: D -/
def KeepsNumbers (num : NumberTexts N) (t s : JsonObject N) : Prop :=
  ∀ path n, valueAt t.value path = some n → Spared t.value s.value path → valueAt s.value path = none →
    isObject n = false → n.copy num = n

/-- No scalar or array of the value lies under a name `__proto__`.
Kind: D -/
def NoProto (v : JsonValue N) : Prop :=
  ∀ path w, valueAt v path = some w → isObject w = false → protoName ∉ path

section Laws

variable {t s w : JsonValue N} {path : List JsString} {k : JsString} {o : LiveObject N}

theorem mergeMembers_eq (o : LiveObject N) (members : List (JsString × JsonValue N)) :
    deepMerge num o (.obj members) = mergeMembers num (o.clone num) members := by
  rw [deepMerge]

/-- A member of the source in the result.
Kind: L -/
theorem member_deepMerge {members pre post : List (JsString × JsonValue N)} (o : LiveObject N)
    (hms : members = pre ++ (k, w) :: post) (hpre : k ∉ pre.map Prod.fst) (hpost : k ∉ post.map Prod.fst)
    (hown : k = protoName → OwnProperties.get o.own protoName ≠ none) :
    (deepMerge num o (.obj members)).toJson.member k =
      some (mergeOver num (met (mergeMembers num (o.clone num) pre) k) w).toJson := by
  have hsets : (o.clone num).setsPrototype k = false := by
    by_cases hk : k = protoName
    · rw [hk, setsPrototype_clone, Option.isNone_eq_false_iff, Option.isSome_iff_ne_none]
      exact hown hk
    · exact setsPrototype_of_ne hk
  rw [member_toJson, mergeMembers_eq, hms, get_mergeMembers hpre hpost hsets, Option.map_some]

/-- A member `__proto__` that becomes the prototype is not in the result.
Kind: L -/
theorem member_deepMerge_proto {members : List (JsString × JsonValue N)}
    (hnodup : (members.map Prod.fst).Nodup) {o : LiveObject N}
    (hown : OwnProperties.get o.own protoName = none) :
    (deepMerge num o (.obj members)).toJson.member protoName = none := by
  have hnone := @isNone_get_proto N num _ hnodup o
  rw [hown, Option.isNone_none, Option.isNone_iff_eq_none] at hnone
  rw [member_toJson, mergeMembers_eq, hnone, Option.map_none]

/-- The other members have other names.
Kind: L -/
theorem not_mem_of_turn {pre post : List (JsString × JsonValue N)}
    (h : ((pre ++ (k, w) :: post).map Prod.fst).Nodup) : k ∉ pre.map Prod.fst ∧ k ∉ post.map Prod.fst := by
  rw [List.map_append, List.map_cons, List.nodup_append, List.nodup_cons] at h
  obtain ⟨-, ⟨hpost, -⟩, hdisjoint⟩ := h
  exact ⟨fun hm => hdisjoint k hm k List.mem_cons_self rfl, hpost⟩

/-- What is merged into no object is copied.
Kind: L -/
theorem mergeOver_of_not_merged {old : Option (LiveObject N)} (h : isObject w = true → old = none) :
    mergeOver num old w = Live.ofJson (w.clone num) := by
  cases hobj : isObject w with
  | false => exact mergeOver_of_not_object hobj
  | true => rw [h hobj, mergeOver_none]

/-- What is merged into an object of the target.
Kind: L -/
theorem met_of_get {o : LiveObject N} {members pre : List (JsString × JsonValue N)}
    (hpre : k ∉ pre.map Prod.fst) (hget : OwnProperties.get o.own k = some (.ofJson (.obj members))) :
    met (mergeMembers num (o.clone num) pre) k = some (.ofMembers (JsonValue.copyMembers num members)) := by
  have hread : (mergeMembers num (o.clone num) pre).read k =
      some (.ofJson (.obj (JsonValue.copyMembers num members))) := by
    apply read_of_get
    rw [get_mergeMembers_of_not_mem hpre, get_clone, hget, Option.map_some, Live.copy, Live.toJson_ofJson,
      JsonValue.copy]
  rw [met, hread]
  rfl

/-- A path that is spared is so below a member of both objects.
Kind: L -/
theorem Spared.tail {v w : JsonValue N} (h : Spared t s (k :: path)) (ht : t.member k = some v)
    (hs : s.member k = some w) : Spared v w path := by
  intro q hq x hx
  have hx' : valueAt s (k :: q) = some x := by rwa [valueAt_cons, hs, Option.bind_some]
  obtain ⟨hobj, y, hy, hyobj⟩ := h (k :: q) ((List.prefix_cons_inj k).mpr hq) x hx'
  rw [valueAt_cons, ht, Option.bind_some] at hy
  exact ⟨hobj, y, hy, hyobj⟩

/-- So is every path below one at which the source has nothing.
Kind: L -/
theorem Spared.append (h : Spared t s path) (hnone : valueAt s path = none) (rest : List JsString) :
    Spared t s (path ++ rest) := by
  intro q hq w hw
  rcases List.prefix_or_prefix_of_prefix hq (List.prefix_append path rest) with hpath | ⟨r, rfl⟩
  · exact h q hpath w hw
  · rw [JsonValue.valueAt_append, hnone] at hw
    exact absurd hw (by simp)

/-- **What the source spares** is copied, or stays an object. By induction on the path, with the objects
that are merged on the way.
Kind: P -/
theorem valueAt_deepMerge {mt ms : List (JsString × JsonValue N)} (hs : (JsonValue.obj ms).Proper)
    {v : JsonValue N} (ht : valueAt (.obj mt) path = some v) (hspared : Spared (.obj mt) (.obj ms) path) :
    (valueAt (.obj ms) path = none →
      valueAt (deepMerge num (ofMembers mt) (.obj ms)).toJson path = some (v.copy num)) ∧
    ∀ w, valueAt (.obj ms) path = some w →
      ∃ v', valueAt (deepMerge num (ofMembers mt) (.obj ms)).toJson path = some v' ∧ isObject v' = true := by
  induction path generalizing mt ms with
  | nil => exact ⟨fun h => absurd h (by simp [valueAt]), fun w _ => ⟨_, rfl, rfl⟩⟩
  | cons k path ih =>
      rw [valueAt_cons, member_obj] at ht
      obtain ⟨v₁, hv₁, hpath⟩ := Option.bind_eq_some_iff.mp ht
      rw [valueAt_cons, valueAt_cons, member_obj]
      rcases hw : OwnProperties.get ms k with _ | w₁
      · have hfree : k ∉ ms.map Prod.fst := OwnProperties.get_eq_none_iff.mp hw
        have hmember : (deepMerge num (ofMembers mt) (.obj ms)).toJson.member k = some (v₁.copy num) := by
          rw [member_toJson, mergeMembers_eq, get_mergeMembers_of_not_mem hfree, get_clone, get_ofMembers, hv₁,
            Option.map_some, Option.map_some, Option.map_some, Live.toJson_copy, Live.toJson_ofJson]
        rw [hmember, Option.bind_some, JsonValue.valueAt_copy, hpath]
        exact ⟨fun _ => rfl, fun w h => absurd h (by simp)⟩
      · -- the source has an object here, and so has the target
        have hone : valueAt (.obj ms) [k] = some w₁ := by
          rw [valueAt_cons, member_obj, hw]
          rfl
        obtain ⟨hobj, v₂, hv₂, hobj₂⟩ := hspared [k] ((List.prefix_cons_inj k).mpr List.nil_prefix) w₁ hone
        rw [valueAt_cons, member_obj, hv₁, Option.bind_some, valueAt, Option.some.injEq] at hv₂
        subst hv₂
        obtain ⟨m₁, rfl⟩ := exists_members hobj₂
        obtain ⟨n₁, rfl⟩ := exists_members hobj
        have hmem := OwnProperties.mem_of_get hw
        obtain ⟨pre, post, hms, hpre, hpost⟩ := exists_turn hs.1 hmem
        have hlive : OwnProperties.get (ofMembers mt).own k = some (.ofJson (.obj m₁)) := by
          rw [get_ofMembers, hv₁, Option.map_some]
        have hmember : (deepMerge num (ofMembers mt) (.obj ms)).toJson.member k =
            some (deepMerge num (ofMembers m₁) (.obj n₁)).toJson := by
          rw [member_deepMerge _ hms hpre hpost, met_of_get hpre hlive, mergeOver_some _ hobj, toJson_val,
            ← clone_ofMembers, deepMerge_clone]
          rintro rfl hnone
          rw [hlive] at hnone
          exact absurd hnone (by simp)
        rw [hmember, Option.bind_some, Option.bind_some]
        exact ih (JsonValue.proper_of_mem hs.2 hmem) hpath (hspared.tail hv₁ hw)

/-- **What the source holds is found**, where nothing of it is set as a prototype and no copy changes it. By
induction on the path.
Kind: P -/
theorem found_of_not_loses {ms : List (JsString × JsonValue N)} (hs : (JsonValue.obj ms).Proper)
    {o : LiveObject N} (h : ¬ Loses num o (.obj ms)) (hsame : ¬ Changes num o (.obj ms))
    (hw : valueAt (.obj ms) path = some w) (hleaf : isObject w = false) :
    valueAt (deepMerge num o (.obj ms)).toJson path = some w := by
  induction path generalizing o ms with
  | nil =>
      obtain rfl := Option.some.inj hw
      exact absurd hleaf (by simp [isObject])
  | cons k path ih =>
      rw [valueAt_cons, member_obj] at hw
      obtain ⟨v, hv, hpath⟩ := Option.bind_eq_some_iff.mp hw
      have hmem := OwnProperties.mem_of_get hv
      obtain ⟨pre, post, hms, hpre, hpost⟩ := exists_turn hs.1 hmem
      have hown : k = protoName → OwnProperties.get o.own protoName ≠ none := by
        rintro rfl hnone
        exact h (.here hmem hnone ⟨path, w, hpath, hleaf⟩)
      rw [valueAt_cons, member_deepMerge o hms hpre hpost hown, Option.bind_some]
      by_cases hmerged : isObject v = true ∧ met (mergeMembers num (o.clone num) pre) k ≠ none
      · obtain ⟨hobj, hmet⟩ := hmerged
        obtain ⟨old, hmet⟩ := Option.ne_none_iff_exists'.mp hmet
        rw [hmet, mergeOver_some old hobj, toJson_val]
        obtain ⟨members, rfl⟩ := exists_members hobj
        rw [hms] at h hsame
        exact ih (JsonValue.proper_of_mem hs.2 hmem) (fun hloses => h (.under hobj hown hmet hloses))
          (fun hchanges => hsame (.under hobj hown hmet hchanges)) hpath
      · have hold : isObject v = true → met (mergeMembers num (o.clone num) pre) k = none :=
          fun hobj => not_not.mp fun hne => hmerged ⟨hobj, hne⟩
        have hexact : v.clone num = v := by
          by_contra hne
          rw [hms] at hsame
          exact hsame (.copied hown hold hne)
        rw [mergeOver_of_not_merged hold, Live.toJson_ofJson, hexact, hpath]

/-- What is set as a prototype is not found.
Kind: P -/
theorem exists_not_found (h : Loses num o s) (hs : s.Proper) : ∃ path w, valueAt s path = some w ∧
    isObject w = false ∧ valueAt (deepMerge num o s).toJson path = none := by
  induction h with
  | @here target members v hmem hown hleaf =>
      obtain ⟨path, w, hpath, hw⟩ := hleaf
      refine ⟨protoName :: path, w, ?_, hw, ?_⟩
      · rw [valueAt_cons, member_obj, OwnProperties.get_of_mem hs.1 hmem, Option.bind_some, hpath]
      · rw [valueAt_cons, member_deepMerge_proto hs.1 hown, Option.bind_none]
  | @under target old pre post k v hobj hown hold h ih =>
      have hmem : (k, v) ∈ pre ++ (k, v) :: post := by simp
      obtain ⟨path, w, hpath, hw, hnone⟩ := ih (JsonValue.proper_of_mem hs.2 hmem)
      obtain ⟨hpre, hpost⟩ := not_mem_of_turn hs.1
      refine ⟨k :: path, w, ?_, hw, ?_⟩
      · rw [valueAt_cons, member_obj, OwnProperties.get_of_mem hs.1 hmem, Option.bind_some, hpath]
      · rw [valueAt_cons, member_deepMerge target rfl hpre hpost hown, Option.bind_some, hold,
          mergeOver_some old hobj, toJson_val, hnone]

/-- Nor is what a copy changes.
Kind: P -/
theorem exists_changed (h : Changes num o s) (hs : s.Proper) : ∃ path w, valueAt s path = some w ∧
    isObject w = false ∧ valueAt (deepMerge num o s).toJson path ≠ some w := by
  induction h with
  | @copied target pre post k v hown hold hne =>
      have hmem : (k, v) ∈ pre ++ (k, v) :: post := by simp
      obtain ⟨hpre, hpost⟩ := not_mem_of_turn hs.1
      obtain ⟨path, w, hpath, hw, hchanged⟩ : ∃ path w, valueAt v path = some w ∧ isObject w = false ∧
          valueAt (v.clone num) path ≠ some w := by
        cases hobj : isObject v with
        | false => exact ⟨[], v, rfl, hobj, fun h => hne (Option.some.inj h)⟩
        | true =>
            rw [JsonValue.clone_of_isObject hobj] at hne ⊢
            obtain ⟨path, w, hpath, hw, hchanged⟩ :=
              JsonValue.exists_leaf_of_copy_ne (JsonValue.proper_of_mem hs.2 hmem) hne
            refine ⟨path, w, hpath, hw, ?_⟩
            rw [JsonValue.valueAt_copy, hpath]
            exact fun h => hchanged (Option.some.inj h)
      refine ⟨k :: path, w, ?_, hw, ?_⟩
      · rw [valueAt_cons, member_obj, OwnProperties.get_of_mem hs.1 hmem, Option.bind_some, hpath]
      · rw [valueAt_cons, member_deepMerge target rfl hpre hpost hown, Option.bind_some,
          mergeOver_of_not_merged hold, Live.toJson_ofJson]
        exact hchanged
  | @under target old pre post k v hobj hown hold h ih =>
      have hmem : (k, v) ∈ pre ++ (k, v) :: post := by simp
      obtain ⟨path, w, hpath, hw, hne⟩ := ih (JsonValue.proper_of_mem hs.2 hmem)
      obtain ⟨hpre, hpost⟩ := not_mem_of_turn hs.1
      refine ⟨k :: path, w, ?_, hw, ?_⟩
      · rw [valueAt_cons, member_obj, OwnProperties.get_of_mem hs.1 hmem, Option.bind_some, hpath]
      · rw [valueAt_cons, member_deepMerge target rfl hpre hpost hown, Option.bind_some, hold,
          mergeOver_some old hobj, toJson_val]
        exact hne

/-- A source whose members are copied as they are changes nowhere.
Kind: L -/
theorem not_changes_of_clone {members : List (JsString × JsonValue N)}
    (h : ∀ e ∈ members, e.2.clone num = e.2) : ¬ Changes num o (.obj members) := by
  suffices hall : ∀ v, Changes num o v → ∀ members, v = .obj members →
      (∀ e ∈ members, e.2.clone num = e.2) → False from fun hc => hall _ hc members rfl h
  clear h members
  intro v hchanges
  induction hchanges with
  | @copied target pre post k v hown hold hne =>
      rintro members heq h
      obtain rfl := JsonValue.obj.inj heq
      exact hne (h (k, v) (by simp))
  | @under target old pre post k v hobj hown hold hunder ih =>
      rintro members heq h
      obtain rfl := JsonValue.obj.inj heq
      obtain ⟨inner, rfl⟩ := exists_members hobj
      have hcopy : JsonValue.copy num (.obj inner) = .obj inner := h (k, .obj inner) (by simp)
      exact ih inner rfl fun e he => JsonValue.clone_of_copy_eq (JsonValue.copy_eq_of_mem hcopy he)

/-- Where no scalar or array lies under `__proto__`, none is set as a prototype.
Kind: L -/
theorem NoProto.not_loses (h : NoProto s) (hs : s.Proper) : ¬ Loses num o s := by
  intro hloses
  induction hloses with
  | @here target members v hmem hown hleaf =>
      obtain ⟨path, w, hpath, hw⟩ := hleaf
      refine h (protoName :: path) w ?_ hw List.mem_cons_self
      rw [valueAt_cons, member_obj, OwnProperties.get_of_mem hs.1 hmem, Option.bind_some, hpath]
  | @under target old pre post k v hobj hown hold hunder ih =>
      have hmem : (k, v) ∈ pre ++ (k, v) :: post := by simp
      apply ih _ (JsonValue.proper_of_mem hs.2 hmem)
      intro path w hpath hw hproto
      refine h (k :: path) w ?_ hw (List.mem_cons_of_mem _ hproto)
      rw [valueAt_cons, member_obj, OwnProperties.get_of_mem hs.1 hmem, Option.bind_some, hpath]

/-- A target with objects down to a `__proto__` of the source makes it lose what lies under that.
Kind: L -/
theorem loses_nest {rest : List JsString} (hs : s.Proper) (hpath : protoName ∉ path)
    (hw : valueAt s (path ++ protoName :: rest) = some w) (hleaf : isObject w = false) :
    Loses num (ofMembers (nest path)) s := by
  induction path generalizing s with
  | nil =>
      obtain ⟨ms, rfl⟩ := exists_members (isObject_of_valueAt hw)
      rw [List.nil_append, valueAt_cons, member_obj] at hw
      obtain ⟨v, hv, hrest⟩ := Option.bind_eq_some_iff.mp hw
      exact .here (OwnProperties.mem_of_get hv) rfl ⟨rest, w, hrest, hleaf⟩
  | cons k path ih =>
      obtain ⟨hne, hpath'⟩ := not_or.mp fun hm => hpath (List.mem_cons.mpr hm)
      obtain ⟨ms, rfl⟩ := exists_members (isObject_of_valueAt hw)
      rw [List.cons_append, valueAt_cons, member_obj] at hw
      obtain ⟨v, hv, hrest⟩ := Option.bind_eq_some_iff.mp hw
      have hobj : isObject v = true := by
        rcases path with _ | ⟨j, path⟩
        · exact isObject_of_valueAt hrest
        · exact isObject_of_valueAt hrest
      have hmem := OwnProperties.mem_of_get hv
      obtain ⟨pre, post, rfl, hpre, -⟩ := exists_turn hs.1 hmem
      have hinner : Loses num (ofMembers (nest path)) v := ih (JsonValue.proper_of_mem hs.2 hmem) hpath' hrest
      refine .under hobj (fun hk => absurd hk.symm hne) ?_ hinner
      have hcopy : JsonValue.copyMembers num (nest path) = nest path := by
        have hnest := @JsonValue.copy_nest N num path
        rw [JsonValue.copy] at hnest
        exact JsonValue.obj.inj hnest
      have hlive : OwnProperties.get (ofMembers (nest (k :: path) : List (JsString × JsonValue N))).own k =
          some (.ofJson (.obj (nest path))) := by
        rw [get_ofMembers, nest, OwnProperties.get_cons, if_pos rfl, Option.map_some]
      rw [met_of_get hpre hlive, hcopy]

end Laws

/-! ### The laws -/

section Lawful

/-- A merge of a source that has been merged leaves the settings, and says so to the listeners.
Kind: P -/
theorem merge_again {data : LiveObject N} {s : JsonObject N} (h : ¬ Changes num data s.value) :
    merge num (merge num data s.value).1 s.value = ((merge num data s.value).1,
      (merge num data s.value).1.clone num, (merge num data s.value).1.clone num) := by
  have hagain : deepMerge num (deepMerge num data s.value) s.value = deepMerge num data s.value :=
    deepMerge_deepMerge rfl s.proper h
  simp only [merge, hagain]

/-- **Reloading is harmless**, where no copy changes a number: however often a file is merged, the settings are
those of the first time.
Kind: P -/
theorem iterate_merge {data : LiveObject N} {s : JsonObject N} (h : ¬ Changes num data s.value) (n : ℕ) :
    (fun data : LiveObject N => (merge num data s.value).1)^[n + 1] data = (merge num data s.value).1 := by
  induction n with
  | zero => rfl
  | succ n ih => rw [Function.iterate_succ_apply', ih, merge_again h]

/-- What the source leaves alone keeps its value when its numbers do.
Kind: L -/
theorem kept_iff_keepsNumbers (t s : JsonObject N) :
    (∀ path v, valueAt t.value path = some v → Spared t.value s.value path → valueAt s.value path = none →
      valueAt (deepMerge num (settingsOf t) s.value).toJson path = some v) ↔ KeepsNumbers num t s := by
  constructor
  · intro h path n hn hspared hnone hleaf
    have hcopy : valueAt (deepMerge num (settingsOf t) s.value).toJson path = some (n.copy num) :=
      (valueAt_deepMerge s.proper hn hspared).1 hnone
    exact Option.some.inj (hcopy.symm.trans (h path n hn hspared hnone))
  · intro h path v hv hspared hnone
    suffices hexact : v.copy num = v by
      exact ((valueAt_deepMerge s.proper hv hspared).1 hnone).trans (congrArg some hexact)
    by_contra hne
    obtain ⟨rest, n, hn, hleaf, hchanged⟩ :=
      JsonValue.exists_leaf_of_copy_ne (JsonValue.proper_of_valueAt t.proper hv) hne
    apply hchanged
    apply h (path ++ rest) n
    · rw [JsonValue.valueAt_append, hv, Option.bind_some, hn]
    · exact hspared.append hnone rest
    · rw [JsonValue.valueAt_append, hnone, Option.bind_none]
    · exact hleaf

theorem lawful_iff_pair (t s : JsonObject N) : Lawful num t s ↔
    ¬ Loses num (settingsOf t) s.value ∧ ¬ Changes num (settingsOf t) s.value ∧ KeepsNumbers num t s := by
  constructor
  · intro h
    refine ⟨fun hloses => ?_, fun hchanges => ?_, (kept_iff_keepsNumbers t s).mp h.kept⟩
    · obtain ⟨path, w, hpath, hw, hnone⟩ := exists_not_found hloses s.proper
      rw [h.found path w hpath hw] at hnone
      exact absurd hnone (by simp)
    · obtain ⟨path, w, hpath, hw, hne⟩ := exists_changed hchanges s.proper
      exact hne (h.found path w hpath hw)
  · rintro ⟨hloses, hchanges, hkeeps⟩
    refine ⟨deepMerge_deepMerge rfl s.proper hchanges, (kept_iff_keepsNumbers t s).mpr hkeeps, ?_, ?_⟩
    · intro path v w hv hspared hw
      exact (valueAt_deepMerge s.proper hv hspared).2 w hw
    · intro path w hw hleaf
      exact found_of_not_loses s.proper hloses hchanges hw hleaf

/-- Settings with a member `__proto__`, which keeps the prototype as it is.
Kind: D -/
def ownProto : JsonObject N :=
  ⟨[(protoName, .obj [])], List.nodup_singleton _, ⟨List.nodup_nil, trivial⟩, trivial⟩

theorem copy_ownProto : (ownProto : JsonObject N).value.copy num = ownProto.value :=
  JsonValue.copy_nest [protoName]

/-- Other names are not found in them.
Kind: L -/
theorem met_ownProto {pre : List (JsString × JsonValue N)} {k : JsString} (hk : k ≠ protoName)
    (hpre : k ∉ pre.map Prod.fst) :
    met (mergeMembers num ((settingsOf ownProto).clone num) pre) k = none := by
  have hget : ∀ j, OwnProperties.get ((settingsOf (ownProto : JsonObject N)).clone num).own j =
      if j = protoName then some (Live.ofJson (.obj [])) else none := by
    intro j
    rw [get_clone, settingsOf, get_ofMembers, ownProto, OwnProperties.get_cons]
    dsimp only
    by_cases hj : j = protoName
    · rw [if_pos hj.symm, if_pos hj]
      rfl
    · rw [if_neg (Ne.symm hj), if_neg hj]
      rfl
  have hown : OwnProperties.get (mergeMembers num ((settingsOf ownProto).clone num) pre).own k = none := by
    rw [get_mergeMembers_of_not_mem hpre, hget, if_neg hk]
  have hproto : (mergeMembers num ((settingsOf (ownProto : JsonObject N)).clone num) pre).proto =
      .objectPrototype := by
    rw [proto_mergeMembers_of_get]
    · rfl
    · rw [hget, if_pos rfl]
      exact Option.some_ne_none _
  rw [met, LiveObject.read, hown, hproto]
  simp [Live.inherited, hk]

theorem forall_lawful_iff (s : JsonObject N) :
    (∀ t : JsonObject N, t.value.copy num = t.value → Lawful num t s) ↔
      NoProto s.value ∧ ∀ e ∈ s.members, e.2.clone num = e.2 := by
  constructor
  · intro h
    have hproto : NoProto s.value := by
      intro path w hw hleaf hproto
      -- the first `__proto__` on the way
      obtain ⟨front, rest, rfl, hfront⟩ := List.eq_append_cons_of_mem hproto
      have hloses : Loses num (LiveObject.ofMembers (nest front)) s.value :=
        loses_nest s.proper hfront hw hleaf
      exact ((lawful_iff_pair ⟨nest front, proper_nest front⟩ s).mp (h _ (JsonValue.copy_nest front))).1 hloses
    refine ⟨hproto, ?_⟩
    rintro ⟨k, v⟩ he
    by_contra hne
    by_cases hk : k = protoName
    · subst hk
      have hleaf : HasLeaf v := by
        cases hobj : isObject v with
        | false => exact ⟨[], v, rfl, hobj⟩
        | true =>
            dsimp only at hne
            rw [JsonValue.clone_of_isObject hobj] at hne
            obtain ⟨path, w, hpath, hw, -⟩ :=
              JsonValue.exists_leaf_of_copy_ne (JsonValue.proper_of_mem s.proper.2 he) hne
            exact ⟨path, w, hpath, hw⟩
      obtain ⟨path, w, hpath, hw⟩ := hleaf
      refine hproto (protoName :: path) w ?_ hw List.mem_cons_self
      rw [JsonObject.value, valueAt_cons, member_obj, OwnProperties.get_of_mem s.proper.1 he, Option.bind_some,
        hpath]
    · obtain ⟨pre, post, hms, hpre, -⟩ := exists_turn s.proper.1 he
      have hchanges : Changes num (settingsOf ownProto) s.value := by
        rw [JsonObject.value, hms]
        exact .copied (fun h => absurd h hk) (fun _ => met_ownProto hk hpre) hne
      exact ((lawful_iff_pair ownProto s).mp (h _ copy_ownProto)).2.1 hchanges
  · rintro ⟨hproto, hclone⟩ t ht
    refine (lawful_iff_pair t s).mpr ⟨hproto.not_loses s.proper, not_changes_of_clone hclone, ?_⟩
    intro path n hn _ _ _
    have hcopy := @JsonValue.valueAt_copy N num t.value path
    rw [ht, hn, Option.map_some] at hcopy
    exact (Option.some.inj hcopy).symm

/-- **The laws of merging** hold of a target and a source exactly when no scalar or array of the source is set as a
prototype, no copy changes a number of the source where it is found, and none one of the target that the source
leaves alone. They hold of a source with every target that is copied as it is exactly when no scalar or array of
the source lies under a name `__proto__` and its members are copied as they are.
Kind: P -/
theorem lawful_iff (num : NumberTexts N) :
    (∀ t s : JsonObject N, Lawful num t s ↔
      ¬ Loses num (settingsOf t) s.value ∧ ¬ Changes num (settingsOf t) s.value ∧ KeepsNumbers num t s) ∧
    ∀ s : JsonObject N, (∀ t : JsonObject N, t.value.copy num = t.value → Lawful num t s) ↔
      NoProto s.value ∧ ∀ e ∈ s.members, e.2.clone num = e.2 :=
  ⟨lawful_iff_pair, forall_lawful_iff⟩

/-- A number too large in an object, merged once and merged twice.
Kind: P -/
theorem not_lawful_infinite : ¬ ∀ t s : JsonObject (Option ℕ), Lawful NumberTexts.natOrInfinite t s := by
  intro h
  let t : JsonObject (Option ℕ) := ⟨[], List.nodup_nil, trivial⟩
  let s : JsonObject (Option ℕ) := ⟨[(js "b", .obj [(js "c", .num none)])], List.nodup_singleton _,
    ⟨List.nodup_singleton _, trivial, trivial⟩, trivial⟩
  let path := [js "b", js "c"]
  have honce : valueAt (deepMerge NumberTexts.natOrInfinite (settingsOf t) s.value).toJson path =
      some .null := rfl
  have htwice : valueAt (deepMerge NumberTexts.natOrInfinite
      (deepMerge NumberTexts.natOrInfinite (settingsOf t) s.value) s.value).toJson path =
      some (.num none) := rfl
  rw [(h t s).idempotent, honce] at htwice
  exact absurd htwice (by simp)

/-- A number under `__proto__` is not found in the settings.
Kind: P -/
theorem not_lawful_proto : ¬ ∀ t s : JsonObject ℕ, Lawful Numerals.nat.toNumberTexts t s := by
  intro h
  let t : JsonObject ℕ := ⟨[], List.nodup_nil, trivial⟩
  let s : JsonObject ℕ := ⟨[(protoName, .num 1)], List.nodup_singleton _, trivial, trivial⟩
  have hnone : valueAt (deepMerge Numerals.nat.toNumberTexts (settingsOf t) s.value).toJson [protoName] =
      none := rfl
  rw [(h t s).found [protoName] (.num 1) rfl rfl] at hnone
  exact absurd hnone (by simp)

end Lawful

end TyoMq.Config
