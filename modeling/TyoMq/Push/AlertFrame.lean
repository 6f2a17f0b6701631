import TyoMq.Lib.JsObject
import TyoMq.Push.Payload

/-!
# What an alert wake shows

The alert copy of a realm is free-form JSON. `normalizeWakeAlert` of `lib/push.js` bounds it when it is
stored and again on its way to a phone, and `buildApnsFrame` puts its markers beside the fields of its own.

* Copy within its bounds is left as it is (`normalizeWakeAlert_of_bounded`), whatever the realm, and what
  comes out is within them (`bounded_normalizeWakeAlert`). Names are looked at before they are cut, but no
  name gets to be a forbidden one by that (`marker_take`).
* **Nothing leaks** (`wakeAlert_safe`): normalising twice is normalising once, the frame has no forbidden
  name at its top level, and its own fields are the builder's.
-/

namespace TyoMq.Push

open TyoMq.Lib

variable {N : Type*}

/-! ### Copy as JSON -/

section Copy

variable (string : JsonValue N → JsString)

/-- `String(v)`, and `none` for `null`. What it makes of numbers, arrays and objects is a parameter.
Kind: D -/
def copyText : JsonValue N → Option JsString
  | .null => none
  | .str s => some s
  | .bool b => some (if b then js "true" else js "false")
  | v => some (string v)

/-- The text of a marker, `none` for a value that is no string, number or boolean.
Source: `lib/push.js`, `normalizeWakeAlert`, line 187
Kind: D -/
def markerText : JsonValue N → Option JsString
  | .null | .arr _ | .obj _ => none
  | v => copyText string v

/-- What is read of a configuration, `none` when it is no object. The members of an object stand in the
order of `Object.keys`.
Source: `lib/push.js`, `normalizeWakeAlert`
Kind: D -/
def alertCopy : JsonValue N → Option AlertCopy
  | .obj members =>
      let text (name : JsString) := ((JsonValue.obj members).member name).bind (copyText string)
      some
        { title := text (js "title")
          body := text (js "body")
          collapse_id := text (js "collapse_id")
          thread_id := text (js "thread_id")
          extra :=
            match (JsonValue.obj members).member (js "extra") with
            | some (.obj markers) => markers.map fun e => (e.1, markerText string e.2)
            | _ => [] }
  | _ => none

/-- The copy as the configuration that it is the next time.
Source: `lib/push.js`, `normalizeWakeAlert`
Kind: D -/
def WakeAlert.value (a : WakeAlert) : JsonValue N :=
  .obj [(js "title", .str a.title), (js "body", .str a.body), (js "collapse_id", .str a.collapse_id),
    (js "thread_id", .str a.thread_id),
    (js "extra", .obj (a.extra.entries.map fun e => (e.1, .str e.2)))]

end Copy

/-! ### The frame -/

/-- The request that APNs gets, with the id that it collapses by.
Source: `lib/push.js`, `buildApnsFrame`
Kind: D -/
structure AlertFrame extends ApnsFrame where
  /-- `apns-collapse-id`. -/
  collapseId : JsString

/-- Is the name an array index? Such properties are enumerated first.
Kind: D -/
def isArrayIndex (k : JsString) : Bool := (readDecimal k).any fun n => n < 2 ^ 32 - 1

/-- The properties of an object in the order of `Object.keys`, where its array indices have been assigned
in ascending order.
Kind: D -/
def enumerated {ν : Type*} (o : JsObject ν) : List (JsString × ν) :=
  (o.own.entries.filter fun e => isArrayIndex e.1) ++ o.own.entries.filter fun e => !isArrayIndex e.1

/-- `aps` of an alert wake.
Source: `lib/push.js`, `buildApnsFrame`, lines 1077-1086
Kind: D -/
def alertAps (a : WakeAlert) : JsonValue ℕ :=
  .obj
    [(js "alert", .obj ((js "title", .str a.title) :: field (js "body") (ifText a.body))),
      (js "sound", .str (js "default")), (js "mutable-content", .num 1), (js "content-available", .num 1),
      (js "thread-id", .str a.thread_id)]

/-- The object of an alert wake.
Source: `lib/push.js`, `buildApnsFrame`, lines 1079-1090
Kind: D -/
def alertObject (a : WakeAlert) : JsObject (JsonValue ℕ) :=
  let frameObj : JsObject (JsonValue ℕ) :=
    ((JsObject.empty.assign (js "aps") (alertAps a)).assign (js "type") (.str (js "wake"))).assign
      (js "kind") (.str (js "alert"))
  frameObj.assignAll (a.extra.entries.map fun e => (e.1, .str e.2))

/-- The frame of an alert wake.
Source: `lib/push.js`, `buildApnsFrame`, lines 1076-1096
Kind: D -/
def buildAlertFrame (alert : Option AlertCopy) : AlertFrame :=
  let a := normalizeWakeAlert alert none
  { body := JsonValue.stringify Numerals.nat (.obj (enumerated (alertObject a)))
    pushType := js "alert"
    priority := js "10"
    expiration := js "0"
    collapseId := a.collapse_id }

/-! ### Bounds -/

/-- A name that a marker may have in a frame, and a text.
Kind: D -/
def IsMarker (k v : JsString) : Prop :=
  k.length ≤ WAKE_ALERT_MAX_ID ∧ v.length ≤ WAKE_ALERT_MAX_ID ∧ k ≠ js "aps" ∧ k ≠ js "type" ∧
    k ≠ js "kind" ∧ k ∉ FORBIDDEN_WAKE_KEYS ∧ k ≠ protoName

/-- Copy within its bounds.
Kind: D -/
structure WakeAlert.Bounded (a : WakeAlert) : Prop where
  /-- There is a title. -/
  title_ne_nil : a.title ≠ []
  /-- It is bounded. -/
  title : a.title.length ≤ WAKE_ALERT_MAX_TEXT
  /-- So is the body. -/
  body : a.body.length ≤ WAKE_ALERT_MAX_TEXT
  /-- There is something that it replaces. -/
  collapse_id_ne_nil : a.collapse_id ≠ []
  /-- It is bounded. -/
  collapse_id : a.collapse_id.length ≤ WAKE_ALERT_MAX_ID
  /-- There is something that it is grouped by. -/
  thread_id_ne_nil : a.thread_id ≠ []
  /-- It is bounded. -/
  thread_id : a.thread_id.length ≤ WAKE_ALERT_MAX_ID
  /-- The markers are bounded. -/
  extra : ∀ e ∈ a.extra.entries, IsMarker e.1 e.2
  /-- There are few of them. -/
  size : a.extra.size ≤ WAKE_ALERT_MAX_EXTRA

section Bounds

variable {s fallback k v : JsString} {n : ℕ} {a : WakeAlert}

theorem length_clip (text : Option JsString) (n : ℕ) : (clip text n).length ≤ n := by
  unfold clip
  rw [List.length_take]
  exact Nat.min_le_left n _

theorem clip_of_length_le (h : s.length ≤ n) : clip (some s) n = s := List.take_of_length_le h

theorem orElse_of_ne_nil (h : s ≠ []) : orElse s fallback = s := if_neg h

theorem orElse_ne_nil (h : fallback ≠ []) : orElse s fallback ≠ [] := by
  unfold orElse
  split_ifs with hs
  · exact h
  · exact hs

theorem length_orElse (hs : s.length ≤ n) (h : fallback.length ≤ n) : (orElse s fallback).length ≤ n := by
  unfold orElse
  split_ifs
  · exact h
  · exact hs

/-- A name that is not taken is not taken when it is cut: the names that are taken are short.
Kind: L -/
theorem marker_take (hk : ¬(k = js "aps" ∨ k = js "type" ∨ k = js "kind" ∨
    FORBIDDEN_WAKE_KEYS.contains k = true)) (hproto : k.take WAKE_ALERT_MAX_ID ≠ protoName) (v : JsString) :
    IsMarker (k.take WAKE_ALERT_MAX_ID) (v.take WAKE_ALERT_MAX_ID) := by
  have hshort : ∀ name : JsString, name.length < WAKE_ALERT_MAX_ID → k ≠ name →
      k.take WAKE_ALERT_MAX_ID ≠ name := by
    intro name hname hne heq
    by_cases hlong : k.length ≤ WAKE_ALERT_MAX_ID
    · exact hne ((List.take_of_length_le hlong).symm.trans heq)
    · have hlength := congrArg List.length heq
      rw [List.length_take] at hlength
      omega
  have hforbidden : ∀ name ∈ FORBIDDEN_WAKE_KEYS, name.length < WAKE_ALERT_MAX_ID := by decide
  obtain ⟨haps, hrest⟩ := not_or.mp hk
  obtain ⟨htype, hrest⟩ := not_or.mp hrest
  obtain ⟨hkind, hnot⟩ := not_or.mp hrest
  refine ⟨?_, ?_, hshort _ (by decide) haps, hshort _ (by decide) htype, hshort _ (by decide) hkind, ?_,
    hproto⟩
  · rw [List.length_take]
    exact Nat.min_le_left _ _
  · rw [List.length_take]
    exact Nat.min_le_left _ _
  · intro hmem
    have hne : k ≠ k.take WAKE_ALERT_MAX_ID := by
      intro heq
      rw [← heq] at hmem
      exact hnot (List.contains_iff_mem.mpr hmem)
    exact hshort _ (hforbidden _ hmem) hne rfl

/-- What is put into the frame is a marker.
Kind: L -/
theorem isMarker_addMarker {out : JsMap JsString JsString} (h : ∀ e ∈ out.entries, IsMarker e.1 e.2)
    (e : JsString × Option JsString) : ∀ e' ∈ (addMarker out e).entries, IsMarker e'.1 e'.2 := by
  intro e' he'
  unfold addMarker at he'
  split_ifs at he' with htaken
  · exact h e' he'
  · rcases htext : e.2 with _ | v
    · rw [htext] at he'
      exact h e' he'
    · rw [htext] at he'
      dsimp only at he'
      split_ifs at he' with hproto
      · exact h e' he'
      · rcases JsMap.mem_entries_set.mp he' with ⟨hk, hv⟩ | ⟨-, hold⟩
        · rw [hk, hv]
          exact marker_take htaken hproto v
        · exact h e' hold

theorem size_addMarker_le (out : JsMap JsString JsString) (e : JsString × Option JsString) :
    (addMarker out e).size ≤ out.size + 1 := by
  unfold addMarker
  split_ifs
  · exact Nat.le_succ _
  · rcases e.2 with _ | v
    · exact Nat.le_succ _
    · dsimp only
      split_ifs
      · exact Nat.le_succ _
      · exact JsMap.size_set_le ..

/-- A marker is put into the frame as it is.
Kind: L -/
theorem addMarker_of_isMarker (h : IsMarker k v) (out : JsMap JsString JsString) :
    addMarker out (k, some v) = out.set k v := by
  obtain ⟨hk, hv, haps, htype, hkind, hforbidden, hproto⟩ := h
  have htaken : ¬(k = js "aps" ∨ k = js "type" ∨ k = js "kind" ∨
      FORBIDDEN_WAKE_KEYS.contains k = true) := by
    rintro (h | h | h | h)
    · exact haps h
    · exact htype h
    · exact hkind h
    · exact hforbidden (List.contains_iff_mem.mp h)
  unfold addMarker
  dsimp only
  rw [if_neg htaken, List.take_of_length_le hk, List.take_of_length_le hv]
  exact if_neg hproto

theorem isMarker_foldl {l : List (JsString × Option JsString)} {out : JsMap JsString JsString}
    (h : ∀ e ∈ out.entries, IsMarker e.1 e.2) :
    ∀ e ∈ (l.foldl addMarker out).entries, IsMarker e.1 e.2 := by
  induction l generalizing out with
  | nil => exact h
  | cons e l ih => exact ih (isMarker_addMarker h e)

theorem size_foldl_le (l : List (JsString × Option JsString)) (out : JsMap JsString JsString) :
    (l.foldl addMarker out).size ≤ out.size + l.length := by
  induction l generalizing out with
  | nil => exact le_rfl
  | cons e l ih =>
      have hone := size_addMarker_le out e
      have hrest := ih (addMarker out e)
      rw [List.foldl_cons, List.length_cons]
      omega

/-- Markers are collected as they are.
Kind: L -/
theorem foldl_addMarker (m : JsMap JsString JsString) (h : ∀ e ∈ m.entries, IsMarker e.1 e.2) :
    (m.entries.map fun e => (e.1, some e.2)).foldl addMarker JsMap.empty = m := by
  have hfold : ∀ (l : List (JsString × JsString)) (out : JsMap JsString JsString),
      (∀ e ∈ l, IsMarker e.1 e.2) → ((l.map fun e => (e.1, some e.2)).foldl addMarker out).entries =
        l.foldl (fun entries e => JsMap.setEntries entries e.1 e.2) out.entries := by
    intro l
    induction l with
    | nil => exact fun _ _ => rfl
    | cons e l ih =>
        intro out hl
        rw [List.map_cons, List.foldl_cons, List.foldl_cons,
          addMarker_of_isMarker (hl e List.mem_cons_self),
          ih _ fun e' he' => hl e' (List.mem_cons_of_mem _ he')]
        rfl
  apply JsMap.ext
  rw [hfold m.entries JsMap.empty h]
  exact JsonValue.foldl_setEntries m.entries [] m.nodup

/-- What comes out is within its bounds.
Kind: L -/
theorem bounded_normalizeWakeAlert (alert : Option AlertCopy) (realm : Option JsString) :
    (normalizeWakeAlert alert realm).Bounded := by
  have hwake : js "wake" ≠ [] := by decide
  have hrealm : (orElse (clip realm WAKE_ALERT_MAX_ID) (js "wake")).length ≤ WAKE_ALERT_MAX_ID :=
    length_orElse (length_clip _ _) (by decide)
  unfold normalizeWakeAlert
  refine ⟨orElse_ne_nil (by decide), length_orElse (length_clip _ _) (by decide), length_clip _ _,
    orElse_ne_nil (orElse_ne_nil hwake), length_orElse (length_clip _ _) hrealm,
    orElse_ne_nil (orElse_ne_nil hwake), length_orElse (length_clip _ _) hrealm, ?_, ?_⟩
  · apply isMarker_foldl
    rintro e ⟨⟩
  · refine (size_foldl_le _ _).trans ?_
    rw [List.length_take]
    exact (Nat.zero_add _).trans_le (Nat.min_le_left _ _)

theorem alertCopy_value (string : JsonValue N → JsString) (a : WakeAlert) :
    alertCopy string a.value = some ⟨some a.title, some a.body, some a.collapse_id, some a.thread_id,
      a.extra.entries.map fun e => (e.1, some e.2)⟩ := by
  have hextra : (a.extra.entries.map fun e => (e.1, (JsonValue.str e.2 : JsonValue N))).map
      (fun e => (e.1, markerText string e.2)) = a.extra.entries.map fun e => (e.1, some e.2) := by
    rw [List.map_map]
    rfl
  rw [← hextra]
  rfl

/-- **Copy within its bounds is left as it is**, whatever the realm.
Kind: L -/
theorem normalizeWakeAlert_of_bounded (string : JsonValue N → JsString) (h : a.Bounded)
    (realm : Option JsString) : normalizeWakeAlert (alertCopy string a.value) realm = a := by
  have hextra : ((a.extra.entries.map fun e => (e.1, some e.2)).take WAKE_ALERT_MAX_EXTRA).foldl
      addMarker JsMap.empty = a.extra := by
    rw [List.take_of_length_le (by rw [List.length_map]; exact h.size)]
    exact foldl_addMarker a.extra h.extra
  rw [alertCopy_value]
  unfold normalizeWakeAlert
  dsimp only [Option.getD_some]
  rw [clip_of_length_le h.title, clip_of_length_le h.body, clip_of_length_le h.collapse_id,
    clip_of_length_le h.thread_id, orElse_of_ne_nil h.title_ne_nil, orElse_of_ne_nil h.collapse_id_ne_nil,
    orElse_of_ne_nil h.thread_id_ne_nil, hextra]

end Bounds

/-! ### What the frame has -/

section Frame

variable {a : WakeAlert} {k name : JsString} {v : JsonValue ℕ}

/-- An object and its properties as they are enumerated have the same members.
Kind: L -/
theorem member_enumerated (o : JsObject (JsonValue N)) (name : JsString) :
    (JsonValue.obj (enumerated o)).member name = o.own.get name := by
  have hsplit : (enumerated o).find? (fun e => e.1 = name) = o.own.entries.find? fun e => e.1 = name := by
    unfold enumerated
    rw [List.find?_append, List.find?_filter, List.find?_filter]
    have hboth : ∀ (e : JsString × JsonValue N) (b : JsString → Bool),
        (b e.1 = true ∧ e.1 = name) ↔ (b name = true ∧ e.1 = name) := by
      intro e b
      exact and_congr_left fun he => by rw [he]
    simp only [decide_eq_true_eq, hboth _ isArrayIndex, hboth _ fun k => !isArrayIndex k]
    have hnone : o.own.entries.find? (fun _ => false) = none := List.find?_eq_none.mpr (by simp)
    cases isArrayIndex name
    · simp [hnone]
    · simp [hnone]
  show ((enumerated o).find? fun e => e.1 = name).map Prod.snd = _
  rw [hsplit]
  rfl

theorem perm_enumerated {ν : Type*} (o : JsObject ν) : (enumerated o).Perm o.own.entries := by
  unfold enumerated
  exact List.filter_append_perm _ _

theorem proper_enumerated {o : JsObject (JsonValue N)} (h : ∀ k v, o.own.get k = some v → v.Proper) :
    (JsonValue.obj (enumerated o)).Proper := by
  refine ⟨((perm_enumerated o).map Prod.fst).nodup_iff.mpr o.own.nodup,
    JsonValue.membersProper_of_forall fun e he => ?_⟩
  exact h e.1 e.2 (JsMap.mem_entries_iff.mp ((perm_enumerated o).mem_iff.mp he))

/-- The fields that the builder sets.
Kind: D -/
def builderField (a : WakeAlert) (name : JsString) : Option (JsonValue ℕ) :=
  if name = js "kind" then some (.str (js "alert"))
  else if name = js "type" then some (.str (js "wake"))
  else if name = js "aps" then some (alertAps a)
  else none

theorem get_builderFields (a : WakeAlert) (name : JsString) :
    (((JsObject.empty.assign (js "aps") (alertAps a)).assign (js "type") (.str (js "wake"))).assign
      (js "kind") (.str (js "alert"))).own.get name = builderField a name := by
  have haps : js "aps" ≠ protoName := by decide
  have htype : js "type" ≠ protoName := by decide
  have hkind : js "kind" ≠ protoName := by decide
  rw [JsObject.get_own_assign, JsObject.get_own_assign, JsObject.get_own_assign, JsObject.get_own_empty]
  simp only [haps, htype, hkind, ne_eq, not_false_eq_true, and_true]
  rfl

/-- A field of the frame that is no marker is one that the builder sets.
Kind: L -/
theorem get_alertObject (a : WakeAlert) (hname : ∀ v, (name, v) ∉ a.extra.entries)
    (hproto : name ≠ protoName) : (alertObject a).own.get name = builderField a name := by
  have hkeys : name ∉
      (a.extra.entries.map fun e => (e.1, (JsonValue.str e.2 : JsonValue ℕ))).map Prod.fst := by
    intro hmem
    rw [List.map_map] at hmem
    obtain ⟨e, he, rfl⟩ := List.mem_map.mp hmem
    exact hname e.2 he
  have hlast : ∀ v, (name, v) ∉ lastWins (a.extra.entries.map fun e =>
      (e.1, (JsonValue.str e.2 : JsonValue ℕ))) := fun v hv =>
    hkeys (List.mem_map.mpr ⟨_, mem_of_mem_lastWins hv, rfl⟩)
  rw [← get_builderFields]
  apply Option.ext
  intro v
  unfold alertObject
  dsimp only
  rw [JsObject.get_own_assignAll_iff]
  constructor
  · rintro ⟨-, hmem | ⟨-, hget⟩⟩
    · exact absurd hmem (hlast v)
    · exact hget
  · exact fun hget => ⟨hproto, Or.inr ⟨hkeys, hget⟩⟩

theorem proper_alertAps (a : WakeAlert) : (alertAps a).Proper := by
  have halert : (JsonValue.obj ((js "title", .str a.title) :: field (js "body") (ifText a.body)) :
      JsonValue ℕ).Proper := by
    unfold field
    rcases ifText a.body with _ | body
    · exact ⟨List.nodup_singleton _, trivial, trivial⟩
    · refine ⟨?_, trivial, trivial, trivial⟩
      show [js "title", js "body"].Nodup
      decide
  refine ⟨?_, halert, trivial, trivial, trivial, trivial, trivial⟩
  show [js "alert", js "sound", js "mutable-content", js "content-available", js "thread-id"].Nodup
  decide

/-- The properties of the frame have distinct names throughout.
Kind: L -/
theorem proper_of_get_alertObject (hget : (alertObject a).own.get name = some v) : v.Proper := by
  rcases JsObject.get_own_assignAll hget with hget | hmarker
  · rw [get_builderFields] at hget
    unfold builderField at hget
    split_ifs at hget
    · obtain rfl := Option.some.inj hget
      exact trivial
    · obtain rfl := Option.some.inj hget
      exact trivial
    · obtain rfl := Option.some.inj hget
      exact proper_alertAps a
  · obtain ⟨e, -, heq⟩ := List.mem_map.mp hmarker
    obtain ⟨-, rfl⟩ := Prod.mk.inj heq
    exact trivial

/-- **What an alert wake shows**, whatever the configuration: normalising it again changes nothing, it is
within its bounds, and the frame that is made of it has no forbidden name at its top level and the
builder's own fields.
Source: `lib/push.js`, `normalizeWakeAlert`, `buildApnsFrame`
Kind: P -/
theorem wakeAlert_safe (string : JsonValue N → JsString) (alert : JsonValue N)
    (r r' : Option JsString) :
    normalizeWakeAlert (alertCopy string (normalizeWakeAlert (alertCopy string alert) r).value) r' =
        normalizeWakeAlert (alertCopy string alert) r ∧
      (normalizeWakeAlert (alertCopy string alert) r).Bounded ∧
      ∃ members, JsonValue.parse Numerals.nat.read (buildAlertFrame (alertCopy string alert)).body =
          some (.obj members) ∧
        (∀ name ∈ FORBIDDEN_WAKE_KEYS, name ∉ members.map Prod.fst) ∧
        (JsonValue.obj members).member (js "aps") =
          some (alertAps (normalizeWakeAlert (alertCopy string alert) none)) ∧
        (JsonValue.obj members).member (js "type") = some (.str (js "wake")) ∧
        (JsonValue.obj members).member (js "kind") = some (.str (js "alert")) := by
  have hbounded := bounded_normalizeWakeAlert (alertCopy string alert) r
  set a := normalizeWakeAlert (alertCopy string alert) none with ha
  have hmarker : ∀ e ∈ a.extra.entries, IsMarker e.1 e.2 :=
    (bounded_normalizeWakeAlert (alertCopy string alert) none).extra
  have hparse : JsonValue.parse Numerals.nat.read (buildAlertFrame (alertCopy string alert)).body =
      some (.obj (enumerated (alertObject a))) :=
    JsonValue.parse_stringify_exact (proper_enumerated fun _ _ hget => proper_of_get_alertObject hget)
  refine ⟨normalizeWakeAlert_of_bounded string hbounded r', hbounded, enumerated (alertObject a), hparse,
    ?_, ?_, ?_, ?_⟩
  · intro name hname hmem
    have hbuilder : ∀ name ∈ FORBIDDEN_WAKE_KEYS, name ≠ js "kind" ∧ name ≠ js "type" ∧
        name ≠ js "aps" ∧ name ≠ protoName := by decide
    obtain ⟨hkind, htype, haps, hproto⟩ := hbuilder name hname
    have hnone : (alertObject a).own.get name = none := by
      rw [get_alertObject a (fun v hv => (hmarker _ hv).2.2.2.2.2.1 hname) hproto, builderField,
        if_neg hkind, if_neg htype, if_neg haps]
    rw [JsMap.get_eq_none_iff] at hnone
    exact hnone (((perm_enumerated (alertObject a)).map Prod.fst).mem_iff.mp hmem)
  · have hfree : ∀ v, (js "aps", v) ∉ a.extra.entries := fun v hv => (hmarker _ hv).2.2.1 rfl
    rw [member_enumerated, get_alertObject a hfree (by decide)]
    rfl
  · have hfree : ∀ v, (js "type", v) ∉ a.extra.entries := fun v hv => (hmarker _ hv).2.2.2.1 rfl
    rw [member_enumerated, get_alertObject a hfree (by decide)]
    rfl
  · have hfree : ∀ v, (js "kind", v) ∉ a.extra.entries := fun v hv => (hmarker _ hv).2.2.2.2.1 rfl
    rw [member_enumerated, get_alertObject a hfree (by decide)]
    rfl

end Frame

end TyoMq.Push
