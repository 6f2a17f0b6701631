import TyoMq.Notify.Message
import TyoMq.Push.Payload

/-!
# The buttons of a notification

`validateActions` of `lib/notify.js`: what a publisher has sent as `actions`, any JSON value, becomes a list
of objects of a fixed form, or the reason why it does not.

* The form is that of an `Action`, whose bounds are those of `Action.Safe`. What is accepted is what says a
  safe action in each of its items (`validateActions_ok`), and nothing else comes out.
* The result is a fixed point, and `JSON.parse` reads it back from the payload of a push
  (`validateActions_normal`).
* A method is compared in upper case, and fields that are not those of the action are dropped.
-/

namespace TyoMq.Notify

open TyoMq.Lib

variable {N : Type}

/-! ### Validation -/

/-- `MAX_ACTIONS`.
Kind: D -/
def MAX_ACTIONS : ℕ := 6

/-- `MAX_ACTION_LABEL`.
Kind: D -/
def MAX_ACTION_LABEL : ℕ := 64

/-- `MAX_ACTION_URL`.
Kind: D -/
def MAX_ACTION_URL : ℕ := 2048

/-- `MAX_ACTION_BODY`.
Kind: D -/
def MAX_ACTION_BODY : ℕ := 1024

/-- `MAX_ACTION_HEADERS`.
Kind: D -/
def MAX_ACTION_HEADERS : ℕ := 8

/-- `MAX_ACTION_HEADER_LEN`.
Kind: D -/
def MAX_ACTION_HEADER_LEN : ℕ := 256

/-- Source: `lib/notify.js`, `ACTION_METHODS`
Kind: D -/
def ACTION_METHODS : List JsString := [js "GET", js "POST", js "PUT", js "DELETE"]

/-- The upper case of a letter, where it consists of ASCII letters. Of any other letter there is something
that is not ASCII in the upper case, and so there is in what this makes of it.
Kind: D -/
def upperLetter (u : UInt16) : JsString :=
  if unit 'a' ≤ u ∧ u ≤ unit 'z' then [u - 32]
  else if u = 0xDF then js "SS"
  else if u = 0x131 then js "I"
  else if u = 0x17F then js "S"
  else if u = 0xFB00 then js "FF"
  else if u = 0xFB01 then js "FI"
  else if u = 0xFB02 then js "FL"
  else if u = 0xFB03 then js "FFI"
  else if u = 0xFB04 then js "FFL"
  else if u = 0xFB05 ∨ u = 0xFB06 then js "ST"
  else [u]

/-- `s.toUpperCase()`, as far as it matters whether it is a given text of ASCII letters.
Kind: D -/
def upperCase (s : JsString) : JsString := s.flatMap upperLetter

/-- The error of an action.
Kind: D -/
def fail {α : Type*} (i : ℕ) (reason : JsString) : Except JsString α :=
  .error (js "action " ++ toRadix 10 i ++ js ": " ++ reason)

/-- A cap as it stands at the end of an error.
Kind: D -/
def cap (n : ℕ) : JsString := js " (max " ++ toRadix 10 n ++ js ")"

/-- A field that has to be a string for which something holds.
Kind: D -/
def stringField (name : JsString) (valid : JsString → Bool) (reason : JsString) (i : ℕ) (a : JsonValue N) :
    Except JsString JsString :=
  match a.member name with
  | some (.str s) => if valid s then .ok s else fail i reason
  | _ => fail i reason

/-- `a.action`.
Source: `lib/notify.js`, `validateActions`
Kind: D -/
def kindField : ℕ → JsonValue N → Except JsString JsString :=
  stringField (js "action") (fun s => s = js "http" ∨ s = js "view") (js "type must be 'http' or 'view'")

/-- `a.label`.
Source: `lib/notify.js`, `validateActions`
Kind: D -/
def labelField : ℕ → JsonValue N → Except JsString JsString :=
  stringField (js "label") (fun s => s ≠ [] ∧ s.length ≤ MAX_ACTION_LABEL)
    (js "label required" ++ cap MAX_ACTION_LABEL)

/-- `a.url`.
Source: `lib/notify.js`, `validateActions`
Kind: D -/
def urlField : ℕ → JsonValue N → Except JsString JsString :=
  stringField (js "url") (fun s => (js "https://").isPrefixOf s ∧ s.length ≤ MAX_ACTION_URL)
    (js "url must be https" ++ cap MAX_ACTION_URL)

/-- `a.method`, in upper case.
Source: `lib/notify.js`, `validateActions`
Kind: D -/
def methodField (i : ℕ) (a : JsonValue N) : Except JsString JsString :=
  match a.member (js "method") with
  | none => .ok (js "POST")
  | some (.str s) =>
      if ACTION_METHODS.contains (upperCase s) then .ok (upperCase s)
      else fail i (js "method must be one of " ++ join [unit '/'] ACTION_METHODS)
  | some _ => fail i (js "method must be a string")

/-- `a.body`.
Source: `lib/notify.js`, `validateActions`
Kind: D -/
def bodyField (i : ℕ) (a : JsonValue N) : Except JsString (Option JsString) :=
  match a.member (js "body") with
  | none => .ok none
  | some (.str s) =>
      if s.length ≤ MAX_ACTION_BODY then .ok (some s)
      else fail i (js "body must be a string" ++ cap MAX_ACTION_BODY)
  | some _ => fail i (js "body must be a string" ++ cap MAX_ACTION_BODY)

/-- The names that a header may not have.
Source: `lib/notify.js`, `validateActions`
Kind: D -/
def unsafeHeaders : List JsString := [js "__proto__", js "constructor", js "prototype"]

/-- The loop over the headers.
Source: `lib/notify.js`, `validateActions`
Kind: D -/
def copyHeaders (i : ℕ) (headers : List (JsString × JsString)) :
    List (JsString × JsonValue N) → Except JsString (List (JsString × JsString))
  | [] => .ok headers
  | (key, v) :: rest =>
      if unsafeHeaders.contains key then fail i (js "unsafe header name")
      else
        match v with
        | .str s =>
            if s.length ≤ MAX_ACTION_HEADER_LEN ∧ key.length ≤ MAX_ACTION_HEADER_LEN then
              copyHeaders i (JsMap.setEntries headers key s) rest
            else fail i (js "header entries must be strings" ++ cap MAX_ACTION_HEADER_LEN)
        | _ => fail i (js "header entries must be strings" ++ cap MAX_ACTION_HEADER_LEN)

/-- `a.headers`.
Source: `lib/notify.js`, `validateActions`
Kind: D -/
def headersField (i : ℕ) (a : JsonValue N) : Except JsString (Option (List (JsString × JsString))) :=
  match a.member (js "headers") with
  | none => .ok none
  | some (.obj members) =>
      if members.length ≤ MAX_ACTION_HEADERS then (copyHeaders i [] members).map some
      else fail i (js "too many headers" ++ cap MAX_ACTION_HEADERS)
  | some _ => fail i (js "headers must be an object")

/-- A header map as a JSON value.
Kind: D -/
def headerValue (headers : List (JsString × JsString)) : JsonValue N :=
  .obj (headers.map fun e => (e.1, .str e.2))

/-- One action.
Source: `lib/notify.js`, `validateActions`
Kind: D -/
def validateAction (i : ℕ) (a : JsonValue N) : Except JsString (JsonValue N) :=
  match a with
  | .obj _ => do
      let action ← kindField i a
      let label ← labelField i a
      let url ← urlField i a
      let norm : List (JsString × JsonValue N) :=
        [(js "action", .str action), (js "label", .str label), (js "url", .str url)]
      if action = js "http" then
        let method ← methodField i a
        let body ← bodyField i a
        let headers ← headersField i a
        pure (.obj (norm ++ (js "method", .str method) ::
          ((body.map fun s => (js "body", .str s)).toList ++
            (headers.map fun l => (js "headers", headerValue l)).toList)))
      else pure (.obj norm)
  | _ => fail i (js "must be an object")

/-- The loop over the actions.
Source: `lib/notify.js`, `validateActions`
Kind: D -/
def validateFrom : ℕ → List (JsonValue N) → Except JsString (List (JsonValue N))
  | _, [] => .ok []
  | i, a :: rest => do
      let norm ← validateAction i a
      let out ← validateFrom (i + 1) rest
      pure (norm :: out)

/-- The actions in normal form, or the error.
Source: `lib/notify.js`, `validateActions`
Kind: D -/
def validateActions : JsonValue N → Except JsString (List (JsonValue N))
  | .arr items =>
      if items.length ≤ MAX_ACTIONS then validateFrom 0 items
      else .error (js "too many actions" ++ cap MAX_ACTIONS)
  | _ => .error (js "actions must be an array")

/-! ### What a safe action is -/

/-- The request of an `http` action.
Kind: D -/
structure ActionRequest where
  /-- The method. -/
  method : JsString
  /-- The body. -/
  body : Option JsString
  /-- The headers, by name. -/
  headers : Option (List (JsString × JsString))

/-- A button: it opens the URL, or sends a request there.
Kind: D -/
structure Action where
  /-- What is written on it. -/
  label : JsString
  /-- The URL. -/
  url : JsString
  /-- The request of an `http` action; a `view` action has none. -/
  request : Option ActionRequest

/-- A header map is flat and within its bounds, and has none of the names that may not be.
Kind: D -/
structure SafeHeaders (headers : List (JsString × JsString)) : Prop where
  /-- There are few. -/
  few : headers.length ≤ MAX_ACTION_HEADERS
  /-- Names and values are short. -/
  short : ∀ e ∈ headers, e.1.length ≤ MAX_ACTION_HEADER_LEN ∧ e.2.length ≤ MAX_ACTION_HEADER_LEN
  /-- A name occurs once. -/
  nodup : (headers.map Prod.fst).Nodup
  /-- No name is unsafe. -/
  named : ∀ e ∈ headers, unsafeHeaders.contains e.1 = false

/-- A request is within its bounds.
Kind: D -/
structure ActionRequest.Safe (r : ActionRequest) : Prop where
  /-- The method is one of four. -/
  method : r.method ∈ ACTION_METHODS
  /-- The body is not long. -/
  body : ∀ s ∈ r.body, s.length ≤ MAX_ACTION_BODY
  /-- The headers are safe. -/
  headers : ∀ l ∈ r.headers, SafeHeaders l

/-- An action is within its bounds.
Kind: D -/
structure Action.Safe (x : Action) : Prop where
  /-- It has a label, which is short. -/
  label : x.label ≠ [] ∧ x.label.length ≤ MAX_ACTION_LABEL
  /-- The URL is of `https`, and not long. -/
  url : (js "https://").isPrefixOf x.url ∧ x.url.length ≤ MAX_ACTION_URL
  /-- The request is safe. -/
  request : ∀ r ∈ x.request, r.Safe

/-- The `action` of the button.
Kind: D -/
def Action.kind (x : Action) : JsString := if x.request.isSome then js "http" else js "view"

/-- The fields of a request.
Kind: D -/
def ActionRequest.members (r : ActionRequest) : List (JsString × JsonValue N) :=
  (js "method", .str r.method) :: ((r.body.map fun s => (js "body", .str s)).toList ++
    (r.headers.map fun l => (js "headers", headerValue l)).toList)

/-- The normal form of an action: an object with these fields and no others.
Kind: D -/
def Action.value (x : Action) : JsonValue N :=
  .obj ([(js "action", .str x.kind), (js "label", .str x.label), (js "url", .str x.url)] ++
    (x.request.map ActionRequest.members).getD [])

/-- The fields of an object say a request. A method is `POST` when it is left out.
Kind: D -/
structure ActionRequest.SaidBy (r : ActionRequest) (a : JsonValue N) : Prop where
  /-- The method. -/
  method : a.member (js "method") = none ∧ r.method = js "POST" ∨
    ∃ s, a.member (js "method") = some (.str s) ∧ upperCase s = r.method
  /-- The body. -/
  body : a.member (js "body") = r.body.map .str
  /-- The headers. -/
  headers : a.member (js "headers") = r.headers.map headerValue

/-- The fields of an object say an action. Other fields are of no account.
Kind: D -/
structure Action.SaidBy (x : Action) (a : JsonValue N) : Prop where
  /-- The kind. -/
  kind : a.member (js "action") = some (.str x.kind)
  /-- The label. -/
  label : a.member (js "label") = some (.str x.label)
  /-- The URL. -/
  url : a.member (js "url") = some (.str x.url)
  /-- The request. -/
  request : ∀ r ∈ x.request, r.SaidBy a

/-- A JSON value says safe actions, not too many.
Kind: D -/
def SaysActions (raw : JsonValue N) (xs : List Action) : Prop :=
  ∃ items, raw = .arr items ∧ items.length ≤ MAX_ACTIONS ∧
    List.Forall₂ (fun a x => x.SaidBy a) items xs ∧ ∀ x ∈ xs, x.Safe

/-! ### The fields -/

section Fields

variable {i : ℕ} {a : JsonValue N}

theorem bind_eq_ok {ε α β : Type} {x : Except ε α} {f : α → Except ε β} {b : β} :
    (x >>= f) = .ok b ↔ ∃ a, x = .ok a ∧ f a = .ok b := by
  cases x <;> simp [bind, Except.bind]

theorem fail_ne_ok {α : Type} {i : ℕ} {reason : JsString} {x : α} : ¬ fail i reason = .ok x := by
  simp [fail]

/-- A field that has to be a string is one for which the condition holds.
Kind: L -/
theorem stringField_ok {name reason s : JsString} {valid : JsString → Bool} :
    stringField name valid reason i a = .ok s ↔ a.member name = some (.str s) ∧ valid s = true := by
  unfold stringField
  split
  · rename_i t ht
    rw [ht, Option.some.injEq, JsonValue.str.injEq]
    split_ifs with hvalid
    · rw [Except.ok.injEq]
      exact ⟨fun h => ⟨h, h ▸ hvalid⟩, fun h => h.1⟩
    · exact iff_of_false fail_ne_ok fun h => hvalid (h.1 ▸ h.2)
  · rename_i hnot
    exact iff_of_false fail_ne_ok fun h => hnot s h.1

theorem methodField_ok {m : JsString} :
    methodField i a = .ok m ↔ (a.member (js "method") = none ∧ m = js "POST" ∨
      ∃ s, a.member (js "method") = some (.str s) ∧ upperCase s = m) ∧ m ∈ ACTION_METHODS := by
  unfold methodField
  split
  · rename_i hnone
    rw [hnone, Except.ok.injEq]
    constructor
    · rintro rfl
      exact ⟨Or.inl ⟨rfl, rfl⟩, by decide⟩
    · rintro ⟨⟨-, rfl⟩ | ⟨s, hs, -⟩, -⟩
      · rfl
      · exact absurd hs (by simp)
  · rename_i s hs
    rw [hs]
    simp only [List.contains_iff_mem]
    split_ifs with hin
    · rw [Except.ok.injEq]
      constructor
      · rintro rfl
        exact ⟨Or.inr ⟨s, rfl, rfl⟩, hin⟩
      · rintro ⟨⟨hnone, -⟩ | ⟨t, ht, rfl⟩, -⟩
        · exact absurd hnone (by simp)
        · rw [Option.some.injEq, JsonValue.str.injEq] at ht
          rw [ht]
    · refine iff_of_false fail_ne_ok ?_
      rintro ⟨⟨hnone, -⟩ | ⟨t, ht, rfl⟩, hm⟩
      · exact absurd hnone (by simp)
      · rw [Option.some.injEq, JsonValue.str.injEq] at ht
        exact hin (ht ▸ hm)
  · rename_i v hnot hv
    rw [hv]
    refine iff_of_false fail_ne_ok ?_
    rintro ⟨⟨hnone, -⟩ | ⟨t, ht, -⟩, -⟩
    · exact absurd hnone (by simp)
    · exact hnot t (Option.some.inj ht)

theorem bodyField_ok {b : Option JsString} :
    bodyField i a = .ok b ↔
      a.member (js "body") = b.map .str ∧ ∀ s ∈ b, s.length ≤ MAX_ACTION_BODY := by
  unfold bodyField
  split
  · rename_i hnone
    rw [hnone, Except.ok.injEq]
    cases b <;> simp
  · rename_i s hs
    rw [hs]
    split_ifs with hshort
    · rw [Except.ok.injEq]
      cases b with
      | none => simp
      | some t =>
          simp only [Option.some.injEq, Option.map_some, JsonValue.str.injEq, Option.mem_def]
          constructor
          · rintro rfl
            exact ⟨rfl, by rintro _ rfl; exact hshort⟩
          · exact fun h => h.1
    · refine iff_of_false fail_ne_ok ?_
      rintro ⟨hb, hlen⟩
      obtain ⟨t, rfl, ht⟩ := Option.map_eq_some_iff.mp hb.symm
      exact hshort (JsonValue.str.inj ht ▸ hlen t rfl)
  · rename_i v hnot hv
    rw [hv]
    refine iff_of_false fail_ne_ok ?_
    rintro ⟨hb, -⟩
    obtain ⟨t, rfl, ht⟩ := Option.map_eq_some_iff.mp hb.symm
    exact hnot t ht.symm

/-- A header map that starts with an entry: its value is a string.
Kind: L -/
theorem cons_eq_map_str {key : JsString} {v : JsonValue N} {members : List (JsString × JsonValue N)}
    {l : List (JsString × JsString)} (hl : (key, v) :: members = l.map fun e => (e.1, .str e.2)) :
    ∃ s l', v = .str s ∧ l = (key, s) :: l' ∧ members = l'.map fun e => (e.1, .str e.2) := by
  cases l with
  | nil => exact absurd hl (by simp)
  | cons e l' =>
      rw [List.map_cons, List.cons.injEq, Prod.mk.injEq] at hl
      obtain ⟨⟨rfl, rfl⟩, hl'⟩ := hl
      exact ⟨e.2, l', rfl, rfl, hl'⟩

/-- One turn of the loop over the headers.
Kind: L -/
theorem copyHeaders_cons_ok {key : JsString} {v : JsonValue N} {members : List (JsString × JsonValue N)}
    {before out : List (JsString × JsString)} (hnew : key ∉ before.map Prod.fst) :
    copyHeaders i before ((key, v) :: members) = .ok out ↔ ∃ s, v = .str s ∧
      (key.length ≤ MAX_ACTION_HEADER_LEN ∧ s.length ≤ MAX_ACTION_HEADER_LEN) ∧
      unsafeHeaders.contains key = false ∧ copyHeaders i (before ++ [(key, s)]) members = .ok out := by
  have hset : ∀ s, JsMap.setEntries before key s = before ++ [(key, s)] := fun s => if_neg hnew
  conv_lhs => unfold copyHeaders
  split_ifs with hunsafe
  · refine iff_of_false fail_ne_ok ?_
    rintro ⟨s, -, -, hsafe, -⟩
    rw [hsafe] at hunsafe
    exact absurd hunsafe (by simp)
  · split
    · rename_i s
      split_ifs with hshort
      · rw [hset]
        constructor
        · intro hout
          exact ⟨s, rfl, ⟨hshort.2, hshort.1⟩, Bool.eq_false_iff.mpr hunsafe, hout⟩
        · rintro ⟨s', hs', -, -, hout⟩
          obtain rfl := JsonValue.str.inj hs'
          exact hout
      · refine iff_of_false fail_ne_ok ?_
        rintro ⟨s', hs', hlen, -⟩
        obtain rfl := JsonValue.str.inj hs'
        exact hshort ⟨hlen.2, hlen.1⟩
    · rename_i hnot
      refine iff_of_false fail_ne_ok ?_
      rintro ⟨s, hs, -⟩
      exact hnot s hs

/-- The loop over the headers: they are strings under safe names, and are copied as they are.
Kind: L -/
theorem copyHeaders_ok {members : List (JsString × JsonValue N)} {before out : List (JsString × JsString)}
    (h : ((before.map Prod.fst) ++ members.map Prod.fst).Nodup) :
    copyHeaders i before members = .ok out ↔ ∃ l : List (JsString × JsString),
      members = l.map (fun e => (e.1, .str e.2)) ∧ out = before ++ l ∧
      ∀ e ∈ l, (e.1.length ≤ MAX_ACTION_HEADER_LEN ∧ e.2.length ≤ MAX_ACTION_HEADER_LEN) ∧
        unsafeHeaders.contains e.1 = false := by
  induction members generalizing before with
  | nil =>
      rw [copyHeaders, Except.ok.injEq]
      constructor
      · rintro rfl
        exact ⟨[], rfl, (List.append_nil _).symm, by simp⟩
      · rintro ⟨l, hl, rfl, -⟩
        rw [List.map_eq_nil_iff.mp hl.symm, List.append_nil]
  | cons e members ih =>
      obtain ⟨key, v⟩ := e
      have hnew : key ∉ before.map Prod.fst := fun hmem =>
        (List.nodup_append.mp h).2.2 _ hmem _ List.mem_cons_self rfl
      rw [copyHeaders_cons_ok hnew]
      constructor
      · rintro ⟨s, rfl, hshort, hsafe, hout⟩
        obtain ⟨l, rfl, rfl, hall⟩ := (ih (by simpa using h)).mp hout
        refine ⟨(key, s) :: l, rfl, by rw [List.append_assoc, List.singleton_append], ?_⟩
        intro e he
        rcases List.mem_cons.mp he with rfl | hin
        · exact ⟨hshort, hsafe⟩
        · exact hall e hin
      · rintro ⟨l, hl, rfl, hall⟩
        obtain ⟨s, l', rfl, rfl, rfl⟩ := cons_eq_map_str hl
        obtain ⟨hshort, hsafe⟩ := hall (key, s) List.mem_cons_self
        refine ⟨s, rfl, hshort, hsafe, (ih (by simpa using h)).mpr ⟨l', rfl, ?_, ?_⟩⟩
        · rw [List.append_assoc, List.singleton_append]
        · exact fun e he => hall e (List.mem_cons_of_mem _ he)

/-- An object that is a member of a value has distinct names.
Kind: L -/
theorem nodup_of_member (ha : a.Proper) {name : JsString} {members : List (JsString × JsonValue N)}
    (h : a.member name = some (.obj members)) : (members.map Prod.fst).Nodup := by
  cases a with
  | obj outer =>
      obtain ⟨e, he, hvalue⟩ := Option.map_eq_some_iff.mp h
      have hproper := JsonValue.proper_of_mem ha.2 (List.mem_of_find?_eq_some he)
      rw [hvalue] at hproper
      exact hproper.1
  | null | bool | num | str | arr => exact absurd h (by simp [JsonValue.member])

theorem headersField_ok (ha : a.Proper) {hs : Option (List (JsString × JsString))} :
    headersField i a = .ok hs ↔
      a.member (js "headers") = hs.map headerValue ∧ ∀ l ∈ hs, SafeHeaders l := by
  unfold headersField
  split
  · rename_i hnone
    rw [hnone, Except.ok.injEq]
    cases hs <;> simp
  · rename_i members hmembers
    have hnodup : (members.map Prod.fst).Nodup := nodup_of_member ha hmembers
    have hcopy := fun out => @copyHeaders_ok N i members [] out hnodup
    rw [hmembers]
    split_ifs with hfew
    · constructor
      · intro h
        cases hout : copyHeaders i [] members with
        | error e =>
            rw [hout] at h
            exact absurd h (by simp [Except.map])
        | ok out =>
            rw [hout, Except.map, Except.ok.injEq] at h
            subst h
            obtain ⟨l, rfl, rfl, hall⟩ := (hcopy out).mp hout
            rw [List.length_map] at hfew
            rw [List.map_map] at hnodup
            refine ⟨rfl, fun l' hl' => ?_⟩
            obtain rfl := Option.some.inj hl'
            exact ⟨hfew, fun e he => (hall e he).1, hnodup, fun e he => (hall e he).2⟩
      · rintro ⟨hvalue, hsafe⟩
        obtain ⟨l, rfl, hl⟩ := Option.map_eq_some_iff.mp hvalue.symm
        have hl' := hsafe l rfl
        have hout := (hcopy l).mpr
          ⟨l, (JsonValue.obj.inj hl).symm, rfl, fun e he => ⟨hl'.short e he, hl'.named e he⟩⟩
        rw [hout]
        rfl
    · refine iff_of_false fail_ne_ok ?_
      rintro ⟨hvalue, hsafe⟩
      obtain ⟨l, rfl, hl⟩ := Option.map_eq_some_iff.mp hvalue.symm
      rw [← JsonValue.obj.inj hl, List.length_map] at hfew
      exact hfew (hsafe l rfl).few
  · rename_i v hnot hv
    rw [hv]
    refine iff_of_false fail_ne_ok ?_
    rintro ⟨hvalue, -⟩
    obtain ⟨l, rfl, hl⟩ := Option.map_eq_some_iff.mp hvalue.symm
    exact hnot _ hl.symm

end Fields

/-! ### Actions -/

/-- The fields of an object are looked at one after the other.
Kind: L -/
theorem validateAction_eq {i : ℕ} {a : JsonValue N} {members : List (JsString × JsonValue N)}
    (h : a = .obj members) :
    validateAction i a = (do
      let action ← kindField i a
      let label ← labelField i a
      let url ← urlField i a
      if action = js "http" then
        let method ← methodField i a
        let body ← bodyField i a
        let headers ← headersField i a
        pure (.obj ([(js "action", .str action), (js "label", .str label), (js "url", .str url)] ++
          (ActionRequest.members ⟨method, body, headers⟩)))
      else pure (.obj [(js "action", .str action), (js "label", .str label), (js "url", .str url)])) := by
  rw [h]
  rfl

/-- What comes out of an object is a safe action that it says.
Kind: P -/
theorem exists_saidBy_of_validateAction {i : ℕ} {a norm : JsonValue N} (ha : a.Proper)
    {members : List (JsString × JsonValue N)} (hobj : a = .obj members)
    (h : validateAction i a = .ok norm) : ∃ x : Action, x.SaidBy a ∧ x.Safe ∧ norm = x.value := by
  rw [validateAction_eq hobj] at h
  obtain ⟨action, haction, h⟩ := bind_eq_ok.mp h
  obtain ⟨label, hlabel, h⟩ := bind_eq_ok.mp h
  obtain ⟨url, hurl, h⟩ := bind_eq_ok.mp h
  obtain ⟨hkind, hvalid⟩ := stringField_ok.mp haction
  obtain ⟨hlabel, hlabels⟩ := stringField_ok.mp hlabel
  obtain ⟨hurl, hurls⟩ := stringField_ok.mp hurl
  have hsafe := of_decide_eq_true hlabels
  have hsecure := of_decide_eq_true hurls
  split_ifs at h with hhttp
  · obtain ⟨method, hmethod, h⟩ := bind_eq_ok.mp h
    obtain ⟨body, hbody, h⟩ := bind_eq_ok.mp h
    obtain ⟨headers, hheaders, h⟩ := bind_eq_ok.mp h
    obtain ⟨hmethod, hone⟩ := methodField_ok.mp hmethod
    obtain ⟨hbody, hbodies⟩ := bodyField_ok.mp hbody
    obtain ⟨hheaders, hall⟩ := (headersField_ok ha).mp hheaders
    subst hhttp
    refine ⟨⟨label, url, some ⟨method, body, headers⟩⟩, ⟨hkind, hlabel, hurl, fun r hr => ?_⟩,
      ⟨hsafe, hsecure, fun r hr => ?_⟩, (Except.ok.inj h).symm⟩
    · obtain rfl := Option.some.inj hr
      exact ⟨hmethod, hbody, hheaders⟩
    · obtain rfl := Option.some.inj hr
      exact ⟨hone, hbodies, hall⟩
  · have hview : action = js "view" := (of_decide_eq_true hvalid).resolve_left hhttp
    subst hview
    exact ⟨⟨label, url, none⟩, ⟨hkind, hlabel, hurl, by simp⟩, ⟨hsafe, hsecure, by simp⟩,
      (Except.ok.inj h).symm⟩

/-- An object that says a safe action is accepted.
Kind: P -/
theorem validateAction_of_saidBy {i : ℕ} {a : JsonValue N} (ha : a.Proper)
    {members : List (JsString × JsonValue N)} (hobj : a = .obj members) {x : Action}
    (hsaid : x.SaidBy a) (hsafe : x.Safe) : validateAction i a = .ok x.value := by
  obtain ⟨label, url, request⟩ := x
  rw [validateAction_eq hobj]
  refine bind_eq_ok.mpr ⟨_, stringField_ok.mpr ⟨hsaid.kind, ?_⟩, bind_eq_ok.mpr ⟨label,
    stringField_ok.mpr ⟨hsaid.label, decide_eq_true hsafe.label⟩, bind_eq_ok.mpr ⟨url,
    stringField_ok.mpr ⟨hsaid.url, decide_eq_true hsafe.url⟩, ?_⟩⟩⟩
  · cases request <;> rfl
  · cases request with
    | none =>
        have hview : js "view" ≠ js "http" := by decide
        have hkind : Action.kind ⟨label, url, none⟩ = js "view" := rfl
        rw [hkind, if_neg hview]
        rfl
    | some r =>
        have hr := hsaid.request r rfl
        have hrsafe := hsafe.request r rfl
        have hhttp : Action.kind ⟨label, url, some r⟩ = js "http" := rfl
        rw [if_pos hhttp]
        refine bind_eq_ok.mpr ⟨r.method, methodField_ok.mpr ⟨hr.method, hrsafe.method⟩, ?_⟩
        refine bind_eq_ok.mpr ⟨r.body, bodyField_ok.mpr ⟨hr.body, hrsafe.body⟩, ?_⟩
        exact bind_eq_ok.mpr ⟨r.headers, (headersField_ok ha).mpr ⟨hr.headers, hrsafe.headers⟩, rfl⟩

/-- **One action** is accepted exactly when it says a safe one, and comes out in normal form.
Kind: P -/
theorem validateAction_ok {i : ℕ} {a norm : JsonValue N} (ha : a.Proper) :
    validateAction i a = .ok norm ↔ ∃ x : Action, x.SaidBy a ∧ x.Safe ∧ norm = x.value := by
  cases hobj : a with
  | null | bool | num | str | arr =>
      refine iff_of_false fail_ne_ok ?_
      rintro ⟨x, hsaid, -⟩
      exact absurd hsaid.kind (by simp [JsonValue.member])
  | obj members =>
      rw [← hobj]
      constructor
      · exact exists_saidBy_of_validateAction ha hobj
      · rintro ⟨x, hsaid, hsafe, rfl⟩
        exact validateAction_of_saidBy ha hobj hsaid hsafe

/-- The loop accepts the items one by one.
Kind: P -/
theorem validateFrom_ok {items out : List (JsonValue N)} (hproper : JsonValue.ItemsProper items) (i : ℕ) :
    validateFrom i items = .ok out ↔
      ∃ xs : List Action, List.Forall₂ (fun a x => x.SaidBy a) items xs ∧ (∀ x ∈ xs, x.Safe) ∧
        out = xs.map Action.value := by
  induction items generalizing i out with
  | nil =>
      unfold validateFrom
      rw [Except.ok.injEq]
      constructor
      · rintro rfl
        exact ⟨[], List.Forall₂.nil, by simp, rfl⟩
      · rintro ⟨xs, hxs, -, rfl⟩
        cases hxs
        rfl
  | cons a items ih =>
      obtain ⟨ha, hitems⟩ := hproper
      unfold validateFrom
      rw [bind_eq_ok]
      constructor
      · rintro ⟨norm, hnorm, h⟩
        obtain ⟨rest, hrest, h⟩ := bind_eq_ok.mp h
        obtain ⟨x, hsaid, hsafe, rfl⟩ := (validateAction_ok ha).mp hnorm
        obtain ⟨xs, hxs, hall, rfl⟩ := (ih hitems (i + 1)).mp hrest
        exact ⟨x :: xs, List.Forall₂.cons hsaid hxs, List.forall_mem_cons.mpr ⟨hsafe, hall⟩,
          (Except.ok.inj h).symm⟩
      · rintro ⟨xs, hxs, hall, rfl⟩
        cases hxs with
        | @cons _ x _ xs hx hxs =>
            obtain ⟨hsafe, hall⟩ := List.forall_mem_cons.mp hall
            exact ⟨x.value, (validateAction_ok ha).mpr ⟨x, hx, hsafe, rfl⟩, bind_eq_ok.mpr
              ⟨xs.map Action.value, (ih hitems (i + 1)).mpr ⟨xs, hxs, hall, rfl⟩, rfl⟩⟩

/-- **What is accepted** is what says safe actions, and these come out in normal form.
Kind: P -/
theorem validateActions_ok {raw : JsonValue N} (hraw : raw.Proper) {out : List (JsonValue N)} :
    validateActions raw = .ok out ↔ ∃ xs, SaysActions raw xs ∧ out = xs.map Action.value := by
  cases raw with
  | null | bool | num | str | obj =>
      refine iff_of_false (by simp [validateActions]) ?_
      rintro ⟨xs, ⟨items, hitems, -⟩, -⟩
      exact absurd hitems (by simp)
  | arr items =>
      have hloop : validateActions (.arr items) = if items.length ≤ MAX_ACTIONS then validateFrom 0 items
          else .error (js "too many actions" ++ cap MAX_ACTIONS) := rfl
      rw [hloop]
      split_ifs with hfew
      · rw [validateFrom_ok hraw]
        constructor
        · rintro ⟨xs, hxs, hall, rfl⟩
          exact ⟨xs, ⟨items, rfl, hfew, hxs, hall⟩, rfl⟩
        · rintro ⟨xs, ⟨items', hitems, -, hxs, hall⟩, rfl⟩
          obtain rfl := JsonValue.arr.inj hitems
          exact ⟨xs, hxs, hall, rfl⟩
      · refine iff_of_false (by simp) ?_
        rintro ⟨xs, ⟨items', hitems, hfew', -⟩, -⟩
        obtain rfl := JsonValue.arr.inj hitems
        exact hfew hfew'

/-! ### The normal form -/

section Normal

variable {x : Action}

/-- A method in upper case is that.
Kind: L -/
theorem upperCase_of_mem {m : JsString} (h : m ∈ ACTION_METHODS) : upperCase m = m := by
  have hall : ACTION_METHODS.all (fun m => upperCase m = m) = true := by decide
  exact of_decide_eq_true (List.all_eq_true.mp hall m h)

theorem member_cons_self (name : JsString) (v : JsonValue N) (l : List (JsString × JsonValue N)) :
    (JsonValue.obj ((name, v) :: l)).member name = some v := by
  simp [JsonValue.member]

theorem member_cons_of_ne {name name' : JsString} (h : name' ≠ name) (v : JsonValue N)
    (l : List (JsString × JsonValue N)) :
    (JsonValue.obj ((name', v) :: l)).member name = (JsonValue.obj l).member name := by
  simp [JsonValue.member, h]

theorem member_nil (name : JsString) : (JsonValue.obj ([] : List (JsString × JsonValue N))).member name = none :=
  rfl

/-- The normal form says what it is of.
Kind: P -/
theorem Action.saidBy_value (hx : ∀ r ∈ x.request, r.method ∈ ACTION_METHODS) :
    x.SaidBy (x.value : JsonValue N) := by
  obtain ⟨label, url, request⟩ := x
  refine ⟨member_cons_self _ _ _, ?_, ?_, fun r hr => ?_⟩
  · unfold Action.value
    rw [List.cons_append, member_cons_of_ne (by decide)]
    exact member_cons_self _ _ _
  · unfold Action.value
    rw [List.cons_append, member_cons_of_ne (by decide), List.cons_append, member_cons_of_ne (by decide)]
    exact member_cons_self _ _ _
  · obtain rfl : request = some r := hr
    have hmethod := hx r rfl
    obtain ⟨method, body, headers⟩ := r
    -- past the three fields that every action has
    have hpast : ∀ name, js "action" ≠ name → js "label" ≠ name → js "url" ≠ name →
        (Action.value ⟨label, url, some ⟨method, body, headers⟩⟩ : JsonValue N).member name =
          (JsonValue.obj (ActionRequest.members ⟨method, body, headers⟩)).member name := by
      intro name haction hlabel hurl
      unfold Action.value
      rw [List.cons_append, member_cons_of_ne haction, List.cons_append, member_cons_of_ne hlabel,
        List.cons_append, member_cons_of_ne hurl]
      rfl
    refine ⟨Or.inr ⟨method, ?_, upperCase_of_mem hmethod⟩, ?_, ?_⟩
    · rw [hpast _ (by decide) (by decide) (by decide)]
      exact member_cons_self _ _ _
    · rw [hpast _ (by decide) (by decide) (by decide), ActionRequest.members, member_cons_of_ne (by decide)]
      cases body with
      | some s => exact member_cons_self _ _ _
      | none =>
          cases headers with
          | none => rfl
          | some l => exact (member_cons_of_ne (by decide) _ _).trans (member_nil _)
    · rw [hpast _ (by decide) (by decide) (by decide), ActionRequest.members, member_cons_of_ne (by decide)]
      have hheaders : ∀ headers : Option (List (JsString × JsString)),
          (JsonValue.obj (headers.map fun l => (js "headers", (headerValue l : JsonValue N))).toList).member
            (js "headers") = headers.map headerValue := by
        intro headers
        cases headers with
        | none => rfl
        | some l => exact member_cons_self _ _ _
      cases body with
      | none => exact hheaders headers
      | some s => exact (member_cons_of_ne (by decide) _ _).trans (hheaders headers)

/-- The names of the fields of a request.
Kind: L -/
theorem names_members (r : ActionRequest) :
    ((r.members : List (JsString × JsonValue N)).map Prod.fst).Sublist
      [js "method", js "body", js "headers"] := by
  obtain ⟨method, _ | body, _ | headers⟩ := r
  · exact (List.nil_sublist _).cons_cons _
  · exact ((List.Sublist.refl [js "headers"]).cons _).cons_cons _
  · exact ((List.nil_sublist _).cons_cons _).cons_cons _
  · exact List.Sublist.refl _

/-- The names in a normal form are distinct.
Kind: P -/
theorem Action.proper_value (hx : x.Safe) : (x.value : JsonValue N).Proper := by
  obtain ⟨label, url, request⟩ := x
  have hdistinct : [js "action", js "label", js "url", js "method", js "body", js "headers"].Nodup := by
    decide
  constructor
  · refine List.Nodup.sublist ?_ hdistinct
    refine List.Sublist.cons_cons _ (List.Sublist.cons_cons _ (List.Sublist.cons_cons _ ?_))
    cases request with
    | none => exact List.nil_sublist _
    | some r => exact names_members r
  · refine ⟨trivial, trivial, trivial, ?_⟩
    cases request with
    | none => trivial
    | some r =>
        have hheaders := (hx.request r rfl).headers
        apply JsonValue.membersProper_of_forall
        intro e he
        rcases List.mem_cons.mp he with rfl | hin
        · trivial
        · rcases List.mem_append.mp hin with hbody | hmap
          · obtain ⟨s, -, rfl⟩ := Option.map_eq_some_iff.mp (Option.mem_toList.mp hbody)
            trivial
          · obtain ⟨l, hl, rfl⟩ := Option.map_eq_some_iff.mp (Option.mem_toList.mp hmap)
            refine ⟨?_, JsonValue.membersProper_of_forall fun e he => ?_⟩
            · rw [List.map_map]
              exact (hheaders l hl).nodup
            · obtain ⟨e', -, rfl⟩ := List.mem_map.mp he
              trivial

end Normal

/-- **The normal form** of any JSON value: it is a list of few safe actions in their fields and no others;
it is its own normal form; and where it is not empty, `JSON.parse` reads it back from the payload of a
notification with content. There is none exactly when the value does not say safe actions.
Source: `lib/notify.js`, `validateActions`
Kind: P -/
theorem validateActions_normal (num : Numerals N) (raw : JsonValue N) (hraw : raw.Proper) :
    (∀ out, validateActions raw = .ok out →
      (∃ xs : List Action, out = xs.map Action.value ∧ xs.length ≤ MAX_ACTIONS ∧ ∀ x ∈ xs, x.Safe) ∧
      validateActions (.arr out) = .ok out ∧
      ∃ hproper : JsonValue.ItemsProper out, out ≠ [] → ∀ opts random nowMs,
        opts.actions = some ⟨out, hproper⟩ → ∃ text,
          (Push.buildNotifyPayload num (buildMessage opts random nowMs) .content).actions = some text ∧
          JsonValue.parse num.read text = some (.arr out)) ∧
    ((∃ e, validateActions raw = .error e) ↔ ¬ ∃ xs, SaysActions raw xs) := by
  constructor
  · intro out hout
    obtain ⟨xs, ⟨items, rfl, hfew, hsaid, hsafe⟩, rfl⟩ := (validateActions_ok hraw).mp hout
    have hlength : xs.length ≤ MAX_ACTIONS := hsaid.length_eq ▸ hfew
    have hproper : JsonValue.ItemsProper (xs.map Action.value : List (JsonValue N)) := by
      clear hsaid hout hlength
      induction xs with
      | nil => trivial
      | cons x xs ih =>
          exact ⟨Action.proper_value (hsafe x List.mem_cons_self),
            ih fun y hy => hsafe y (List.mem_cons_of_mem _ hy)⟩
    refine ⟨⟨xs, rfl, hlength, hsafe⟩, ?_, hproper, fun hne opts random nowMs hactions => ?_⟩
    · have hvalue : (JsonValue.arr (xs.map Action.value) : JsonValue N).Proper := hproper
      refine (validateActions_ok hvalue).mpr ⟨xs, ⟨_, rfl, by rwa [List.length_map], ?_, hsafe⟩, rfl⟩
      rw [List.forall₂_map_left_iff, List.forall₂_same]
      intro x hx
      exact Action.saidBy_value fun r hr => ((hsafe x hx).request r hr).method
    · have hvalue : (JsonValue.arr (xs.map Action.value) : JsonValue N).Proper := hproper
      refine ⟨JsonValue.stringify num.toNumberTexts (.arr (xs.map Action.value)), ?_,
        JsonValue.parse_stringify_exact hvalue⟩
      have hkept : (buildMessage opts random nowMs).actions = some ⟨xs.map Action.value, hproper⟩ := by
        show opts.actions.filter (fun actions => actions.items ≠ []) = _
        rw [hactions, Option.filter_some, if_pos (decide_eq_true hne)]
      show (((buildMessage opts random nowMs).actions.filter fun actions => actions.items ≠ []).map
        fun actions => JsonValue.stringify num actions.value) = _
      rw [hkept, Option.filter_some, if_pos (decide_eq_true hne)]
      rfl
  · constructor
    · rintro ⟨e, he⟩ ⟨xs, hxs⟩
      have hok := (validateActions_ok hraw).mpr ⟨xs, hxs, rfl⟩
      rw [he] at hok
      exact absurd hok (by simp)
    · intro hnot
      cases hout : validateActions raw with
      | error e => exact ⟨e, rfl⟩
      | ok out =>
          obtain ⟨xs, hxs, -⟩ := (validateActions_ok hraw).mp hout
          exact absurd ⟨xs, hxs⟩ hnot

/-- A button as a publisher may send it: the method is in lower case, and there is a field that means
nothing.
Kind: D -/
def sentButton : JsonValue ℕ :=
  .arr [.obj [(js "action", .str (js "http")), (js "label", .str (js "Stop")),
    (js "url", .str (js "https://example.com/stop")), (js "method", .str (js "put")), (js "clear", .bool true)]]

/-- It comes out without the field, and with the method in upper case.
Kind: C -/
theorem validateActions_normal_button :
    validateActions sentButton = .ok [.obj [(js "action", .str (js "http")), (js "label", .str (js "Stop")),
        (js "url", .str (js "https://example.com/stop")), (js "method", .str (js "PUT"))]] ∧
      ((∃ e, validateActions sentButton = .error e) ↔ ¬ ∃ xs, SaysActions sentButton xs) := by
  have hproper : sentButton.Proper :=
    ⟨⟨by decide, trivial, trivial, trivial, trivial, trivial, trivial⟩, trivial⟩
  exact ⟨rfl, (validateActions_normal Numerals.nat sentButton hproper).2⟩

/-- A button whose request has a header with this name.
Kind: D -/
def withHeader (name : JsString) : Action :=
  ⟨js "Stop", js "https://example.com/stop", some ⟨js "POST", none, some [(name, js "x")]⟩⟩

/-- The header `constructor` breaks no cap and is refused all the same; and no actions at all are
accepted, and are not in the payload.
Kind: C -/
theorem refused_constructor :
    ((withHeader (js "constructor")).SaidBy ((withHeader (js "constructor")).value : JsonValue ℕ) ∧
      (withHeader (js "accept")).Safe ∧
      (js "constructor").length ≤ MAX_ACTION_HEADER_LEN ∧
      validateActions (.arr [((withHeader (js "constructor")).value : JsonValue ℕ)]) =
        .error (js "action 0: unsafe header name")) ∧
    validateActions (.arr [] : JsonValue ℕ) = .ok [] ∧
    ∀ opts : MessageOptions ℕ, ∀ random nowMs, opts.actions = some ⟨[], trivial⟩ →
      (Push.buildNotifyPayload Numerals.nat (buildMessage opts random nowMs) .content).actions = none := by
  refine ⟨⟨Action.saidBy_value ?_, ?_, by decide, rfl⟩, rfl, ?_⟩
  · intro r hr
    obtain rfl := Option.some.inj hr
    decide
  · refine ⟨by decide, by decide, fun r hr => ?_⟩
    obtain rfl := Option.some.inj hr
    refine ⟨by decide, by simp, fun l hl => ?_⟩
    obtain rfl := Option.some.inj hl
    exact ⟨by decide, by decide, by decide, by decide⟩
  · intro opts random nowMs hactions
    have hdropped : (buildMessage opts random nowMs).actions = none := by
      show opts.actions.filter (fun actions => actions.items ≠ []) = none
      rw [hactions]
      rfl
    show (((buildMessage opts random nowMs).actions.filter fun actions => actions.items ≠ []).map
      fun actions => JsonValue.stringify Numerals.nat actions.value) = none
    rw [hdropped]
    rfl

end TyoMq.Notify
