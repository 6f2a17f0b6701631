import TyoMq.Push.Payload

/-!
# The sizes of notifications

* **The size of a notification** (`byteLength_content`): what its fields, cut and escaped, come to.
* **The frame** of a notification is hardly larger than its payload (`byteLength_frame_le`).
* **Within the limits** (`withinLimits_iff`): the payload of a message is, exactly when it has actions, or
  the mode is another than `content`, or its size is not too large.
-/

namespace TyoMq.Push

open TyoMq.Lib TyoMq.Notify

variable {N : Type*}

/-! ### Sizes -/

/-- The bytes of a text between its quotation marks.
Kind: D -/
def textBytes (s : JsString) : ℕ := byteLength (escaped s)

/-- The bytes of a field with a name of some length.
Kind: D -/
def fieldBytes (name : ℕ) (text : Option JsString) : ℕ :=
  match text with
  | none => 0
  | some s => name + textBytes s + 6

/-- What the fields of a message without actions come to, each cut as the payload cuts it.
Kind: D -/
def contentBytes (msg : Message N) : ℕ :=
  49 + textBytes msg.topic + fieldBytes 2 (ifText msg.id) +
    textBytes (msg.message.take NOTIFY_PUSH_MSG_MAX) + fieldBytes 4 (ifNumber msg.time) +
    fieldBytes 5 ((ifText (msg.title.getD [])).map fun s => s.take 256) +
    fieldBytes 8 (ifNumber (msg.priority.getD 0)) +
    fieldBytes 4 ((msg.tags.filter fun l => l ≠ []).map fun l => (join [unit ','] l).take 256) +
    fieldBytes 5 ((ifText (msg.click.getD [])).map fun s => s.take 512)

section Sizes

variable {num : Numerals N} {msg : Message N} {p : NotifyPayload}

open JsonValue

/-- The bytes of a string field.
Kind: L -/
theorem memberBytes_str {name : JsString} (h : name.all isPlain = true) (s : JsString) :
    memberBytes Numerals.nat.toNumberTexts (name, .str s) = name.length + textBytes s + 6 := by
  dsimp only [memberBytes]
  rw [byteLength_escaped_of_isPlain (List.all_eq_true.mp h), stringify, byteLength_quote, textBytes]
  omega

theorem sum_field {name : JsString} (h : name.all isPlain = true) (text : Option JsString) :
    ((field name text).map (memberBytes Numerals.nat)).sum = fieldBytes name.length text := by
  cases text with
  | none => rfl
  | some s => exact (List.sum_singleton ..).trans (memberBytes_str h s)

/-- The size of a payload is that of its fields.
Kind: P -/
theorem byteLength_json (p : NotifyPayload) :
    byteLength p.json = 29 + textBytes p.type + textBytes p.v + textBytes p.topic +
      fieldBytes 2 p.id + fieldBytes 7 p.message + fieldBytes 4 p.time + fieldBytes 5 p.title +
      fieldBytes 8 p.priority + fieldBytes 4 p.tags + fieldBytes 5 p.click + fieldBytes 7 p.actions +
      fieldBytes 4 p.wake := by
  unfold NotifyPayload.json NotifyPayload.members
  rw [byteLength_obj]
  simp only [List.map_cons, List.map_append, List.sum_cons, List.sum_append]
  rw [memberBytes_str rfl, memberBytes_str rfl, memberBytes_str rfl, sum_field rfl, sum_field rfl,
    sum_field rfl, sum_field rfl, sum_field rfl, sum_field rfl, sum_field rfl, sum_field rfl,
    sum_field rfl]
  have h₁ : (js "type").length = 4 := rfl
  have h₂ : (js "v").length = 1 := rfl
  have h₃ : (js "topic").length = 5 := rfl
  have h₄ : (js "id").length = 2 := rfl
  have h₅ : (js "message").length = 7 := rfl
  have h₆ : (js "time").length = 4 := rfl
  have h₇ : (js "title").length = 5 := rfl
  have h₈ : (js "priority").length = 8 := rfl
  have h₉ : (js "tags").length = 4 := rfl
  have h₁₀ : (js "click").length = 5 := rfl
  have h₁₁ : (js "actions").length = 7 := rfl
  have h₁₂ : (js "wake").length = 4 := rfl
  rw [h₁, h₂, h₃, h₄, h₅, h₆, h₇, h₈, h₉, h₁₀, h₁₁, h₁₂]
  omega

theorem fieldBytes_ifText_le (name : ℕ) (text : Option JsString) :
    fieldBytes name (ifText (text.getD [])) ≤ fieldBytes name text := by
  cases text with
  | none => exact Nat.le_refl _
  | some s =>
      rw [Option.getD_some]
      unfold ifText
      split_ifs
      · exact Nat.zero_le _
      · exact Nat.le_refl _

/-- The size of the object of a frame.
Kind: L -/
theorem byteLength_apnsObject (p : NotifyPayload) (message : JsString) :
    byteLength (stringify Numerals.nat (.obj (apnsObject p message))) =
      78 + textBytes (orElse (p.title.getD []) p.topic) + textBytes message +
        fieldBytes 5 (ifText p.topic) + fieldBytes 2 (ifText (p.id.getD [])) +
        fieldBytes 8 (ifText (p.priority.getD [])) + fieldBytes 4 (ifText (p.tags.getD [])) +
        fieldBytes 5 (ifText (p.click.getD [])) + fieldBytes 4 (ifText (p.time.getD [])) := by
  have hname : ∀ (name : JsString) (v : JsonValue ℕ), name.all isPlain = true →
      memberBytes Numerals.nat (name, v) = name.length + byteLength (stringify Numerals.nat v) + 4 := by
    intro name v h
    dsimp only [memberBytes]
    rw [byteLength_escaped_of_isPlain (List.all_eq_true.mp h)]
  have hone : byteLength (stringify Numerals.nat (.num 1)) = 1 := by
    rw [stringify]
    rfl
  have hdefault : textBytes (js "default") = 7 := byteLength_escaped_of_isPlain (List.all_eq_true.mp rfl)
  unfold apnsObject
  rw [byteLength_obj]
  simp only [List.map_cons, List.map_append, List.sum_cons, List.sum_append]
  rw [hname _ _ rfl, byteLength_obj, sum_field rfl, sum_field rfl,
    sum_field rfl, sum_field rfl, sum_field rfl, sum_field rfl]
  simp only [List.map_cons, List.map_nil, List.sum_cons, List.sum_nil]
  rw [hname (js "alert") _ rfl, byteLength_obj, memberBytes_str rfl,
    hname (js "mutable-content") _ rfl, hone, hdefault]
  simp only [List.map_cons, List.map_nil, List.sum_cons, List.sum_nil]
  rw [memberBytes_str rfl, memberBytes_str rfl]
  have h₁ : (js "aps").length = 3 := rfl
  have h₂ : (js "alert").length = 5 := rfl
  have h₃ : (js "title").length = 5 := rfl
  have h₄ : (js "body").length = 4 := rfl
  have h₅ : (js "sound").length = 5 := rfl
  have h₆ : (js "mutable-content").length = 15 := rfl
  have h₇ : (js "topic").length = 5 := rfl
  have h₈ : (js "id").length = 2 := rfl
  have h₉ : (js "priority").length = 8 := rfl
  have h₁₀ : (js "tags").length = 4 := rfl
  have h₁₁ : (js "click").length = 5 := rfl
  have h₁₂ : (js "time").length = 4 := rfl
  rw [h₁, h₂, h₃, h₄, h₅, h₆, h₇, h₈, h₉, h₁₀, h₁₁, h₁₂]
  omega

/-- A frame is larger than its payload by little more than the topic, which may stand in for the title.
Kind: P -/
theorem byteLength_frame_le (p : NotifyPayload) :
    byteLength (buildApnsFrame p).body ≤ byteLength p.json + textBytes p.topic + 50 := by
  have hascii : (js "\x7b\"aps\":\x7b\"content-available\":1\x7d\x7d").all (fun u => u.toNat < 128) = true :=
    rfl
  have hsilent : byteLength (js "\x7b\"aps\":\x7b\"content-available\":1\x7d\x7d") = 31 :=
    byteLength_of_ascii fun u hu => of_decide_eq_true (List.all_eq_true.mp hascii u hu)
  rw [byteLength_json]
  unfold buildApnsFrame
  split_ifs
  · dsimp only
    omega
  rcases hmessage : p.message with _ | message
  · dsimp only
    omega
  · dsimp only
    rw [byteLength_apnsObject]
    have htitle : textBytes (orElse (p.title.getD []) p.topic) ≤
        fieldBytes 5 p.title + textBytes p.topic := by
      rcases p.title with _ | title
      · exact Nat.le_add_left _ _
      · rw [Option.getD_some]
        unfold orElse
        split_ifs
        · exact Nat.le_add_left _ _
        · dsimp only [fieldBytes]
          omega
    have htopic : fieldBytes 5 (ifText p.topic) ≤ 11 + textBytes p.topic := by
      unfold ifText
      split_ifs
      · exact Nat.zero_le _
      · dsimp only [fieldBytes]
        omega
    have hid := fieldBytes_ifText_le 2 p.id
    have hpriority := fieldBytes_ifText_le 8 p.priority
    have htags := fieldBytes_ifText_le 4 p.tags
    have hclick := fieldBytes_ifText_le 5 p.click
    have htime := fieldBytes_ifText_le 4 p.time
    have hbody : fieldBytes 7 (some message) = 13 + textBytes message := by
      dsimp only [fieldBytes]
      omega
    omega

/-- The size of a notification without actions.
Kind: P -/
theorem byteLength_content (h : hasActions msg = false) :
    byteLength (buildNotifyPayload num msg .content).json = contentBytes msg := by
  have htype : textBytes (js "notify") = 6 := byteLength_escaped_of_isPlain (List.all_eq_true.mp rfl)
  have hv : textBytes (js "1") = 1 := byteLength_escaped_of_isPlain (List.all_eq_true.mp rfl)
  have hactions : (msg.actions.filter fun actions => decide (actions.items ≠ [])) = none := by
    unfold hasActions at h
    rcases hmsg : msg.actions with _ | actions
    · rfl
    · rw [hmsg, Option.any_some] at h
      rw [Option.filter_some, h]
      rfl
  have hmessage : fieldBytes 7 (some (msg.message.take NOTIFY_PUSH_MSG_MAX)) =
      13 + textBytes (msg.message.take NOTIFY_PUSH_MSG_MAX) := by
    dsimp only [fieldBytes]
    omega
  rw [byteLength_json]
  unfold buildNotifyPayload contentBytes
  dsimp only
  rw [if_pos rfl]
  dsimp only
  rw [htype, hv, hactions, hmessage]
  dsimp only [Option.map_none, fieldBytes]
  omega

/-- The size of a wake.
Kind: L -/
theorem byteLength_wake {mode : PushMode} (h : mode ≠ .content) :
    byteLength (buildNotifyPayload num msg mode).json =
      47 + textBytes msg.topic + fieldBytes 2 (ifText msg.id) := by
  have htype : textBytes (js "notify") = 6 := byteLength_escaped_of_isPlain (List.all_eq_true.mp rfl)
  have hv : textBytes (js "1") = 1 := byteLength_escaped_of_isPlain (List.all_eq_true.mp rfl)
  rw [byteLength_json]
  unfold buildNotifyPayload
  dsimp only
  rw [if_neg h]
  dsimp only [fieldBytes]
  rw [htype, hv]
  omega

end Sizes

/-! ### The limits -/

/-- `4096`, the bytes that APNs takes.
Source: `lib/push.js`, `buildApnsFrame`
Kind: D -/
def APNS_MAX_BYTES : ℕ := 4096

/-- A payload without anything of the message but its topic and id.
Kind: D -/
structure NotifyPayload.Contentless (p : NotifyPayload) : Prop where
  /-- It is a wake. -/
  wake : p.wake = some (js "1")
  /-- Without text. -/
  message : p.message = none
  /-- Without a time. -/
  time : p.time = none
  /-- Without a title. -/
  title : p.title = none
  /-- Without a priority. -/
  priority : p.priority = none
  /-- Without tags. -/
  tags : p.tags = none
  /-- Without a link. -/
  click : p.click = none
  /-- Without actions. -/
  actions : p.actions = none

/-- The payload is one that the providers take, and it has the actions of the message or no content.
Kind: D -/
structure WithinLimits (num : Numerals N) (msg : Message N) (p : NotifyPayload) : Prop where
  /-- The payload is small enough. -/
  size : byteLength p.json ≤ NOTIFY_PUSH_TOTAL_MAX
  /-- So is the frame. -/
  frame : byteLength (buildApnsFrame p).body ≤ APNS_MAX_BYTES
  /-- The actions can be read back, or nothing is there. -/
  actions : ∀ actions ∈ msg.actions, actions.items ≠ [] →
    (∃ text, p.actions = some text ∧ JsonValue.parse num.read text = some actions.value) ∨ p.Contentless

section Limits

open JsonValue

variable {num : Numerals N} {msg : Message N} {mode : PushMode}

theorem contentless_buildNotifyPayload (h : mode ≠ .content) :
    (buildNotifyPayload num msg mode).Contentless := by
  unfold buildNotifyPayload
  dsimp only
  rw [if_neg h]
  exact ⟨rfl, rfl, rfl, rfl, rfl, rfl, rfl, rfl⟩

/-- The actions that a payload carries are those of the message.
Kind: P -/
theorem parse_actions {actions : Actions N} (h : msg.actions = some actions) (hne : actions.items ≠ []) :
    ∃ text, (buildNotifyPayload num msg .content).actions = some text ∧
      parse num.read text = some actions.value := by
  refine ⟨stringify num actions.value, ?_, parse_stringify_exact actions.proper_value⟩
  unfold buildNotifyPayload
  dsimp only
  rw [if_pos rfl]
  dsimp only
  rw [h, Option.filter_some, if_pos (decide_eq_true hne), Option.map_some]

theorem topic_pushPayload : (pushPayload num msg mode).topic = msg.topic := by
  have hbuild : ∀ mode, (buildNotifyPayload num msg mode).topic = msg.topic := by
    intro mode
    unfold buildNotifyPayload
    dsimp only
    split_ifs <;> rfl
  unfold pushPayload
  dsimp only
  split_ifs
  · exact hbuild _
  · exact hbuild _

/-- Every size but that of a notification without actions is small enough.
Kind: L -/
theorem byteLength_pushPayload_le (htopic : textBytes msg.topic ≤ 64)
    (hid : fieldBytes 2 (ifText msg.id) ≤ 28) (h : mode ≠ .content ∨ hasActions msg = true) :
    byteLength (pushPayload num msg mode).json ≤ NOTIFY_PUSH_TOTAL_MAX := by
  have hwake : ∀ {mode}, mode ≠ PushMode.content →
      byteLength (buildNotifyPayload num msg mode).json ≤ NOTIFY_PUSH_TOTAL_MAX := by
    intro mode hmode
    rw [byteLength_wake hmode]
    unfold NOTIFY_PUSH_TOTAL_MAX
    omega
  unfold pushPayload
  dsimp only
  split_ifs with hlarge
  · exact hwake (by decide)
  · by_cases hmode : mode = .content
    · have hactions := h.resolve_left fun hne => hne hmode
      exact Nat.le_of_not_lt fun hlt => hlarge ⟨hmode, hactions, hlt⟩
    · exact hwake hmode

/-- The payload of a message is within the limits exactly when it has actions, or the mode is another
than `content`, or its size is not too large.
Kind: P -/
theorem withinLimits_iff (htopic : textBytes msg.topic ≤ 64)
    (hid : fieldBytes 2 (ifText msg.id) ≤ 28) :
    WithinLimits num msg (pushPayload num msg mode) ↔
      mode ≠ .content ∨ hasActions msg = true ∨ contentBytes msg ≤ NOTIFY_PUSH_TOTAL_MAX := by
  have hplain : mode = .content → hasActions msg = false →
      pushPayload num msg mode = buildNotifyPayload num msg .content := by
    intro hmode hactions
    unfold pushPayload
    dsimp only
    rw [hmode, hactions]
    exact if_neg fun hlarge => Bool.false_ne_true hlarge.2.1
  constructor
  · intro h
    by_cases hmode : mode = .content
    · rcases hactions : hasActions msg with _ | _
      · have hsize := h.size
        rw [hplain hmode hactions, byteLength_content hactions] at hsize
        exact Or.inr (Or.inr hsize)
      · exact Or.inr (Or.inl rfl)
    · exact Or.inl hmode
  · intro h
    have hsize : byteLength (pushPayload num msg mode).json ≤ NOTIFY_PUSH_TOTAL_MAX := by
      by_cases hmode : mode = .content
      · rcases hactions : hasActions msg with _ | _
        · rw [hplain hmode hactions, byteLength_content hactions]
          rcases h with h | h | h
          · exact absurd hmode h
          · exact absurd (hactions.symm.trans h) Bool.false_ne_true
          · exact h
        · exact byteLength_pushPayload_le htopic hid (Or.inr hactions)
      · exact byteLength_pushPayload_le htopic hid (Or.inl hmode)
    refine ⟨hsize, ?_, ?_⟩
    · have hframe := byteLength_frame_le (pushPayload num msg mode)
      rw [topic_pushPayload] at hframe
      unfold NOTIFY_PUSH_TOTAL_MAX at hsize
      unfold APNS_MAX_BYTES
      omega
    · intro actions hactions hne
      unfold pushPayload
      dsimp only
      split_ifs
      · exact Or.inr (contentless_buildNotifyPayload (by decide))
      · by_cases hmode : mode = .content
        · rw [hmode]
          exact Or.inl (parse_actions hactions hne)
        · exact Or.inr (contentless_buildNotifyPayload hmode)

/-- Whatever a topic's name holds is plain.
Kind: L -/
theorem isPlain_of_isTopicUnit {u : UInt16} (h : isTopicUnit u = true) : isPlain u = true := by
  have hA : (unit 'A').toNat = 65 := rfl
  have hZ : (unit 'Z').toNat = 90 := rfl
  have ha : (unit 'a').toNat = 97 := rfl
  have hz : (unit 'z').toNat = 122 := rfl
  have h0 : (unit '0').toNat = 48 := rfl
  have h9 : (unit '9').toNat = 57 := rfl
  have hrange : ∀ l r : ℕ, l ≤ u.toNat → u.toNat ≤ r → 35 ≤ l → r < 128 → (92 < l ∨ r < 92) →
      isPlain u = true := by
    intro l r hl hr hlow hhigh hback
    have hne : ∀ w : UInt16, w.toNat < l ∨ r < w.toNat → u ≠ w := fun w hw he => by
      rw [he] at hl hr
      omega
    have hquote : u ≠ quoteMark := hne _ (Or.inl (Nat.lt_of_lt_of_le (by decide) hlow))
    have hslash : u ≠ backslash := by
      have hnat : backslash.toNat = 92 := rfl
      apply hne
      omega
    have hspace : (0x20 : UInt16).toNat = 32 := rfl
    have hend : (0x80 : UInt16).toNat = 128 := rfl
    simp only [isPlain, Bool.and_eq_true, decide_eq_true_eq, bne_iff_ne, UInt16.le_iff_toNat_le,
      UInt16.lt_iff_toNat_lt]
    exact ⟨⟨⟨by omega, by omega⟩, hquote⟩, hslash⟩
  simp only [isTopicUnit, Bool.or_eq_true, Bool.and_eq_true, beq_iff_eq, decide_eq_true_eq,
    UInt16.le_iff_toNat_le] at h
  rcases h with (((rfl | rfl) | ⟨hl, hr⟩) | ⟨hl, hr⟩) | ⟨hl, hr⟩
  · decide
  · decide
  · exact hrange 65 90 (hA ▸ hl) (hZ ▸ hr) (by decide) (by decide) (by decide)
  · exact hrange 97 122 (ha ▸ hl) (hz ▸ hr) (by decide) (by decide) (by decide)
  · exact hrange 48 57 (h0 ▸ hl) (h9 ▸ hr) (by decide) (by decide) (by decide)

/-- A topic is short.
Kind: L -/
theorem textBytes_topic_le (topic : Topic) : textBytes topic.text ≤ 64 := by
  have hvalid := topic.valid
  unfold isValidTopic at hvalid
  rw [Bool.and_eq_true, decide_eq_true_eq, List.all_eq_true] at hvalid
  have hplain : textBytes topic.text = topic.text.length :=
    byteLength_escaped_of_isPlain fun u hu => isPlain_of_isTopicUnit (hvalid.2 u hu)
  rw [hplain]
  exact hvalid.1.2

/-- So is the broker's id.
Kind: L -/
theorem textBytes_brokerId (random : Vector (Fin 256) 9) : textBytes (brokerId random) = 20 := by
  have hdigit : ∀ n, isPlain (hexDigit n) = true := by
    have hall : ∀ n < 16, isPlain (unit (Nat.digitChar n)) = true := by decide
    exact fun n => hall _ (Nat.mod_lt _ (by decide))
  have hfirst : ∀ u ∈ js "n-", isPlain u = true := List.all_eq_true.mp rfl
  have hplain : ∀ u ∈ brokerId random, isPlain u = true := by
    intro u hu
    unfold brokerId hexText at hu
    rcases List.mem_append.mp hu with hu | hu
    · exact hfirst u hu
    · obtain ⟨b, -, hu⟩ := List.mem_flatMap.mp hu
      rcases List.mem_cons.mp hu with rfl | hu
      · exact hdigit _
      · rw [List.mem_singleton.mp hu]
        exact hdigit _
  exact (byteLength_escaped_of_isPlain hplain).trans (length_brokerId random)

end Limits

end TyoMq.Push
