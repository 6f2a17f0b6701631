import Mathlib.Algebra.Order.Floor.Div
import Mathlib.Data.Rat.Floor
import TyoMq.Lib.Json
import TyoMq.Notify.Ring

/-!
# The message of a notification

`buildMessage` of `lib/notify.js`, which makes the message that subscribers, the ring and the phones
get out of what a publisher has sent.

* A value of the request enters the message as `String(value)`; the options hold it so.
* **Every field keeps its bound** (`capped_buildMessage`), whatever the request holds; the text of the
  message and its actions have none here.
* The broker's own ids are of the form that the ring looks for (`isBrokerId_brokerId`).
-/

namespace TyoMq.Notify

open TyoMq.Lib

variable {N : Type*}

/-! ### Reading the options -/

/-- White space, as `trim` takes it off.
Kind: D -/
def isWhiteSpace (u : UInt16) : Bool :=
  (9 ≤ u && u ≤ 13) || u == 32 || u == 0xA0 || u == 0x1680 || (0x2000 ≤ u && u ≤ 0x200A) ||
    u == 0x2028 || u == 0x2029 || u == 0x202F || u == 0x205F || u == 0x3000 || u == 0xFEFF

/-- `s.trim()`.
Kind: D -/
def trim (s : JsString) : JsString :=
  ((s.dropWhile isWhiteSpace).reverse.dropWhile isWhiteSpace).reverse

/-- `toLowerCase` on ASCII. What it makes of other letters is not in the name of a priority.
Kind: D -/
def lowerCase (s : JsString) : JsString :=
  s.map fun u => if unit 'A' ≤ u ∧ u ≤ unit 'Z' then u + 32 else u

/-- The digits at the front as a number, `none` when there are none.
Kind: D -/
def leadingDigits (s : JsString) : Option ℕ :=
  let digits := s.takeWhile fun u => digitVal u < 10
  if digits = [] then none else some (readDigits 10 digits)

/-- `parseInt(s, 10)` of a trimmed string, `none` for `NaN`.
Kind: D -/
def parseInt (s : JsString) : Option ℤ :=
  match s with
  | [] => none
  | u :: t =>
      if u = unit '-' then (leadingDigits t).map fun n => -(n : ℤ)
      else if u = unit '+' then (leadingDigits t).map fun n => (n : ℤ)
      else (leadingDigits s).map fun n => (n : ℤ)

/-- Source: `lib/notify.js`, `PRIORITY_NAMES`
Kind: D -/
def PRIORITY_NAMES : List (JsString × ℕ) :=
  [(js "min", 1), (js "low", 2), (js "default", 3), (js "high", 4), (js "max", 5), (js "urgent", 5)]

/-- `none` stands for `undefined` and `null`.
Source: `lib/notify.js`, `parsePriority`
Kind: D -/
def parsePriority (v : Option JsString) : ℕ :=
  match v with
  | none => 3
  | some v =>
      if v = [] then 3
      else
        let s := lowerCase (trim v)
        match PRIORITY_NAMES.lookup s with
        | some n => n
        | none =>
            match parseInt s with
            | none => 3
            | some n => if 1 ≤ n ∧ n ≤ 5 then n.toNat else 3

/-- `MAX_TAGS`.
Kind: D -/
def MAX_TAGS : ℕ := 20

/-- `MAX_TAG_LEN`.
Kind: D -/
def MAX_TAG_LEN : ℕ := 64

/-- `MAX_TITLE_LEN`.
Kind: D -/
def MAX_TITLE_LEN : ℕ := 256

/-- `MAX_CLICK_LEN`.
Kind: D -/
def MAX_CLICK_LEN : ℕ := 2048

/-- The tags of a text.
Source: `lib/notify.js`, `parseTags`
Kind: D -/
def parseTags (v : JsString) : List JsString :=
  if v = [] then []
  else
    (((split [unit ','] v).map trim).filter fun t => 0 < t.length && t.length ≤ MAX_TAG_LEN).take MAX_TAGS

/-- `number` is `Number(t)` when it is finite, and `nowMs` is `Date.now()`.
Source: `lib/notify.js`, `normalizeTime`
Kind: D -/
def normalizeTime (number : Option ℚ) (nowMs : ℕ) : ℕ :=
  match number with
  | none => nowMs / 1000
  | some t => if 1000000000 < ⌊t⌋ ∧ ⌊t⌋ < 4000000000 then ⌊t⌋.toNat else nowMs / 1000

/-! ### Building -/

/-- The tags in a request: an array, whose items are given as `String` makes them, or something else.
Kind: D -/
inductive TagsOption where
  | array (tags : List JsString)
  | text (tags : JsString)

/-- A JSON array. The objects in it have their members under distinct names.
Kind: D -/
structure Actions (N : Type*) where
  /-- Its items. -/
  items : List (JsonValue N)
  /-- They are well formed. -/
  proper : JsonValue.ItemsProper items

/-- The actions as a JSON value.
Kind: D -/
def Actions.value (actions : Actions N) : JsonValue N := .arr actions.items

theorem Actions.proper_value (actions : Actions N) : actions.value.Proper := actions.proper

/-- The argument of `buildMessage`. A value that the function turns into a string is the string, `none`
where the value counts as false; `message` and `priority` are `none` where they are `undefined` or
`null`.
Source: `lib/notify.js`, `buildMessage`
Kind: D -/
structure MessageOptions (N : Type*) where
  /-- The id, when the caller has one. -/
  id : Option JsString
  /-- `Number(opts.time)`, when it is finite. -/
  time : Option ℚ
  /-- The topic. -/
  topic : JsString
  /-- The text. -/
  message : Option JsString
  /-- The title. -/
  title : Option JsString
  /-- The priority. -/
  priority : Option JsString
  /-- The tags. -/
  tags : TagsOption
  /-- The link. -/
  click : Option JsString
  /-- The actions, when they are an array. -/
  actions : Option (Actions N)
  /-- Is the text in markdown? -/
  markdown : Bool
  /-- The content type. -/
  contentType : Option JsString

/-- A message. `id` is empty where the message has none.
Source: `lib/notify.js`, `buildMessage`
Kind: D -/
structure Message (N : Type*) where
  /-- The id. -/
  id : JsString
  /-- When it was made, in seconds. -/
  time : ℕ
  /-- `'message'`. -/
  event : JsString
  /-- The topic. -/
  topic : JsString
  /-- The text. -/
  message : JsString
  /-- The title. -/
  title : Option JsString
  /-- The priority, where it is not the default. -/
  priority : Option ℕ
  /-- The tags. -/
  tags : Option (List JsString)
  /-- The link. -/
  click : Option JsString
  /-- The actions. -/
  actions : Option (Actions N)
  /-- The content type. -/
  content_type : Option JsString

/-- `bytes.toString('hex')`.
Kind: D -/
def hexText (bytes : List (Fin 256)) : JsString :=
  bytes.flatMap fun b => [hexDigit (b.val / 16), hexDigit b.val]

/-- The id that the broker makes of nine random bytes.
Source: `lib/notify.js`, `buildMessage`
Kind: D -/
def brokerId (random : Vector (Fin 256) 9) : JsString := js "n-" ++ hexText random.toList

/-- Source: `lib/notify.js`, `buildMessage`
Kind: D -/
def buildMessage (opts : MessageOptions N) (random : Vector (Fin 256) 9) (nowMs : ℕ) : Message N :=
  let pr := parsePriority opts.priority
  let tags :=
    match opts.tags with
    | .array tags => tags.take MAX_TAGS
    | .text tags => parseTags tags
  { id := if opts.id.getD [] = [] then brokerId random else opts.id.getD []
    time := normalizeTime opts.time nowMs
    event := js "message"
    topic := opts.topic
    message := opts.message.getD []
    title := opts.title.map fun s => s.take MAX_TITLE_LEN
    priority := if pr = 3 then none else some pr
    tags := if tags = [] then none else some (tags.map fun t => t.take MAX_TAG_LEN)
    click := opts.click.map fun s => s.take MAX_CLICK_LEN
    actions := opts.actions.filter fun actions => actions.items ≠ []
    content_type := if opts.markdown then some (js "text/markdown") else opts.contentType }

/-! ### What a message is like -/

section Built

variable {opts : MessageOptions N} {random : Vector (Fin 256) 9} {nowMs : ℕ}

/-- A priority is one of five.
Kind: L -/
theorem parsePriority_mem (v : Option JsString) : 1 ≤ parsePriority v ∧ parsePriority v ≤ 5 := by
  unfold parsePriority
  rcases v with _ | v
  · decide
  dsimp only
  split_ifs
  · decide
  rcases hname : PRIORITY_NAMES.lookup (lowerCase (trim v)) with _ | n
  · rcases parseInt (lowerCase (trim v)) with _ | n
    · decide
    dsimp only
    split_ifs with hn
    · omega
    · decide
  · -- the number of a name
    have hall : ∀ e ∈ PRIORITY_NAMES, 1 ≤ e.2 ∧ e.2 ≤ 5 := by decide
    obtain ⟨before, after, hsplit, -⟩ := List.lookup_eq_some_iff.mp hname
    exact hall (_, n) (hsplit ▸ List.mem_append_right _ List.mem_cons_self)

/-- The fields of the message that have a bound.
Kind: D -/
structure Message.Capped (msg : Message N) : Prop where
  /-- A title is short. -/
  title : ∀ s ∈ msg.title, s.length ≤ MAX_TITLE_LEN
  /-- A priority is one of five, and not the default. -/
  priority : ∀ n ∈ msg.priority, 1 ≤ n ∧ n ≤ 5 ∧ n ≠ 3
  /-- Tags are few and short, and there is one. -/
  tags : ∀ l ∈ msg.tags, l ≠ [] ∧ l.length ≤ MAX_TAGS ∧ ∀ t ∈ l, t.length ≤ MAX_TAG_LEN
  /-- A link is short. -/
  click : ∀ s ∈ msg.click, s.length ≤ MAX_CLICK_LEN
  /-- There is an action. -/
  actions : ∀ actions ∈ msg.actions, actions.items ≠ []

/-- Whatever the options are, every field of the message is within its bound.
Kind: P -/
theorem capped_buildMessage : (buildMessage opts random nowMs).Capped := by
  refine ⟨?_, ?_, ?_, ?_, ?_⟩
  · intro s hs
    obtain ⟨t, -, rfl⟩ := Option.map_eq_some_iff.mp hs
    exact List.length_take_le _ _
  · intro n hn
    have hpr := parsePriority_mem opts.priority
    unfold buildMessage at hn
    dsimp only at hn
    split_ifs at hn with h
    · exact absurd hn (Option.not_mem_none n)
    · obtain rfl := Option.some.inj hn
      exact ⟨hpr.1, hpr.2, h⟩
  · intro l hl
    unfold buildMessage at hl
    dsimp only at hl
    split_ifs at hl with h
    · exact absurd hl (Option.not_mem_none l)
    · obtain rfl := Option.some.inj hl
      refine ⟨fun hnil => h (List.map_eq_nil_iff.mp hnil), ?_, ?_⟩
      · rw [List.length_map]
        cases opts.tags with
        | array tags => exact List.length_take_le _ _
        | text tags =>
            dsimp only [parseTags]
            split_ifs
            · exact Nat.zero_le _
            · exact List.length_take_le _ _
      · intro t ht
        obtain ⟨t', -, rfl⟩ := List.mem_map.mp ht
        exact List.length_take_le _ _
  · intro s hs
    obtain ⟨t, -, rfl⟩ := Option.map_eq_some_iff.mp hs
    exact List.length_take_le _ _
  · intro actions h
    exact of_decide_eq_true (Option.filter_eq_some_iff.mp h).2

theorem length_hexText (bytes : List (Fin 256)) : (hexText bytes).length = 2 * bytes.length := by
  unfold hexText
  induction bytes with
  | nil => rfl
  | cons b bytes ih =>
      rw [List.flatMap_cons, List.length_append, ih, List.length_cons, List.length_cons]
      simp only [List.length_cons, List.length_nil]
      omega

/-- A digit is below sixteen.
Kind: L -/
theorem digitVal_of_mem_hexText {bytes : List (Fin 256)} {u : UInt16} (h : u ∈ hexText bytes) :
    digitVal u < 16 := by
  unfold hexText at h
  obtain ⟨b, -, hu⟩ := List.mem_flatMap.mp h
  rcases List.mem_cons.mp hu with rfl | hu
  · rw [digitVal_hexDigit]
    exact Nat.mod_lt _ (by decide)
  · rw [List.mem_singleton.mp hu, digitVal_hexDigit]
    exact Nat.mod_lt _ (by decide)

/-- The broker's ids are of the form that the ring's cursor has.
Kind: C -/
theorem isBrokerId_brokerId (random : Vector (Fin 256) 9) :
    NotifyRing.isBrokerId (brokerId random) = true := by
  unfold NotifyRing.isBrokerId brokerId
  have hlen : (js "n-").length = 2 := rfl
  rw [List.take_append_of_le_length (Nat.le_of_eq hlen.symm), List.drop_append_of_le_length
    (Nat.le_of_eq hlen.symm)]
  rw [Bool.and_eq_true, List.all_eq_true]
  exact ⟨rfl, fun u hu => decide_eq_true (digitVal_of_mem_hexText hu)⟩

theorem length_brokerId (random : Vector (Fin 256) 9) : (brokerId random).length = 20 := by
  unfold brokerId
  rw [List.length_append, length_hexText, Vector.length_toList]
  rfl

end Built

end TyoMq.Notify
