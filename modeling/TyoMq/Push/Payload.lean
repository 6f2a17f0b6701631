import TyoMq.Notify.Auth
import TyoMq.Notify.Message

/-!
# What a phone is sent

The payloads of `lib/push.js` that transports are handed, and the frame that APNs gets for a
notification. A wake says nothing (`buildWakePayload_eq`). A notification with actions that is too large
becomes a wake, one without does not (`pushPayload`).
-/

namespace TyoMq.Push

open TyoMq.Lib TyoMq.Notify

variable {N : Type*}

/-! ### Wakes -/

/-- The kind of a wake. `suppressed` stands for `false`.
Source: `lib/push.js`, `WAKE_KIND_SILENT` and `WAKE_KIND_ALERT`
Kind: D -/
inductive WakeKind where
  | silent
  | alert
  | suppressed
  deriving DecidableEq

/-- Source: `lib/push.js`, `FORBIDDEN_WAKE_KEYS`
Kind: D -/
def FORBIDDEN_WAKE_KEYS : List JsString :=
  [js "sender", js "from", js "content", js "blob", js "msg_id", js "msgId", js "message",
    js "payload", js "to", js "identity", js "realm", js "uak"]

/-- `none` when it throws.
Source: `lib/push.js`, `assertContentless`
Kind: D -/
def assertContentless {ν : Type*} (payload : List (JsString × ν)) : Option (List (JsString × ν)) :=
  if payload.any fun e => FORBIDDEN_WAKE_KEYS.contains e.1 then none else some payload

/-- Source: `lib/push.js`, `buildWakePayload`
Kind: D -/
def buildWakePayload (kind : WakeKind) : Option (List (JsString × JsonValue ℕ)) :=
  let p := [(js "type", .str (js "wake")), (js "v", .num 1)]
  assertContentless (if kind = .alert then p ++ [(js "kind", .str (js "alert"))] else p)

/-- The payload of a wake has nothing that is forbidden.
Kind: L -/
theorem buildWakePayload_eq (kind : WakeKind) :
    buildWakePayload kind = some ([(js "type", .str (js "wake")), (js "v", .num 1)] ++
      if kind = .alert then [(js "kind", .str (js "alert"))] else []) := by
  cases kind <;> rfl

/-- `WAKE_ALERT_DEFAULT_TITLE`.
Kind: D -/
def WAKE_ALERT_DEFAULT_TITLE : JsString := js "New message"

/-- `WAKE_ALERT_MAX_TEXT`.
Kind: D -/
def WAKE_ALERT_MAX_TEXT : ℕ := 128

/-- `WAKE_ALERT_MAX_ID`.
Kind: D -/
def WAKE_ALERT_MAX_ID : ℕ := 64

/-- `WAKE_ALERT_MAX_EXTRA`.
Kind: D -/
def WAKE_ALERT_MAX_EXTRA : ℕ := 8

/-- The alert copy of a realm. The texts are as `String` makes them, `none` where they are `undefined` or
`null`; the value of a marker is `none` where it is not a string, a number or a boolean.
Source: `lib/push.js`, `normalizeWakeAlert`
Kind: D -/
structure AlertCopy where
  /-- The title. -/
  title : Option JsString
  /-- The body. -/
  body : Option JsString
  /-- What it replaces. -/
  collapse_id : Option JsString
  /-- What it is grouped by. -/
  thread_id : Option JsString
  /-- The app's markers, in order. -/
  extra : List (JsString × Option JsString)

/-- Alert copy that is bounded.
Source: `lib/push.js`, `normalizeWakeAlert`
Kind: D -/
structure WakeAlert where
  /-- The title. -/
  title : JsString
  /-- The body. -/
  body : JsString
  /-- What it replaces. -/
  collapse_id : JsString
  /-- What it is grouped by. -/
  thread_id : JsString
  /-- The app's markers. -/
  extra : JsMap JsString JsString

/-- `s || fallback` on strings.
Kind: D -/
def orElse (s fallback : JsString) : JsString := if s = [] then fallback else s

/-- Source: `lib/push.js`, `normalizeWakeAlert`
Kind: D -/
def clip (v : Option JsString) (n : ℕ) : JsString := (v.getD []).take n

/-- A marker is put into the frame, unless its name is taken or forbidden. A name `__proto__` is not
one that an assignment sets.
Source: `lib/push.js`, `normalizeWakeAlert`
Kind: D -/
def addMarker (out : JsMap JsString JsString) (e : JsString × Option JsString) :
    JsMap JsString JsString :=
  if e.1 = js "aps" ∨ e.1 = js "type" ∨ e.1 = js "kind" ∨ FORBIDDEN_WAKE_KEYS.contains e.1 then out
  else
    match e.2 with
    | none => out
    | some v =>
        let k := e.1.take WAKE_ALERT_MAX_ID
        if k = js "__proto__" then out else out.set k (v.take WAKE_ALERT_MAX_ID)

/-- Copy that is not an object is `none`, and so is a realm that is `null`.
Source: `lib/push.js`, `normalizeWakeAlert`
Kind: D -/
def normalizeWakeAlert (alert : Option AlertCopy) (realm : Option JsString) : WakeAlert :=
  let alert := alert.getD ⟨none, none, none, none, []⟩
  let realmId := clip realm WAKE_ALERT_MAX_ID
  { title := orElse (clip alert.title WAKE_ALERT_MAX_TEXT) WAKE_ALERT_DEFAULT_TITLE
    body := clip alert.body WAKE_ALERT_MAX_TEXT
    collapse_id := orElse (clip alert.collapse_id WAKE_ALERT_MAX_ID) (orElse realmId (js "wake"))
    thread_id := orElse (clip alert.thread_id WAKE_ALERT_MAX_ID) (orElse realmId (js "wake"))
    extra := (alert.extra.take WAKE_ALERT_MAX_EXTRA).foldl addMarker JsMap.empty }

/-! ### Notifications -/

/-- How a publisher wants phones to be reached.
Source: `lib/notify.js`, `parsePush`
Kind: D -/
inductive PushMode where
  | content
  | wake
  | off
  deriving DecidableEq

/-- `NOTIFY_PUSH_MSG_MAX`.
Kind: D -/
def NOTIFY_PUSH_MSG_MAX : ℕ := 1024

/-- `NOTIFY_PUSH_TOTAL_MAX`.
Kind: D -/
def NOTIFY_PUSH_TOTAL_MAX : ℕ := 3500

/-- The payload of a notification: strings only. The fields stand in the order in which they are set.
Source: `lib/push.js`, `buildNotifyPayload`
Kind: D -/
structure NotifyPayload where
  /-- `'notify'`. -/
  type : JsString
  /-- The version. -/
  v : JsString
  /-- The topic. -/
  topic : JsString
  /-- The id of the message. -/
  id : Option JsString
  /-- Its text. -/
  message : Option JsString
  /-- When it was made. -/
  time : Option JsString
  /-- Its title. -/
  title : Option JsString
  /-- Its priority. -/
  priority : Option JsString
  /-- Its tags. -/
  tags : Option JsString
  /-- Its link. -/
  click : Option JsString
  /-- Its actions, as JSON. -/
  actions : Option JsString
  /-- `'1'` when the phone is to fetch the message. -/
  wake : Option JsString

/-- A field that is set when the string is not empty.
Kind: D -/
def ifText (s : JsString) : Option JsString := if s = [] then none else some s

/-- A field that is set when the number is not zero.
Kind: D -/
def ifNumber (n : ℕ) : Option JsString := if n = 0 then none else some (toRadix 10 n)

/-- Source: `lib/push.js`, `buildNotifyPayload`
Kind: D -/
def buildNotifyPayload (num : Numerals N) (msg : Message N) (mode : PushMode) : NotifyPayload :=
  let p : NotifyPayload :=
    { type := js "notify", v := js "1", topic := msg.topic, id := ifText msg.id
      message := none, time := none, title := none, priority := none, tags := none, click := none
      actions := none, wake := none }
  if mode = .content then
    { p with
      message := some (msg.message.take NOTIFY_PUSH_MSG_MAX)
      time := ifNumber msg.time
      title := (ifText (msg.title.getD [])).map fun s => s.take 256
      priority := ifNumber (msg.priority.getD 0)
      tags := (msg.tags.filter fun l => l ≠ []).map fun l => (join [unit ','] l).take 256
      click := (ifText (msg.click.getD [])).map fun s => s.take 512
      actions := (msg.actions.filter fun actions => actions.items ≠ []).map fun actions =>
        JsonValue.stringify num actions.value }
  else { p with wake := some (js "1") }

/-- A field that may be absent.
Kind: D -/
def field (name : JsString) (text : Option JsString) : List (JsString × JsonValue ℕ) :=
  (text.map fun s => (name, .str s)).toList

/-- The fields that are set, in order.
Kind: D -/
def NotifyPayload.members (p : NotifyPayload) : List (JsString × JsonValue ℕ) :=
  (js "type", .str p.type) :: (js "v", .str p.v) :: (js "topic", .str p.topic) ::
    (field (js "id") p.id ++ field (js "message") p.message ++ field (js "time") p.time ++
      field (js "title") p.title ++ field (js "priority") p.priority ++ field (js "tags") p.tags ++
      field (js "click") p.click ++ field (js "actions") p.actions ++ field (js "wake") p.wake)

/-- `JSON.stringify(payload)`.
Kind: D -/
def NotifyPayload.json (p : NotifyPayload) : JsString := JsonValue.stringify Numerals.nat (.obj p.members)

/-- Has the message actions?
Kind: D -/
def hasActions (msg : Message N) : Bool := msg.actions.any fun actions => actions.items ≠ []

/-- The payload of a push: a notification with actions that is too large becomes a wake.
Source: `lib/push.js`, `deliverNotifyPush`
Kind: D -/
def pushPayload (num : Numerals N) (msg : Message N) (mode : PushMode) : NotifyPayload :=
  let payload := buildNotifyPayload num msg mode
  if mode = .content ∧ hasActions msg ∧ NOTIFY_PUSH_TOTAL_MAX < byteLength payload.json then
    buildNotifyPayload num msg .wake
  else payload

/-! ### The APNs frame -/

/-- The request that APNs gets.
Source: `lib/push.js`, `buildApnsFrame`
Kind: D -/
structure ApnsFrame where
  /-- The body, before it is encoded. -/
  body : JsString
  /-- `apns-push-type`. -/
  pushType : JsString
  /-- `apns-priority`. -/
  priority : JsString
  /-- `apns-expiration`. -/
  expiration : JsString

/-- The object of a frame with content.
Source: `lib/push.js`, `buildApnsFrame`
Kind: D -/
def apnsObject (payload : NotifyPayload) (message : JsString) : List (JsString × JsonValue ℕ) :=
  (js "aps", .obj
    [(js "alert", .obj
        [(js "title", .str (orElse (payload.title.getD []) payload.topic)), (js "body", .str message)]),
      (js "sound", .str (js "default")), (js "mutable-content", .num 1)]) ::
    (field (js "topic") (ifText payload.topic) ++ field (js "id") (ifText (payload.id.getD [])) ++
      field (js "priority") (ifText (payload.priority.getD [])) ++
      field (js "tags") (ifText (payload.tags.getD [])) ++
      field (js "click") (ifText (payload.click.getD [])) ++
      field (js "time") (ifText (payload.time.getD [])))

/-- The frame of a notification, which is not a wake of the alert kind.
Source: `lib/push.js`, `buildApnsFrame`
Kind: D -/
def buildApnsFrame (payload : NotifyPayload) : ApnsFrame :=
  let silent : ApnsFrame :=
    ⟨js "\x7b\"aps\":\x7b\"content-available\":1\x7d\x7d", js "background", js "5", js "0"⟩
  if payload.wake = some (js "1") then silent
  else
    match payload.message with
    | none => silent
    | some message =>
        { body := JsonValue.stringify Numerals.nat (.obj (apnsObject payload message))
          pushType := js "alert", priority := js "10", expiration := js "0" }

end TyoMq.Push
