import TyoMq.Push.Address

/-!
# Push endpoints: the request-forgery guard

The self-hosted transport of `lib/push.js`: the check of a client-supplied URL, the guarded lookup
of the connection, and the send that runs one after the other. The two lookups have answers of their
own, which whoever controls the name chooses.

* **Two clauses hold** (`passes_of_mem_send`): no connection goes to a blocked address, and none to
  loopback without `allowLocal`.
* **The third does not** (`connectsSafely_iff`): the guarded lookup does not look at the scheme, so a
  plain `http:` request may go to a public address, exactly when the connect-time answer has one.
-/

namespace TyoMq.Push

open TyoMq.Lib

/-! ### The runtime -/

/-- What the code reads of a parsed `URL`.
Kind: D -/
structure Url where
  /-- The scheme, with its colon. -/
  protocol : JsString
  /-- The user name. -/
  username : JsString
  /-- The password. -/
  password : JsString
  /-- The host, an IPv6 literal in brackets. -/
  hostname : JsString

/-- The parts of the runtime that the guard relies on. Nothing is assumed of them.
Kind: D -/
structure Runtime where
  /-- `new URL(s)`, or `none` when it throws. -/
  parseUrl : JsString → Option Url
  /-- `net.isIPv6`. -/
  isIPv6 : JsString → Bool

/-- `net.isIP`, with `none` for `0`.
Kind: D -/
def Runtime.isIP (rt : Runtime) (host : JsString) : Option ℕ :=
  if isIPv4 host then some 4 else if rt.isIPv6 host then some 6 else none

/-- A resolved address.
Kind: D -/
structure Entry where
  /-- The address. -/
  address : JsString
  /-- The family, if there is one. -/
  family : Option ℕ
  deriving DecidableEq

/-- The class of a resolved address.
Kind: D -/
def Entry.cls (e : Entry) : AddressClass := classifyAddress e.address e.family

/-- What a `dns.lookup` calls back with: an error, all the addresses, or one.
Kind: D -/
inductive Lookup where
  | error
  | all (addresses : List Entry)
  | one (entry : Entry)
  deriving DecidableEq

/-- The addresses of a lookup.
Kind: D -/
def Lookup.entries : Lookup → List Entry
  | error => []
  | all addresses => addresses
  | one entry => [entry]

/-! ### The check -/

/-- `PUSH_MAX_TOKEN_LENGTH`.
Kind: D -/
def PUSH_MAX_TOKEN_LENGTH : ℕ := 4096

/-- Why a URL is refused.
Source: `lib/push.js`, `isSafePushUrl`
Kind: D -/
inductive Reason where
  | empty
  | tooLong
  | invalidUrl
  | credentialsInUrl
  | badScheme
  | httpForbidden
  | noHost
  | dnsFailed
  | dnsEmpty
  | blockedAddress
  | loopback
  | httpNonLocal
  deriving DecidableEq

/-- The text of a reason.
Kind: D -/
def Reason.text : Reason → JsString
  | empty => js "empty"
  | tooLong => js "too-long"
  | invalidUrl => js "invalid-url"
  | credentialsInUrl => js "credentials-in-url"
  | badScheme => js "bad-scheme"
  | httpForbidden => js "http-forbidden"
  | noHost => js "no-host"
  | dnsFailed => js "dns-failed"
  | dnsEmpty => js "dns-empty"
  | blockedAddress => js "blocked-address"
  | loopback => js "loopback"
  | httpNonLocal => js "http-non-local"

/-- Source: `lib/push.js`, `stripBrackets`
Kind: D -/
def stripBrackets (host : JsString) : JsString :=
  if 1 < host.length ∧ host.head? = some (unit '[') ∧ host.getLast? = some (unit ']') then
    (host.drop 1).dropLast
  else host

/-- The loop over the addresses: did it see a public one?
Source: `lib/push.js`, `isSafePushUrl`
Kind: D -/
def scanAddresses (allowLocal : Bool) : List Entry → Except Reason Bool
  | [] => .ok false
  | e :: es =>
      match e.cls with
      | .blocked => .error .blockedAddress
      | .loopback => if allowLocal then scanAddresses allowLocal es else .error .loopback
      | .ok => (scanAddresses allowLocal es).map fun _ => true

/-- The addresses of a host: itself when it is a literal, else those of the lookup, `none` when that
is rejected.
Source: `lib/push.js`, `isSafePushUrl`
Kind: D -/
def resolve (rt : Runtime) (host : JsString) (answer : Option (List Entry)) :
    Except Reason (List Entry) :=
  match rt.isIP host with
  | some family => .ok [⟨host, some family⟩]
  | none =>
      match answer with
      | none => .error .dnsFailed
      | some [] => .error .dnsEmpty
      | some (e :: es) => .ok (e :: es)

/-- The check of a URL, given the answer of its lookup. A value that is not a string is `none`.
Source: `lib/push.js`, `isSafePushUrl`
Kind: D -/
def isSafePushUrl (rt : Runtime) (allowLocal : Bool) (rawUrl : Option JsString)
    (answer : Option (List Entry)) : Except Reason JsString := do
  let raw ← match rawUrl with
    | none => .error .empty
    | some raw => .ok raw
  if raw.length = 0 then throw .empty
  if PUSH_MAX_TOKEN_LENGTH < raw.length then throw .tooLong
  let u ← match rt.parseUrl raw with
    | none => .error .invalidUrl
    | some u => .ok u
  if u.username ≠ [] ∨ u.password ≠ [] then throw .credentialsInUrl
  let isHttps := u.protocol = js "https:"
  let isHttp := u.protocol = js "http:"
  if ¬ isHttps ∧ ¬ isHttp then throw .badScheme
  if isHttp ∧ allowLocal = false then throw .httpForbidden
  let host := stripBrackets u.hostname
  if host = [] then throw .noHost
  let addrs ← resolve rt host answer
  let sawPublic ← scanAddresses allowLocal addrs
  if isHttp ∧ sawPublic then throw .httpNonLocal
  return host

/-! ### The send -/

/-- The guard of one address.
Source: `lib/push.js`, `UnifiedPushTransport.prototype._guardedLookup`
Kind: D -/
def passes (allowLocal : Bool) (e : Entry) : Bool :=
  match e.cls with
  | .blocked => false
  | .loopback => allowLocal
  | .ok => true

/-- The lookup of the connection: its answer, unless an address of it is not let through.
Source: `lib/push.js`, `UnifiedPushTransport.prototype._guardedLookup`
Kind: D -/
def guardedLookup (allowLocal : Bool) (answer : Lookup) : Lookup :=
  if answer.entries.all (passes allowLocal) then answer else .error

/-- The addresses an `http(s)` client may connect to: the host itself when it is a literal, else what
the lookup function called back with.
Kind: D -/
def clientAddresses (rt : Runtime) (host : JsString) (looked : Lookup) : List Entry :=
  match rt.isIP host with
  | some family => [⟨host, some family⟩]
  | none => looked.entries

/-- The result of a send.
Kind: D -/
structure SendResult where
  /-- Delivered. -/
  ok : Bool
  /-- The endpoint is dead. -/
  gone : Bool
  /-- The URL was refused. -/
  isUnsafe : Bool
  deriving DecidableEq

/-- The result of a request, by its status, `none` for an error or a timeout.
Source: `lib/push.js`, `UnifiedPushTransport.prototype._post`
Kind: D -/
def resultOf : Option ℕ → SendResult
  | none => ⟨false, false, false⟩
  | some status =>
      if 200 ≤ status ∧ status < 300 then ⟨true, false, false⟩
      else if status = 404 ∨ status = 410 then ⟨false, true, false⟩
      else ⟨false, false, false⟩

/-- The request: the addresses it may connect to, and its result.
Source: `lib/push.js`, `UnifiedPushTransport.prototype._post`
Kind: D -/
def post (rt : Runtime) (allowLocal : Bool) (rawUrl : JsString) (answer : Lookup)
    (response : Option ℕ) : List Entry × SendResult :=
  match rt.parseUrl rawUrl with
  | none => ([], ⟨false, false, false⟩)
  | some u =>
      (clientAddresses rt (stripBrackets u.hostname) (guardedLookup allowLocal answer),
        resultOf response)

/-- A send: the URL is checked once more, then posted to.
Source: `lib/push.js`, `UnifiedPushTransport.prototype.send`
Kind: D -/
def send (rt : Runtime) (allowLocal : Bool) (url : Option JsString) (checked : Option (List Entry))
    (answer : Lookup) (response : Option ℕ) : List Entry × SendResult :=
  match isSafePushUrl rt allowLocal url checked, url with
  | .ok _, some raw => post rt allowLocal raw answer response
  | _, _ => ([], ⟨false, false, true⟩)

/-! ### What the check establishes -/

/-- The policy for a connection: not a blocked address, loopback only with `allowLocal`, and a plain
`http:` request only to loopback.
Kind: D -/
def Obeys (allowLocal : Bool) (protocol : JsString) (e : Entry) : Prop :=
  e.cls ≠ .blocked ∧ (e.cls = .loopback → allowLocal = true) ∧
    (protocol = js "http:" → e.cls = .loopback)

section Check

variable {rt : Runtime} {allowLocal : Bool} {es : List Entry} {e : Entry}

/-- What the loop over the addresses establishes.
Kind: L -/
theorem of_scanAddresses {sawPublic : Bool} (h : scanAddresses allowLocal es = .ok sawPublic)
    (he : e ∈ es) : passes allowLocal e = true ∧ (sawPublic = false → e.cls = .loopback) := by
  induction es generalizing sawPublic with
  | nil => exact absurd he List.not_mem_nil
  | cons x es ih =>
      rw [scanAddresses] at h
      rcases hx : x.cls with _ | _ | _
      · rw [hx] at h
        dsimp only at h
        split_ifs at h with hlocal
        rcases List.mem_cons.mp he with rfl | he'
        · exact ⟨by rw [passes, hx, hlocal], fun _ => hx⟩
        · exact ih h he'
      · rw [hx] at h
        exact absurd h (by simp)
      · rw [hx] at h
        rcases hrest : scanAddresses allowLocal es with reason | saw
        · rw [hrest] at h
          exact absurd h (by simp [Except.map])
        · rw [hrest] at h
          obtain rfl : true = sawPublic := Except.ok.inj h
          rcases List.mem_cons.mp he with rfl | he'
          · exact ⟨by rw [passes, hx], fun hno => absurd hno (by simp)⟩
          · exact ⟨(ih hrest he').1, fun hno => absurd hno (by simp)⟩

/-- What an accepted URL is.
Kind: P -/
theorem of_isSafePushUrl {rawUrl : Option JsString} {answer : Option (List Entry)} {host : JsString}
    (h : isSafePushUrl rt allowLocal rawUrl answer = .ok host) :
    ∃ raw u addrs sawPublic, rawUrl = some raw ∧ rt.parseUrl raw = some u ∧
      host = stripBrackets u.hostname ∧ resolve rt host answer = .ok addrs ∧
      scanAddresses allowLocal addrs = .ok sawPublic ∧
      (u.protocol = js "http:" → allowLocal = true ∧ sawPublic = false) := by
  rcases rawUrl with _ | raw
  · exact absurd h (by simp [isSafePushUrl, bind, Except.bind])
  · simp only [isSafePushUrl, bind, Except.bind, throw, throwThe, MonadExceptOf.throw, pure,
      Except.pure] at h
    split_ifs at h
    rcases hu : rt.parseUrl raw with _ | u
    · rw [hu] at h
      exact absurd h (by simp)
    · rw [hu] at h
      dsimp only at h
      split_ifs at h with _ _ hlocal
      rcases haddrs : resolve rt (stripBrackets u.hostname) answer with reason | addrs
      · rw [haddrs] at h
        exact absurd h (by simp)
      · rw [haddrs] at h
        dsimp only at h
        rcases hscan : scanAddresses allowLocal addrs with reason | sawPublic
        · rw [hscan] at h
          exact absurd h (by simp)
        · rw [hscan] at h
          dsimp only at h
          split_ifs at h with hpublic
          obtain rfl := Except.ok.inj h
          refine ⟨raw, u, addrs, sawPublic, rfl, hu, rfl, haddrs, hscan, fun hhttp => ⟨?_, ?_⟩⟩
          · rw [← Bool.not_eq_false]
            exact fun hno => hlocal ⟨hhttp, hno⟩
          · rw [← Bool.not_eq_true]
            exact fun hyes => hpublic ⟨hhttp, hyes⟩

theorem passes_iff : passes allowLocal e = true ↔
    e.cls ≠ .blocked ∧ (e.cls = .loopback → allowLocal = true) := by
  unfold passes
  rcases e.cls with _ | _ | _ <;> simp

/-- What a guarded lookup lets through.
Kind: L -/
theorem passes_of_mem_guardedLookup {answer : Lookup}
    (h : e ∈ (guardedLookup allowLocal answer).entries) : passes allowLocal e = true := by
  unfold guardedLookup at h
  split_ifs at h with hall
  · exact List.all_eq_true.mp hall e h
  · exact absurd h List.not_mem_nil

end Check

/-! ### Connections -/

section Send

variable {rt : Runtime} {allowLocal : Bool} {url : Option JsString} {checked : Option (List Entry)}
  {answer : Lookup} {response : Option ℕ} {e : Entry}

/-- Where a send connects: nowhere, or, for an accepted URL, to the addresses of its client.
Kind: L -/
theorem send_cases (rt : Runtime) (allowLocal : Bool) (url : Option JsString)
    (checked : Option (List Entry)) (answer : Lookup) (response : Option ℕ) :
    (send rt allowLocal url checked answer response).1 = [] ∧
      (∀ host, isSafePushUrl rt allowLocal url checked ≠ .ok host) ∨
    ∃ raw u addrs sawPublic, url = some raw ∧ rt.parseUrl raw = some u ∧
      isSafePushUrl rt allowLocal url checked = .ok (stripBrackets u.hostname) ∧
      resolve rt (stripBrackets u.hostname) checked = .ok addrs ∧
      scanAddresses allowLocal addrs = .ok sawPublic ∧
      (u.protocol = js "http:" → allowLocal = true ∧ sawPublic = false) ∧
      (send rt allowLocal url checked answer response).1 =
        clientAddresses rt (stripBrackets u.hostname) (guardedLookup allowLocal answer) := by
  rcases hcheck : isSafePushUrl rt allowLocal url checked with reason | host
  · refine Or.inl ⟨?_, fun host hno => absurd hno (by simp)⟩
    simp [send, hcheck]
  · obtain ⟨raw, u, addrs, sawPublic, rfl, hu, rfl, haddrs, hscan, hhttp⟩ := of_isSafePushUrl hcheck
    refine Or.inr ⟨raw, u, addrs, sawPublic, rfl, hu, rfl, haddrs, hscan, hhttp, ?_⟩
    simp [send, hcheck, post, hu]

/-- **Two clauses hold.** No connection goes to a blocked address, and none to loopback without
`allowLocal`.
Kind: P -/
theorem passes_of_mem_send (h : e ∈ (send rt allowLocal url checked answer response).1) :
    passes allowLocal e = true := by
  rcases send_cases rt allowLocal url checked answer response with ⟨hnil, -⟩ |
    ⟨raw, u, addrs, sawPublic, -, -, -, haddrs, hscan, -, hsend⟩
  · rw [hnil] at h
    exact absurd h List.not_mem_nil
  · rw [hsend, clientAddresses] at h
    unfold resolve at haddrs
    rcases hip : rt.isIP (stripBrackets u.hostname) with _ | family
    · rw [hip] at h
      exact passes_of_mem_guardedLookup h
    · rw [hip] at h haddrs
      obtain rfl := Except.ok.inj haddrs
      exact (of_scanAddresses hscan h).1

/-- Every connection of the send obeys the policy.
Kind: D -/
def ConnectsSafely (rt : Runtime) (allowLocal : Bool) (url : Option JsString)
    (checked : Option (List Entry)) (answer : Lookup) (response : Option ℕ) : Prop :=
  ∀ raw u, url = some raw → rt.parseUrl raw = some u →
    ∀ e ∈ (send rt allowLocal url checked answer response).1, Obeys allowLocal u.protocol e

/-- For an accepted plain `http:` URL with a host name, the connect-time answer has a blocked address
or is all loopback.
Kind: D -/
def LoopbackWhereHttp (rt : Runtime) (allowLocal : Bool) (url : Option JsString)
    (checked : Option (List Entry)) (answer : Lookup) : Prop :=
  ∀ raw u host, url = some raw → rt.parseUrl raw = some u → u.protocol = js "http:" →
    isSafePushUrl rt allowLocal url checked = .ok host → rt.isIP host = none →
      (∃ e ∈ answer.entries, e.cls = .blocked) ∨ ∀ e ∈ answer.entries, e.cls = .loopback

/-- So it is where the URL is known.
Kind: L -/
theorem send_cases_of_url {raw : JsString} {u : Url} (hurl : url = some raw) (hu : rt.parseUrl raw = some u) :
    (send rt allowLocal url checked answer response).1 = [] ∧
      (∀ host, isSafePushUrl rt allowLocal url checked ≠ .ok host) ∨
    ∃ addrs sawPublic, isSafePushUrl rt allowLocal url checked = .ok (stripBrackets u.hostname) ∧
      resolve rt (stripBrackets u.hostname) checked = .ok addrs ∧
      scanAddresses allowLocal addrs = .ok sawPublic ∧
      (u.protocol = js "http:" → allowLocal = true ∧ sawPublic = false) ∧
      (send rt allowLocal url checked answer response).1 =
        clientAddresses rt (stripBrackets u.hostname) (guardedLookup allowLocal answer) := by
  rcases send_cases rt allowLocal url checked answer response with hno |
    ⟨raw', u', addrs, sawPublic, hurl', hu', hrest⟩
  · exact Or.inl hno
  · obtain rfl : raw = raw' := Option.some.inj (hurl.symm.trans hurl')
    obtain rfl : u = u' := Option.some.inj (hu.symm.trans hu')
    exact Or.inr ⟨addrs, sawPublic, hrest⟩

/-- A send that is safe learns of a blocked address, or of loopback only.
Kind: L -/
theorem loopback_of_connectsSafely (hsafe : ConnectsSafely rt allowLocal url checked answer response) :
    LoopbackWhereHttp rt allowLocal url checked answer := by
  intro raw u host hurl hu hhttp hcheck hip
  by_cases hblocked : ∃ e ∈ answer.entries, e.cls = .blocked
  · exact Or.inl hblocked
  · apply Or.inr
    intro e he
    rcases @send_cases_of_url rt allowLocal url checked answer response raw u hurl hu with ⟨-, hno⟩ |
      ⟨addrs, sawPublic, hcheck', -, -, hlocal, hsend⟩
    · exact absurd hcheck (hno host)
    · obtain rfl : host = stripBrackets u.hostname := Except.ok.inj (hcheck.symm.trans hcheck')
      -- nothing is blocked, and loopback is allowed: the whole answer is let through
      have hall : answer.entries.all (passes allowLocal) = true := by
        refine List.all_eq_true.mpr fun x hx => passes_iff.mpr ⟨fun hcls => ?_, fun _ => ?_⟩
        · exact hblocked ⟨x, hx, hcls⟩
        · exact (hlocal hhttp).1
      have hmem : e ∈ (send rt allowLocal url checked answer response).1 := by
        rw [hsend, clientAddresses, hip, guardedLookup, if_pos hall]
        exact he
      exact (hsafe raw u hurl hu e hmem).2.2 hhttp

/-- With a blocked address nothing is let through; with loopback only, nothing else.
Kind: L -/
theorem connectsSafely_of_loopback (hcond : LoopbackWhereHttp rt allowLocal url checked answer) :
    ConnectsSafely rt allowLocal url checked answer response := by
  intro raw u hurl hu e he
  obtain ⟨hblocked, hlocal⟩ := passes_iff.mp (passes_of_mem_send he)
  refine ⟨hblocked, hlocal, fun hhttp => ?_⟩
  rcases @send_cases_of_url rt allowLocal url checked answer response raw u hurl hu with ⟨hnil, -⟩ |
    ⟨addrs, sawPublic, hcheck, haddrs, hscan, hpublic, hsend⟩
  · rw [hnil] at he
    exact absurd he List.not_mem_nil
  · rw [hsend, clientAddresses] at he
    unfold resolve at haddrs
    rcases hip : rt.isIP (stripBrackets u.hostname) with _ | family
    · rw [hip] at he
      have hpass : answer.entries.all (passes allowLocal) = true := by
        by_contra hno
        rw [guardedLookup, if_neg hno] at he
        exact absurd he List.not_mem_nil
      rw [guardedLookup, if_pos hpass] at he
      rcases hcond raw u _ hurl hu hhttp hcheck hip with ⟨x, hx, hcls⟩ | hloop
      · exact absurd hcls (passes_iff.mp (List.all_eq_true.mp hpass x hx)).1
      · exact hloop e he
    · rw [hip] at he haddrs
      obtain rfl := Except.ok.inj haddrs
      exact (of_scanAddresses hscan he).2 (hpublic hhttp).2

/-- **The third clause.** Every connection of a send obeys the policy exactly when the connect-time
answer for an accepted plain `http:` URL with a host name has a blocked address, so that the guarded
lookup fails, or only loopback addresses.
Kind: P -/
theorem connectsSafely_iff (rt : Runtime) (allowLocal : Bool) (url : Option JsString)
    (checked : Option (List Entry)) (answer : Lookup) (response : Option ℕ) :
    ConnectsSafely rt allowLocal url checked answer response ↔
      LoopbackWhereHttp rt allowLocal url checked answer :=
  ⟨loopback_of_connectsSafely, connectsSafely_of_loopback⟩

end Send

/-! ### A name that moves -/

/-- A runtime in which every text is the URL `http://push.example/`, with no IPv6 literals.
Kind: D -/
def plainHttp : Runtime where
  parseUrl _ := some ⟨js "http:", [], [], js "push.example"⟩
  isIPv6 _ := false

/-- **A name that moves.** The name of a plain `http:` endpoint is loopback when it is checked and a
public address when it is connected to: the request goes out in the clear.
Kind: P -/
theorem connects_publicAddress :
    (send plainHttp true (some (js "http://push.example/"))
        (some [⟨js "127.0.0.1", some 4⟩]) (.one ⟨js "93.184.216.34", some 4⟩) none).1 =
      [⟨js "93.184.216.34", some 4⟩] ∧
    ¬ ConnectsSafely plainHttp true (some (js "http://push.example/"))
        (some [⟨js "127.0.0.1", some 4⟩]) (.one ⟨js "93.184.216.34", some 4⟩) none := by
  have hsend : (send plainHttp true (some (js "http://push.example/"))
      (some [⟨js "127.0.0.1", some 4⟩]) (.one ⟨js "93.184.216.34", some 4⟩) none).1 =
        [⟨js "93.184.216.34", some 4⟩] := by decide
  refine ⟨hsend, fun hsafe => ?_⟩
  have hobeys := hsafe _ _ rfl rfl ⟨js "93.184.216.34", some 4⟩ (by rw [hsend]; decide)
  exact absurd (hobeys.2.2 rfl) (by decide)

end TyoMq.Push
