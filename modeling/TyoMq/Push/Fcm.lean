import TyoMq.Jwks.Cache
import TyoMq.Lib.JsObject
import TyoMq.Push.Apns

/-!
# FCM: an access token for each project

`FcmTransport` of `lib/push.js`. The app of an endpoint selects a project, and every project has a cached
access token of its own and at most one mint that its sends wait for. A mint is in flight from its request
until the handlers of its promise have run; the sends that wait for it go on at some time after that.

* What Node does for the code is a parameter (`FcmPlatform`), and nothing is assumed of it.
* An app without a name has the default project, whatever the map says of it (`projectFor_eq_some_iff`).
-/

namespace TyoMq.Push

open TyoMq.Lib TyoMq.Jwks

/-! ### Projects -/

/-- A service account. What is absent is empty.
Kind: D -/
structure ServiceAccount where
  /-- `client_email`. -/
  client_email : JsString
  /-- `private_key`. -/
  private_key : JsString
  /-- `project_id`. -/
  project_id : JsString
  /-- `token_uri`. -/
  token_uri : JsString

/-- A project, without its cache.
Kind: D -/
structure FcmProject where
  /-- `sa`. -/
  sa : ServiceAccount
  /-- `project_id`. -/
  project_id : JsString
  /-- `tokenUrl`. -/
  tokenUrl : JsString

/-- `none` when it throws.
Source: `lib/push.js`, `makeFcmProject`
Kind: D -/
def makeFcmProject (sa : ServiceAccount) : Option FcmProject :=
  if sa.client_email = [] ∨ sa.private_key = [] ∨ sa.project_id = [] then none
  else some ⟨sa, sa.project_id, orElse sa.token_uri (js "https://oauth2.googleapis.com/token")⟩

/-- What the transport is constructed with.
Kind: D -/
structure FcmTransport where
  /-- `_default`. -/
  default : Option FcmProject
  /-- `_projectsByAppId`. -/
  projectsByAppId : JsObject FcmProject
  /-- `_fcmBaseUrl`. -/
  fcmBaseUrl : JsString

/-- `none` when it throws. Only the properties of its own count in `_projectsByAppId`.
Source: `lib/push.js`, `FcmTransport`
Kind: D -/
def createFcmTransport (serviceAccount : Option ServiceAccount)
    (projects : List (JsString × ServiceAccount)) : Option FcmTransport :=
  match serviceAccount.map makeFcmProject, projects.mapM fun e => (makeFcmProject e.2).map (e.1, ·) with
  | some none, _ => none
  | _, none => none
  | project, some projects =>
      let projectsByAppId := JsObject.empty.assignAll projects
      if project.isNone ∧ projectsByAppId.own.entries = [] then none
      else some ⟨project.join, projectsByAppId, js "https://fcm.googleapis.com"⟩

/-- Which project: the default, or the one of an app.
Kind: D -/
abbrev ProjectKey := Option JsString

/-- Source: `lib/push.js`, `FcmTransport.prototype._projectFor`
Kind: D -/
def FcmTransport.projectFor (t : FcmTransport) (appId : Option JsString) :
    Option (ProjectKey × FcmProject) :=
  match (appId.filter fun a => a ≠ []).bind fun a => (t.projectsByAppId.own.get a).map (some a, ·) with
  | some project => some project
  | none => t.default.map (none, ·)

/-- The project of a key.
Kind: D -/
def FcmTransport.project (t : FcmTransport) (key : ProjectKey) : Option FcmProject :=
  match key with
  | none => t.default
  | some appId => t.projectsByAppId.own.get appId

/-- The project is the one that is mapped to an app with a name, or else the default.
Kind: D -/
def FcmTransport.Selects (t : FcmTransport) (appId : Option JsString) (key : ProjectKey)
    (project : FcmProject) : Prop :=
  (∃ a, appId = some a ∧ a ≠ [] ∧ t.projectsByAppId.own.get a = some project ∧ key = some a) ∨
    (∀ a, appId = some a → a = [] ∨ t.projectsByAppId.own.get a = none) ∧
      t.default = some project ∧ key = none

/-- The project of an app.
Kind: L -/
theorem FcmTransport.projectFor_eq_some_iff {t : FcmTransport} {appId : Option JsString}
    {key : ProjectKey} {project : FcmProject} :
    t.projectFor appId = some (key, project) ↔ t.Selects appId key project := by
  have hdefault : t.default.map (Prod.mk (none : ProjectKey)) = some (key, project) ↔
      t.default = some project ∧ key = none := by
    rw [Option.map_eq_some_iff]
    constructor
    · rintro ⟨project', hproject, heq⟩
      obtain ⟨rfl, rfl⟩ := Prod.mk.inj heq
      exact ⟨hproject, rfl⟩
    · rintro ⟨hproject, rfl⟩
      exact ⟨project, hproject, rfl⟩
  unfold projectFor Selects
  rcases appId with _ | a
  · simp [hdefault]
  · by_cases ha : a = []
    · simp [Option.filter, ha, hdefault]
    · rcases hget : t.projectsByAppId.own.get a with _ | project'
      · simp [Option.filter, ha, hget, hdefault]
      · simp [Option.filter, ha, hget, and_comm, eq_comm]

/-- The account that is configured for an app: the last one under its name, or else the default one. An app
without a name or named `__proto__` has the default one.
Kind: D -/
def Configured (serviceAccount : Option ServiceAccount) (projects : List (JsString × ServiceAccount))
    (appId : Option JsString) (sa : ServiceAccount) : Prop :=
  (∃ a, appId = some a ∧ a ≠ [] ∧ a ≠ protoName ∧ (a, sa) ∈ lastWins projects) ∨
    (∀ a, appId = some a → a = [] ∨ a = protoName ∨ a ∉ projects.map Prod.fst) ∧ serviceAccount = some sa

section Construction

variable {sa : ServiceAccount} {project : FcmProject} {projects : List (JsString × ServiceAccount)}

/-- A project is made of its service account.
Kind: L -/
theorem sa_of_makeFcmProject (h : makeFcmProject sa = some project) : project.sa = sa := by
  unfold makeFcmProject at h
  split_ifs at h
  rw [← Option.some.inj h]

/-- So are all of them.
Kind: L -/
theorem accounts_of_mapM {made : List (JsString × FcmProject)}
    (h : (projects.mapM fun e => (makeFcmProject e.2).map (e.1, ·)) = some made) :
    projects = made.map fun e => (e.1, e.2.sa) := by
  induction projects generalizing made with
  | nil =>
      obtain rfl := Option.some.inj h
      rfl
  | cons e projects ih =>
      rw [List.mapM_cons] at h
      obtain ⟨first, hfirst, hrest⟩ := Option.bind_eq_some_iff.mp h
      obtain ⟨rest, hmade, hcons⟩ := Option.bind_eq_some_iff.mp hrest
      obtain rfl := Option.some.inj hcons
      obtain ⟨project, hproject, rfl⟩ := Option.map_eq_some_iff.mp hfirst
      rw [List.map_cons, ← ih hmade, sa_of_makeFcmProject hproject]

/-- The transport selects a project of the account that is configured for the app.
Kind: P -/
theorem configured_of_selects {serviceAccount : Option ServiceAccount} {t : FcmTransport}
    (h : createFcmTransport serviceAccount projects = some t) {appId : Option JsString} {key : ProjectKey}
    (hselects : t.Selects appId key project) : Configured serviceAccount projects appId project.sa := by
  unfold createFcmTransport at h
  split at h
  · cases h
  · cases h
  rename_i made hmade _
  dsimp only at h
  split_ifs at h
  obtain rfl := Option.some.inj h
  have hprojects := accounts_of_mapM hmade
  rcases hselects with ⟨a, happ, hne, hget, -⟩ | ⟨hnone, hdefault, -⟩
  · obtain ⟨hproto, hlast | ⟨-, hempty⟩⟩ := JsObject.get_own_assignAll_iff.mp hget
    · refine Or.inl ⟨a, happ, hne, hproto, ?_⟩
      rw [hprojects, lastWins_map]
      exact List.mem_map_of_mem hlast
    · cases hempty
  · refine Or.inr ⟨fun a happ => (hnone a happ).imp_right fun hget => ?_, ?_⟩
    · rw [or_iff_not_imp_left]
      intro hproto hmem
      rw [hprojects, List.map_map] at hmem
      obtain ⟨e, hlast, rfl⟩ := List.mem_map.mp (mem_keys_lastWins.mpr hmem)
      have hown := JsObject.get_own_assignAll_iff (o := JsObject.empty).mpr ⟨hproto, Or.inl hlast⟩
      rw [hget] at hown
      cases hown
    · obtain ⟨sa, hsa, hmade⟩ := Option.map_eq_some_iff.mp (Option.join_eq_some_iff.mp hdefault)
      rw [hsa, sa_of_makeFcmProject hmade]

end Construction

/-! ### Mints -/

/-- What Node does for the code. Nothing is assumed of it.
Kind: D -/
structure FcmPlatform where
  /-- The signature of a text under a private key, as `base64url`, `none` when signing throws. -/
  sign : JsString → JsString → Option JsString
  /-- The number that `JSON.parse` reads in a token, if it is one. -/
  readNumber : JsString → Option JsonNumber
  /-- `Number(v)`, when it is finite. -/
  number : Option Value → Option ℚ
  /-- `String(v)`. -/
  text : Value → JsString

/-- May the byte stand for itself in a component of a URI?
Kind: D -/
def isUnreserved (b : Fin 256) : Bool :=
  digitVal (UInt16.ofNat b) < 36 || (js "-_.!~*()").contains (UInt16.ofNat b) || b.val = 39

/-- An upper case hexadecimal digit.
Kind: D -/
def upperHexDigit (n : ℕ) : UInt16 := if n < 10 then UInt16.ofNat (48 + n) else UInt16.ofNat (55 + n)

/-- `encodeURIComponent(s)`, `none` when it throws.
Kind: D -/
def encodeURIComponent (s : JsString) : Option JsString :=
  if WellFormed s then
    some ((utf8 s).flatMap fun b =>
      if isUnreserved b then [UInt16.ofNat b]
      else [unit '%', upperHexDigit (b.val / 16), upperHexDigit (b.val % 16)])
  else none

/-- `FCM_TOKEN_REFRESH_MARGIN_MS`.
Kind: D -/
def FCM_TOKEN_REFRESH_MARGIN_MS : ℚ := 60 * 1000

/-- The request for an access token.
Kind: D -/
structure TokenRequest where
  /-- Where it is posted. -/
  url : JsString
  /-- The form that is posted. -/
  body : JsString
  deriving DecidableEq

/-- What is signed for an access token.
Source: `lib/push.js`, `FcmTransport.prototype._mintAccessToken`
Kind: D -/
def signingInput (project : FcmProject) (nowMs : ℚ) : JsString :=
  let nowSec := ⌊nowMs / 1000⌋.toNat
  let b64url (members : List (JsString × JsonValue ℕ)) :=
    base64url (utf8 (JsonValue.stringify Numerals.nat (.obj members)))
  b64url [(js "alg", .str (js "RS256")), (js "typ", .str (js "JWT"))] ++ unit '.' ::
    b64url [(js "iss", .str project.sa.client_email),
      (js "scope", .str (js "https://www.googleapis.com/auth/firebase.messaging")),
      (js "aud", .str project.tokenUrl), (js "iat", .num nowSec), (js "exp", .num (nowSec + 3600))]

/-- The request of a mint, `none` when it throws.
Source: `lib/push.js`, `FcmTransport.prototype._mintAccessToken`
Kind: D -/
def mintRequest (p : FcmPlatform) (project : FcmProject) (nowMs : ℚ) : Option TokenRequest :=
  let input := signingInput project nowMs
  match p.sign project.sa.private_key input with
  | none => none
  | some signature =>
      match encodeURIComponent (js "urn:ietf:params:oauth:grant-type:jwt-bearer"),
        encodeURIComponent (input ++ unit '.' :: signature) with
      | some grantType, some assertion =>
          some ⟨project.tokenUrl, js "grant_type=" ++ grantType ++ js "&assertion=" ++ assertion⟩
      | _, _ => none

/-- How a post ends: in an error, or with a response.
Source: `lib/push.js`, `simplePost`
Kind: D -/
inductive PostReply where
  | failed
  | response (status : ℕ) (body : JsString)
  deriving DecidableEq

/-- An access token.
Kind: D -/
structure AccessToken where
  /-- `value`. -/
  value : Value
  /-- `expiresAtMs`. -/
  expiresAtMs : ℚ

/-- The token in the answer to a mint, `none` when there is none.
Source: `lib/push.js`, `FcmTransport.prototype._mintAccessToken`
Kind: D -/
def readAccessToken (p : FcmPlatform) (nowMs : ℚ) (reply : PostReply) : Option AccessToken :=
  match reply with
  | .failed => none
  | .response status body =>
      if status < 200 ∨ 300 ≤ status then none
      else
        match JsonValue.parse p.readNumber body with
        | none => none
        | some parsed =>
            ((parsed.member (js "access_token")).filter truthy).map fun value =>
              let lifetimeSec :=
                ((p.number (parsed.member (js "expires_in"))).filter fun n => 0 < n).getD 3600
              ⟨value, nowMs + lifetimeSec * 1000⟩

/-! ### The state -/

/-- How far a mint has come: it is posted, its answer has come, the handlers of its promise have run.
Kind: D -/
inductive MintState where
  | posted
  | ended (nowMs : ℚ) (reply : PostReply)
  | settled (nowMs : ℚ) (reply : PostReply)
  deriving DecidableEq

/-- A mint.
Kind: D -/
structure Mint where
  /-- The project that it is for. -/
  project : ProjectKey
  /-- What was posted. -/
  request : TokenRequest
  /-- How far it has come. -/
  state : MintState

/-- Is the promise of the mint still to be settled?
Kind: D -/
def Mint.inFlight (m : Mint) : Bool :=
  match m.state with
  | .posted | .ended _ _ => true
  | .settled _ _ => false

/-- The cache of a project.
Kind: D -/
structure TokenCache where
  /-- `token`. -/
  token : Option AccessToken
  /-- `tokenPromise`. -/
  tokenPromise : Option ℕ

/-- What is sent, and where. The payload, if there is one, is as `String` makes its values.
Kind: D -/
structure FcmEndpoint where
  /-- `app_id`. -/
  app_id : Option JsString
  /-- `token`. -/
  token : JsString
  /-- `payload`. -/
  payload : Option (List (JsString × JsString))

/-- Where a send has its access token from: the cache at some time, or a mint.
Kind: D -/
inductive TokenSource where
  | cached (token : AccessToken) (nowMs : ℚ)
  | minted (mint : ℕ)

/-- A send that waits for its access token.
Kind: D -/
structure FcmSend where
  /-- What is sent. -/
  endpoint : FcmEndpoint
  /-- Which project. -/
  key : ProjectKey
  /-- The project. -/
  project : FcmProject
  /-- What it waits for. -/
  source : TokenSource

/-- A message that is posted.
Kind: D -/
structure FcmPost where
  /-- The send. -/
  send : FcmSend
  /-- Where it is posted. -/
  url : JsString
  /-- The access token. -/
  accessToken : Value
  /-- `authorization`. -/
  authorization : JsString
  /-- The body. -/
  body : JsString

/-- The access tokens of a transport.
Kind: D -/
structure TokenStore where
  /-- The caches of the projects. -/
  cache : ProjectKey → TokenCache
  /-- The mints, by number. -/
  mints : JsMap ℕ Mint
  /-- How many there are. -/
  minted : ℕ

/-- A transport at work.
Kind: D -/
structure FcmState where
  /-- The access tokens. -/
  store : TokenStore
  /-- The sends that wait for an access token. -/
  waiting : List FcmSend
  /-- The messages posted so far. -/
  posts : List FcmPost
  /-- The latest time. -/
  clock : ℚ

/-- What becomes of a send: a verdict, or an error that it throws.
Kind: D -/
inductive FcmOutcome where
  | verdict (v : PushVerdict)
  | thrown
  deriving DecidableEq

/-! ### Answers to messages -/

section Classify

variable (p : FcmPlatform)

/-- The status and the code in the body of an error.
Source: `lib/push.js`, `parseFcmError`
Kind: D -/
def parseFcmError (body : JsString) : Option Value × Option Value :=
  let parsed := JsonValue.parse p.readNumber (orElse body (js "\x7b\x7d"))
  match (parsed.bind fun v => v.member (js "error")).filter truthy with
  | none => (none, none)
  | some err =>
      let code :=
        match err.member (js "details") with
        | some (.arr details) => details.findSome? fun d => (d.member (js "errorCode")).filter truthy
        | _ => none
      ((err.member (js "status")).filter truthy, code)

/-- Is the value the string?
Kind: D -/
def isText (v : Option Value) (s : JsString) : Bool := v.bind JsonValue.text? = some s

/-- The verdict on a message, and whether the credentials are at fault.
Source: `lib/push.js`, `classifyFcmResponse`
Kind: D -/
def classifyFcmResponse (status : ℕ) (body : JsString) : PushVerdict × Bool :=
  if 200 ≤ status ∧ status < 300 then (⟨true, false⟩, false)
  else if status = 401 ∨ status = 403 then (retained, true)
  else
    let e := parseFcmError p body
    if status = 404 then (⟨false, true⟩, false)
    else if isText e.2 (js "UNREGISTERED") then (⟨false, true⟩, false)
    else if status = 400 ∧ (isText e.1 (js "INVALID_ARGUMENT") ∨ isText e.2 (js "INVALID_ARGUMENT") ∨
        isText e.2 (js "UNREGISTERED")) then
      (⟨false, true⟩, false)
    else (retained, false)

end Classify

/-! ### Steps -/

/-- What happens: a send, the answer to a mint, the handlers of its promise, a send that goes on with
what it waited for, or the answer to a message.
Kind: D -/
inductive FcmEvent where
  | send (endpoint : FcmEndpoint) (nowMs : ℚ)
  | ended (mint : ℕ) (nowMs : ℚ) (reply : PostReply)
  | settled (mint : ℕ)
  | resume (i : ℕ)
  | answered (post : ℕ) (reply : PostReply)

/-- When it happens, where that is looked at.
Kind: D -/
def FcmEvent.time : FcmEvent → Option ℚ
  | send _ nowMs | ended _ nowMs _ => some nowMs
  | settled _ | resume _ | answered _ _ => none

section Step

variable (p : FcmPlatform) (t : FcmTransport)

namespace TokenStore

/-- May the cached token be served?
Source: `lib/push.js`, `FcmTransport.prototype._getAccessToken`, line 657
Kind: D -/
def fresh (token : AccessToken) (nowMs : ℚ) : Bool :=
  nowMs < token.expiresAtMs - FCM_TOKEN_REFRESH_MARGIN_MS

/-- A mint begins.
Source: `lib/push.js`, `FcmTransport.prototype._getAccessToken`, line 660
Kind: D -/
def beginMint (s : TokenStore) (key : ProjectKey) (request : TokenRequest) : TokenStore :=
  { s with
    cache := Function.update s.cache key { s.cache key with tokenPromise := some s.minted }
    mints := s.mints.set s.minted ⟨key, request, .posted⟩
    minted := s.minted + 1 }

/-- Where a send has its token from, `none` when it throws.
Source: `lib/push.js`, `FcmTransport.prototype._getAccessToken`
Kind: D -/
def getAccessToken (s : TokenStore) (key : ProjectKey) (project : FcmProject) (nowMs : ℚ) :
    Option (TokenStore × TokenSource) :=
  match (s.cache key).token.filter fun token => fresh token nowMs with
  | some token => some (s, .cached token nowMs)
  | none =>
      match (s.cache key).tokenPromise with
      | some mint => some (s, .minted mint)
      | none =>
          match mintRequest p project nowMs with
          | none => none
          | some request => some (s.beginMint key request, .minted s.minted)

/-- The answer to a mint comes.
Kind: D -/
def ending (s : TokenStore) (mint : ℕ) (m : Mint) (nowMs : ℚ) (reply : PostReply) : TokenStore :=
  { s with mints := s.mints.set mint { m with state := .ended nowMs reply } }

/-- The handlers of the promise of a mint.
Source: `lib/push.js`, `FcmTransport.prototype._getAccessToken`, lines 661-662
Kind: D -/
def settling (s : TokenStore) (mint : ℕ) (m : Mint) (nowMs : ℚ) (reply : PostReply) : TokenStore :=
  { s with
    cache := Function.update s.cache m.project
      ⟨(readAccessToken p nowMs reply).or (s.cache m.project).token, none⟩
    mints := s.mints.set mint { m with state := .settled nowMs reply } }

/-- What a send has waited for: a value, or an error for `none`. It may have to wait on.
Kind: D -/
def granted (s : TokenStore) : TokenSource → Option (Option Value)
  | .cached token _ => some (some token.value)
  | .minted mint =>
      match (s.mints.get mint).map Mint.state with
      | some (.settled nowMs reply) => some ((readAccessToken p nowMs reply).map AccessToken.value)
      | _ => none

end TokenStore

namespace FcmState

/-- No tokens and no sends.
Kind: D -/
def init : FcmState := ⟨⟨fun _ => ⟨none, none⟩, JsMap.empty, 0⟩, [], [], 0⟩

/-- A send up to its access token.
Source: `lib/push.js`, `FcmTransport.prototype.send`
Kind: D -/
def send (s : FcmState) (endpoint : FcmEndpoint) (nowMs : ℚ) : FcmState × Option FcmOutcome :=
  match t.projectFor endpoint.app_id with
  | none => (s, some (.verdict retained))
  | some (key, project) =>
      match s.store.getAccessToken p key project nowMs with
      | none => (s, some .thrown)
      | some (store, source) =>
          ({ s with
              store := store
              waiting := s.waiting ++ [⟨endpoint, key, project, source⟩] }, none)

/-- A message with its access token, `none` when it throws.
Source: `lib/push.js`, `FcmTransport.prototype.send`
Kind: D -/
def message (w : FcmSend) (accessToken : Value) : Option FcmPost :=
  let payload := w.endpoint.payload.getD [(js "type", js "wake"), (js "v", js "1")]
  let data := payload.map fun e => (e.1, (JsonValue.str e.2 : JsonValue ℕ))
  let body := JsonValue.stringify Numerals.nat (.obj [(js "message", .obj
    [(js "token", .str w.endpoint.token), (js "data", .obj data),
      (js "android", .obj [(js "priority", .str (js "HIGH"))])])])
  (encodeURIComponent w.project.project_id).map fun project_id =>
    { send := w
      url := t.fcmBaseUrl ++ js "/v1/projects/" ++ project_id ++ js "/messages:send"
      accessToken := accessToken
      authorization := js "Bearer " ++ p.text accessToken
      body := body }

/-- A send goes on.
Source: `lib/push.js`, `FcmTransport.prototype.send`
Kind: D -/
def resume (s : FcmState) (i : ℕ) (w : FcmSend) : FcmState × Option FcmOutcome :=
  match s.store.granted p w.source with
  | none => (s, none)
  | some granted =>
      let s := { s with waiting := s.waiting.eraseIdx i }
      match granted.bind fun accessToken => message p t w accessToken with
      | none => (s, some (.verdict retained))
      | some post => ({ s with posts := s.posts ++ [post] }, none)

/-- One event, and what becomes of the send that it ends. What cannot happen changes nothing.
Kind: D -/
def step (s : FcmState) (e : FcmEvent) : FcmState × Option FcmOutcome :=
  let s := { s with clock := e.time.getD s.clock }
  match e with
  | .send endpoint nowMs => s.send p t endpoint nowMs
  | .ended mint nowMs reply =>
      match s.store.mints.get mint with
      | some m =>
          match m.state with
          | .posted => ({ s with store := s.store.ending mint m nowMs reply }, none)
          | .ended _ _ | .settled _ _ => (s, none)
      | none => (s, none)
  | .settled mint =>
      match s.store.mints.get mint with
      | some m =>
          match m.state with
          | .ended nowMs reply => ({ s with store := s.store.settling p mint m nowMs reply }, none)
          | .posted | .settled _ _ => (s, none)
      | none => (s, none)
  | .resume i =>
      match s.waiting[i]? with
      | none => (s, none)
      | some w => s.resume p t i w
  | .answered i reply =>
      match s.posts[i]? with
      | none => (s, none)
      | some _ =>
          match reply with
          | .failed => (s, some (.verdict retained))
          | .response status body => (s, some (.verdict (classifyFcmResponse p status body).1))

end FcmState

/-- One event.
Kind: D -/
def fcmStep (s : FcmState) (e : FcmEvent) : FcmState := (s.step p t e).1

/-- The state after a run.
Kind: D -/
def fcmAfter (l : List FcmEvent) : FcmState := runFrom (fcmStep p t) FcmState.init l

end Step

end TyoMq.Push
