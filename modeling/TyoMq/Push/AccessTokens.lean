import TyoMq.Push.Fcm

/-!
# FCM: whose access token a message carries

Runs of an `FcmTransport`: sends to any projects, answers to mints and to messages, in any order.

* **What a step does** (`moves_step`), to the access tokens (`Change`): nothing, or a mint begins, or its
  answer comes, or the handlers of its promise run. The mints that there are stay (`Change.grows`).
* `Sound`: the mint in flight for a project is the one that its cache refers to, and a cached token came
  with the answer to a mint for the project.
* **Access tokens** (`accessTokens_sound`): in every run a message carries a token minted for its own
  project, mints of a project come one after the other, a cached token is served before its margin, and a
  send after a failed mint starts another one.
* The account is the one configured for the app, whatever names accounts have been configured under
  (`mintedWith_configured`).
* An app without a name has the default project though the map has one for it (`not_mapped_unnamed`).
-/

namespace TyoMq.Push

open TyoMq.Lib TyoMq.Jwks

variable {p : FcmPlatform} {t : FcmTransport}

namespace TokenStore

variable {s s' : TokenStore} {key key' : ProjectKey} {project : FcmProject} {nowMs now : ℚ}
  {token : AccessToken}

/-- The token came with the answer to a mint for the project.
Kind: D -/
def MintedFor (p : FcmPlatform) (s : TokenStore) (key : ProjectKey) (token : AccessToken) : Prop :=
  ∃ mint m nowMs reply, s.mints.get mint = some m ∧ m.project = key ∧
    m.state = .settled nowMs reply ∧ readAccessToken p nowMs reply = some token

/-- The mints and the caches fit together.
Kind: D -/
structure Sound (p : FcmPlatform) (t : FcmTransport) (s : TokenStore) : Prop where
  /-- The next number is a new one. -/
  numbered : ∀ mint m, s.mints.get mint = some m → mint < s.minted
  /-- A promise is that of a mint for the project. -/
  pending : ∀ key mint, (s.cache key).tokenPromise = some mint →
    ∃ m, s.mints.get mint = some m ∧ m.project = key
  /-- A mint in flight is the one that its project waits for. -/
  only : ∀ mint m, s.mints.get mint = some m → m.inFlight = true →
    (s.cache m.project).tokenPromise = some mint
  /-- A cached token was minted for the project. -/
  token : ∀ key token, (s.cache key).token = some token → s.MintedFor p key token
  /-- A mint was asked for with the service account of its project. -/
  request : ∀ mint m, s.mints.get mint = some m →
    ∃ project nowMs, t.project m.project = some project ∧ mintRequest p project nowMs = some m.request

/-! ### Tokens that are served -/

/-- A token that is not served is not served later.
Kind: L -/
theorem fresh_eq_false_of_le (h : fresh token nowMs = false) (hle : nowMs ≤ now) :
    fresh token now = false := by
  unfold fresh at h ⊢
  rw [decide_eq_false_iff_not, not_lt] at h ⊢
  exact h.trans hle

/-- **Where a send has its token from.**
Kind: L -/
theorem getAccessToken_spec (p : FcmPlatform) (s : TokenStore) (key : ProjectKey) (project : FcmProject)
    (nowMs : ℚ) :
    (∃ token, (s.cache key).token = some token ∧ fresh token nowMs = true ∧
      s.getAccessToken p key project nowMs = some (s, .cached token nowMs)) ∨
    (∀ token ∈ (s.cache key).token, fresh token nowMs = false) ∧
      ((∃ mint, (s.cache key).tokenPromise = some mint ∧
        s.getAccessToken p key project nowMs = some (s, .minted mint)) ∨
      (s.cache key).tokenPromise = none ∧ s.getAccessToken p key project nowMs =
        (mintRequest p project nowMs).map fun request => (s.beginMint key request, .minted s.minted)) := by
  unfold getAccessToken
  generalize hfresh : (s.cache key).token.filter _ = served
  rcases served with _ | token
  · refine Or.inr ⟨fun token htoken => ?_, ?_⟩
    · have hnot := Option.filter_eq_none_iff.mp hfresh token htoken
      exact Bool.eq_false_iff.mpr hnot
    · rcases (s.cache key).tokenPromise with _ | mint
      · refine Or.inr ⟨rfl, ?_⟩
        dsimp only
        rcases mintRequest p project nowMs with _ | request <;> rfl
      · exact Or.inl ⟨mint, rfl, rfl⟩
  · obtain ⟨htoken, hserved⟩ := Option.filter_eq_some_iff.mp hfresh
    exact Or.inl ⟨token, htoken, hserved, rfl⟩

/-! ### Changes -/

/-- What a step can do to the access tokens.
Kind: D -/
inductive Change (p : FcmPlatform) (t : FcmTransport) (s : TokenStore) : TokenStore → Prop
  | none : Change p t s s
  | beginMint {key : ProjectKey} {project : FcmProject} {nowMs : ℚ} {request : TokenRequest}
      (hproject : t.project key = some project) (hrequest : mintRequest p project nowMs = some request)
      (hpromise : (s.cache key).tokenPromise = .none) : Change p t s (s.beginMint key request)
  | ending {mint : ℕ} {m : Mint} (hget : s.mints.get mint = some m) (hstate : m.state = .posted)
      (nowMs : ℚ) (reply : PostReply) : Change p t s (s.ending mint m nowMs reply)
  | settling {mint : ℕ} {m : Mint} {nowMs : ℚ} {reply : PostReply} (hget : s.mints.get mint = some m)
      (hstate : m.state = .ended nowMs reply) : Change p t s (s.settling p mint m nowMs reply)

/-- The mints of the one are there in the other, and those that were settled are as they were.
Kind: D -/
def Grows (s s' : TokenStore) : Prop :=
  ∀ mint m, s.mints.get mint = some m → ∃ state, s'.mints.get mint = some { m with state := state } ∧
    (m.inFlight = false → state = m.state)

theorem inFlight_of_state {m : Mint} (h : m.state = .posted ∨ ∃ nowMs reply, m.state = .ended nowMs reply) :
    m.inFlight = true := by
  unfold Mint.inFlight
  rcases h with h | ⟨nowMs, reply, h⟩ <;> rw [h]

theorem grows_set {mint : ℕ} {m : Mint} (hget : s.mints.get mint = some m) (hflight : m.inFlight = true)
    (state : MintState) (cache : ProjectKey → TokenCache) (minted : ℕ) :
    Grows s ⟨cache, s.mints.set mint { m with state := state }, minted⟩ := by
  intro mint' m' hget'
  dsimp only
  rw [JsMap.get_set]
  by_cases hmint : mint' = mint
  · subst hmint
    obtain rfl := Option.some.inj (hget.symm.trans hget')
    refine ⟨state, if_pos rfl, fun hsettled => ?_⟩
    rw [hflight] at hsettled
    cases hsettled
  · exact ⟨m'.state, (if_neg hmint).trans hget', fun _ => rfl⟩

/-- Mints stay.
Kind: L -/
theorem Change.grows (h : Change p t s s') (hsound : Sound p t s) : Grows s s' := by
  cases h with
  | none => exact fun mint m hget => ⟨m.state, hget, fun _ => rfl⟩
  | beginMint hproject hrequest hpromise =>
      intro mint m hget
      have hmint : mint ≠ s.minted := (hsound.numbered mint m hget).ne
      exact ⟨m.state, (JsMap.get_set_of_ne _ hmint _).trans hget, fun _ => rfl⟩
  | ending hget hstate nowMs reply =>
      exact grows_set hget (inFlight_of_state (Or.inl hstate)) _ _ _
  | settling hget hstate =>
      exact grows_set hget (inFlight_of_state (Or.inr ⟨_, _, hstate⟩)) _ _ _

theorem MintedFor.grows (h : s.MintedFor p key token) (hgrows : Grows s s') :
    s'.MintedFor p key token := by
  obtain ⟨mint, m, nowMs, reply, hget, hproject, hstate, hread⟩ := h
  obtain ⟨state, hget', hsame⟩ := hgrows mint m hget
  have hsettled : m.inFlight = false := by
    unfold Mint.inFlight
    rw [hstate]
  exact ⟨mint, _, nowMs, reply, hget', hproject, (hsame hsettled).trans hstate, hread⟩

/-- What is there after the state of a mint has changed was there before.
Kind: L -/
theorem get_of_set {mint mint' : ℕ} {m m' : Mint} {state : MintState}
    (hget : s.mints.get mint = some m)
    (hget' : (s.mints.set mint { m with state := state }).get mint' = some m') :
    ∃ old, s.mints.get mint' = some old ∧ m'.project = old.project ∧ m'.request = old.request ∧
      (mint' = mint ∧ m'.state = state ∨ mint' ≠ mint ∧ m' = old) := by
  rw [JsMap.get_set] at hget'
  by_cases hmint : mint' = mint
  · subst hmint
    rw [if_pos rfl] at hget'
    obtain rfl := Option.some.inj hget'
    exact ⟨m, hget, rfl, rfl, Or.inl ⟨rfl, rfl⟩⟩
  · rw [if_neg hmint] at hget'
    exact ⟨m', hget', rfl, rfl, Or.inr ⟨hmint, rfl⟩⟩

/-- A mint that is there once another has begun is that one, or was there before.
Kind: L -/
theorem get_beginMint {request : TokenRequest} {mint : ℕ} {m : Mint}
    (hget : (s.beginMint key request).mints.get mint = some m) :
    (mint = s.minted ∧ m = ⟨key, request, .posted⟩) ∨ s.mints.get mint = some m := by
  unfold TokenStore.beginMint at hget
  dsimp only at hget
  rw [JsMap.get_set] at hget
  split_ifs at hget with hmint
  · exact Or.inl ⟨hmint, (Option.some.inj hget).symm⟩
  · exact Or.inr hget

theorem Sound.beginMint (h : Sound p t s) {request : TokenRequest} (hproject : t.project key = some project)
    (hrequest : mintRequest p project nowMs = some request)
    (hpromise : (s.cache key).tokenPromise = none) : Sound p t (s.beginMint key request) := by
  have hgrows := (Change.beginMint hproject hrequest hpromise).grows h
  have hcache : ∀ key', key' ≠ key → (s.beginMint key request).cache key' = s.cache key' := fun key' hne =>
    Function.update_of_ne hne _ _
  have hself : (s.beginMint key request).cache key = { s.cache key with tokenPromise := some s.minted } :=
    Function.update_self ..
  refine ⟨?_, ?_, ?_, ?_, ?_⟩
  · intro mint m hget
    rcases get_beginMint hget with ⟨rfl, -⟩ | hold
    · exact Nat.lt_succ_self _
    · exact Nat.lt_succ_of_lt (h.numbered mint m hold)
  · intro key' mint hpending
    by_cases hkey : key' = key
    · subst hkey
      rw [hself] at hpending
      obtain rfl := Option.some.inj hpending
      exact ⟨_, JsMap.get_set_self .., rfl⟩
    · rw [hcache key' hkey] at hpending
      obtain ⟨m, hget, hproject'⟩ := h.pending key' mint hpending
      obtain ⟨state, hget', -⟩ := hgrows mint m hget
      exact ⟨_, hget', hproject'⟩
  · intro mint m hget hflight
    rcases get_beginMint hget with ⟨rfl, rfl⟩ | hold
    · rw [hself]
    · have honly := h.only mint m hold hflight
      have hkey : m.project ≠ key := by
        intro heq
        rw [heq, hpromise] at honly
        cases honly
      rw [hcache _ hkey]
      exact honly
  · intro key' token htoken
    have hsame : (s.cache key').token = some token := by
      by_cases hkey : key' = key
      · subst hkey
        rwa [hself] at htoken
      · rwa [hcache key' hkey] at htoken
    exact (h.token key' token hsame).grows hgrows
  · intro mint m hget
    rcases get_beginMint hget with ⟨rfl, rfl⟩ | hold
    · exact ⟨project, nowMs, hproject, hrequest⟩
    · exact h.request mint m hold

/-- Soundness is kept when the state of a mint in flight changes, and the caches with it: a promise is
dropped only when its mint is no longer in flight, and a token is one that was minted for its project.
Kind: L -/
theorem Sound.set (h : Sound p t s) {mint : ℕ} {m : Mint} (hget : s.mints.get mint = some m)
    (hflight : m.inFlight = true) {state : MintState} {cache : ProjectKey → TokenCache}
    (hpending : ∀ key mint', (cache key).tokenPromise = some mint' →
      (s.cache key).tokenPromise = some mint')
    (honly : ∀ key mint', (s.cache key).tokenPromise = some mint' →
      mint' ≠ mint ∨ ({ m with state := state } : Mint).inFlight = true →
        (cache key).tokenPromise = some mint')
    (htoken : ∀ key token, (cache key).token = some token →
      MintedFor p ⟨cache, s.mints.set mint { m with state := state }, s.minted⟩ key token) :
    Sound p t ⟨cache, s.mints.set mint { m with state := state }, s.minted⟩ := by
  have hgrows := grows_set hget hflight state cache s.minted
  refine ⟨?_, ?_, ?_, htoken, ?_⟩
  · intro mint' m' hget'
    obtain ⟨old, hold, -⟩ := get_of_set hget hget'
    exact h.numbered mint' old hold
  · intro key' mint' hpromise
    obtain ⟨m', hget', hproject⟩ := h.pending key' mint' (hpending key' mint' hpromise)
    obtain ⟨state, hgrown, -⟩ := hgrows mint' m' hget'
    exact ⟨_, hgrown, hproject⟩
  · intro mint' m' hget' hflight'
    obtain ⟨old, hold, hproject, -, ⟨rfl, hstate⟩ | ⟨hmint, rfl⟩⟩ := get_of_set hget hget'
    · obtain rfl := Option.some.inj (hget.symm.trans hold)
      rw [hproject]
      apply honly _ _ (h.only _ _ hget hflight)
      unfold Mint.inFlight at hflight' ⊢
      rw [hstate] at hflight'
      exact Or.inr hflight'
    · exact honly _ _ (h.only mint' m' hold hflight') (Or.inl hmint)
  · intro mint' m' hget'
    obtain ⟨old, hold, hproject, hrequest, -⟩ := get_of_set hget hget'
    rw [hproject, hrequest]
    exact h.request mint' old hold

theorem Sound.ending (h : Sound p t s) {mint : ℕ} {m : Mint} (hget : s.mints.get mint = some m)
    (hstate : m.state = .posted) (nowMs : ℚ) (reply : PostReply) :
    Sound p t (s.ending mint m nowMs reply) := by
  have hgrows := (Change.ending hget hstate nowMs reply).grows (p := p) (t := t) h
  apply h.set hget (inFlight_of_state (Or.inl hstate))
  · exact fun _ _ hpromise => hpromise
  · exact fun _ _ hpromise _ => hpromise
  · exact fun key' token htoken => (h.token key' token htoken).grows hgrows

theorem Sound.settling (h : Sound p t s) {mint : ℕ} {m : Mint} {reply : PostReply}
    (hget : s.mints.get mint = some m) (hstate : m.state = .ended nowMs reply) :
    Sound p t (s.settling p mint m nowMs reply) := by
  have hgrows := (Change.settling (p := p) (t := t) hget hstate).grows h
  have hflight := inFlight_of_state (Or.inr ⟨nowMs, reply, hstate⟩)
  have hpromise : (s.cache m.project).tokenPromise = some mint := h.only mint m hget hflight
  apply h.set hget hflight
  · intro key' mint' hpending
    by_cases hkey : key' = m.project
    · rw [hkey, Function.update_self] at hpending
      cases hpending
    · rwa [Function.update_of_ne hkey] at hpending
  · intro key' mint' hwaits hother
    by_cases hkey : key' = m.project
    · rw [hkey, hpromise] at hwaits
      rcases hother with hmint | hsettled
      · exact absurd (Option.some.inj hwaits).symm hmint
      · cases hsettled
    · rwa [Function.update_of_ne hkey]
  · intro key' token htoken
    by_cases hkey : key' = m.project
    · rw [hkey, Function.update_self] at htoken
      rcases hread : readAccessToken p nowMs reply with _ | fetched
      · rw [hread, Option.none_or] at htoken
        rw [hkey]
        exact (h.token _ token htoken).grows hgrows
      · rw [hread, Option.some_or] at htoken
        obtain rfl := Option.some.inj htoken
        exact ⟨mint, _, nowMs, reply, JsMap.get_set_self .., hkey.symm, rfl, hread⟩
    · rw [Function.update_of_ne hkey] at htoken
      exact (h.token key' token htoken).grows hgrows

theorem Sound.change (h : Sound p t s) (hchange : Change p t s s') : Sound p t s' := by
  cases hchange with
  | none => exact h
  | beginMint hproject hrequest hpromise => exact h.beginMint hproject hrequest hpromise
  | ending hget hstate nowMs reply => exact h.ending hget hstate nowMs reply
  | settling hget hstate => exact h.settling hget hstate

end TokenStore

open TokenStore

section Runs

variable {s : FcmState} {e : FcmEvent} {key : ProjectKey} {project : FcmProject}

/-! ### Sends -/

theorem project_of_projectFor {appId : Option JsString} (h : t.projectFor appId = some (key, project)) :
    t.project key = some project := by
  rcases FcmTransport.projectFor_eq_some_iff.mp h with ⟨a, -, -, hget, rfl⟩ | ⟨-, hdefault, rfl⟩
  · exact hget
  · exact hdefault

/-- A send is one for the project of its app, with a token of the project that was served in time or a
mint for the project.
Kind: D -/
def FcmSend.Bound (p : FcmPlatform) (t : FcmTransport) (s : TokenStore) (w : FcmSend) : Prop :=
  t.projectFor w.endpoint.app_id = some (w.key, w.project) ∧
    match w.source with
    | .cached token nowMs => s.MintedFor p w.key token ∧ fresh token nowMs = true
    | .minted mint => ∃ m, s.mints.get mint = some m ∧ m.project = w.key

theorem FcmSend.Bound.grows {s s' : TokenStore} {w : FcmSend} (h : w.Bound p t s) (hgrows : Grows s s') :
    w.Bound p t s' := by
  refine ⟨h.1, ?_⟩
  have hsource := h.2
  rcases hw : w.source with ⟨token, nowMs⟩ | mint
  · rw [hw] at hsource
    exact ⟨hsource.1.grows hgrows, hsource.2⟩
  · rw [hw] at hsource
    obtain ⟨m, hget, hproject⟩ := hsource
    obtain ⟨state, hget', -⟩ := hgrows mint m hget
    exact ⟨_, hget', hproject⟩

/-- What a send is granted is a token of its project.
Kind: L -/
theorem FcmSend.Bound.granted {s : TokenStore} {w : FcmSend} (h : w.Bound p t s) {value : Value}
    (hgranted : s.granted p w.source = some (some value)) :
    ∃ token, s.MintedFor p w.key token ∧ value = token.value := by
  have hsource := h.2
  rcases hw : w.source with ⟨token, nowMs⟩ | mint
  · rw [hw] at hsource hgranted
    obtain rfl := Option.some.inj (Option.some.inj hgranted)
    exact ⟨token, hsource.1, rfl⟩
  · rw [hw] at hsource hgranted
    obtain ⟨m, hget, hproject⟩ := hsource
    unfold TokenStore.granted at hgranted
    dsimp only at hgranted
    rw [hget, Option.map_some] at hgranted
    rcases hstate : m.state with _ | _ | ⟨nowMs, reply⟩
    · rw [hstate] at hgranted
      cases hgranted
    · rw [hstate] at hgranted
      cases hgranted
    · rw [hstate] at hgranted
      obtain ⟨token, hread, rfl⟩ := Option.map_eq_some_iff.mp (Option.some.inj hgranted)
      exact ⟨token, ⟨mint, m, nowMs, reply, hget, hproject, hstate, hread⟩, rfl⟩

/-- The sends of a transport are bound to their projects, and so are the messages.
Kind: D -/
structure Faithful (p : FcmPlatform) (t : FcmTransport) (s : FcmState) : Prop where
  /-- The access tokens are sound. -/
  store : Sound p t s.store
  /-- The sends that wait are bound. -/
  waiting : ∀ w ∈ s.waiting, w.Bound p t s.store
  /-- The messages are, and they carry tokens of their projects. -/
  posts : ∀ x ∈ s.posts, x.send.Bound p t s.store ∧
    ∃ token, s.store.MintedFor p x.send.key token ∧ x.accessToken = token.value

theorem faithful_init : Faithful p t FcmState.init := by
  refine ⟨⟨?_, ?_, ?_, ?_, ?_⟩, ?_, ?_⟩
  · rintro mint m ⟨⟩
  · rintro key mint ⟨⟩
  · rintro mint m ⟨⟩
  · rintro key token ⟨⟩
  · rintro mint m ⟨⟩
  · rintro w hw
    cases hw
  · rintro x hx
    cases hx

/-- A state with the same sends stays faithful when its access tokens change.
Kind: L -/
theorem Faithful.change (h : Faithful p t s) {store : TokenStore} (hchange : Change p t s.store store)
    (clock : ℚ) : Faithful p t { s with store := store, clock := clock } := by
  have hgrows := hchange.grows h.store
  refine ⟨h.store.change hchange, fun w hw => (h.waiting w hw).grows hgrows, fun x hx => ?_⟩
  obtain ⟨hbound, token, hminted, hvalue⟩ := h.posts x hx
  exact ⟨hbound.grows hgrows, token, hminted.grows hgrows, hvalue⟩

/-- What a step can do, once the clock is set.
Kind: D -/
inductive Moves (p : FcmPlatform) (t : FcmTransport) (s : FcmState) : FcmEvent → FcmState → Prop
  | idle (e : FcmEvent) : Moves p t s e s
  | sent {endpoint : FcmEndpoint} {nowMs : ℚ} {key : ProjectKey} {project : FcmProject} {store : TokenStore}
      {source : TokenSource} (hfor : t.projectFor endpoint.app_id = some (key, project))
      (htoken : s.store.getAccessToken p key project nowMs = some (store, source)) :
      Moves p t s (.send endpoint nowMs)
        { s with store := store, waiting := s.waiting ++ [⟨endpoint, key, project, source⟩] }
  | ended {mint : ℕ} {m : Mint} (hget : s.store.mints.get mint = some m) (hstate : m.state = .posted)
      (nowMs : ℚ) (reply : PostReply) :
      Moves p t s (.ended mint nowMs reply) { s with store := s.store.ending mint m nowMs reply }
  | settled {mint : ℕ} {m : Mint} {nowMs : ℚ} {reply : PostReply} (hget : s.store.mints.get mint = some m)
      (hstate : m.state = .ended nowMs reply) :
      Moves p t s (.settled mint) { s with store := s.store.settling p mint m nowMs reply }
  | dropped (i : ℕ) : Moves p t s (.resume i) { s with waiting := s.waiting.eraseIdx i }
  | posted {i : ℕ} {w : FcmSend} {accessToken : Value} {post : FcmPost} (hw : s.waiting[i]? = some w)
      (hgranted : s.store.granted p w.source = some (some accessToken))
      (hpost : FcmState.message p t w accessToken = some post) :
      Moves p t s (.resume i) { s with waiting := s.waiting.eraseIdx i, posts := s.posts ++ [post] }

/-- **What a step does**: one of these things.
Kind: L -/
theorem moves_step (p : FcmPlatform) (t : FcmTransport) (s : FcmState) (e : FcmEvent) :
    Moves p t { s with clock := e.time.getD s.clock } e (fcmStep p t s e) := by
  unfold fcmStep FcmState.step
  generalize ({ s with clock := e.time.getD s.clock } : FcmState) = s
  dsimp only
  cases e with
  | send endpoint nowMs =>
      dsimp only
      unfold FcmState.send
      rcases hfor : t.projectFor endpoint.app_id with _ | ⟨key, project⟩
      · apply Moves.idle
      · dsimp only
        rcases htoken : s.store.getAccessToken p key project nowMs with _ | ⟨store, source⟩
        · apply Moves.idle
        · exact Moves.sent hfor htoken
  | ended mint nowMs reply =>
      dsimp only
      rcases hget : s.store.mints.get mint with _ | m
      · apply Moves.idle
      · dsimp only
        rcases hstate : m.state with _ | _ | _
        · exact Moves.ended hget hstate nowMs reply
        · apply Moves.idle
        · apply Moves.idle
  | settled mint =>
      dsimp only
      rcases hget : s.store.mints.get mint with _ | m
      · apply Moves.idle
      · dsimp only
        rcases hstate : m.state with _ | ⟨nowMs, reply⟩ | _
        · apply Moves.idle
        · exact Moves.settled hget hstate
        · apply Moves.idle
  | resume i =>
      dsimp only
      rcases hw : s.waiting[i]? with _ | w
      · apply Moves.idle
      · dsimp only
        unfold FcmState.resume
        rcases hgranted : s.store.granted p w.source with _ | granted
        · apply Moves.idle
        · dsimp only
          rcases hpost : granted.bind fun accessToken => FcmState.message p t w accessToken with _ | post
          · apply Moves.dropped
          · obtain ⟨accessToken, rfl, hmessage⟩ := Option.bind_eq_some_iff.mp hpost
            exact Moves.posted hw hgranted hmessage
  | answered i reply =>
      dsimp only
      rcases s.posts[i]? with _ | post
      · apply Moves.idle
      · cases reply <;> apply Moves.idle

/-- A state stays faithful when a send begins to wait.
Kind: L -/
theorem Faithful.waits (h : Faithful p t s) {store : TokenStore} {w : FcmSend}
    (hchange : Change p t s.store store) (hbound : w.Bound p t store) :
    Faithful p t { s with store := store, waiting := s.waiting ++ [w] } := by
  have hchanged := h.change hchange s.clock
  refine ⟨hchanged.store, fun w' hw => ?_, hchanged.posts⟩
  rcases List.mem_append.mp hw with hw | hw
  · exact hchanged.waiting w' hw
  · obtain rfl := List.mem_singleton.mp hw
    exact hbound

theorem Faithful.sent (h : Faithful p t s) {endpoint : FcmEndpoint} {nowMs : ℚ} {store : TokenStore}
    {source : TokenSource} (hfor : t.projectFor endpoint.app_id = some (key, project))
    (htoken : s.store.getAccessToken p key project nowMs = some (store, source)) :
    Faithful p t { s with store := store, waiting := s.waiting ++ [⟨endpoint, key, project, source⟩] } := by
  rcases getAccessToken_spec p s.store key project nowMs with
    ⟨token, hcached, hfresh, heq⟩ | ⟨-, ⟨mint, hpromise, heq⟩ | ⟨hpromise, heq⟩⟩
  · obtain ⟨rfl, rfl⟩ := Prod.mk.inj (Option.some.inj (heq.symm.trans htoken))
    exact h.waits Change.none ⟨hfor, h.store.token key token hcached, hfresh⟩
  · obtain ⟨rfl, rfl⟩ := Prod.mk.inj (Option.some.inj (heq.symm.trans htoken))
    exact h.waits Change.none ⟨hfor, h.store.pending key mint hpromise⟩
  · rw [heq] at htoken
    obtain ⟨request, hrequest, hpair⟩ := Option.map_eq_some_iff.mp htoken
    obtain ⟨rfl, rfl⟩ := Prod.mk.inj hpair
    exact h.waits (Change.beginMint (project_of_projectFor hfor) hrequest hpromise)
      ⟨hfor, _, JsMap.get_set_self .., rfl⟩

theorem Faithful.dropped (h : Faithful p t s) (i : ℕ) :
    Faithful p t { s with waiting := s.waiting.eraseIdx i } :=
  ⟨h.store, fun w hw => h.waiting w (List.mem_of_mem_eraseIdx hw), h.posts⟩

theorem Faithful.posted (h : Faithful p t s) {i : ℕ} {w : FcmSend} {accessToken : Value} {post : FcmPost}
    (hw : s.waiting[i]? = some w) (hgranted : s.store.granted p w.source = some (some accessToken))
    (hpost : FcmState.message p t w accessToken = some post) :
    Faithful p t { s with waiting := s.waiting.eraseIdx i, posts := s.posts ++ [post] } := by
  have hbound := h.waiting w (List.mem_of_getElem? hw)
  refine ⟨h.store, (h.dropped i).waiting, fun x hx => ?_⟩
  rcases List.mem_append.mp hx with hx | hx
  · exact h.posts x hx
  · obtain rfl := List.mem_singleton.mp hx
    obtain ⟨id, -, rfl⟩ := Option.map_eq_some_iff.mp hpost
    exact ⟨hbound, hbound.granted hgranted⟩

theorem Faithful.step (h : Faithful p t s) (e : FcmEvent) : Faithful p t (fcmStep p t s e) := by
  have hclock : Faithful p t { s with clock := e.time.getD s.clock } := h.change Change.none _
  have hmoves := moves_step p t s e
  generalize ({ s with clock := e.time.getD s.clock } : FcmState) = s₁ at hclock hmoves
  generalize fcmStep p t s e = s' at hmoves ⊢
  cases hmoves with
  | idle => exact hclock
  | sent hfor htoken => exact hclock.sent hfor htoken
  | ended hget hstate nowMs reply => exact hclock.change (Change.ending hget hstate nowMs reply) _
  | settled hget hstate => exact hclock.change (Change.settling hget hstate) _
  | dropped i => exact hclock.dropped i
  | posted hw hgranted hpost => exact hclock.posted hw hgranted hpost

theorem faithful_run (p : FcmPlatform) (t : FcmTransport) (l : List FcmEvent) :
    Faithful p t (fcmAfter p t l) :=
  invariant_run (P := fun _ _ => True) (fun _ e h _ => h.step e) faithful_init
    (eachStep_of_forall fun _ _ _ => trivial)

/-! ### Failed mints -/

/-- Time does not go back.
Kind: D -/
def FcmInOrder (s : FcmState) (e : FcmEvent) : Prop := ∀ nowMs ∈ e.time, s.clock ≤ nowMs

/-- The cached token of the project is no longer served.
Kind: D -/
def Spent (s : TokenStore) (clock : ℚ) (key : ProjectKey) : Prop :=
  ∀ token ∈ (s.cache key).token, fresh token clock = false

/-- A send selects the project.
Kind: D -/
def Sends (t : FcmTransport) (key : ProjectKey) : FcmEvent → Prop
  | .send endpoint _ => ∃ project, t.projectFor endpoint.app_id = some (key, project)
  | .ended _ _ _ | .settled _ | .resume _ | .answered _ _ => False

/-- A mint for the project fails: its promise is rejected, or it throws at once.
Kind: D -/
def MintFails (p : FcmPlatform) (t : FcmTransport) (s : FcmState) (key : ProjectKey) : FcmEvent → Prop
  | .send endpoint nowMs =>
      (∃ project, t.projectFor endpoint.app_id = some (key, project)) ∧
        (s.step p t (.send endpoint nowMs)).2 = some .thrown
  | .settled mint => ∃ m nowMs reply, s.store.mints.get mint = some m ∧ m.project = key ∧
      m.state = .ended nowMs reply ∧ readAccessToken p nowMs reply = none
  | .ended _ _ _ | .resume _ | .answered _ _ => False

/-- A send to the project would begin a mint of its own, unless signing throws.
Kind: D -/
def BeginsMint (p : FcmPlatform) (s : FcmState) (key : ProjectKey) (project : FcmProject) (nowMs : ℚ) :
    Prop :=
  s.store.getAccessToken p key project nowMs =
    (mintRequest p project nowMs).map fun request =>
      (s.store.beginMint key request, .minted s.store.minted)

theorem Spent.later {s : TokenStore} {clock now : ℚ} (h : Spent s clock key) (hle : clock ≤ now) :
    Spent s now key := fun token htoken => fresh_eq_false_of_le (h token htoken) hle

theorem clock_step (p : FcmPlatform) (t : FcmTransport) (s : FcmState) (e : FcmEvent) :
    (fcmStep p t s e).clock = e.time.getD s.clock := by
  have hmoves := moves_step p t s e
  generalize fcmStep p t s e = s' at hmoves ⊢
  cases hmoves <;> rfl

theorem FcmInOrder.clock_le (h : FcmInOrder s e) : s.clock ≤ (fcmStep p t s e).clock := by
  rw [clock_step]
  rcases htime : e.time with _ | nowMs
  · exact le_rfl
  · exact h nowMs htime

/-- **What a step does to the cache of a project.**
Kind: L -/
theorem cache_step (p : FcmPlatform) (t : FcmTransport) (s : FcmState) (e : FcmEvent) (key : ProjectKey) :
    (fcmStep p t s e).store.cache key = s.store.cache key ∨
      (Sends t key e ∧ Spent s.store (fcmStep p t s e).clock key ∧
        (fcmStep p t s e).store.cache key =
          { s.store.cache key with tokenPromise := some s.store.minted }) ∨
      ∃ mint m nowMs reply, s.store.mints.get mint = some m ∧ m.project = key ∧
        m.state = .ended nowMs reply ∧ (fcmStep p t s e).store.cache key =
          ⟨(readAccessToken p nowMs reply).or (s.store.cache key).token, none⟩ := by
  have hmoves := moves_step p t s e
  rw [clock_step]
  generalize fcmStep p t s e = s' at hmoves ⊢
  cases hmoves with
  | idle => exact Or.inl rfl
  | @sent endpoint nowMs key' project store source hfor htoken =>
      rcases getAccessToken_spec p s.store key' project nowMs with
        ⟨token, -, -, heq⟩ | ⟨hspent, ⟨mint, -, heq⟩ | ⟨-, heq⟩⟩
      · obtain ⟨rfl, -⟩ := Prod.mk.inj (Option.some.inj (heq.symm.trans htoken))
        exact Or.inl rfl
      · obtain ⟨rfl, -⟩ := Prod.mk.inj (Option.some.inj (heq.symm.trans htoken))
        exact Or.inl rfl
      · obtain ⟨request, -, hpair⟩ := Option.map_eq_some_iff.mp (heq.symm.trans htoken)
        obtain ⟨rfl, -⟩ := Prod.mk.inj hpair
        by_cases hkey : key = key'
        · subst hkey
          exact Or.inr (Or.inl ⟨⟨project, hfor⟩, hspent, Function.update_self ..⟩)
        · exact Or.inl (Function.update_of_ne hkey _ _)
  | ended hget hstate nowMs reply => exact Or.inl rfl
  | @settled mint m nowMs reply hget hstate =>
      by_cases hkey : key = m.project
      · subst hkey
        exact Or.inr (Or.inr ⟨mint, m, nowMs, reply, hget, rfl, hstate, Function.update_self ..⟩)
      · exact Or.inl (Function.update_of_ne hkey _ _)
  | dropped i => exact Or.inl rfl
  | posted hw hgranted hpost => exact Or.inl rfl

/-- While a mint for a project is in flight, its cached token is no longer served.
Kind: D -/
def Patient (s : FcmState) : Prop :=
  ∀ key, (s.store.cache key).tokenPromise ≠ none → Spent s.store s.clock key

theorem Patient.step (h : Patient s) (horder : FcmInOrder s e) : Patient (fcmStep p t s e) := by
  intro key hpromise
  have hle : s.clock ≤ (fcmStep p t s e).clock := horder.clock_le
  unfold Spent
  rcases cache_step p t s e key with hsame | ⟨-, hspent, hcache⟩ | ⟨mint, m, nowMs, reply, -, -, -, hcache⟩
  · rw [hsame] at hpromise ⊢
    exact (h key hpromise).later hle
  · rw [hcache]
    exact hspent
  · rw [hcache] at hpromise
    exact absurd rfl hpromise

/-- No mint for the project is in flight, and its cached token is no longer served.
Kind: D -/
def Exhausted (s : FcmState) (key : ProjectKey) : Prop :=
  (s.store.cache key).tokenPromise = none ∧ Spent s.store s.clock key

/-- So it is until the next send of the project.
Kind: L -/
theorem Exhausted.step (h : Exhausted s key) (hsound : Sound p t s.store) (horder : FcmInOrder s e)
    (hsends : ¬ Sends t key e) : Exhausted (fcmStep p t s e) key := by
  have hle : s.clock ≤ (fcmStep p t s e).clock := horder.clock_le
  unfold Exhausted Spent
  rcases cache_step p t s e key with hsame | ⟨hsend, -⟩ | ⟨mint, m, nowMs, reply, hget, hkey, hstate, -⟩
  · rw [hsame]
    exact ⟨h.1, h.2.later hle⟩
  · exact absurd hsend hsends
  · have honly := hsound.only mint m hget (inFlight_of_state (Or.inr ⟨_, _, hstate⟩))
    rw [hkey, h.1] at honly
    cases honly

/-- A mint that has failed leaves its project the token it had, and no promise.
Kind: L -/
theorem cache_settled_of_fails {mint : ℕ} {m : Mint} {nowMs : ℚ} {reply : PostReply}
    (hget : s.store.mints.get mint = some m) (hstate : m.state = .ended nowMs reply)
    (hread : readAccessToken p nowMs reply = none) :
    (fcmStep p t s (.settled mint)).store.cache m.project = ⟨(s.store.cache m.project).token, none⟩ := by
  unfold fcmStep FcmState.step
  dsimp only
  rw [hget]
  dsimp only
  rw [hstate]
  unfold TokenStore.settling
  dsimp only
  rw [Function.update_self, hread, Option.none_or]

/-- So it is after a mint has failed.
Kind: L -/
theorem exhausted_of_mintFails (hsound : Sound p t s.store) (hpatient : Patient s) (horder : FcmInOrder s e)
    (hfails : MintFails p t s key e) : Exhausted (fcmStep p t s e) key := by
  have hle : s.clock ≤ (fcmStep p t s e).clock := horder.clock_le
  cases e with
  | send endpoint nowMs =>
      obtain ⟨⟨project, hfor⟩, hthrown⟩ := hfails
      unfold Exhausted
      rw [clock_step]
      unfold fcmStep
      unfold FcmState.step FcmState.send at hthrown ⊢
      dsimp only at hthrown ⊢
      rw [hfor] at hthrown ⊢
      dsimp only at hthrown ⊢
      rcases getAccessToken_spec p s.store key project nowMs with
        ⟨token, -, -, heq⟩ | ⟨hspent, ⟨mint, -, heq⟩ | ⟨hnone, heq⟩⟩
      · rw [heq] at hthrown
        cases hthrown
      · rw [heq] at hthrown
        cases hthrown
      · rw [heq] at hthrown ⊢
        rcases hrequest : mintRequest p project nowMs with _ | request
        · exact ⟨hnone, hspent⟩
        · rw [hrequest] at hthrown
          cases hthrown
  | settled mint =>
      obtain ⟨m, nowMs, reply, hget, rfl, hstate, hread⟩ := hfails
      have honly := hsound.only mint m hget (inFlight_of_state (Or.inr ⟨_, _, hstate⟩))
      have hspent : Spent s.store s.clock m.project := by
        apply hpatient
        rw [honly]
        exact Option.some_ne_none mint
      unfold Exhausted Spent
      rw [cache_settled_of_fails hget hstate hread]
      exact ⟨rfl, hspent.later hle⟩
  | ended mint nowMs reply => exact hfails.elim
  | resume i => exact hfails.elim
  | answered i reply => exact hfails.elim

/-- With no promise to wait for and no token to serve, a send begins a mint.
Kind: L -/
theorem Exhausted.beginsMint (h : Exhausted s key) {nowMs : ℚ} (hle : s.clock ≤ nowMs)
    (project : FcmProject) : BeginsMint p s key project nowMs := by
  rcases getAccessToken_spec p s.store key project nowMs with
    ⟨token, htoken, hfresh, -⟩ | ⟨-, ⟨mint, hpromise, -⟩ | ⟨-, heq⟩⟩
  · have hstale := (h.2.later hle) token htoken
    rw [hfresh] at hstale
    cases hstale
  · rw [h.1] at hpromise
    cases hpromise
  · exact heq

theorem fcmAfter_append (l₁ l₂ : List FcmEvent) :
    fcmAfter p t (l₁ ++ l₂) = runFrom (fcmStep p t) (fcmAfter p t l₁) l₂ :=
  runFrom_append ..

theorem patient_run {l : List FcmEvent} (horder : EachStep (fcmStep p t) FcmInOrder FcmState.init l) :
    Patient (fcmAfter p t l) := by
  refine invariant_run (fun s e h hs => h.step hs) ?_ horder
  intro key hpromise
  exact absurd rfl hpromise

/-- The next send of a project after a failed mint begins a mint.
Kind: L -/
theorem beginsMint_of_mintFails {l₁ l₂ : List FcmEvent} {f : FcmEvent} {endpoint : FcmEndpoint} {nowMs : ℚ}
    (horder : EachStep (fcmStep p t) FcmInOrder FcmState.init (l₁ ++ f :: (l₂ ++ [.send endpoint nowMs])))
    (hfails : MintFails p t (fcmAfter p t l₁) key f) (hbetween : ∀ e ∈ l₂, ¬ Sends t key e)
    (project : FcmProject) :
    BeginsMint p (fcmAfter p t (l₁ ++ f :: l₂)) key project nowMs := by
  obtain ⟨hbefore, hfail, hrest⟩ := eachStep_append.mp horder
  obtain ⟨hbetweenOrder, hsend, -⟩ := eachStep_append.mp hrest
  have hexhausted : Exhausted (fcmStep p t (fcmAfter p t l₁) f) key :=
    exhausted_of_mintFails (faithful_run p t l₁).store (patient_run hbefore) hfail hfails
  have hkeeps : ∀ (l : List FcmEvent) (s : FcmState), Faithful p t s → Exhausted s key →
      (∀ e ∈ l, ¬ Sends t key e) → EachStep (fcmStep p t) FcmInOrder s l →
      Exhausted (runFrom (fcmStep p t) s l) key := by
    intro l
    induction l with
    | nil => exact fun s _ h _ _ => h
    | cons e l ih =>
        intro s hfaithful h hnot hl
        refine ih _ (hfaithful.step e) ?_ (fun e' he' => hnot e' (List.mem_cons_of_mem _ he')) hl.2
        exact h.step hfaithful.store hl.1 (hnot e List.mem_cons_self)
  have hafter := hkeeps l₂ _ ((faithful_run p t l₁).step f) hexhausted hbetween hbetweenOrder
  have heq : fcmAfter p t (l₁ ++ f :: l₂) =
      runFrom (fcmStep p t) (fcmStep p t (fcmAfter p t l₁) f) l₂ := fcmAfter_append l₁ (f :: l₂)
  rw [heq]
  exact hafter.beginsMint (hsend nowMs rfl) project

/-- The access token of a message came with the answer to a mint for the project, which was asked for
with the service account of the project.
Kind: D -/
def FcmPost.MintedWith (p : FcmPlatform) (s : TokenStore) (x : FcmPost) (key : ProjectKey)
    (project : FcmProject) : Prop :=
  ∃ mint m mintedMs nowMs reply token, s.mints.get mint = some m ∧ m.project = key ∧
    mintRequest p project mintedMs = some m.request ∧ m.state = .settled nowMs reply ∧
    readAccessToken p nowMs reply = some token ∧ x.accessToken = token.value

/-- In a run a message carries a token that was minted with the service account of its own project.
Kind: P -/
theorem mintedWith_run (l : List FcmEvent) {x : FcmPost} (hx : x ∈ (fcmAfter p t l).posts) :
    ∃ key project, t.Selects x.send.endpoint.app_id key project ∧
      x.MintedWith p (fcmAfter p t l).store key project := by
  have hfaithful := faithful_run p t l
  obtain ⟨⟨hfor, -⟩, token, ⟨mint, m, nowMs, reply, hget, hkey, hstate, hread⟩, hvalue⟩ :=
    hfaithful.posts x hx
  obtain ⟨project, mintedMs, hproject, hrequest⟩ := hfaithful.store.request mint m hget
  rw [hkey, project_of_projectFor hfor] at hproject
  obtain rfl := Option.some.inj hproject
  exact ⟨x.send.key, x.send.project, FcmTransport.projectFor_eq_some_iff.mp hfor,
    mint, m, mintedMs, nowMs, reply, token, hget, hkey, hrequest, hstate, hread, hvalue⟩

/-- **Configured accounts**: where the transport has been constructed of some accounts, under any names, a
message carries a token that was minted with the account configured for its app.
Source: `lib/push.js`, `FcmTransport`, `FcmTransport.prototype.send`
Kind: P -/
theorem mintedWith_configured {serviceAccount : Option ServiceAccount}
    {projects : List (JsString × ServiceAccount)} (h : createFcmTransport serviceAccount projects = some t)
    (l : List FcmEvent) {x : FcmPost} (hx : x ∈ (fcmAfter p t l).posts) :
    ∃ key project, Configured serviceAccount projects x.send.endpoint.app_id project.sa ∧
      x.MintedWith p (fcmAfter p t l).store key project := by
  obtain ⟨key, project, hselects, hminted⟩ := mintedWith_run l hx
  exact ⟨key, project, configured_of_selects h hselects, hminted⟩

/-- **Access tokens**, in every run: a message carries one that was minted with the service account of
its own project, one mint for a project is in flight at most, a cached one is served only before its
margin, and the next send of a project after a failed mint begins a mint.
Source: `lib/push.js`, `FcmTransport.prototype.send`, `FcmTransport.prototype._getAccessToken`
Kind: P -/
theorem accessTokens_sound (p : FcmPlatform) (t : FcmTransport) :
    (∀ l, ∀ x ∈ (fcmAfter p t l).posts, ∃ key project, t.Selects x.send.endpoint.app_id key project ∧
      x.MintedWith p (fcmAfter p t l).store key project) ∧
    (∀ l mint mint' m m', (fcmAfter p t l).store.mints.get mint = some m →
      (fcmAfter p t l).store.mints.get mint' = some m' → m.inFlight = true → m'.inFlight = true →
      m.project = m'.project → mint = mint') ∧
    (∀ l, ∀ w ∈ (fcmAfter p t l).waiting ++ (fcmAfter p t l).posts.map FcmPost.send, ∀ token nowMs,
      w.source = .cached token nowMs → nowMs < token.expiresAtMs - FCM_TOKEN_REFRESH_MARGIN_MS) ∧
    ∀ l₁ f l₂ endpoint nowMs key project,
      EachStep (fcmStep p t) FcmInOrder FcmState.init (l₁ ++ f :: (l₂ ++ [.send endpoint nowMs])) →
      MintFails p t (fcmAfter p t l₁) key f → (∀ e ∈ l₂, ¬ Sends t key e) →
      t.projectFor endpoint.app_id = some (key, project) →
      BeginsMint p (fcmAfter p t (l₁ ++ f :: l₂)) key project nowMs := by
  refine ⟨fun l x hx => mintedWith_run l hx, ?_, ?_, ?_⟩
  · intro l mint mint' m m' hget hget' hflight hflight' hproject
    have hsound := (faithful_run p t l).store
    have honly := hsound.only mint m hget hflight
    rw [hproject, hsound.only mint' m' hget' hflight'] at honly
    exact (Option.some.inj honly).symm
  · intro l w hw token nowMs hsource
    have hfaithful := faithful_run p t l
    have hbound : w.Bound p t (fcmAfter p t l).store := by
      rcases List.mem_append.mp hw with hw | hw
      · exact hfaithful.waiting w hw
      · obtain ⟨x, hx, rfl⟩ := List.mem_map.mp hw
        exact (hfaithful.posts x hx).1
    have hserved := hbound.2
    rw [hsource] at hserved
    exact of_decide_eq_true hserved.2
  · intro l₁ f l₂ endpoint nowMs key project horder hfails hbetween _
    exact beginsMint_of_mintFails horder hfails hbetween project

end Runs

/-! ### An app without a name -/

/-- A mint is posted where the service account says.
Kind: L -/
theorem url_of_mintRequest {project : FcmProject} {nowMs : ℚ} {request : TokenRequest}
    (h : mintRequest p project nowMs = some request) : request.url = project.tokenUrl := by
  unfold mintRequest at h
  dsimp only at h
  split at h
  · cases h
  · split at h
    · obtain rfl := Option.some.inj h
      rfl
    · cases h

namespace FcmSample

/-- A platform that signs.
Kind: D -/
def platform : FcmPlatform :=
  ⟨fun _ _ => some (js "s"), fun _ => none, fun _ => none, fun _ => []⟩

/-- A project.
Kind: D -/
def project (name : JsString) : FcmProject := ⟨⟨name, js "key", name, name⟩, name, name⟩

/-- A default project, and one for an app without a name.
Kind: D -/
def transport : FcmTransport :=
  ⟨some (project (js "default")), JsObject.empty.assign [] (project (js "unnamed")), js "fcm"⟩

/-- A phone with an app without a name.
Kind: D -/
def endpoint : FcmEndpoint := ⟨some [], js "phone", none⟩

/-- A message to it.
Kind: D -/
def run : List FcmEvent :=
  [.send endpoint 0, .ended 0 0 (.response 200 (js "\x7b\"access_token\":\"T\"\x7d")), .settled 0,
    .resume 0]

end FcmSample

/-- After a mint that threw the next send begins one.
Kind: C -/
theorem accessTokens_sound_thrown :
    BeginsMint { FcmSample.platform with sign := fun _ _ => none }
      (fcmAfter { FcmSample.platform with sign := fun _ _ => none } FcmSample.transport
        [.send FcmSample.endpoint 0])
      none (FcmSample.project (js "default")) 2 := by
  refine (accessTokens_sound { FcmSample.platform with sign := fun _ _ => none }
    FcmSample.transport).2.2.2 [] (.send FcmSample.endpoint 0) [] FcmSample.endpoint 2 none
    (FcmSample.project (js "default")) ?_ ?_ ?_ rfl
  · refine ⟨?_, ?_, trivial⟩
    · rintro nowMs ⟨⟩
      exact le_rfl
    · rintro nowMs ⟨⟩
      rw [clock_step]
      exact zero_le_two
  · exact ⟨⟨_, rfl⟩, rfl⟩
  · rintro e ⟨⟩

/-- The project that is mapped to an app, with a name or without, or else the default.
Kind: D -/
def FcmTransport.mapped (t : FcmTransport) (appId : Option JsString) : Option FcmProject :=
  match appId.bind t.projectsByAppId.own.get with
  | some project => some project
  | none => t.default

/-- A message to an app without a name goes through the default project, though the map has one for it.
Kind: C -/
theorem not_mapped_unnamed :
    ¬ ∀ (p : FcmPlatform) (t : FcmTransport) (l : List FcmEvent), ∀ x ∈ (fcmAfter p t l).posts,
      ∃ key project, t.mapped x.send.endpoint.app_id = some project ∧
        x.MintedWith p (fcmAfter p t l).store key project := by
  intro h
  have hrun : (fun s : FcmState => (s.posts.map fun x => x.send.endpoint.app_id,
      s.store.mints.entries.map fun e => e.2.request.url))
      (fcmAfter FcmSample.platform FcmSample.transport FcmSample.run) = ([some []], [js "default"]) := by
    decide +kernel
  obtain ⟨happs, hurls⟩ := Prod.mk.inj hrun
  obtain ⟨x, hposts, happ⟩ := List.map_eq_singleton_iff.mp happs
  obtain ⟨key, project, hproject, mint, m, mintedMs, nowMs, reply, token, hget, -, hrequest, -⟩ :=
    h FcmSample.platform FcmSample.transport FcmSample.run x (by rw [hposts]; exact List.mem_singleton_self x)
  rw [happ] at hproject
  have hunnamed : some (FcmSample.project (js "unnamed")) = some project := hproject
  obtain rfl := Option.some.inj hunnamed
  have hurl : m.request.url ∈ [js "default"] := by
    rw [← hurls]
    exact List.mem_map.mpr ⟨(mint, m), JsMap.mem_entries_iff.mpr hget, rfl⟩
  rw [url_of_mintRequest hrequest] at hurl
  exact absurd hurl (by decide)

end TyoMq.Push
