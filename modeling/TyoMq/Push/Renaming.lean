import TyoMq.Lib.Related
import TyoMq.Push.WakeRegistry

/-!
# Registries that differ in device tokens

Two registries whose endpoints are the same but for the device tokens, which are equal in the one where
they are equal in the other. What the registry does, it does alike to both.
-/

namespace TyoMq.Push

open TyoMq.Lib RealmMaps

/-- How the tokens of one registry are spelled in the other.
Kind: D -/
abbrev Spelling := JsString → JsString → Prop

variable {R : Spelling}

/-! ### Endpoints -/

/-- The endpoints differ in the token only.
Kind: D -/
structure Endpoint.Like (R : Spelling) (e e' : Endpoint JsString) : Prop where
  /-- The transport. -/
  transport : e.transport = e'.transport
  /-- The tokens. -/
  token : R e.token e'.token
  /-- The app. -/
  app_id : e.app_id = e'.app_id
  /-- The APNs environment. -/
  env : e.env = e'.env
  /-- The least priority. -/
  min_priority : e.min_priority = e'.min_priority
  /-- When it was registered. -/
  added_at : e.added_at = e'.added_at
  /-- When it was woken. -/
  last_ok : e.last_ok = e'.last_ok

/-- The registrations differ in the token only.
Kind: D -/
structure Registration.Like (R : Spelling) (ep ep' : Registration JsString) : Prop where
  /-- The transport. -/
  transport : ep.transport = ep'.transport
  /-- The tokens. -/
  token : R ep.token ep'.token
  /-- The app. -/
  app_id : ep.app_id = ep'.app_id
  /-- The APNs environment. -/
  env : ep.env = ep'.env
  /-- The least priority. -/
  min_priority : ep.min_priority = ep'.min_priority

/-- The keys of rows differ in the token only.
Kind: D -/
structure Place.Like (R : Spelling) (p p' : Place JsString) : Prop where
  /-- The realm. -/
  realm : p.realm = p'.realm
  /-- The identity. -/
  identity : p.identity = p'.identity
  /-- The transport. -/
  transport : p.transport = p'.transport
  /-- The tokens. -/
  token : R p.token p'.token

theorem Endpoint.Like.place {e e' : Endpoint JsString} (h : e.Like R e') (realm identity : JsString) :
    (e.place realm identity).Like R (e'.place realm identity) := ⟨rfl, rfl, h.transport, h.token⟩

/-- Lists of endpoints that differ in the tokens only.
Kind: D -/
def EndpointsLike (R : Spelling) : List (Endpoint JsString) → List (Endpoint JsString) → Prop :=
  List.Forall₂ (Endpoint.Like R)

section Lists

variable (hR : Relator.BiUnique R) {l l' : List (Endpoint JsString)} {e e' : Endpoint JsString}
  {transport token token' : JsString}

include hR

/-- An endpoint is at a device when the other is.
Kind: L -/
theorem isAt_like (htoken : R token token') (h : e.Like R e') :
    isAt transport token e = isAt transport token' e' := by
  have heq : e.token = token ↔ e'.token = token' := Relator.rel_eq hR h.token htoken
  unfold isAt
  rw [h.transport]
  simp only [heq]

theorem modifyFirst_like (htoken : R token token') {f f' : Endpoint JsString → Endpoint JsString}
    (hf : ∀ e e', e.Like R e' → (f e).Like R (f' e')) (h : EndpointsLike R l l') :
    EndpointsLike R (modifyFirst transport token f l) (modifyFirst transport token' f' l') := by
  induction h with
  | nil => exact List.Forall₂.nil
  | @cons e e' l l' he hrest ih =>
      unfold modifyFirst
      rw [isAt_like hR htoken he]
      split_ifs
      · exact List.Forall₂.cons (hf e e' he) hrest
      · exact List.Forall₂.cons he ih

theorem registerInList_like (b : Bounds) {ep ep' : Registration JsString} (hep : ep.Like R ep')
    (h : EndpointsLike R l l') (now : ℤ) :
    EndpointsLike R (registerInList b l ep now).1 (registerInList b l' ep' now).1 := by
  have hrefresh : ∀ e e', e.Like R e' → (refresh ep now e).Like R (refresh ep' now e') := by
    intro e e' he
    unfold refresh
    rw [hep.app_id, hep.env, hep.min_priority, he.app_id, he.env, he.min_priority]
    exact ⟨he.transport, he.token, rfl, rfl, rfl, rfl, he.last_ok⟩
  have hcreate : (create ep now).Like R (create ep' now) := by
    unfold create
    rw [hep.app_id, hep.env, hep.min_priority]
    exact ⟨hep.transport, hep.token, rfl, rfl, rfl, rfl, rfl⟩
  have hfind : Option.Rel (Endpoint.Like R) (l.find? (isAt ep.transport ep.token))
      (l'.find? (isAt ep'.transport ep'.token)) := by
    apply rel_find? h
    intro e e' he
    rw [hep.transport]
    exact isAt_like hR hep.token he
  unfold registerInList
  generalize l.find? (isAt ep.transport ep.token) = found at hfind ⊢
  generalize l'.find? (isAt ep'.transport ep'.token) = found' at hfind ⊢
  cases hfind with
  | some he =>
      dsimp only
      rw [hep.transport]
      exact modifyFirst_like hR hep.token hrefresh h
  | none =>
      have hpushed : EndpointsLike R (l ++ [create ep now]) (l' ++ [create ep' now]) :=
        List.rel_append h (List.Forall₂.cons hcreate List.Forall₂.nil)
      dsimp only
      rw [hpushed.length_eq]
      exact List.forall₂_drop _ hpushed

end Lists

/-! ### The maps of a realm -/

/-- The maps of a realm differ in the tokens only.
Kind: D -/
structure RealmMaps.Like (R : Spelling) (M M' : RealmMaps JsString) : Prop where
  /-- The endpoints. -/
  identities : M.identities.Related (EndpointsLike R) M'.identities
  /-- When the identities were touched. -/
  touch : M.touch = M'.touch

namespace RealmMaps.Like

variable {M M' : RealmMaps JsString}

theorem list (h : M.Like R M') (identity : JsString) :
    EndpointsLike R (M.list identity) (M'.list identity) := by
  have hget := h.identities.get identity
  unfold RealmMaps.list
  generalize M.identities.get identity = l at hget ⊢
  generalize M'.identities.get identity = l' at hget ⊢
  cases hget with
  | none => exact List.Forall₂.nil
  | some hl => exact hl

theorem sweepExpired (h : M.Like R M') (b : Bounds) (now : ℤ) :
    (M.sweepExpired b now).Like R (M'.sweepExpired b now) := by
  have hexpired : ∀ cutoff identity, M.isExpired cutoff identity = M'.isExpired cutoff identity := by
    intro cutoff identity
    rw [RealmMaps.isExpired, h.touch]
    rfl
  unfold RealmMaps.sweepExpired
  split_ifs
  · exact h
  · refine ⟨?_, ?_⟩
    · apply h.identities.deleteWhere
      intro identity _ _ _
      exact hexpired _ identity
    · dsimp only
      rw [h.touch]
      congr 1
      funext identity _
      exact hexpired _ identity

theorem evictIdentities (maxIdentities : ℕ) (identity : JsString) (order : List JsString)
    (h : M.Like R M') :
    (RealmMaps.evictIdentities maxIdentities identity order M).1.Like R
      (RealmMaps.evictIdentities maxIdentities identity order M').1 := by
  induction order generalizing M M' with
  | nil => exact h
  | cons oldest rest ih =>
      unfold RealmMaps.evictIdentities
      rw [h.identities.size]
      split_ifs
      · exact h
      · apply ih
        refine ⟨h.identities.delete oldest, ?_⟩
        dsimp only
        rw [h.touch]

section Devices

variable (hR : Relator.BiUnique R)

include hR

theorem register (h : M.Like R M') (b : Bounds) (identity : JsString) {ep ep' : Registration JsString}
    (hep : ep.Like R ep') (now : ℤ) :
    (M.register b identity ep now).1.Like R (M'.register b identity ep' now).1 := by
  have hswept := h.sweepExpired b now
  have hentered := registerInList_like hR b hep (hswept.list identity) now
  have htouch : ((M.sweepExpired b now).touch.delete identity).set identity now =
      ((M'.sweepExpired b now).touch.delete identity).set identity now := by rw [hswept.touch]
  unfold RealmMaps.register
  dsimp only
  split_ifs
  · exact ⟨hswept.identities.set identity hentered, htouch⟩
  · dsimp only
    rw [htouch]
    exact evictIdentities _ _ _ ⟨hswept.identities.set identity hentered, rfl⟩

theorem unregister (h : M.Like R M') (identity transport : JsString) {token token' : JsString}
    (htoken : R token token') :
    (M.unregister identity transport token).Like R (M'.unregister identity transport token') := by
  have hget := h.identities.get identity
  unfold RealmMaps.unregister
  generalize M.identities.get identity = l at hget ⊢
  generalize M'.identities.get identity = l' at hget ⊢
  cases hget with
  | none => exact h
  | @some l l' hl =>
      have hkept : EndpointsLike R (l.filter fun e => !isAt transport token e)
          (l'.filter fun e => !isAt transport token' e) := by
        apply rel_filter_of hl
        intro e e' he
        rw [isAt_like hR htoken he]
      dsimp only
      rw [hkept.length_eq]
      split_ifs
      · refine ⟨h.identities.delete identity, ?_⟩
        dsimp only
        rw [h.touch]
      · exact ⟨h.identities.set identity hkept, h.touch⟩

theorem markOk (h : M.Like R M') (identity transport : JsString) {token token' : JsString}
    (htoken : R token token') (now : ℤ) :
    (M.markOk identity transport token now).Like R (M'.markOk identity transport token' now) := by
  have hget := h.identities.get identity
  unfold RealmMaps.markOk
  generalize M.identities.get identity = l at hget ⊢
  generalize M'.identities.get identity = l' at hget ⊢
  cases hget with
  | none => exact h
  | @some l l' hl =>
      refine ⟨h.identities.set identity (modifyFirst_like hR htoken ?_ hl), h.touch⟩
      intro e e' he
      exact ⟨he.transport, he.token, he.app_id, he.env, he.min_priority, he.added_at, rfl⟩

end Devices

end RealmMaps.Like

/-! ### Registries -/

/-- The registries differ in the tokens only.
Kind: D -/
structure WakeRegistry.Like (R : Spelling) (s s' : WakeRegistry) : Prop where
  /-- The caps. -/
  bounds : s.bounds = s'.bounds
  /-- The endpoints. -/
  realms : ∀ r, (s.registry.realms r).Like R (s'.registry.realms r)
  /-- The window. -/
  coalesceWindowMs : s.coalesceWindowMs = s'.coalesceWindowMs
  /-- The last wakes. -/
  lastWake : s.lastWake = s'.lastWake
  /-- What has been logged. -/
  failLog : s.failLog = s'.failLog

namespace WakeRegistry.Like

variable {s s' : WakeRegistry}

theorem list (h : s.Like R s') (realm identity : JsString) :
    EndpointsLike R (s.list realm identity) (s'.list realm identity) := (h.realms realm).list identity

theorem setRealm {realms realms' : JsString → RealmMaps JsString}
    (h : ∀ r, (realms r).Like R (realms' r)) (realm : JsString) {M M' : RealmMaps JsString}
    (hM : M.Like R M') (r : JsString) :
    (Registry.setRealm realms realm M r).Like R (Registry.setRealm realms' realm M' r) := by
  unfold Registry.setRealm
  split_ifs
  · exact hM
  · exact h r

theorem resetCoalesce (h : s.Like R s') (realm identity : JsString) :
    (s.resetCoalesce realm identity).Like R (s'.resetCoalesce realm identity) := by
  refine ⟨h.bounds, h.realms, h.coalesceWindowMs, ?_, h.failLog⟩
  unfold WakeRegistry.resetCoalesce
  dsimp only
  rw [h.lastWake]

/-- The gate answers alike.
Kind: L -/
theorem coalesceOk (h : s.Like R s') (realm identity : JsString) (now windowMs : ℤ) :
    (s.coalesceOk realm identity now windowMs).1 = (s'.coalesceOk realm identity now windowMs).1 ∧
      (s.coalesceOk realm identity now windowMs).2.Like R
        (s'.coalesceOk realm identity now windowMs).2 := by
  have hset : (s.setWoken realm identity now).Like R (s'.setWoken realm identity now) := by
    refine ⟨h.bounds, h.realms, h.coalesceWindowMs, ?_, h.failLog⟩
    unfold WakeRegistry.setWoken
    dsimp only
    rw [h.lastWake]
  have hwoken : s.woken realm identity = s'.woken realm identity := by
    rw [WakeRegistry.woken, h.lastWake]
    rfl
  unfold WakeRegistry.coalesceOk
  rw [hwoken, h.coalesceWindowMs]
  dsimp only
  generalize (if windowMs = 0 then s'.coalesceWindowMs else windowMs) = window
  split
  · split_ifs
    · exact ⟨rfl, h⟩
    · exact ⟨rfl, hset⟩
  · exact ⟨rfl, hset⟩

/-- A failure is logged alike.
Kind: L -/
theorem logWakeFailure (h : s.Like R s') (logger : Logger) (transport reason : JsString) (now : ℤ) :
    (s.logWakeFailure logger transport reason now).1.Like R
        (s'.logWakeFailure logger transport reason now).1 ∧
      (s.logWakeFailure logger transport reason now).2 =
        (s'.logWakeFailure logger transport reason now).2 := by
  have hset : ∀ failLog, { s with failLog := failLog }.Like R { s' with failLog := failLog } := by
    intro failLog
    exact ⟨h.bounds, h.realms, h.coalesceWindowMs, h.lastWake, rfl⟩
  unfold WakeRegistry.logWakeFailure
  rw [h.failLog]
  split_ifs
  · exact ⟨h, rfl⟩
  · dsimp only
    split
    · split_ifs
      · exact ⟨h, rfl⟩
      · exact ⟨hset _, rfl⟩
    · exact ⟨hset _, rfl⟩

section Devices

variable (hR : Relator.BiUnique R)

include hR

theorem register (h : s.Like R s') (realm identity : JsString) {ep ep' : Registration JsString}
    (hep : ep.Like R ep') (now : ℤ) :
    (s.register realm identity ep now).Like R (s'.register realm identity ep' now) := by
  refine ⟨h.bounds, ?_, h.coalesceWindowMs, h.lastWake, h.failLog⟩
  intro r
  show ((s.registry.register s.bounds realm identity ep now).realms r).Like R
    ((s'.registry.register s'.bounds realm identity ep' now).realms r)
  rw [h.bounds]
  exact setRealm h.realms realm ((h.realms realm).register hR s'.bounds identity hep now) r

theorem unregister (h : s.Like R s') {place place' : Place JsString} (hplace : place.Like R place') :
    (s.unregister place).Like R (s'.unregister place') := by
  refine ⟨h.bounds, ?_, h.coalesceWindowMs, h.lastWake, h.failLog⟩
  intro r
  show ((s.registry.unregister place).realms r).Like R ((s'.registry.unregister place').realms r)
  rw [Registry.realms_unregister, Registry.realms_unregister, hplace.realm, hplace.identity,
    hplace.transport]
  exact setRealm h.realms place'.realm ((h.realms _).unregister hR _ _ hplace.token) r

theorem markOk (h : s.Like R s') {place place' : Place JsString} (hplace : place.Like R place')
    (now : ℤ) : (s.markOk place now).Like R (s'.markOk place' now) := by
  refine ⟨h.bounds, ?_, h.coalesceWindowMs, h.lastWake, h.failLog⟩
  intro r
  show ((s.registry.markOk place now).realms r).Like R ((s'.registry.markOk place' now).realms r)
  unfold Registry.markOk
  dsimp only
  rw [hplace.realm, hplace.identity, hplace.transport]
  exact setRealm h.realms place'.realm ((h.realms _).markOk hR _ _ hplace.token now) r

end Devices

end WakeRegistry.Like

end TyoMq.Push
