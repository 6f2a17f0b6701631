import Mathlib.Algebra.Order.Ring.Rat
import TyoMq.Lib.JsMap
import TyoMq.Lib.RowTable
import TyoMq.Lib.Sqlite

/-!
# Push registrations: the registry and its store

The `TokenRegistry` of `lib/push.js`, which keeps the endpoints of each (realm, identity) in memory,
and the `NotifyPushStore` of `lib/notify-push-store.js` behind it. Every write to the store succeeds, and
what it keeps of the texts and the numbers is what SQLite keeps of them (`Row.stored`, `Row.read`).

* The map from realms is only looked up, never gone through: a realm that is absent is one whose maps
  are empty (`RealmMaps`).
-/

namespace TyoMq.Push

open TyoMq.Lib Sqlite

variable {τ : Type*}

/-! ### Endpoints -/

/-- A stored endpoint.
Source: `lib/push.js`, `TokenRegistry.prototype.register`
Kind: D -/
structure Endpoint (τ : Type*) where
  /-- The transport. -/
  transport : τ
  /-- The device token. -/
  token : τ
  /-- The app. -/
  app_id : Option τ
  /-- The APNs environment. -/
  env : Option τ
  /-- The least priority that is pushed. -/
  min_priority : Option Number
  /-- When it was last registered. -/
  added_at : ℤ
  /-- When it was last woken. -/
  last_ok : Option ℤ
  deriving DecidableEq

/-- The endpoint given to `register`. A field is `none` when it is `undefined`, and `some none` when
it is `null`.
Kind: D -/
structure Registration (τ : Type*) where
  /-- The transport. -/
  transport : τ
  /-- The device token. -/
  token : τ
  /-- The app. -/
  app_id : Option (Option τ)
  /-- The APNs environment. -/
  env : Option (Option τ)
  /-- The least priority that is pushed. -/
  min_priority : Option (Option Number)

/-- A row of `notify_push_endpoints`.
Source: `lib/notify-push-store.js`, `NotifyPushStore`
Kind: D -/
structure Row (τ : Type*) where
  /-- The realm. -/
  realm : τ
  /-- The identity. -/
  identity : τ
  /-- The transport. -/
  transport : τ
  /-- The device token. -/
  token : τ
  /-- The app. -/
  app_id : Option τ
  /-- The APNs environment. -/
  env : Option τ
  /-- The least priority that is pushed. -/
  min_priority : Option Number
  /-- When it was last registered. -/
  added_at : ℤ
  deriving DecidableEq

/-- What a row is found by, its primary key.
Kind: D -/
structure Place (τ : Type*) where
  /-- The realm. -/
  realm : τ
  /-- The identity. -/
  identity : τ
  /-- The transport. -/
  transport : τ
  /-- The device token. -/
  token : τ
  deriving DecidableEq

/-- The primary key of a row.
Kind: D -/
def Row.place (row : Row τ) : Place τ := ⟨row.realm, row.identity, row.transport, row.token⟩

/-- The primary key under which an endpoint is stored.
Kind: D -/
def Endpoint.place (e : Endpoint τ) (realm identity : τ) : Place τ :=
  ⟨realm, identity, e.transport, e.token⟩

/-- The row of an endpoint.
Source: `lib/notify-push-store.js`, `NotifyPushStore.prototype.put`
Kind: D -/
def Endpoint.row (e : Endpoint τ) (realm identity : τ) : Row τ :=
  ⟨realm, identity, e.transport, e.token, e.app_id, e.env, e.min_priority, e.added_at⟩

/-- The endpoint of a row.
Source: `lib/push.js`, `TokenRegistry.prototype._hydrate`
Kind: D -/
def Row.endpoint (row : Row τ) : Endpoint τ :=
  ⟨row.transport, row.token, row.app_id, row.env, row.min_priority, row.added_at, none⟩

/-! ### The store -/

section Columns

variable [Texts τ]

/-- What the columns store of a row.
Kind: D -/
def Row.stored (row : Row τ) : Row τ where
  realm := Texts.stored row.realm
  identity := Texts.stored row.identity
  transport := Texts.stored row.transport
  token := Texts.stored row.token
  app_id := Texts.stored row.app_id
  env := Texts.stored row.env
  min_priority := row.min_priority.bind Number.stored
  added_at := row.added_at

/-- What is read of a stored row, when its numbers can be read.
Kind: D -/
def Row.read (row : Row τ) : Option (Row τ) :=
  if row.min_priority.all Number.readable && readable row.added_at then
    some
      { row with
        realm := Texts.read row.realm
        identity := Texts.read row.identity
        transport := Texts.read row.transport
        token := Texts.read row.token
        app_id := Texts.read row.app_id
        env := Texts.read row.env }
  else none

/-- The primary key under which the row of a place is stored.
Kind: D -/
def Place.stored (place : Place τ) : Place τ :=
  ⟨Texts.stored place.realm, Texts.stored place.identity, Texts.stored place.transport,
    Texts.stored place.token⟩

end Columns

namespace PushStore

variable [DecidableEq τ] [Texts τ]

/-- The rows, none when the query throws.
Source: `lib/notify-push-store.js`, `NotifyPushStore.prototype.all`
Kind: D -/
def all (t : RowTable (Row τ)) : Option (List (Row τ)) := readAll Row.read t.scan

/-- Source: `lib/notify-push-store.js`, `NotifyPushStore.prototype.put`
Kind: D -/
def put (t : RowTable (Row τ)) (realm identity : τ) (e : Endpoint τ) : RowTable (Row τ) :=
  t.replaceWhere (fun row => row.place = (e.place realm identity).stored)
    (e.row realm identity).stored

/-- Source: `lib/notify-push-store.js`, `NotifyPushStore.prototype.del`
Kind: D -/
def del (t : RowTable (Row τ)) (place : Place τ) : RowTable (Row τ) :=
  t.deleteWhere fun row => row.place = place.stored

/-- Source: `lib/notify-push-store.js`, `NotifyPushStore.prototype.pruneOlderThan`
Kind: D -/
def pruneOlderThan (t : RowTable (Row τ)) (cutoff : ℤ) : RowTable (Row τ) :=
  t.deleteWhere fun row => row.added_at < cutoff

end PushStore

/-! ### The registry -/

/-- The bounds of a registry.
Source: `lib/push.js`, `TokenRegistry`
Kind: D -/
structure Bounds where
  /-- `opts.maxPerIdentity`, zero when unset. -/
  optsMaxPerIdentity : ℕ
  /-- How many identities a realm may have, zero for no bound. -/
  maxIdentities : ℕ
  /-- How long an identity lasts untouched, zero for ever. -/
  ttlMs : ℕ

/-- `PUSH_MAX_TOKENS_PER_IDENTITY`.
Kind: D -/
def PUSH_MAX_TOKENS_PER_IDENTITY : ℕ := 10

/-- How many endpoints an identity may have.
Kind: D -/
def Bounds.maxPerIdentity (b : Bounds) : ℕ :=
  if b.optsMaxPerIdentity = 0 then PUSH_MAX_TOKENS_PER_IDENTITY else b.optsMaxPerIdentity

/-- The maps of one realm.
Kind: D -/
structure RealmMaps (τ : Type*) where
  /-- The endpoints of each identity. -/
  identities : JsMap τ (List (Endpoint τ))
  /-- When each identity was last touched, the least recent first. -/
  touch : JsMap τ ℤ

/-- The maps of a realm nobody has registered in.
Kind: D -/
def RealmMaps.empty : RealmMaps τ := ⟨JsMap.empty, JsMap.empty⟩

/-- A broker's registry, and the table behind it.
Kind: D -/
structure Registry (τ : Type*) where
  /-- The maps of each realm. -/
  realms : τ → RealmMaps τ
  /-- The table. -/
  store : RowTable (Row τ)

namespace RealmMaps

variable [DecidableEq τ]

/-- The endpoints of an identity, none when it is absent.
Kind: D -/
def list (R : RealmMaps τ) (identity : τ) : List (Endpoint τ) := (R.identities.get identity).getD []

/-- Has the identity been touched, but not for `ttlMs`?
Kind: D -/
def isExpired (R : RealmMaps τ) (cutoff : ℤ) (identity : τ) : Bool :=
  (R.touch.get identity).any fun ts => ts < cutoff

/-- Drop the identities not touched within `ttlMs`.
Source: `lib/push.js`, `TokenRegistry.prototype._sweepExpired`
Kind: D -/
def sweepExpired (b : Bounds) (R : RealmMaps τ) (now : ℤ) : RealmMaps τ :=
  if b.ttlMs = 0 then R
  else
    { identities := R.identities.deleteWhere fun identity _ => R.isExpired (now - b.ttlMs) identity
      touch := R.touch.deleteWhere fun identity _ => R.isExpired (now - b.ttlMs) identity }

/-- Is it the endpoint with this transport and token?
Kind: D -/
def isAt (transport token : τ) (e : Endpoint τ) : Bool := e.transport = transport ∧ e.token = token

/-- Change the first endpoint with this transport and token.
Kind: D -/
def modifyFirst (transport token : τ) (f : Endpoint τ → Endpoint τ) :
    List (Endpoint τ) → List (Endpoint τ)
  | [] => []
  | e :: es => if isAt transport token e then f e :: es else e :: modifyFirst transport token f es

/-- A repeat refreshes the endpoint.
Source: `lib/push.js`, `TokenRegistry.prototype.register`
Kind: D -/
def refresh (ep : Registration τ) (now : ℤ) (e : Endpoint τ) : Endpoint τ :=
  { e with
    added_at := now
    app_id := ep.app_id.getD e.app_id
    env := ep.env.getD e.env
    min_priority := ep.min_priority.getD e.min_priority }

/-- A new endpoint.
Source: `lib/push.js`, `TokenRegistry.prototype.register`
Kind: D -/
def create (ep : Registration τ) (now : ℤ) : Endpoint τ where
  transport := ep.transport
  token := ep.token
  app_id := ep.app_id.getD none
  env := ep.env.getD none
  min_priority := ep.min_priority.getD none
  added_at := now
  last_ok := none

/-- The list of an identity after a registration, the endpoints pushed out of it, oldest first, and
the endpoint registered.
Source: `lib/push.js`, `TokenRegistry.prototype.register`
Kind: D -/
def registerInList (b : Bounds) (list : List (Endpoint τ)) (ep : Registration τ) (now : ℤ) :
    List (Endpoint τ) × List (Endpoint τ) × Endpoint τ :=
  match list.find? (isAt ep.transport ep.token) with
  | some e => (modifyFirst ep.transport ep.token (refresh ep now) list, [], refresh ep now e)
  | none =>
      let pushed := list ++ [create ep now]
      let excess := pushed.length - b.maxPerIdentity
      (pushed.drop excess, pushed.take excess, create ep now)

/-- The loop that evicts the least recently used identities, given the identities in the order in
which they were touched. It also collects what is deleted from the store.
Source: `lib/push.js`, `TokenRegistry.prototype.register`
Kind: D -/
def evictIdentities (maxIdentities : ℕ) (identity : τ) :
    List τ → RealmMaps τ → RealmMaps τ × List (τ × Endpoint τ)
  | [], R => (R, [])
  | oldest :: rest, R =>
      if R.identities.size ≤ maxIdentities ∨ oldest = identity then (R, [])
      else
        let R' : RealmMaps τ := ⟨R.identities.delete oldest, R.touch.delete oldest⟩
        let done := evictIdentities maxIdentities identity rest R'
        (done.1, (R.list oldest).map (fun e => (oldest, e)) ++ done.2)

/-- The realm's maps after a registration, the endpoint registered, and the endpoints evicted with
their identities.
Source: `lib/push.js`, `TokenRegistry.prototype.register`
Kind: D -/
def register (b : Bounds) (R : RealmMaps τ) (identity : τ) (ep : Registration τ) (now : ℤ) :
    RealmMaps τ × Endpoint τ × List (τ × Endpoint τ) :=
  let R := R.sweepExpired b now
  let entered := registerInList b (R.list identity) ep now
  let R : RealmMaps τ :=
    { identities := R.identities.set identity entered.1
      touch := (R.touch.delete identity).set identity now }
  let evicted := entered.2.1.map fun e => (identity, e)
  if b.maxIdentities = 0 then (R, entered.2.2, evicted)
  else
    let done := evictIdentities b.maxIdentities identity R.touch.keys R
    (done.1, entered.2.2, evicted ++ done.2)

/-- The realm's maps without an endpoint.
Source: `lib/push.js`, `TokenRegistry.prototype.unregister`
Kind: D -/
def unregister (R : RealmMaps τ) (identity transport token : τ) : RealmMaps τ :=
  match R.identities.get identity with
  | none => R
  | some list =>
      let kept := list.filter fun e => !isAt transport token e
      if kept.length = 0 then ⟨R.identities.delete identity, R.touch.delete identity⟩
      else { R with identities := R.identities.set identity kept }

/-- The realm's maps with an endpoint marked as woken.
Source: `lib/push.js`, `TokenRegistry.prototype.markOk`
Kind: D -/
def markOk (R : RealmMaps τ) (identity transport token : τ) (now : ℤ) : RealmMaps τ :=
  match R.identities.get identity with
  | none => R
  | some list =>
      { R with
        identities := R.identities.set identity
          (modifyFirst transport token (fun e => { e with last_ok := some now }) list) }

/-- One row put into its realm's maps.
Source: `lib/push.js`, `TokenRegistry.prototype._hydrate`
Kind: D -/
def load (b : Bounds) (R : RealmMaps τ) (now : ℤ) (row : Row τ) : RealmMaps τ :=
  let pushed := R.list row.identity ++ [row.endpoint]
  { identities := R.identities.set row.identity (pushed.drop (pushed.length - b.maxPerIdentity))
    touch := (R.touch.delete row.identity).set row.identity
      (if row.added_at = 0 then now else row.added_at) }

end RealmMaps

namespace Registry

variable [DecidableEq τ] [Texts τ]

/-- `TokenRegistry.prototype.list`.
Kind: D -/
def list (s : Registry τ) (realm identity : τ) : List (Endpoint τ) := (s.realms realm).list identity

/-- Change the maps of one realm.
Kind: D -/
def setRealm (realms : τ → RealmMaps τ) (realm : τ) (R : RealmMaps τ) : τ → RealmMaps τ :=
  fun realm' => if realm' = realm then R else realms realm'

/-- Source: `lib/push.js`, `TokenRegistry.prototype.register`
Kind: D -/
def register (b : Bounds) (s : Registry τ) (realm identity : τ) (ep : Registration τ) (now : ℤ) :
    Registry τ :=
  let done := (s.realms realm).register b identity ep now
  let store := done.2.2.foldl (fun t e => PushStore.del t (e.2.place realm e.1)) s.store
  { realms := setRealm s.realms realm done.1
    store := PushStore.put store realm identity done.2.1 }

/-- The store is asked to delete only when the identity is in memory.
Source: `lib/push.js`, `TokenRegistry.prototype.unregister`
Kind: D -/
def unregister (s : Registry τ) (place : Place τ) : Registry τ :=
  match (s.realms place.realm).identities.get place.identity with
  | none => s
  | some _ =>
      { realms := setRealm s.realms place.realm
          ((s.realms place.realm).unregister place.identity place.transport place.token)
        store := PushStore.del s.store place }

/-- An endpoint whose transport reports that it is gone.
Source: `lib/push.js`, `TokenRegistry.prototype.prune`
Kind: D -/
def prune (s : Registry τ) (place : Place τ) : Registry τ := s.unregister place

/-- Source: `lib/push.js`, `TokenRegistry.prototype.markOk`
Kind: D -/
def markOk (s : Registry τ) (place : Place τ) (now : ℤ) : Registry τ :=
  { s with
    realms := setRealm s.realms place.realm
      ((s.realms place.realm).markOk place.identity place.transport place.token now) }

/-- The age below which rows are stale, zero when there is no TTL.
Source: `lib/push.js`, `TokenRegistry.prototype._hydrate`
Kind: D -/
def cutoff (b : Bounds) (now : ℤ) : ℤ := if b.ttlMs = 0 then 0 else now - b.ttlMs

/-- A registry on a store that may hold rows: those that are not stale are loaded, the stale ones
swept from the store. A store that cannot be read is left alone.
Source: `lib/push.js`, `TokenRegistry.prototype._hydrate`
Kind: D -/
def hydrate (b : Bounds) (store : RowTable (Row τ)) (now : ℤ) : Registry τ :=
  match PushStore.all store with
  | none => ⟨fun _ => RealmMaps.empty, store⟩
  | some rows =>
      let cutoff := cutoff b now
      let fresh := rows.filter fun row => !(cutoff ≠ 0 ∧ row.added_at < cutoff : Bool)
      { realms := fresh.foldl
          (fun realms row => setRealm realms row.realm ((realms row.realm).load b now row))
          fun _ => RealmMaps.empty
        store := if cutoff = 0 then store else PushStore.pruneOlderThan store cutoff }

end Registry

end TyoMq.Push
