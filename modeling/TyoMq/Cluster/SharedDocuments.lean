import TyoMq.Lib.JsMap
import TyoMq.Lib.JsString
import TyoMq.Lib.SharedCell

/-!
# Documents that the nodes of a cluster share

The pending authorization requests and the directory of E2EE keys of `lib/cluster.js`. A node adds to
one of them by a `GET` of the whole document and a `SET` of the document with its entry. Two nodes that
do so at the same time are not kept apart: the last writer wins.

* **What is kept** (`Cluster.additions_kept`): once the nodes have finished, each document has every
  addition exactly when no `SET` fell between a node's `GET` and its own `SET`.
* **The last writer wins** (`Cluster.additions_lost`).
-/

namespace TyoMq.Cluster

open TyoMq.Lib

/-! ### The documents -/

/-- What is stored under a key: the JSON of a document, the JSON of a value that counts as `false`, or
something else.
Kind: D -/
inductive Raw (δ : Type*) where
  | json (doc : δ)
  | falsy
  | unreadable

variable {δ ρ κ ν : Type*}

/-- The document that is read, `{}` when there is none.
Kind: D -/
def Raw.parse (empty : δ) : Option (Raw δ) → δ
  | none => empty
  | some (json doc) => doc
  | some falsy => empty
  | some unreadable => empty

/-- The pending authorization requests, by `request_id`.
Kind: D -/
abbrev AuthRequests (ρ : Type*) := JsMap JsString ρ

/-- The key entries of each identity of each realm.
Kind: D -/
abbrev E2eeKeys (κ : Type*) := JsMap JsString (JsMap JsString (List κ))

/-- Source: `lib/cluster.js`, `ClusterSync.prototype.getAuthRequests`
Kind: D -/
def getAuthRequests (raw : Option (Raw (AuthRequests ρ))) : AuthRequests ρ := Raw.parse JsMap.empty raw

/-- Source: `lib/cluster.js`, `ClusterSync.prototype.putAuthRequests`
Kind: D -/
def putAuthRequests (doc : AuthRequests ρ) : Option (Raw (AuthRequests ρ)) := some (.json doc)

/-- Source: `lib/cluster.js`, `ClusterSync.prototype.getE2eeKeys`
Kind: D -/
def getE2eeKeys (raw : Option (Raw (E2eeKeys κ))) : E2eeKeys κ := Raw.parse JsMap.empty raw

/-- Source: `lib/cluster.js`, `ClusterSync.prototype.putE2eeKeys`
Kind: D -/
def putE2eeKeys (doc : E2eeKeys κ) : Option (Raw (E2eeKeys κ)) := some (.json doc)

/-! ### What a node adds -/

/-- A request and its id.
Kind: D -/
structure AuthRequest (ρ : Type*) where
  /-- Its id. -/
  request_id : JsString
  /-- The request. -/
  request : ρ

/-- The keys of one identity.
Kind: D -/
structure PublishedKeys (κ : Type*) where
  /-- The realm. -/
  realmId : JsString
  /-- The identity. -/
  identity : JsString
  /-- Its key entries. -/
  list : List κ

/-- `doc[request.request_id] = request`.
Source: `lib/server.js`, `mirrorAuthRequestToCluster`
Kind: D -/
def addAuthRequest (doc : AuthRequests ρ) (e : AuthRequest ρ) : AuthRequests ρ :=
  doc.set e.request_id e.request

/-- `doc[realmId] = doc[realmId] || {}; doc[realmId][identity] = list`.
Source: `lib/server.js`, `mirrorKeyDirectoryToCluster`
Kind: D -/
def addE2eeKeys (doc : E2eeKeys κ) (e : PublishedKeys κ) : E2eeKeys κ :=
  doc.set e.realmId (((doc.get e.realmId).getD JsMap.empty).set e.identity e.list)

/-- The keys of an identity.
Kind: D -/
def lookupKeys (doc : E2eeKeys κ) (realmId identity : JsString) : Option (List κ) :=
  (doc.get realmId).bind fun identities => identities.get identity

/-- Lookup in the directory after an addition.
Kind: L -/
theorem lookupKeys_addE2eeKeys (doc : E2eeKeys κ) (e : PublishedKeys κ) (realmId identity : JsString) :
    lookupKeys (addE2eeKeys doc e) realmId identity =
      if realmId = e.realmId ∧ identity = e.identity then some e.list
      else lookupKeys doc realmId identity := by
  unfold lookupKeys addE2eeKeys
  rw [JsMap.get_set]
  by_cases hrealm : realmId = e.realmId
  · subst hrealm
    simp only [if_true, Option.bind_some, true_and]
    rw [JsMap.get_set]
    split_ifs with hidentity
    · rfl
    · cases doc.get e.realmId <;> rfl
  · rw [if_neg hrealm, if_neg fun h => hrealm h.1]

/-- Additions to the pending authorization requests.
Kind: D -/
def authRequests : Additions (Option (Raw (AuthRequests ρ))) (AuthRequests ρ) (AuthRequest ρ) where
  load := getAuthRequests
  save := putAuthRequests
  add := addAuthRequest
  Has doc e := doc.get e.request_id = some e.request
  Apart e e' := e.request_id ≠ e'.request_id
  load_save _ := rfl
  has_add doc e := JsMap.get_set_self doc e.request_id e.request
  has_add_of_apart doc e e' h := by
    unfold addAuthRequest
    rw [JsMap.get_set_of_ne doc h]

/-- Additions to the directory of E2EE keys.
Kind: D -/
def e2eeKeys : Additions (Option (Raw (E2eeKeys κ))) (E2eeKeys κ) (PublishedKeys κ) where
  load := getE2eeKeys
  save := putE2eeKeys
  add := addE2eeKeys
  Has doc e := lookupKeys doc e.realmId e.identity = some e.list
  Apart e e' := ¬ (e.realmId = e'.realmId ∧ e.identity = e'.identity)
  load_save _ := rfl
  has_add doc e := by rw [lookupKeys_addE2eeKeys, if_pos ⟨rfl, rfl⟩]
  has_add_of_apart doc e e' h := by rw [lookupKeys_addE2eeKeys, if_neg h]

/-! ### What becomes of the additions -/

section Additions

variable [DecidableEq ν]

/-- Every node has finished.
Kind: D -/
def Finished (c : Cell ν ρ δ) : Prop := ∀ n, n ∈ c.writers

/-- The nodes add the entries to what is stored, by the commands `l`: if no `SET` falls between a node's
`GET` and its own `SET`, the document has every entry in the end, and, where none of the entries was
there before, only if.
Kind: D -/
def KeptExactly {ε : Type*} (A : Additions (Option (Raw δ)) δ ε) (entry : ν → ε)
    (stored : Option (Raw δ)) (l : List (Access ν)) : Prop :=
  let c := runFrom (Cell.step A entry) (Cell.start stored) l
  (EachStep (Cell.step A entry) Cell.Undisturbed (Cell.start stored) l →
      ∀ n, A.Has (A.load c.kept) (entry n)) ∧
    ((∀ n, ¬ A.Has (A.load stored) (entry n)) →
      ((∀ n, A.Has (A.load c.kept) (entry n)) ↔
        EachStep (Cell.step A entry) Cell.Undisturbed (Cell.start stored) l))

/-- Once all have finished, what was written is what was to be added.
Kind: L -/
theorem keptExactly_of_finished {ε : Type*} {A : Additions (Option (Raw δ)) δ ε} {entry : ν → ε}
    (happart : ∀ m n, m ≠ n → A.Apart (entry m) (entry n)) {stored : Option (Raw δ)}
    {l : List (Access ν)} (h : Finished (runFrom (Cell.step A entry) (Cell.start stored) l)) :
    KeptExactly A entry stored l := by
  refine ⟨fun hl n => Cell.kept_of_undisturbed happart hl n (h n), fun hnew => ?_⟩
  rw [← Cell.kept_iff happart hnew l]
  exact ⟨fun hall n _ => hall n, fun hkept n => hkept n (h n)⟩

/-- **What is kept.** Any number of nodes add an entry of their own to one of the documents. In whatever
order their commands are executed, once all have finished the document has every addition if no `SET`
fell between a node's `GET` and its own `SET`, and, where none of the entries was there before, only if.
Source: `lib/cluster.js`, `ClusterSync.prototype.getAuthRequests`, `ClusterSync.prototype.getE2eeKeys`
Kind: P -/
theorem additions_kept (requests : ν → AuthRequest ρ) (keys : ν → PublishedKeys κ)
    (hrequests : ∀ m n, m ≠ n → (requests m).request_id ≠ (requests n).request_id)
    (hkeys : ∀ m n, m ≠ n →
      ¬ ((keys m).realmId = (keys n).realmId ∧ (keys m).identity = (keys n).identity)) :
    (∀ stored l, Finished (runFrom (Cell.step authRequests requests) (Cell.start stored) l) →
      KeptExactly authRequests requests stored l) ∧
    ∀ stored l, Finished (runFrom (Cell.step e2eeKeys keys) (Cell.start stored) l) →
      KeptExactly e2eeKeys keys stored l :=
  ⟨fun _ _ h => keptExactly_of_finished hrequests h, fun _ _ h => keptExactly_of_finished hkeys h⟩

end Additions

/-! ### Two nodes -/

/-- Each of two nodes has a request.
Kind: D -/
def twoRequests : Bool → AuthRequest ℕ
  | false => ⟨js "r-1", 1⟩
  | true => ⟨js "r-2", 2⟩

/-- Each of two nodes has an identity with a key.
Kind: D -/
def twoIdentities : Bool → PublishedKeys ℕ
  | false => ⟨js "acme", js "alice", [1]⟩
  | true => ⟨js "acme", js "bob", [2]⟩

/-- One node after the other.
Kind: D -/
def oneByOne : List (Access Bool) := [.read false, .write false, .read true, .write true]

/-- One node after the other, and both entries are there.
Kind: C -/
theorem additions_kept_oneByOne :
    (∀ n, (getAuthRequests (runFrom (Cell.step authRequests twoRequests) (Cell.start none)
        oneByOne).kept).get (twoRequests n).request_id = some (twoRequests n).request) ∧
      ∀ n, lookupKeys (getE2eeKeys (runFrom (Cell.step e2eeKeys twoIdentities) (Cell.start none)
        oneByOne).kept) (twoIdentities n).realmId (twoIdentities n).identity =
          some (twoIdentities n).list := by
  have hall := additions_kept twoRequests twoIdentities (by decide) (by decide)
  refine ⟨(hall.1 none oneByOne ?_).1 (by decide), (hall.2 none oneByOne ?_).1 (by decide)⟩
  all_goals
    unfold Finished
    decide

/-- Both read before either writes.
Kind: D -/
def bothReadFirst : List (Access Bool) := [.read false, .read true, .write false, .write true]

/-- The requests after that.
Kind: D -/
def racedRequests : Cell Bool (Option (Raw (AuthRequests ℕ))) (AuthRequests ℕ) :=
  runFrom (Cell.step authRequests twoRequests) (Cell.start none) bothReadFirst

/-- The directory after that.
Kind: D -/
def racedKeys : Cell Bool (Option (Raw (E2eeKeys ℕ))) (E2eeKeys ℕ) :=
  runFrom (Cell.step e2eeKeys twoIdentities) (Cell.start none) bothReadFirst

/-- **The last writer wins.** Two nodes read before either writes; both finish, and the first one's
request, or its identity's keys, are gone.
Kind: P -/
theorem additions_lost :
    Finished racedRequests ∧ (getAuthRequests racedRequests.kept).get (js "r-1") = none ∧
      Finished racedKeys ∧ lookupKeys (getE2eeKeys racedKeys.kept) (js "acme") (js "alice") = none := by
  unfold Finished
  decide

end TyoMq.Cluster
