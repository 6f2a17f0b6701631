import Mathlib.Data.List.Basic
import TyoMq.Lib.Runs

/-!
# Cluster settings sync

`lib/cluster.js`: nodes that share one Redis. A node publishes the settings document by three
commands, each sent when the reply to the one before has arrived, and on a peer's notification it
fetches the document and hands it to its callback.

* A node has two connections, and each is first in, first out: the commands and their replies on
  one (`conn`, `replies`), the notifications on the other (`inbox`).
* **Convergence** (`Cluster.converged_of_publishesIdle`): when nobody publishes while a fetch of its
  own is outstanding, every node's view is the stored document once nothing is in flight.
* **The overtaken fetch** (`Cluster.diverged_publishDuringFetch`): a node that publishes while its
  fetch is outstanding goes back to the older document when the reply arrives, and stays there.
-/

namespace TyoMq

open TyoMq.Lib

variable {ν δ : Type*}

namespace Cluster

/-- What is stored under `<prefix>:settings`.
Source: `lib/cluster.js`, `ClusterSync.prototype.publishSettings`
Kind: D -/
structure Stored (ν δ : Type*) where
  /-- The settings document. -/
  settings : δ
  /-- The node that wrote it. -/
  node_id : ν
  deriving DecidableEq

/-- A notification on `<prefix>:settings:changed`.
Kind: D -/
structure Message (ν : Type*) where
  /-- The revision announced. -/
  revision : ℕ
  /-- The node that announces it. -/
  node_id : ν
  deriving DecidableEq

/-- A command on its way to Redis. A fetch carries the revision its callback will be called with.
Kind: D -/
inductive Command (δ : Type*) where
  | set (settings : δ)
  | incr
  | publish (revision : ℕ)
  | get (revision : ℕ)
  deriving DecidableEq

/-- A reply on its way back.
Kind: D -/
inductive Reply (ν δ : Type*) where
  | set
  | incr (revision : ℕ)
  | publish
  | get (revision : ℕ) (doc : Option (Stored ν δ))
  deriving DecidableEq

/-- A node. Its view is the later of the document it last published and the document last handed
to its callback.
Kind: D -/
structure Node (ν δ : Type*) where
  /-- The commands sent and not yet executed. -/
  conn : List (Command δ)
  /-- The replies not yet received. -/
  replies : List (Reply ν δ)
  /-- The notifications not yet received. -/
  inbox : List (Message ν)
  /-- The view. -/
  view : Option δ

/-- What happens: a call of `publishSettings`, Redis executing the next command of a node, a node
receiving its next reply, a node receiving its next notification.
Kind: D -/
inductive Event (ν δ : Type*) where
  | publishSettings (n : ν) (settings : δ)
  | execute (n : ν)
  | receive (n : ν)
  | notify (n : ν)

end Cluster

/-- A Redis and the nodes that share it.
Kind: D -/
structure Cluster (ν δ : Type*) where
  /-- The settings key. -/
  settings : Option (Cluster.Stored ν δ)
  /-- The revision counter. -/
  rev : ℕ
  /-- The nodes. -/
  node : ν → Cluster.Node ν δ

namespace Cluster

variable [DecidableEq ν]

/-- A cluster with nothing in flight, in which every node has the stored document, if there is one.
Kind: D -/
def idle (settings : Option (Stored ν δ)) (rev : ℕ) : Cluster ν δ :=
  ⟨settings, rev, fun _ => ⟨[], [], [], settings.map Stored.settings⟩⟩

/-- Change one node.
Kind: D -/
def update (c : Cluster ν δ) (n : ν) (x : Node ν δ) : Cluster ν δ :=
  { c with node := fun m => if m = n then x else c.node m }

/-- `client.sendCommand`, at the node `n`.
Kind: D -/
def sendCommand (c : Cluster ν δ) (n : ν) (cmd : Command δ) : Cluster ν δ :=
  c.update n { c.node n with conn := (c.node n).conn ++ [cmd] }

/-- The first of the three commands is sent at once.
Source: `lib/cluster.js`, `ClusterSync.prototype.publishSettings`
Kind: D -/
def publishSettings (c : Cluster ν δ) (n : ν) (settings : δ) : Cluster ν δ :=
  (c.update n { c.node n with view := some settings }).sendCommand n (.set settings)

/-- Redis executes a command of the node `n`, whose remaining commands are `rest`.
Kind: D -/
def executeCommand (c : Cluster ν δ) (n : ν) (rest : List (Command δ)) :
    Command δ → Cluster ν δ
  | .set settings =>
      { c.update n { c.node n with conn := rest, replies := (c.node n).replies ++ [.set] } with
        settings := some ⟨settings, n⟩ }
  | .incr =>
      { c.update n { c.node n with
          conn := rest, replies := (c.node n).replies ++ [.incr (c.rev + 1)] } with
        rev := c.rev + 1 }
  | .publish revision =>
      let c' := c.update n { c.node n with
        conn := rest, replies := (c.node n).replies ++ [.publish] }
      { c' with
        node := fun m => { c'.node m with inbox := (c'.node m).inbox ++ [⟨revision, n⟩] } }
  | .get revision =>
      c.update n { c.node n with
        conn := rest, replies := (c.node n).replies ++ [.get revision c.settings] }

/-- The node `n` receives a reply, behind which `rest` is on its way.
Source: `lib/cluster.js`, `ClusterSync.prototype.publishSettings`, `ClusterSync.prototype.fetchSettings`
Kind: D -/
def receiveReply (c : Cluster ν δ) (n : ν) (rest : List (Reply ν δ)) : Reply ν δ → Cluster ν δ
  | .set => (c.update n { c.node n with replies := rest }).sendCommand n .incr
  | .incr revision =>
      (c.update n { c.node n with replies := rest }).sendCommand n (.publish revision)
  | .publish => c.update n { c.node n with replies := rest }
  | .get _ none => c.update n { c.node n with replies := rest }
  | .get _ (some doc) =>
      -- `callback(doc.settings, message.revision)`
      c.update n { c.node n with replies := rest, view := some doc.settings }

/-- The node `n` receives a notification, behind which `rest` is on its way.
Source: `lib/cluster.js`, `ClusterSync.prototype.onSettingsChange`
Kind: D -/
def onSettingsChange (c : Cluster ν δ) (n : ν) (rest : List (Message ν)) (message : Message ν) :
    Cluster ν δ :=
  let c := c.update n { c.node n with inbox := rest }
  if message.node_id = n then c else c.sendCommand n (.get message.revision)

/-- One step. Where there is nothing to execute or receive, nothing happens.
Kind: D -/
def step (c : Cluster ν δ) : Event ν δ → Cluster ν δ
  | .publishSettings n settings => c.publishSettings n settings
  | .execute n =>
      match (c.node n).conn with
      | [] => c
      | cmd :: rest => c.executeCommand n rest cmd
  | .receive n =>
      match (c.node n).replies with
      | [] => c
      | reply :: rest => c.receiveReply n rest reply
  | .notify n =>
      match (c.node n).inbox with
      | [] => c
      | message :: rest => c.onSettingsChange n rest message

/-- Nothing is in flight.
Kind: D -/
def Quiescent (c : Cluster ν δ) : Prop :=
  ∀ n, (c.node n).conn = [] ∧ (c.node n).replies = [] ∧ (c.node n).inbox = []

/-- Every node's view is the stored document.
Kind: D -/
def Converged (c : Cluster ν δ) : Prop := ∀ n, (c.node n).view = c.settings.map Stored.settings

end Cluster

end TyoMq
