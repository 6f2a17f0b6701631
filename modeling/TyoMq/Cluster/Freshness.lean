import Mathlib.Data.List.Induction
import Mathlib.Order.Basic
import TyoMq.Cluster.Settings

/-!
# Cluster settings sync: how fresh a delivered document is

The nodes and commands of `Cluster`, with two things written down that the program does not keep: the
number of every `SET` in the order in which Redis executes them, and which `SET` a revision announces.
In `publishSettings` the three commands of one call are chained by their replies, so that a command
knows the number of the `SET` it goes with.

* **The trace is only a trace** (`Traced.erase_run`): without the numbers, a run is a run of `Cluster`.
* **Freshness** (`Traced.delivered_fresh`): a document handed to a node's callback with a revision is
  that of a `SET` not earlier than the one announced as the revision, and the documents handed to one
  callback never go back, although revisions may announce documents in another order than they were set.
-/

namespace TyoMq

open TyoMq.Lib

variable {ν δ : Type*}

namespace Cluster

namespace Traced

/-- A command on its way to Redis. `INCR` and `PUBLISH` know the number of the `SET` before them.
Kind: D -/
inductive Command (δ : Type*) where
  | set (settings : δ)
  | incr (stored : ℕ)
  | publish (revision stored : ℕ)
  | get (revision : ℕ)

/-- A reply on its way back. A fetched document has the number of the `SET` that wrote it.
Kind: D -/
inductive Reply (ν δ : Type*) where
  | set (stored : ℕ)
  | incr (revision stored : ℕ)
  | publish
  | get (revision : ℕ) (doc : Option (ℕ × Stored ν δ))

/-- A call of a node's callback: the document, the revision, and the number of the `SET` that wrote the
document.
Kind: D -/
structure Delivery (δ : Type*) where
  /-- The first argument. -/
  settings : δ
  /-- The second argument. -/
  revision : ℕ
  /-- The number of the `SET`. -/
  stored : ℕ

/-- A node.
Kind: D -/
structure Node (ν δ : Type*) where
  /-- The commands sent and not yet executed. -/
  conn : List (Command δ)
  /-- The replies not yet received. -/
  replies : List (Reply ν δ)
  /-- The notifications not yet received. -/
  inbox : List (Message ν)
  /-- The view. -/
  view : Option δ
  /-- The calls of the callback, oldest first. -/
  delivered : List (Delivery δ)

/-- A command without its number.
Kind: D -/
def Command.erase : Command δ → Cluster.Command δ
  | set settings => .set settings
  | incr _ => .incr
  | publish revision _ => .publish revision
  | get revision => .get revision

/-- A reply without its numbers.
Kind: D -/
def Reply.erase : Reply ν δ → Cluster.Reply ν δ
  | set _ => .set
  | incr revision _ => .incr revision
  | publish => .publish
  | get revision doc => .get revision (doc.map Prod.snd)

/-- A node without the numbers and without its past.
Kind: D -/
def Node.erase (x : Node ν δ) : Cluster.Node ν δ :=
  ⟨x.conn.map Command.erase, x.replies.map Reply.erase, x.inbox, x.view⟩

end Traced

/-- A cluster and its past.
Kind: D -/
structure Traced (ν δ : Type*) where
  /-- What every `SET` stored, oldest first; a document that was stored before is the first. -/
  sets : List (Stored ν δ)
  /-- The revision counter. -/
  rev : ℕ
  /-- The number of the `SET` that a revision announces. -/
  announced : ℕ → Option ℕ
  /-- The nodes. -/
  node : ν → Traced.Node ν δ

namespace Traced

variable [DecidableEq ν]

/-- A cluster with nothing in flight and no past.
Kind: D -/
def idle (settings : Option (Stored ν δ)) (rev : ℕ) : Traced ν δ :=
  ⟨settings.toList, rev, fun _ => none, fun _ => ⟨[], [], [], settings.map Stored.settings, []⟩⟩

/-- The cluster without the trace.
Kind: D -/
def erase (t : Traced ν δ) : Cluster ν δ := ⟨t.sets.getLast?, t.rev, fun n => (t.node n).erase⟩

/-- The stored document and its number.
Kind: D -/
def latest (t : Traced ν δ) : Option (ℕ × Stored ν δ) :=
  t.sets.getLast?.map fun doc => (t.sets.length - 1, doc)

/-- Change one node.
Kind: D -/
def update (t : Traced ν δ) (n : ν) (x : Node ν δ) : Traced ν δ :=
  { t with node := fun m => if m = n then x else t.node m }

/-- `client.sendCommand`, at a node.
Kind: D -/
def Node.sendCommand (x : Node ν δ) (cmd : Command δ) : Node ν δ := { x with conn := x.conn ++ [cmd] }

/-- Source: `lib/cluster.js`, `ClusterSync.prototype.publishSettings`
Kind: D -/
def publishSettings (t : Traced ν δ) (n : ν) (settings : δ) : Traced ν δ :=
  t.update n ({ t.node n with view := some settings }.sendCommand (.set settings))

/-- A node, one of whose commands was executed and answered.
Kind: D -/
def Node.answered (x : Node ν δ) (rest : List (Command δ)) (reply : Reply ν δ) : Node ν δ :=
  { x with conn := rest, replies := x.replies ++ [reply] }

/-- Redis executes a command of the node `n`, whose remaining commands are `rest`.
Kind: D -/
def executeCommand (t : Traced ν δ) (n : ν) (rest : List (Command δ)) : Command δ → Traced ν δ
  | .set settings =>
      { t.update n ((t.node n).answered rest (.set t.sets.length)) with
        sets := t.sets ++ [⟨settings, n⟩] }
  | .incr stored =>
      { t.update n ((t.node n).answered rest (.incr (t.rev + 1) stored)) with
        rev := t.rev + 1
        announced := fun r => if r = t.rev + 1 then some stored else t.announced r }
  | .publish revision _ =>
      let t' := t.update n ((t.node n).answered rest .publish)
      { t' with
        node := fun m => { t'.node m with inbox := (t'.node m).inbox ++ [⟨revision, n⟩] } }
  | .get revision => t.update n ((t.node n).answered rest (.get revision t.latest))

/-- The node receives a reply, behind which `rest` is on its way.
Source: `lib/cluster.js`, `ClusterSync.prototype.publishSettings`, `ClusterSync.prototype.fetchSettings`
Kind: D -/
def Node.receive (x : Node ν δ) (rest : List (Reply ν δ)) : Reply ν δ → Node ν δ
  | .set stored => { x with replies := rest }.sendCommand (.incr stored)
  | .incr revision stored => { x with replies := rest }.sendCommand (.publish revision stored)
  | .publish => { x with replies := rest }
  | .get _ none => { x with replies := rest }
  | .get revision (some (stored, doc)) =>
      { x with
        replies := rest
        view := some doc.settings
        delivered := x.delivered ++ [⟨doc.settings, revision, stored⟩] }

/-- The node `n` receives a notification, behind which `rest` is on its way.
Source: `lib/cluster.js`, `ClusterSync.prototype.onSettingsChange`
Kind: D -/
def Node.onSettingsChange (x : Node ν δ) (n : ν) (rest : List (Message ν)) (message : Message ν) :
    Node ν δ :=
  if message.node_id = n then { x with inbox := rest }
  else { x with inbox := rest }.sendCommand (.get message.revision)

/-- One step. Where there is nothing to execute or receive, nothing happens.
Kind: D -/
def step (t : Traced ν δ) : Event ν δ → Traced ν δ
  | .publishSettings n settings => t.publishSettings n settings
  | .execute n =>
      match (t.node n).conn with
      | [] => t
      | cmd :: rest => t.executeCommand n rest cmd
  | .receive n =>
      match (t.node n).replies with
      | [] => t
      | reply :: rest => t.update n ((t.node n).receive rest reply)
  | .notify n =>
      match (t.node n).inbox with
      | [] => t
      | message :: rest => t.update n ((t.node n).onSettingsChange n rest message)

/-! ### The trace is only a trace -/

section Erase

variable {t : Traced ν δ} {n : ν} {x : Node ν δ}

omit [DecidableEq ν] in
/-- Two clusters are the same when all their parts are.
Kind: L -/
theorem cluster_ext {c c' : Cluster ν δ} (hsettings : c.settings = c'.settings) (hrev : c.rev = c'.rev)
    (hnode : ∀ m, c.node m = c'.node m) : c = c' := by
  obtain ⟨settings, rev, node⟩ := c
  obtain ⟨settings', rev', node'⟩ := c'
  obtain rfl : settings = settings' := hsettings
  obtain rfl : rev = rev' := hrev
  obtain rfl : node = node' := funext hnode
  rfl

theorem erase_update : (t.update n x).erase = t.erase.update n x.erase := by
  refine cluster_ext rfl rfl fun m => ?_
  unfold erase update Cluster.update
  dsimp only
  split_ifs <;> rfl

omit [DecidableEq ν] in
theorem erase_sendCommand (cmd : Command δ) :
    (x.sendCommand cmd).erase = { x.erase with conn := x.erase.conn ++ [cmd.erase] } := by
  unfold Node.sendCommand Node.erase
  simp only [List.map_append, List.map_cons, List.map_nil]

omit [DecidableEq ν] in
theorem erase_answered (rest : List (Command δ)) (reply : Reply ν δ) :
    (x.answered rest reply).erase =
      { x.erase with conn := rest.map Command.erase, replies := x.erase.replies ++ [reply.erase] } := by
  unfold Node.answered Node.erase
  simp only [List.map_append, List.map_cons, List.map_nil]

/-- A node that is changed and then sends a command.
Kind: L -/
theorem sendCommand_update (c : Cluster ν δ) (y : Cluster.Node ν δ) (cmd : Cluster.Command δ) :
    (c.update n y).sendCommand n cmd = c.update n { y with conn := y.conn ++ [cmd] } := by
  have hnode : (c.update n y).node n = y := if_pos rfl
  unfold Cluster.sendCommand
  rw [hnode]
  refine cluster_ext rfl rfl fun m => ?_
  unfold Cluster.update
  dsimp only
  split_ifs <;> rfl

omit [DecidableEq ν] in
theorem map_snd_latest : t.latest.map Prod.snd = t.sets.getLast? := by
  unfold latest
  cases t.sets.getLast? <;> rfl

/-- Without the numbers, Redis executes a command as it does in `Cluster`.
Kind: L -/
theorem erase_executeCommand (rest : List (Command δ)) (cmd : Command δ) :
    (t.executeCommand n rest cmd).erase =
      t.erase.executeCommand n (rest.map Command.erase) cmd.erase := by
  have hanswered : ∀ reply, (t.update n ((t.node n).answered rest reply)).erase =
      t.erase.update n { t.erase.node n with
        conn := rest.map Command.erase, replies := (t.erase.node n).replies ++ [reply.erase] } :=
    fun reply => erase_update.trans (by rw [erase_answered]; rfl)
  have hnode : ∀ reply m, ((t.update n ((t.node n).answered rest reply)).node m).erase = _ :=
    fun reply m => congrArg (fun c : Cluster ν δ => c.node m) (hanswered reply)
  cases cmd with
  | set settings =>
      refine cluster_ext ?_ rfl (hnode _)
      exact List.getLast?_concat
  | incr stored => exact cluster_ext rfl rfl (hnode _)
  | publish revision stored =>
      refine cluster_ext rfl rfl fun m => ?_
      have hinbox := congrArg (fun y : Cluster.Node ν δ =>
        { y with inbox := y.inbox ++ [(⟨revision, n⟩ : Message ν)] }) (hnode .publish m)
      exact hinbox
  | get revision =>
      have hget : (Reply.get revision t.latest).erase = .get revision t.erase.settings :=
        congrArg (Cluster.Reply.get revision) map_snd_latest
      refine (hanswered _).trans ?_
      rw [hget]
      rfl

/-- Without the numbers, a node receives a reply as it does in `Cluster`.
Kind: L -/
theorem erase_receive (rest : List (Reply ν δ)) (reply : Reply ν δ) :
    (t.update n ((t.node n).receive rest reply)).erase =
      t.erase.receiveReply n (rest.map Reply.erase) reply.erase := by
  rw [erase_update]
  cases reply with
  | set stored =>
      refine Eq.trans ?_ (sendCommand_update _ _ _).symm
      exact congrArg _ (erase_sendCommand _)
  | incr revision stored =>
      refine Eq.trans ?_ (sendCommand_update _ _ _).symm
      exact congrArg _ (erase_sendCommand _)
  | publish => rfl
  | get revision doc =>
      cases doc with
      | none => rfl
      | some doc => rfl

/-- Without the numbers, a node hears a notification as it does in `Cluster`.
Kind: L -/
theorem erase_onSettingsChange (rest : List (Message ν)) (message : Message ν) :
    (t.update n ((t.node n).onSettingsChange n rest message)).erase =
      t.erase.onSettingsChange n rest message := by
  rw [erase_update]
  unfold Node.onSettingsChange Cluster.onSettingsChange
  split_ifs
  · rfl
  · refine Eq.trans ?_ (sendCommand_update _ _ _).symm
    exact congrArg _ (erase_sendCommand _)

theorem erase_step (t : Traced ν δ) (e : Event ν δ) : (t.step e).erase = t.erase.step e := by
  cases e with
  | publishSettings n settings =>
      refine erase_update.trans (Eq.trans ?_ (sendCommand_update _ _ _).symm)
      exact congrArg _ (erase_sendCommand _)
  | execute n =>
      cases hconn : (t.node n).conn with
      | nil =>
          have herase : (t.erase.node n).conn = [] := congrArg (List.map Command.erase) hconn
          simp only [step, Cluster.step, hconn, herase]
      | cons cmd rest =>
          have herase : (t.erase.node n).conn = cmd.erase :: rest.map Command.erase :=
            congrArg (List.map Command.erase) hconn
          simp only [step, Cluster.step, hconn, herase]
          exact erase_executeCommand rest cmd
  | receive n =>
      cases hreplies : (t.node n).replies with
      | nil =>
          have herase : (t.erase.node n).replies = [] := congrArg (List.map Reply.erase) hreplies
          simp only [step, Cluster.step, hreplies, herase]
      | cons reply rest =>
          have herase : (t.erase.node n).replies = reply.erase :: rest.map Reply.erase :=
            congrArg (List.map Reply.erase) hreplies
          simp only [step, Cluster.step, hreplies, herase]
          exact erase_receive rest reply
  | notify n =>
      cases hinbox : (t.node n).inbox with
      | nil =>
          have herase : (t.erase.node n).inbox = [] := hinbox
          simp only [step, Cluster.step, hinbox, herase]
      | cons message rest =>
          have herase : (t.erase.node n).inbox = message :: rest := hinbox
          simp only [step, Cluster.step, hinbox, herase]
          exact erase_onSettingsChange rest message

/-- Without the numbers, a run is a run of `Cluster`.
Kind: P -/
theorem erase_run (t : Traced ν δ) (l : List (Event ν δ)) :
    (runFrom step t l).erase = runFrom Cluster.step t.erase l := by
  induction l generalizing t with
  | nil => rfl
  | cons e l ih =>
      rw [runFrom_cons, runFrom_cons, ih, erase_step]

end Erase

/-! ### What is in flight -/

/-- The document is that of the `SET` with this number, and the `SET` announced as the revision is not
a later one.
Kind: D -/
structure Fresh (t : Traced ν δ) (settings : δ) (revision stored : ℕ) : Prop where
  /-- The `SET` with the number. -/
  wasSet : ∃ node_id, t.sets[stored]? = some ⟨settings, node_id⟩
  /-- The `SET` that the revision announces. -/
  announces : ∃ k, t.announced revision = some k ∧ k ≤ stored

/-- What a command knows is true.
Kind: D -/
def Command.Sound (t : Traced ν δ) : Command δ → Prop
  | set _ => True
  | incr stored => stored < t.sets.length
  | publish revision stored => t.announced revision = some stored
  | get revision => (t.announced revision).isSome

/-- What a reply tells is true.
Kind: D -/
def Reply.Sound (t : Traced ν δ) : Reply ν δ → Prop
  | set stored => stored < t.sets.length
  | incr revision stored => t.announced revision = some stored
  | publish => True
  | get _ none => True
  | get revision (some (stored, doc)) => t.Fresh doc.settings revision stored

/-- The number of the fetched document.
Kind: D -/
def Reply.stored : Reply ν δ → Option ℕ
  | get _ (some (stored, _)) => some stored
  | _ => none

/-- What a node has been told is true, and the documents it was handed and will be handed do not go
back.
Kind: D -/
structure Node.Sound (t : Traced ν δ) (x : Node ν δ) : Prop where
  /-- The commands. -/
  conn : ∀ cmd ∈ x.conn, cmd.Sound t
  /-- The replies. -/
  replies : ∀ reply ∈ x.replies, reply.Sound t
  /-- The notifications. -/
  inbox : ∀ message ∈ x.inbox, (t.announced message.revision).isSome
  /-- The calls of the callback. -/
  delivered : ∀ d ∈ x.delivered, t.Fresh d.settings d.revision d.stored
  /-- The numbers of the documents, handed and to be handed, in order. -/
  sorted : (x.delivered.map Delivery.stored ++ x.replies.filterMap Reply.stored).Pairwise (· ≤ ·)

/-- Revisions announce documents that were set, and every node is sound.
Kind: D -/
structure Sound (t : Traced ν δ) : Prop where
  /-- A revision that announces a document has been counted, and the document was set. -/
  announced : ∀ r k, t.announced r = some k → r ≤ t.rev ∧ k < t.sets.length
  /-- The nodes. -/
  nodes : ∀ n, (t.node n).Sound t

/-- Nothing that was set or announced is forgotten.
Kind: D -/
structure Extends (t t' : Traced ν δ) : Prop where
  /-- What was set. -/
  sets : t.sets <+: t'.sets
  /-- What was announced. -/
  announced : ∀ r k, t.announced r = some k → t'.announced r = some k

section Sound

variable {t t' : Traced ν δ} {n : ν} {x : Node ν δ} {settings : δ} {revision stored : ℕ}

omit [DecidableEq ν] in
theorem Extends.refl (t : Traced ν δ) : Extends t t := ⟨List.prefix_rfl, fun _ _ h => h⟩

omit [DecidableEq ν] in
theorem Extends.isSome (h : Extends t t') (hr : (t.announced revision).isSome) :
    (t'.announced revision).isSome := by
  obtain ⟨k, hk⟩ := Option.isSome_iff_exists.mp hr
  exact Option.isSome_iff_exists.mpr ⟨k, h.announced _ _ hk⟩

omit [DecidableEq ν] in
theorem Fresh.mono (hf : t.Fresh settings revision stored) (h : Extends t t') :
    t'.Fresh settings revision stored := by
  obtain ⟨node_id, hnode⟩ := hf.wasSet
  obtain ⟨k, hk, hle⟩ := hf.announces
  obtain ⟨later, hlater⟩ := h.sets
  refine ⟨⟨node_id, ?_⟩, k, h.announced _ _ hk, hle⟩
  rw [← hlater, List.getElem?_append_left (List.getElem?_eq_some_iff.mp hnode).1]
  exact hnode

omit [DecidableEq ν] in
theorem Command.Sound.mono {cmd : Command δ} (hc : cmd.Sound t) (h : Extends t t') : cmd.Sound t' := by
  cases cmd with
  | set settings => trivial
  | incr stored => exact Nat.lt_of_lt_of_le hc h.sets.length_le
  | publish revision stored => exact h.announced _ _ hc
  | get revision => exact h.isSome hc

omit [DecidableEq ν] in
theorem Reply.Sound.mono {reply : Reply ν δ} (hr : reply.Sound t) (h : Extends t t') :
    reply.Sound t' := by
  cases reply with
  | set stored => exact Nat.lt_of_lt_of_le hr h.sets.length_le
  | incr revision stored => exact h.announced _ _ hr
  | publish => trivial
  | get revision doc =>
      cases doc with
      | none => trivial
      | some doc => exact Fresh.mono hr h

omit [DecidableEq ν] in
theorem Node.Sound.mono (hx : x.Sound t) (h : Extends t t') : x.Sound t' where
  conn cmd hcmd := (hx.conn cmd hcmd).mono h
  replies reply hreply := (hx.replies reply hreply).mono h
  inbox message hmessage := h.isSome (hx.inbox message hmessage)
  delivered d hd := (hx.delivered d hd).mono h
  sorted := hx.sorted

omit [DecidableEq ν] in
/-- A node sends a command.
Kind: L -/
theorem Node.Sound.sendCommand (hx : x.Sound t) {cmd : Command δ} (hcmd : cmd.Sound t) :
    (x.sendCommand cmd).Sound t := by
  refine ⟨fun cmd' hc => ?_, hx.replies, hx.inbox, hx.delivered, hx.sorted⟩
  rcases List.mem_append.mp hc with hc | hc
  · exact hx.conn cmd' hc
  · exact List.mem_singleton.mp hc ▸ hcmd

omit [DecidableEq ν] in
/-- The number of a fresh document is that of a `SET`.
Kind: L -/
theorem Fresh.lt (h : t.Fresh settings revision stored) : stored < t.sets.length := by
  obtain ⟨node_id, hnode⟩ := h.wasSet
  exact (List.getElem?_eq_some_iff.mp hnode).1

omit [DecidableEq ν] in
/-- Every document a node was handed or will be handed was set.
Kind: L -/
theorem Node.Sound.stored_lt (hx : x.Sound t) {k : ℕ}
    (hk : k ∈ x.delivered.map Delivery.stored ++ x.replies.filterMap Reply.stored) :
    k < t.sets.length := by
  rcases List.mem_append.mp hk with hk | hk
  · obtain ⟨d, hd, rfl⟩ := List.mem_map.mp hk
    exact (hx.delivered d hd).lt
  · obtain ⟨reply, hreply, hs⟩ := List.mem_filterMap.mp hk
    have hsound := hx.replies reply hreply
    cases reply with
    | get revision doc =>
        cases doc with
        | none => exact absurd hs (by simp [Reply.stored])
        | some doc =>
            obtain rfl : doc.1 = k := Option.some.inj hs
            exact Fresh.lt hsound
    | set stored => exact absurd hs (by simp [Reply.stored])
    | incr revision stored => exact absurd hs (by simp [Reply.stored])
    | publish => exact absurd hs (by simp [Reply.stored])

omit [DecidableEq ν] in
/-- A command is executed and answered by the truth. A fetched document is the latest, so that it comes
last.
Kind: L -/
theorem Node.Sound.answered (hx : x.Sound t) (h : Extends t t') {cmd : Command δ}
    {rest : List (Command δ)} (hconn : x.conn = cmd :: rest) {reply : Reply ν δ}
    (hreply : reply.Sound t') (hlatest : ∀ k ∈ reply.stored, t.sets.length ≤ k + 1) :
    (x.answered rest reply).Sound t' := by
  have hx' := hx.mono h
  refine ⟨fun cmd' hc => ?_, fun r hr => ?_, hx'.inbox, hx'.delivered, ?_⟩
  · exact hx'.conn cmd' (hconn ▸ List.mem_cons_of_mem _ hc)
  · rcases List.mem_append.mp hr with hr | hr
    · exact hx'.replies r hr
    · exact List.mem_singleton.mp hr ▸ hreply
  · unfold Node.answered
    rw [List.filterMap_append, ← List.append_assoc]
    refine List.pairwise_append.mpr ⟨hx.sorted, ?_, fun k hk k' hk' => ?_⟩
    · cases hs : reply.stored with
      | none => simp [hs]
      | some k => simp [hs]
    · have hlt := hx.stored_lt hk
      obtain ⟨r, hr, hs⟩ := List.mem_filterMap.mp hk'
      obtain rfl := List.mem_singleton.mp hr
      have hle := hlatest k' hs
      omega

/-- One node changes while nothing is forgotten.
Kind: L -/
theorem Sound.change (h : t.Sound) (hext : Extends t t')
    (hannounced : ∀ r k, t'.announced r = some k → r ≤ t'.rev ∧ k < t'.sets.length)
    (hother : ∀ m, m ≠ n → t'.node m = t.node m) (hn : (t'.node n).Sound t') : t'.Sound := by
  refine ⟨hannounced, fun m => ?_⟩
  by_cases hm : m = n
  · exact hm ▸ hn
  · rw [hother m hm]
    exact (h.nodes m).mono hext

/-- One node changes and nothing else does.
Kind: L -/
theorem Sound.update (h : t.Sound) (hx : x.Sound t) : (t.update n x).Sound := by
  have hext : Extends t (t.update n x) := ⟨List.prefix_rfl, fun _ _ hk => hk⟩
  have hnode : (t.update n x).node n = x := if_pos rfl
  refine h.change hext h.announced (fun m hm => if_neg hm) ?_
  rw [hnode]
  exact hx.mono hext

omit [DecidableEq ν] in
/-- A `GET` reads the latest `SET`, which is not earlier than any that has been announced.
Kind: L -/
theorem Sound.get_latest (h : t.Sound) {revision : ℕ} (hrevision : (t.announced revision).isSome = true) :
    (Reply.get revision t.latest).Sound t := by
  unfold latest
  cases hlast : t.sets.getLast? with
  | none => trivial
  | some doc =>
      obtain ⟨k, hk⟩ := Option.isSome_iff_exists.mp hrevision
      refine ⟨⟨doc.node_id, ?_⟩, k, hk, Nat.le_sub_one_of_lt (h.announced _ _ hk).2⟩
      rw [← List.getLast?_eq_getElem?]
      exact hlast

omit [DecidableEq ν] in
theorem stored_get_latest {revision : ℕ} :
    ∀ k ∈ (Reply.get revision t.latest).stored, t.sets.length ≤ k + 1 := by
  intro k hk
  unfold latest at hk
  cases hlast : t.sets.getLast? with
  | none => exact absurd hk (by simp [hlast, Reply.stored])
  | some doc =>
      rw [hlast] at hk
      have hk' : t.sets.length - 1 = k := Option.some.inj hk
      omega

/-- Redis executes a command.
Kind: L -/
theorem Sound.executeCommand (h : t.Sound) {cmd : Command δ} {rest : List (Command δ)}
    (hconn : (t.node n).conn = cmd :: rest) : (t.executeCommand n rest cmd).Sound := by
  have hcmd : cmd.Sound t := (h.nodes n).conn cmd (hconn ▸ List.mem_cons_self)
  have hnode : ∀ x, (t.update n x).node n = x := fun x => if_pos rfl
  cases cmd with
  | set settings =>
      have hext : Extends t (t.executeCommand n rest (.set settings)) :=
        ⟨List.prefix_append _ _, fun _ _ hk => hk⟩
      refine h.change hext (fun r k hk => ?_) (fun m hm => if_neg hm) ?_
      · obtain ⟨hr, hlt⟩ := h.announced r k hk
        exact ⟨hr, Nat.lt_of_lt_of_le hlt hext.sets.length_le⟩
      · have hreply : (Reply.set t.sets.length : Reply ν δ).Sound
            (t.executeCommand n rest (.set settings)) := by
          unfold Reply.Sound Traced.executeCommand
          simp only [List.length_append, List.length_singleton, Nat.lt_succ_self]
        have hanswered := (h.nodes n).answered hext hconn hreply (fun k hk => by cases hk)
        exact (hnode _).symm ▸ hanswered
  | incr stored =>
      -- the revision is new
      have hfresh : ∀ r k, t.announced r = some k → r ≠ t.rev + 1 := by
        rintro r k hk rfl
        exact absurd (h.announced _ k hk).1 (Nat.not_succ_le_self _)
      have hext : Extends t (t.executeCommand n rest (.incr stored)) :=
        ⟨List.prefix_rfl, fun r k hk => (if_neg (hfresh r k hk)).trans hk⟩
      refine h.change hext (fun r k hk => ?_) (fun m hm => if_neg hm) ?_
      · unfold Traced.executeCommand at hk ⊢
        dsimp only at hk ⊢
        split_ifs at hk with hr
        · exact ⟨Nat.le_of_eq hr, Option.some.inj hk ▸ hcmd⟩
        · obtain ⟨hle, hlt⟩ := h.announced r k hk
          exact ⟨Nat.le_succ_of_le hle, hlt⟩
      · have hreply : (Reply.incr (t.rev + 1) stored : Reply ν δ).Sound
            (t.executeCommand n rest (.incr stored)) := if_pos rfl
        have hanswered := (h.nodes n).answered hext hconn hreply (fun k hk => by cases hk)
        exact (hnode _).symm ▸ hanswered
  | publish revision stored =>
      have hreply : (Reply.publish : Reply ν δ).Sound t := trivial
      have hanswered := (h.nodes n).answered (Extends.refl t) hconn hreply (fun k hk => by cases hk)
      have hext : Extends (t.update n ((t.node n).answered rest .publish))
          (t.executeCommand n rest (.publish revision stored)) :=
        ⟨List.prefix_rfl, fun _ _ hk => hk⟩
      refine ⟨h.announced, fun m => ?_⟩
      have hm := ((h.update (n := n) hanswered).nodes m).mono hext
      refine ⟨hm.conn, hm.replies, fun message hmessage => ?_, hm.delivered, hm.sorted⟩
      rcases List.mem_append.mp hmessage with hold | hnew
      · exact hm.inbox message hold
      · rw [List.mem_singleton.mp hnew]
        exact Option.isSome_iff_exists.mpr ⟨stored, hcmd⟩
  | get revision =>
      have hreply := h.get_latest hcmd
      exact h.update ((h.nodes n).answered (Extends.refl t) hconn hreply stored_get_latest)

omit [DecidableEq ν] in
/-- A node receives a reply.
Kind: L -/
theorem Node.Sound.receive (hx : x.Sound t) {reply : Reply ν δ} {rest : List (Reply ν δ)}
    (hreplies : x.replies = reply :: rest) : (x.receive rest reply).Sound t := by
  have hreply : reply.Sound t := hx.replies reply (hreplies ▸ List.mem_cons_self)
  have hrest : ∀ r ∈ rest, r.Sound t := fun r hr => hx.replies r (hreplies ▸ List.mem_cons_of_mem _ hr)
  have hsorted := hx.sorted
  rw [hreplies] at hsorted
  have htail : Node.Sound t { x with replies := rest } := by
    refine ⟨hx.conn, hrest, hx.inbox, hx.delivered, hsorted.sublist ?_⟩
    exact (List.Sublist.filterMap _ (List.sublist_cons_self _ _)).append_left _
  cases reply with
  | set stored => exact htail.sendCommand hreply
  | incr revision stored => exact htail.sendCommand hreply
  | publish => exact htail
  | get revision doc =>
      cases doc with
      | none => exact htail
      | some doc =>
          refine ⟨hx.conn, hrest, hx.inbox, fun d hd => ?_, ?_⟩
          · rcases List.mem_append.mp hd with hd | hd
            · exact hx.delivered d hd
            · rw [List.mem_singleton.mp hd]
              exact hreply
          · have hmove : (x.delivered ++ [(⟨doc.2.settings, revision, doc.1⟩ : Delivery δ)]).map
                  Delivery.stored ++
                rest.filterMap Reply.stored =
                x.delivered.map Delivery.stored ++
                  (Reply.get revision (some doc) :: rest).filterMap Reply.stored := by
              rw [List.map_append, List.append_assoc]
              rfl
            exact hmove ▸ hsorted

/-- A step keeps the cluster sound.
Kind: L -/
theorem Sound.step (h : t.Sound) (e : Event ν δ) : (t.step e).Sound := by
  cases e with
  | publishSettings n settings =>
      have hview : Node.Sound t { t.node n with view := some settings } :=
        ⟨(h.nodes n).conn, (h.nodes n).replies, (h.nodes n).inbox, (h.nodes n).delivered,
          (h.nodes n).sorted⟩
      exact h.update (hview.sendCommand trivial)
  | execute n =>
      cases hconn : (t.node n).conn with
      | nil => simpa only [Traced.step, hconn] using h
      | cons cmd rest => simpa only [Traced.step, hconn] using h.executeCommand hconn
  | receive n =>
      cases hreplies : (t.node n).replies with
      | nil => simpa only [Traced.step, hreplies] using h
      | cons reply rest =>
          simpa only [Traced.step, hreplies] using h.update ((h.nodes n).receive hreplies)
  | notify n =>
      cases hinbox : (t.node n).inbox with
      | nil => simpa only [Traced.step, hinbox] using h
      | cons message rest =>
          have hx := h.nodes n
          have hmessage := hx.inbox message (hinbox ▸ List.mem_cons_self)
          have hrest : Node.Sound t { t.node n with inbox := rest } :=
            ⟨hx.conn, hx.replies, fun m hm => hx.inbox m (hinbox ▸ List.mem_cons_of_mem _ hm),
              hx.delivered, hx.sorted⟩
          have hheard : ((t.node n).onSettingsChange n rest message).Sound t := by
            unfold Node.onSettingsChange
            split_ifs
            · exact hrest
            · exact hrest.sendCommand hmessage
          simpa only [Traced.step, hinbox] using h.update hheard

omit [DecidableEq ν] in
theorem sound_idle (settings : Option (Stored ν δ)) (rev : ℕ) : (idle settings rev).Sound where
  announced r k hk := absurd hk (by simp [idle])
  nodes n := ⟨fun _ h => absurd h List.not_mem_nil, fun _ h => absurd h List.not_mem_nil,
    fun _ h => absurd h List.not_mem_nil, fun _ h => absurd h List.not_mem_nil, List.Pairwise.nil⟩

/-- **Delivery freshness.** Whatever nodes publish, and in whatever order their commands are executed
and their notifications and replies arrive, a document handed to a node's callback with a revision is
that of a `SET` that is not earlier than the `SET` announced as the revision, and the documents handed
successively to one node's callback are in the order of their `SET`s.
Source: `lib/cluster.js`, `ClusterSync.prototype.onSettingsChange`
Kind: P -/
theorem delivered_fresh (settings : Option (Stored ν δ)) (rev : ℕ) (l : List (Event ν δ)) :
    let t := runFrom step (idle settings rev) l
    t.erase = runFrom Cluster.step (Cluster.idle settings rev) l ∧
      ∀ n, (∀ d ∈ (t.node n).delivered, t.Fresh d.settings d.revision d.stored) ∧
        ((t.node n).delivered.map Delivery.stored).Pairwise (· ≤ ·) := by
  have hidle : (idle settings rev).erase = Cluster.idle settings rev := by
    cases settings <;> rfl
  have hsound : (runFrom step (idle settings rev) l).Sound :=
    invariant_run (P := fun _ _ => True) (fun t e h _ => h.step e) (sound_idle settings rev)
      (eachStep_of_forall fun _ _ _ => trivial)
  refine ⟨(erase_run _ l).trans (by rw [hidle]), fun n => ⟨(hsound.nodes n).delivered, ?_⟩⟩
  exact (List.pairwise_append.mp (hsound.nodes n).sorted).1

end Sound

end Traced

end Cluster

end TyoMq
