import TyoMq.Cluster.Settings

/-!
# Cluster settings sync: convergence

The argument is about what a node's view will be once its replies have arrived (`Node.upcoming`).
A node that still has a document to set is about to overwrite whatever it has heard (`Orderly`); a
node that has none, and to which no notification is due (`Settled`), is about to have the stored
document (`InStep`). The condition on publishing is what keeps a reply from overtaking a document.
-/

namespace TyoMq

open TyoMq.Lib

namespace Cluster

variable {ν δ : Type*}

/-! ### What a node is about to do -/

/-- The document a command sets.
Kind: D -/
def Command.set? : Command δ → Option δ
  | set settings => some settings
  | _ => none

/-- Is it a fetch?
Kind: D -/
def Command.IsGet : Command δ → Prop
  | get _ => True
  | _ => False

/-- Is it the reply to a fetch?
Kind: D -/
def Reply.IsGet : Reply ν δ → Prop
  | get _ _ => True
  | _ => False

/-- The view after a reply.
Kind: D -/
def Reply.apply (view : Option δ) : Reply ν δ → Option δ
  | get _ (some doc) => some doc.settings
  | _ => view

namespace Node

/-- The view, once the replies on their way have arrived.
Kind: D -/
def upcoming (x : Node ν δ) : Option δ := x.replies.foldl Reply.apply x.view

/-- The documents the node is about to set.
Kind: D -/
def sets (x : Node ν δ) : List δ := x.conn.filterMap Command.set?

/-- The node has set a document and not yet announced it.
Kind: D -/
def Announcing (x : Node ν δ) : Prop :=
  (∃ r ∈ x.replies, r = .set ∨ ∃ revision, r = .incr revision) ∨
    ∃ cmd ∈ x.conn, cmd = .incr ∨ ∃ revision, cmd = .publish revision

/-- No fetch of the node is outstanding.
Kind: D -/
def FetchIdle (x : Node ν δ) : Prop := (∀ cmd ∈ x.conn, ¬ cmd.IsGet) ∧ ∀ r ∈ x.replies, ¬ r.IsGet

/-- Fetches come behind the documents to set, and the last of those is the view.
Kind: D -/
structure Orderly (x : Node ν δ) : Prop where
  /-- No document is set behind a fetch. -/
  order : x.conn.Pairwise fun a b => a.IsGet → b.set? = none
  /-- While there is a document to set, no fetched document is on its way. -/
  unread : x.sets ≠ [] → ∀ r ∈ x.replies, ¬ r.IsGet
  /-- The last document to set is the view. -/
  last : ∀ d ∈ x.sets.getLast?, x.view = some d

/-- Replies that are not to fetches do not change the view.
Kind: L -/
theorem foldl_apply_of_not_isGet {l : List (Reply ν δ)} (h : ∀ r ∈ l, ¬ r.IsGet) (view : Option δ) :
    l.foldl Reply.apply view = view := by
  induction l with
  | nil => rfl
  | cons r l ih =>
      have hr : Reply.apply view r = view := by
        cases r with
        | get revision doc => exact absurd trivial (h _ List.mem_cons_self)
        | _ => rfl
      rw [List.foldl_cons, hr]
      exact ih fun r' hr' => h r' (List.mem_cons_of_mem _ hr')

section Advance

variable {x : Node ν δ} {cmd : Command δ} {rest : List (Command δ)} {r : Reply ν δ}

/-- The documents to set, behind a command.
Kind: L -/
theorem sets_of_conn (hconn : x.conn = cmd :: rest) :
    x.sets = cmd.set?.toList ++ rest.filterMap Command.set? := by
  rw [sets, hconn, List.filterMap_cons]
  cases cmd.set? <;> rfl

/-- A command answered by something that is not a fetched document.
Kind: L -/
theorem Orderly.advance (h : x.Orderly) (hconn : x.conn = cmd :: rest) (hr : ¬ r.IsGet) :
    Orderly { x with conn := rest, replies := x.replies ++ [r] } := by
  have hsets := sets_of_conn hconn
  refine ⟨(List.pairwise_cons.mp (hconn ▸ h.order)).2, fun hne r' hr' => ?_, fun d hd => h.last d ?_⟩
  · rcases List.mem_append.mp hr' with hr' | hr'
    · refine h.unread (fun hnil => hne ?_) r' hr'
      exact (List.append_eq_nil_iff.mp (hsets ▸ hnil)).2
    · rwa [List.mem_singleton.mp hr']
  · have hd' : (rest.filterMap Command.set?).getLast? = some d := hd
    rw [hsets, Option.mem_def, List.getLast?_append, hd']
    rfl

theorem upcoming_advance (rest : List (Command δ)) (hr : ¬ r.IsGet) :
    upcoming { x with conn := rest, replies := x.replies ++ [r] } = x.upcoming := by
  rw [upcoming, List.foldl_append]
  exact foldl_apply_of_not_isGet (fun r' hr' => List.mem_singleton.mp hr' ▸ hr) _

/-- A command sent that sets no document.
Kind: L -/
theorem Orderly.send (h : x.Orderly) (cmd : Command δ) (hcmd : cmd.set? = none) :
    Orderly { x with conn := x.conn ++ [cmd] } := by
  have hsets : sets { x with conn := x.conn ++ [cmd] } = x.sets := by simp [sets, hcmd]
  refine ⟨List.pairwise_append.mpr ⟨h.order, List.pairwise_singleton _ _, ?_⟩, ?_, ?_⟩
  · intro a _ b hb _
    rwa [List.mem_singleton.mp hb]
  · rw [hsets]
    exact h.unread
  · rw [hsets]
    exact h.last

/-- A reply received.
Kind: L -/
theorem Orderly.receive {rest : List (Reply ν δ)} (h : x.Orderly) (hreplies : x.replies = r :: rest) :
    Orderly { x with replies := rest, view := r.apply x.view } := by
  refine ⟨h.order, ?_, ?_⟩
  · intro hne r' hr'
    exact h.unread hne r' (by rw [hreplies]; exact List.mem_cons_of_mem _ hr')
  · intro d hd
    have hne : x.sets ≠ [] := fun hnil => by
      rw [show (sets { x with replies := rest, view := r.apply x.view }) = [] from hnil] at hd
      exact absurd hd (by simp)
    have hr : ¬ r.IsGet := h.unread hne r (by rw [hreplies]; exact List.mem_cons_self)
    have hview : r.apply x.view = x.view := by
      cases r with
      | get revision doc => exact absurd trivial hr
      | _ => rfl
    show r.apply x.view = some d
    rw [hview]
    exact h.last d hd

theorem upcoming_receive {rest : List (Reply ν δ)} (hreplies : x.replies = r :: rest) :
    upcoming { x with replies := rest, view := r.apply x.view } = x.upcoming := by
  simp only [upcoming, hreplies, List.foldl_cons]

end Advance

end Node

/-- The node is not due to hear of the stored document: it wrote it, or its author has announced it
and everything announced has been fetched.
Kind: D -/
def Settled (c : Cluster ν δ) (n : ν) (x : Node ν δ) : Prop :=
  ∀ doc, c.settings = some doc → doc.node_id = n ∨
    (¬ (c.node doc.node_id).Announcing ∧ (∀ m ∈ x.inbox, m.node_id = n) ∧
      ∀ cmd ∈ x.conn, ¬ cmd.IsGet)

/-- Everything is in step.
Kind: D -/
structure InStep (c : Cluster ν δ) : Prop where
  /-- Each node by itself. -/
  orderly : ∀ n, (c.node n).Orderly
  /-- Before the first document is stored, documents to set are all there is. -/
  fresh : c.settings = none → ∀ n, (∀ cmd ∈ (c.node n).conn, cmd.set? ≠ none) ∧
    (c.node n).replies = [] ∧ (c.node n).inbox = []
  /-- A node with nothing to set and nothing to hear of is about to have the stored document. -/
  current : ∀ n, (c.node n).sets = [] → c.Settled n (c.node n) →
    (c.node n).upcoming = c.settings.map Stored.settings

/-- An idle cluster is in step.
Kind: L -/
theorem InStep.idle (settings : Option (Stored ν δ)) (rev : ℕ) : InStep (idle settings rev) where
  orderly n :=
    ⟨List.Pairwise.nil, fun h => absurd rfl h, fun d hd => absurd hd (by simp
      [Cluster.idle, Node.sets])⟩
  fresh _ n := by simp [Cluster.idle]
  current n _ _ := rfl

variable [DecidableEq ν] {c : Cluster ν δ} {n m : ν}

@[simp] theorem node_update_self (c : Cluster ν δ) (n : ν) (x : Node ν δ) :
    (c.update n x).node n = x := if_pos rfl

theorem node_update_of_ne (c : Cluster ν δ) (x : Node ν δ) (h : m ≠ n) :
    (c.update n x).node m = c.node m := if_neg h

@[simp] theorem update_update (c : Cluster ν δ) (n : ν) (x y : Node ν δ) :
    (c.update n x).update n y = c.update n y := by
  unfold update
  congr 1
  funext m
  by_cases h : m = n <;> simp [h]

/-- One node changes and the stored document does not: only that node has to be looked at again.
Kind: P -/
theorem InStep.update (h : InStep c) {x : Node ν δ} (hord : x.Orderly)
    (hfresh : c.settings = none → (∀ cmd ∈ x.conn, cmd.set? ≠ none) ∧ x.replies = [] ∧ x.inbox = [])
    (hann : (c.node n).Announcing → x.Announcing)
    (hcur : x.sets = [] → c.Settled n x → x.upcoming = c.settings.map Stored.settings) :
    InStep (c.update n x) := by
  -- the updated node announces what the old one did
  have hsettled : ∀ m y, (c.update n x).Settled m y → c.Settled m y := by
    intro m y hs doc hdoc
    refine (hs doc hdoc).imp_right fun ⟨hno, hrest⟩ => ⟨fun hyes => hno ?_, hrest⟩
    by_cases hn : doc.node_id = n
    · rw [hn, node_update_self]
      exact hann (hn ▸ hyes)
    · rwa [node_update_of_ne _ _ hn]
  refine ⟨fun m => ?_, fun hnone m => ?_, fun m hsets hs => ?_⟩
  all_goals by_cases hm : m = n
  · rwa [hm, node_update_self]
  · rw [node_update_of_ne _ _ hm]
    exact h.orderly m
  · rw [hm, node_update_self]
    exact hfresh hnone
  · rw [node_update_of_ne _ _ hm]
    exact h.fresh hnone m
  · subst hm
    rw [node_update_self] at hsets hs ⊢
    exact hcur hsets (hsettled _ _ hs)
  · rw [node_update_of_ne _ _ hm] at hsets hs ⊢
    exact h.current m hsets (hsettled _ _ hs)

/-! ### The steps -/

/-- A node publishes while no fetch of its own is outstanding.
Kind: P -/
theorem InStep.publishSettings (h : InStep c) (hidle : (c.node n).FetchIdle) (d : δ) :
    InStep (c.publishSettings n d) := by
  simp only [Cluster.publishSettings, sendCommand, update_update, node_update_self]
  have hsets : (c.node n).conn.filterMap Command.set? ++ [d] =
      ((c.node n).conn ++ [Command.set d]).filterMap Command.set? := by simp [Command.set?]
  refine h.update ⟨?_, fun _ => hidle.2, ?_⟩ ?_ ?_ ?_
  · refine List.pairwise_append.mpr ⟨(h.orderly n).order, List.pairwise_singleton _ _, ?_⟩
    intro a ha b _ hget
    exact absurd hget (hidle.1 a ha)
  · intro d' hd'
    simp only [Node.sets, ← hsets, List.getLast?_concat, Option.mem_some_iff] at hd'
    exact congrArg some hd'
  · intro hnone
    obtain ⟨hconn, hreplies, hinbox⟩ := h.fresh hnone n
    refine ⟨fun cmd hcmd => ?_, hreplies, hinbox⟩
    rcases List.mem_append.mp hcmd with hc | hc
    · exact hconn cmd hc
    · rw [List.mem_singleton.mp hc]
      exact Option.some_ne_none _
  · exact Or.imp_right fun ⟨cmd, hcmd, hk⟩ => ⟨cmd, List.mem_append_left _ hcmd, hk⟩
  · intro hnil
    simp [Node.sets, ← hsets] at hnil

/-- Redis stores a document: its author is about to have it, everyone else is due to hear of it.
Kind: L -/
theorem InStep.execute_set (h : InStep c) {d : δ} {rest : List (Command δ)}
    (hconn : (c.node n).conn = .set d :: rest) : InStep (c.executeCommand n rest (.set d)) := by
  have hsets := Node.sets_of_conn hconn
  have hnode : (c.executeCommand n rest (.set d)).node n =
      { c.node n with conn := rest, replies := (c.node n).replies ++ [.set] } := node_update_self ..
  refine ⟨?_, fun hnone => absurd hnone (Option.some_ne_none _), ?_⟩
  · intro m
    by_cases hmn : m = n
    · rw [hmn, hnode]
      exact (h.orderly n).advance hconn not_false
    · rw [Cluster.executeCommand, node_update_of_ne _ _ hmn]
      exact h.orderly m
  · intro m hm hs
    rcases hs ⟨d, n⟩ rfl with hmn | ⟨hno, -⟩
    · have hmn' : n = m := hmn
      subst hmn'
      rw [hnode] at hm ⊢
      -- the document was the last one to set, hence the view
      have hlast : (c.node n).view = some d :=
        (h.orderly n).last d (by rw [hsets, show rest.filterMap Command.set? = [] from hm]; rfl)
      have hunread := (h.orderly n).unread (by rw [hsets]; exact List.cons_ne_nil _ _)
      rw [Node.upcoming_advance rest (r := .set) not_false, Node.upcoming,
        Node.foldl_apply_of_not_isGet hunread]
      exact hlast
    · refine absurd (Or.inl ⟨.set, ?_, Or.inl rfl⟩) hno
      rw [hnode]
      exact List.mem_append_right _ List.mem_cons_self

/-- Redis counts a revision.
Kind: L -/
theorem InStep.execute_incr (h : InStep c) {rest : List (Command δ)}
    (hconn : (c.node n).conn = .incr :: rest) : InStep (c.executeCommand n rest .incr) := by
  have hsets := Node.sets_of_conn hconn
  have hx : InStep (c.update n { c.node n with
      conn := rest, replies := (c.node n).replies ++ [.incr (c.rev + 1)] }) := by
    refine h.update ((h.orderly n).advance hconn not_false) ?_ ?_ ?_
    · intro hnone
      exact absurd rfl ((h.fresh hnone n).1 .incr (by simp [hconn]))
    · intro _
      exact Or.inl ⟨.incr (c.rev + 1), by simp, Or.inr ⟨_, rfl⟩⟩
    · intro hnil hs
      rw [Node.upcoming_advance rest (r := .incr (c.rev + 1)) not_false]
      refine h.current n (hsets.trans hnil) fun doc hdoc => (hs doc hdoc).imp_right ?_
      rintro ⟨hno, hin, hget⟩
      exact ⟨hno, hin, by rw [hconn]; exact List.forall_mem_cons.mpr ⟨not_false, hget⟩⟩
  exact ⟨hx.orderly, hx.fresh, hx.current⟩

/-- Redis passes an announcement on: now every other node has something to hear.
Kind: L -/
theorem InStep.execute_publish (h : InStep c) {revision : ℕ} {rest : List (Command δ)}
    (hconn : (c.node n).conn = .publish revision :: rest) :
    InStep (c.executeCommand n rest (.publish revision)) := by
  have hsets := Node.sets_of_conn hconn
  have hself : (c.executeCommand n rest (.publish revision)).node n =
      { c.node n with
        conn := rest, replies := (c.node n).replies ++ [.publish],
        inbox := (c.node n).inbox ++ [⟨revision, n⟩] } := by simp [Cluster.executeCommand]
  have hother : ∀ m, m ≠ n → (c.executeCommand n rest (.publish revision)).node m =
      { c.node m with inbox := (c.node m).inbox ++ [⟨revision, n⟩] } := by
    intro m hm
    simp [Cluster.executeCommand, node_update_of_ne _ _ hm]
  refine ⟨?_, ?_, ?_⟩
  · intro m
    by_cases hmn : m = n
    · obtain ⟨horder, hunread, hlast⟩ := (h.orderly n).advance (r := .publish) hconn not_false
      rw [hmn, hself]
      exact ⟨horder, hunread, hlast⟩
    · obtain ⟨horder, hunread, hlast⟩ := h.orderly m
      rw [hother m hmn]
      exact ⟨horder, hunread, hlast⟩
  · intro hnone
    exact absurd rfl ((h.fresh hnone n).1 (.publish revision) (by simp [hconn]))
  · intro m hm hs
    by_cases hmn : m = n
    · subst hmn
      rw [hself] at hm hs ⊢
      refine (Node.upcoming_advance rest (r := .publish) not_false).trans
        (h.current m (hsets.trans hm) fun doc hdoc => ?_)
      rcases hs doc hdoc with hdoc' | ⟨hno, hin, hget⟩
      · exact Or.inl hdoc'
      · by_cases hauthor : doc.node_id = m
        · exact Or.inl hauthor
        · refine Or.inr ⟨fun hyes => hno ?_, fun msg hmsg => hin msg (List.mem_append_left _ hmsg), ?_⟩
          · rw [hother _ hauthor]
            exact hyes
          · rw [hconn]
            exact List.forall_mem_cons.mpr ⟨not_false, hget⟩
    · rw [hother m hmn] at hm hs ⊢
      refine h.current m hm fun doc hdoc => (hs doc hdoc).imp_right fun ⟨_, hin, _⟩ => ?_
      exact absurd (hin ⟨revision, n⟩ (by simp)).symm hmn

/-- Redis answers a fetch with the stored document.
Kind: L -/
theorem InStep.execute_get (h : InStep c) {revision : ℕ} {rest : List (Command δ)}
    (hconn : (c.node n).conn = .get revision :: rest) :
    InStep (c.executeCommand n rest (.get revision)) := by
  have horder := List.pairwise_cons.mp (hconn ▸ (h.orderly n).order)
  have hnil : rest.filterMap Command.set? = [] :=
    List.filterMap_eq_nil_iff.mpr fun cmd hcmd => horder.1 cmd hcmd trivial
  have hnone : c.settings ≠ none := fun hnone =>
    absurd rfl ((h.fresh hnone n).1 (.get revision) (by simp [hconn]))
  refine h.update ⟨horder.2, fun hne => absurd hnil hne, fun d hd => ?_⟩
    (fun hc => absurd hc hnone) ?_ fun _ _ => ?_
  · exact absurd hd (by simp [Node.sets, hnil])
  · rintro (⟨r, hr, hk⟩ | ⟨cmd, hcmd, hk⟩)
    · exact Or.inl ⟨r, List.mem_append_left _ hr, hk⟩
    · rcases List.mem_cons.mp (hconn ▸ hcmd) with rfl | hcmd'
      · rcases hk with hk | ⟨_, hk⟩ <;> exact absurd hk (by simp)
      · exact Or.inr ⟨cmd, hcmd', hk⟩
  · obtain ⟨doc, hdoc⟩ := Option.ne_none_iff_exists'.mp hnone
    rw [Node.upcoming, List.foldl_append, hdoc]
    rfl

/-- Redis executes a command.
Kind: P -/
theorem InStep.executeCommand (h : InStep c) {cmd : Command δ} {rest : List (Command δ)}
    (hconn : (c.node n).conn = cmd :: rest) : InStep (c.executeCommand n rest cmd) := by
  cases cmd with
  | set d => exact h.execute_set hconn
  | incr => exact h.execute_incr hconn
  | publish revision => exact h.execute_publish hconn
  | get revision => exact h.execute_get hconn

/-- A reply after which the node sends a command that announces, or nothing at all.
Kind: L -/
theorem InStep.receive (h : InStep c) {r : Reply ν δ} {rest : List (Reply ν δ)}
    (hreplies : (c.node n).replies = r :: rest) (cmds : List (Command δ))
    (hcmds : ∀ cmd ∈ cmds, cmd.set? = none ∧ ¬ cmd.IsGet)
    (hann : r = .set ∨ (∃ revision, r = .incr revision) →
      ∃ cmd ∈ cmds, cmd = .incr ∨ ∃ revision, cmd = .publish revision) :
    InStep (c.update n { c.node n with
      conn := (c.node n).conn ++ cmds, replies := rest, view := r.apply (c.node n).view }) := by
  have hsets : ((c.node n).conn ++ cmds).filterMap Command.set? = (c.node n).sets := by
    rw [List.filterMap_append, List.filterMap_eq_nil_iff.mpr fun cmd hcmd => (hcmds cmd hcmd).1,
      List.append_nil, Node.sets]
  obtain ⟨horder, hunread, hlast⟩ := (h.orderly n).receive hreplies
  refine h.update ⟨?_, ?_, ?_⟩ ?_ ?_ ?_
  · refine List.pairwise_append.mpr ⟨horder, ?_, fun a _ b hb _ => (hcmds b hb).1⟩
    exact List.pairwise_of_forall_mem_list fun a _ b hb _ => (hcmds b hb).1
  · rw [Node.sets, hsets]
    exact hunread
  · rw [Node.sets, hsets]
    exact hlast
  · intro hnone
    have := (h.fresh hnone n).2.1
    rw [hreplies] at this
    exact absurd this (List.cons_ne_nil _ _)
  · rintro (⟨r', hr', hk⟩ | ⟨cmd, hcmd, hk⟩)
    · rcases List.mem_cons.mp (hreplies ▸ hr') with rfl | hr''
      · obtain ⟨cmd, hcmd, hk'⟩ := hann hk
        exact Or.inr ⟨cmd, List.mem_append_right _ hcmd, hk'⟩
      · exact Or.inl ⟨r', hr'', hk⟩
    · exact Or.inr ⟨cmd, List.mem_append_left _ hcmd, hk⟩
  · intro hnil hs
    refine (Node.upcoming_receive hreplies).trans (h.current n (hsets ▸ hnil) fun doc hdoc => ?_)
    refine (hs doc hdoc).imp_right fun ⟨hno, hin, hget⟩ => ⟨hno, hin, fun cmd hcmd => ?_⟩
    exact hget cmd (List.mem_append_left _ hcmd)

/-- A node receives a reply.
Kind: P -/
theorem InStep.receiveReply (h : InStep c) {r : Reply ν δ} {rest : List (Reply ν δ)}
    (hreplies : (c.node n).replies = r :: rest) : InStep (c.receiveReply n rest r) := by
  cases r with
  | set =>
      have hx := h.receive hreplies [.incr]
        (fun cmd hcmd => by rw [List.mem_singleton.mp hcmd]; exact ⟨rfl, not_false⟩)
        fun _ => ⟨.incr, List.mem_singleton_self _, Or.inl rfl⟩
      simpa [Cluster.receiveReply, sendCommand, Reply.apply] using hx
  | incr revision =>
      have hx := h.receive hreplies [.publish revision]
        (fun cmd hcmd => by rw [List.mem_singleton.mp hcmd]; exact ⟨rfl, not_false⟩)
        fun _ => ⟨.publish revision, List.mem_singleton_self _, Or.inr ⟨_, rfl⟩⟩
      simpa [Cluster.receiveReply, sendCommand, Reply.apply] using hx
  | publish =>
      have hx := h.receive hreplies [] (fun cmd hcmd => absurd hcmd List.not_mem_nil)
        fun hk => absurd hk (by simp)
      simpa [Cluster.receiveReply, Reply.apply] using hx
  | get revision doc =>
      have hx := h.receive hreplies [] (fun cmd hcmd => absurd hcmd List.not_mem_nil)
        fun hk => absurd hk (by simp)
      cases doc with
      | none => simpa [Cluster.receiveReply, Reply.apply] using hx
      | some doc => simpa [Cluster.receiveReply, Reply.apply] using hx

/-- A node receives a notification: its own it ignores, another makes it fetch.
Kind: P -/
theorem InStep.onSettingsChange (h : InStep c) {message : Message ν} {rest : List (Message ν)}
    (hinbox : (c.node n).inbox = message :: rest) : InStep (c.onSettingsChange n rest message) := by
  have hfresh : c.settings ≠ none := fun hnone => by
    have := (h.fresh hnone n).2.2
    rw [hinbox] at this
    exact absurd this (List.cons_ne_nil _ _)
  unfold Cluster.onSettingsChange
  by_cases hown : message.node_id = n
  · rw [if_pos hown]
    obtain ⟨horder, hunread, hlast⟩ := h.orderly n
    refine h.update ⟨horder, hunread, hlast⟩ (fun hnone => absurd hnone hfresh) id fun hnil hs => ?_
    refine h.current n hnil fun doc hdoc => (hs doc hdoc).imp_right ?_
    rintro ⟨hno, hin, hget⟩
    exact ⟨hno, by rw [hinbox]; exact List.forall_mem_cons.mpr ⟨hown, hin⟩, hget⟩
  · rw [if_neg hown, sendCommand, update_update, node_update_self]
    obtain ⟨horder, hunread, hlast⟩ := (h.orderly n).send (.get message.revision) rfl
    refine h.update ⟨horder, hunread, hlast⟩ (fun hnone => absurd hnone hfresh) ?_ fun hnil hs => ?_
    · exact Or.imp_right fun ⟨cmd, hcmd, hk⟩ => ⟨cmd, List.mem_append_left _ hcmd, hk⟩
    · refine h.current n (by simpa [Node.sets, Command.set?] using hnil) fun doc hdoc => Or.inl ?_
      -- with a fetch outstanding, only the author is settled
      rcases hs doc hdoc with hdoc' | ⟨-, -, hget⟩
      · exact hdoc'
      · exact absurd trivial (hget (.get message.revision) (by simp))

/-! ### Runs -/

/-- A node publishes only while no fetch of its own is outstanding.
Kind: D -/
def PublishesIdle (c : Cluster ν δ) : Event ν δ → Prop
  | .publishSettings n _ => (c.node n).FetchIdle
  | _ => True

/-- Every step keeps a cluster in step.
Kind: P -/
theorem InStep.step (h : InStep c) {e : Event ν δ} (he : c.PublishesIdle e) : InStep (c.step e) := by
  cases e with
  | publishSettings n d => exact h.publishSettings he d
  | execute n =>
      rcases hconn : (c.node n).conn with _ | ⟨cmd, rest⟩
      · simpa [Cluster.step, hconn] using h
      · simpa [Cluster.step, hconn] using h.executeCommand hconn
  | receive n =>
      rcases hreplies : (c.node n).replies with _ | ⟨r, rest⟩
      · simpa [Cluster.step, hreplies] using h
      · simpa [Cluster.step, hreplies] using h.receiveReply hreplies
  | notify n =>
      rcases hinbox : (c.node n).inbox with _ | ⟨message, rest⟩
      · simpa [Cluster.step, hinbox] using h
      · simpa [Cluster.step, hinbox] using h.onSettingsChange hinbox

omit [DecidableEq ν] in
/-- A cluster in step with nothing in flight has converged.
Kind: L -/
theorem InStep.converged (h : InStep c) (hq : c.Quiescent) : c.Converged := by
  intro n
  obtain ⟨hconn, hreplies, hinbox⟩ := hq n
  have hsettled : c.Settled n (c.node n) := by
    intro doc _
    obtain ⟨hconn', hreplies', -⟩ := hq doc.node_id
    refine Or.inr ⟨?_, by simp [hinbox], by simp [hconn]⟩
    rintro (⟨r, hr, -⟩ | ⟨cmd, hcmd, -⟩)
    · exact absurd (hreplies' ▸ hr) List.not_mem_nil
    · exact absurd (hconn' ▸ hcmd) List.not_mem_nil
  have hcur := h.current n (by simp [Node.sets, hconn]) hsettled
  rwa [Node.upcoming, hreplies, List.foldl_nil] at hcur

/-- **Convergence.** From an idle cluster, in every run in which nodes publish only while no fetch
of their own is outstanding, every node's view is the stored document whenever nothing is in flight.
Kind: P -/
theorem converged_of_publishesIdle (settings : Option (Stored ν δ)) (rev : ℕ)
    (l : List (Event ν δ)) (hl : EachStep step PublishesIdle (idle settings rev) l)
    (hq : (runFrom step (idle settings rev) l).Quiescent) :
    (runFrom step (idle settings rev) l).Converged := by
  have h : InStep (runFrom step (idle settings rev) l) :=
    invariant_run (I := InStep) (fun _ _ h he => h.step he) (InStep.idle settings rev) hl
  exact h.converged hq

/-! ### Two nodes -/

/-- The node `n` gets all of a publish through, up to its own notification.
Kind: D -/
def publishThrough (n : Bool) : List (Event Bool ℕ) :=
  [.execute n, .receive n, .execute n, .receive n, .execute n, .receive n, .notify n]

/-- One node publishes a document, the other fetches it and then publishes its own.
Kind: D -/
def publishInTurn : List (Event Bool ℕ) :=
  .publishSettings false 1 :: publishThrough false ++
    [.notify true, .execute true, .receive true, .publishSettings true 2] ++ publishThrough true ++
    [.notify false, .execute false, .receive false]

/-- The same, but the other node publishes its own document before the fetched one has arrived.
Kind: D -/
def publishDuringFetch : List (Event Bool ℕ) :=
  .publishSettings false 1 :: publishThrough false ++
    [.notify true, .publishSettings true 2, .execute true, .receive true] ++ publishThrough true ++
    [.notify false, .execute false, .receive false]

/-- Publishing in turn converges.
Kind: C -/
theorem converged_publishInTurn :
    (runFrom step (idle none 0) publishInTurn).Quiescent ∧
      (runFrom step (idle none 0) publishInTurn).Converged := by
  have hq : (runFrom step (idle none 0) publishInTurn).Quiescent := by
    unfold Quiescent
    decide
  refine ⟨hq, converged_of_publishesIdle none 0 publishInTurn ?_ hq⟩
  simp [publishInTurn, publishThrough, EachStep, PublishesIdle, Node.FetchIdle, idle, step,
    publishSettings, executeCommand, receiveReply, onSettingsChange, sendCommand, update]

/-- **The overtaken fetch.** Both nodes have published and nothing is in flight: the node that wrote
the stored document has gone back to the older one.
Kind: P -/
theorem diverged_publishDuringFetch :
    (runFrom step (idle none 0) publishDuringFetch).Quiescent ∧
      ¬ (runFrom step (idle none 0) publishDuringFetch).Converged := by
  refine ⟨by unfold Quiescent; decide, fun h => ?_⟩
  exact absurd (h true) (by decide)

end Cluster

end TyoMq
