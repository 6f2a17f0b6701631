import Mathlib.Algebra.Order.Archimedean.Basic
import TyoMq.Chat.OneShot

/-!
# A call that issues no ticket: what is left of it

`lib/chat-ticket-store.js`. A call of `issue` that throws should leave no trace in what is answered
afterwards.

* In a reachable store a sweep that leaves the store full has found nothing to drop (`makeRoom_of_full`),
  so a call that throws changes the upload window of its session at most (`issue_of_not_losesUpload`).
* **Atomic** (`atomic_iff`): a call that throws leaves no trace exactly when it is not an upload within
  its cap that finds the store full. Such a call is counted, and the count shows: repeated often enough,
  the same call runs into the cap one call early.
* A session whose only upload found the store full gets no ticket, though it has none
  (`not_atomic_full_store`).
-/

namespace TyoMq.Chat

open TyoMq.Lib

variable {δ : Type} [DecidableEq δ]

/-- The answer to a call.
Kind: D -/
inductive Answer
  | issued (ticket : JsString)
  | refused (e : IssueError)
  | verified (valid : Bool)
  deriving DecidableEq

/-- The answer that `issue` gives.
Kind: D -/
def Answer.ofIssue : Except IssueError JsString → Answer
  | .ok ticket => issued ticket
  | .error e => refused e

namespace ChatTicketStore

/-- The store after a call.
Kind: D -/
def next (hashPublishToken : JsString → δ) (s : ChatTicketStore δ) : Event → ChatTicketStore δ
  | .issue r bytes => (s.issue hashPublishToken r bytes).1
  | .verify p => (s.verify hashPublishToken p).1

/-- The answer to a call.
Kind: D -/
def answer (hashPublishToken : JsString → δ) (s : ChatTicketStore δ) : Event → Answer
  | .issue r bytes => Answer.ofIssue (s.issue hashPublishToken r bytes).2
  | .verify p => .verified (s.verify hashPublishToken p).2

/-- The answers to a sequence of calls.
Kind: D -/
def answers (hashPublishToken : JsString → δ) : ChatTicketStore δ → List Event → List Answer
  | _, [] => []
  | s, e :: l => s.answer hashPublishToken e :: answers hashPublishToken (s.next hashPublishToken e) l

/-- Every later sequence of calls is answered after the call as if it had not been made. The bytes that
are drawn for a ticket come with the call that issues it.
Kind: D -/
def Atomic (hashPublishToken : JsString → δ) (s : ChatTicketStore δ) (r : Request)
    (bytes : Fin 32 → UInt8) : Prop :=
  ∀ later : List Event, answers hashPublishToken (s.issue hashPublishToken r bytes).1 later =
    answers hashPublishToken s later

/-- The window that an upload of the session is counted in.
Source: `lib/chat-ticket-store.js`, `ChatTicketStore.prototype.issue`, lines 77-79
Kind: D -/
def windowAt (s : ChatTicketStore δ) (session : JsString) (now : ℚ) : UploadWindow :=
  match s.sessions.get session with
  | none => ⟨0, now⟩
  | some w => if s.windowMs ≤ now - w.windowStart then ⟨0, now⟩ else w

omit [DecidableEq δ] in
theorem windowAt_of_get {s : ChatTicketStore δ} {session : JsString} {w : UploadWindow}
    (h : s.sessions.get session = some w) (now : ℚ) :
    s.windowAt session now = if s.windowMs ≤ now - w.windowStart then ⟨0, now⟩ else w := by
  unfold windowAt
  rw [h]

/-- The store with one more upload counted in a window.
Kind: D -/
def counted (s : ChatTicketStore δ) (session : JsString) (w : UploadWindow) : ChatTicketStore δ :=
  { s with sessions := s.sessions.set session { w with count := w.count + 1 } }

/-- Is the store full, even after a sweep?
Kind: D -/
def Full (s : ChatTicketStore δ) (now : ℚ) : Prop := s.maxTickets ≤ (s.sweep now).tickets.size

/-- The call is an upload that passes its checks, within the cap of its session, and finds the store
full.
Kind: D -/
def LosesUpload (s : ChatTicketStore δ) (r : Request) : Prop :=
  ∃ session, checked r = .ok (session, .upload, none) ∧
    (s.windowAt session r.now).count < s.uploadCapPerWindow ∧ s.Full r.now

/-! ### What is left of a call that throws -/

section Steps

variable {hashPublishToken : JsString → δ} {s : ChatTicketStore δ} {r : Request}
  {bytes : Fin 32 → UInt8} {session : JsString} {now : ℚ}

omit [DecidableEq δ] in
theorem countUpload_eq (s : ChatTicketStore δ) (session : JsString) (now : ℚ) :
    s.countUpload session now =
      if s.uploadCapPerWindow ≤ (s.windowAt session now).count then .error .cap_exceeded
      else .ok (s.counted session (s.windowAt session now)) := rfl

omit [DecidableEq δ] in
/-- A store within its bound that is full after a sweep has nothing to drop.
Kind: L -/
theorem makeRoom_of_full (hsize : s.tickets.size ≤ s.maxTickets) (hfull : s.Full now) :
    s.makeRoom now = s := by
  have hlength : s.tickets.entries.length ≤ (s.sweep now).tickets.entries.length := hsize.trans hfull
  have hsub : (s.sweep now).tickets.entries.Sublist s.tickets.entries := List.filter_sublist
  have hsame : (s.sweep now).tickets = s.tickets := JsMap.ext (hsub.eq_of_length_le hlength)
  unfold makeRoom
  split_ifs
  · obtain ⟨_, _, _, _, _, _⟩ := s
    exact congrArg (fun tickets => ChatTicketStore.mk _ _ _ _ tickets _) hsame
  · rfl

omit [DecidableEq δ] in
/-- Room is made, or the store is full.
Kind: L -/
theorem full_iff_makeRoom :
    s.Full now ↔ (s.makeRoom now).maxTickets ≤ (s.makeRoom now).tickets.size := by
  unfold makeRoom Full
  split_ifs with h
  · exact Iff.rfl
  · refine iff_of_false (fun hfull => h ?_) h
    exact hfull.trans (s.tickets.size_deleteWhere_le _)

/-- An upload that finds the store full.
Kind: L -/
theorem issue_of_full (hsize : s.tickets.size ≤ s.maxTickets)
    (hchecked : checked r = .ok (session, .upload, none)) (hfull : s.Full r.now) :
    s.issue hashPublishToken r bytes =
      if s.uploadCapPerWindow ≤ (s.windowAt session r.now).count then (s, .error .cap_exceeded)
      else (s.counted session (s.windowAt session r.now), .error .store_full) := by
  have hroom : (s.counted session (s.windowAt session r.now)).makeRoom r.now =
      s.counted session (s.windowAt session r.now) := makeRoom_of_full hsize hfull
  have hover : (s.counted session (s.windowAt session r.now)).maxTickets ≤
      (s.counted session (s.windowAt session r.now)).tickets.size :=
    hfull.trans (s.tickets.size_deleteWhere_le _)
  unfold issue
  rw [hchecked]
  dsimp only
  rw [if_pos rfl, countUpload_eq]
  split_ifs with hcap
  · rfl
  · dsimp only
    rw [hroom, if_pos hover]

/-- A call that throws, and is not an upload lost to a full store, leaves the store as it was.
Kind: P -/
theorem issue_of_not_losesUpload (hsize : s.tickets.size ≤ s.maxTickets) {e : IssueError}
    (hfail : (s.issue hashPublishToken r bytes).2 = .error e) (hnot : ¬ s.LosesUpload r) :
    (s.issue hashPublishToken r bytes).1 = s := by
  rcases hchecked : checked r with e' | ⟨session, op, ref⟩
  · unfold issue
    rw [hchecked]
  cases op with
  | upload =>
      have href : ref = none := by
        unfold checked at hchecked
        repeat' split at hchecked
        all_goals cases hchecked
        all_goals rfl
      subst href
      by_cases hfull : s.Full r.now
      · have hcap : s.uploadCapPerWindow ≤ (s.windowAt session r.now).count := by
          by_contra hlt
          exact hnot ⟨session, hchecked, not_le.mp hlt, hfull⟩
        rw [issue_of_full hsize hchecked hfull, if_pos hcap]
      · unfold issue at hfail ⊢
        rw [hchecked] at hfail ⊢
        dsimp only at hfail ⊢
        rw [if_pos rfl, countUpload_eq] at hfail ⊢
        split_ifs at hfail ⊢ with hcap
        · rfl
        · dsimp only at hfail ⊢
          have hroom := (full_iff_makeRoom (s := s.counted session (s.windowAt session r.now))).not.mp
            hfull
          rw [if_neg hroom] at hfail
          cases hfail
  | download =>
      unfold issue at hfail ⊢
      rw [hchecked] at hfail ⊢
      dsimp only at hfail ⊢
      rw [if_neg (by decide)] at hfail ⊢
      dsimp only at hfail ⊢
      split_ifs at hfail ⊢ with hover
      exact makeRoom_of_full hsize (full_iff_makeRoom.mpr hover)

/-! ### The count shows -/

/-- The store is full, and the session has a window that is under way, with some uploads.
Kind: D -/
structure Counting (s : ChatTicketStore δ) (session : JsString) (now : ℚ) (count : ℕ) : Prop where
  /-- The store is within its bound. -/
  size_le : s.tickets.size ≤ s.maxTickets
  /-- It is full. -/
  full : s.Full now
  /-- The window counts in what is asked now. -/
  window : ∃ start, s.windowAt session now = ⟨count, start⟩ ∧ now - start < s.windowMs

omit [DecidableEq δ] in
theorem Counting.counted {count : ℕ} (h : s.Counting session now count) :
    (s.counted session (s.windowAt session now)).Counting session now (count + 1) := by
  obtain ⟨start, hwindow, hlive⟩ := h.window
  refine ⟨h.size_le, h.full, start, ?_, hlive⟩
  have hget : (s.counted session (s.windowAt session now)).sessions.get session =
      some ⟨count + 1, start⟩ := by
    rw [hwindow]
    exact JsMap.get_set_self ..
  rw [windowAt_of_get hget]
  exact if_neg (not_le.mpr hlive)

/-- The call is refused under the cap, and counted, or over it.
Kind: L -/
theorem Counting.issue {count : ℕ} (h : s.Counting session r.now count)
    (hchecked : checked r = .ok (session, .upload, none)) :
    s.issue hashPublishToken r bytes =
      if s.uploadCapPerWindow ≤ count then (s, .error .cap_exceeded)
      else (s.counted session (s.windowAt session r.now), .error .store_full) := by
  obtain ⟨start, hwindow, -⟩ := h.window
  rw [issue_of_full h.size_le hchecked h.full, hwindow]

/-- The call as often as the cap allows: each is refused, and counted.
Kind: L -/
theorem Counting.answers {count n : ℕ} (h : s.Counting session r.now count)
    (hchecked : checked r = .ok (session, .upload, none))
    (hcap : ∀ j < n, ((count + j : ℕ) : ℚ) < s.uploadCapPerWindow) (l : List Event) :
    ∃ s' : ChatTicketStore δ, s'.Counting session r.now (count + n) ∧
      s'.uploadCapPerWindow = s.uploadCapPerWindow ∧
      s.answers hashPublishToken (List.replicate n (.issue r bytes) ++ l) =
        List.replicate n (.refused .store_full) ++ s'.answers hashPublishToken l := by
  induction n generalizing s count with
  | zero => exact ⟨s, h, rfl, rfl⟩
  | succ n ih =>
      have hnow : (count : ℚ) < s.uploadCapPerWindow := hcap 0 (Nat.succ_pos n)
      have hissue : s.issue hashPublishToken r bytes =
          (s.counted session (s.windowAt session r.now), .error .store_full) := by
        rw [h.issue hchecked, if_neg (not_le.mpr hnow)]
      obtain ⟨s', hs', hsame, hanswers⟩ := @ih _ (count + 1) h.counted fun j hj => by
        rw [Nat.add_assoc, Nat.add_comm 1 j]
        exact hcap (j + 1) (Nat.succ_lt_succ hj)
      refine ⟨s', ?_, hsame, ?_⟩
      · rw [Nat.add_comm n 1, ← Nat.add_assoc]
        exact hs'
      · rw [List.replicate_succ, List.replicate_succ, List.cons_append, List.cons_append,
          ChatTicketStore.answers, answer, next, hissue, hanswers]
        rfl

omit [DecidableEq δ] in
/-- In a full store a session counts from what its window has.
Kind: L -/
theorem counting_of_full (hsize : s.tickets.size ≤ s.maxTickets) (hwindow : 0 < s.windowMs)
    (hfull : s.Full now) : s.Counting session now (s.windowAt session now).count := by
  refine ⟨hsize, hfull, (s.windowAt session now).windowStart, rfl, ?_⟩
  unfold windowAt
  split
  · simpa using hwindow
  · split_ifs with hover
    · simpa using hwindow
    · exact not_le.mp hover

/-- Counting up from below a cap, there is a last number below it.
Kind: L -/
theorem exists_last_under {count : ℕ} {cap : ℚ} (h : (count : ℚ) < cap) :
    ∃ m : ℕ, (∀ j ≤ m, ((count + j : ℕ) : ℚ) < cap) ∧ cap ≤ ((count + (m + 1) : ℕ) : ℚ) := by
  have hover : ∃ n : ℕ, cap ≤ ((count + n : ℕ) : ℚ) := by
    obtain ⟨n, hn⟩ := exists_nat_ge cap
    exact ⟨n, hn.trans (by exact_mod_cast Nat.le_add_left n count)⟩
  have hunder : ∀ j < Nat.find hover, ((count + j : ℕ) : ℚ) < cap :=
    fun j hj => not_le.mp (Nat.find_min hover hj)
  have hfirst := Nat.find_spec hover
  generalize Nat.find hover = n at hunder hfirst
  cases n with
  | zero => exact absurd hfirst (not_le.mpr h)
  | succ m => exact ⟨m, fun j hj => hunder j (Nat.lt_succ_of_le hj), hfirst⟩

/-- An upload lost to a full store leaves a trace: the same call, made often enough, runs into the cap
one call early.
Kind: P -/
theorem not_atomic_of_losesUpload (hsize : s.tickets.size ≤ s.maxTickets) (hwindow : 0 < s.windowMs)
    (h : s.LosesUpload r) : ¬ s.Atomic hashPublishToken r bytes := by
  obtain ⟨session, hchecked, hcap, hfull⟩ := h
  have hlost : (s.issue hashPublishToken r bytes).1 =
      s.counted session (s.windowAt session r.now) := by
    rw [issue_of_full hsize hchecked hfull, if_neg (not_le.mpr hcap)]
  have hcounting := @counting_of_full _ s session r.now hsize hwindow hfull
  have hcounted := hcounting.counted
  have hcap₁ : (s.counted session (s.windowAt session r.now)).uploadCapPerWindow =
      s.uploadCapPerWindow := rfl
  rw [Atomic, hlost]
  generalize s.counted session (s.windowAt session r.now) = s₁ at hcounted hcap₁ ⊢
  generalize (s.windowAt session r.now).count = count at hcap hcounting hcounted
  obtain ⟨m, hunder, hover⟩ := exists_last_under hcap
  intro hatomic
  have hsame := hatomic (List.replicate m (.issue r bytes) ++ [.issue r bytes])
  have hshort : ∀ j < m, ((count + 1 + j : ℕ) : ℚ) < s₁.uploadCapPerWindow := by
    intro j hj
    rw [hcap₁, Nat.add_assoc, Nat.add_comm 1 j]
    exact hunder (j + 1) hj
  obtain ⟨s₂, hs₂, hcap₂, hanswers⟩ := @Counting.answers _ _ hashPublishToken _ _ bytes _ _ m hcounting
    hchecked (fun j hj => hunder j hj.le) [.issue r bytes]
  obtain ⟨s₃, hs₃, hcap₃, hanswers'⟩ := @Counting.answers _ _ hashPublishToken _ _ bytes _ _ m
    hcounted hchecked hshort [.issue r bytes]
  rw [hanswers, hanswers'] at hsame
  have hlast₂ : s₂.answer hashPublishToken (.issue r bytes) = .refused .store_full := by
    rw [answer, hs₂.issue hchecked, hcap₂, if_neg (not_le.mpr (hunder m (le_refl m)))]
    rfl
  have hlast₃ : s₃.answer hashPublishToken (.issue r bytes) = .refused .cap_exceeded := by
    rw [answer, hs₃.issue hchecked, hcap₃, hcap₁, Nat.add_assoc, Nat.add_comm 1 m, if_pos hover]
    rfl
  have hdiffer := List.head_eq_of_cons_eq (List.append_cancel_left hsame)
  rw [hlast₂, hlast₃] at hdiffer
  cases hdiffer

end Steps

/-! ### Reachable stores -/

/-- A call leaves the window of the store as it is.
Kind: L -/
theorem windowMs_issue (hashPublishToken : JsString → δ) (s : ChatTicketStore δ) (r : Request)
    (bytes : Fin 32 → UInt8) : (s.issue hashPublishToken r bytes).1.windowMs = s.windowMs := by
  have hroom : ∀ s : ChatTicketStore δ, (s.makeRoom r.now).windowMs = s.windowMs := by
    intro s
    unfold makeRoom
    split_ifs <;> rfl
  unfold issue
  split
  · rfl
  · split
    · rfl
    · rename_i s₁ hcount
      have hs₁ : s₁.windowMs = s.windowMs := by
        split_ifs at hcount
        · rw [countUpload_eq] at hcount
          split_ifs at hcount
          cases hcount
          rfl
        · cases hcount
          rfl
      dsimp only
      split_ifs
      · exact (hroom s₁).trans hs₁
      · exact (hroom s₁).trans hs₁

theorem windowMs_verify (hashPublishToken : JsString → δ) (s : ChatTicketStore δ) (p : Presentation) :
    (s.verify hashPublishToken p).1.windowMs = s.windowMs := by
  obtain ⟨heq, -⟩ | ⟨ticket, entry, -, -, -, -, -, -, heq⟩ := s.verify_cases hashPublishToken p
  · rw [heq]
    rfl
  · rw [heq]

end ChatTicketStore

namespace Ledger

theorem windowMs_run (hashPublishToken : JsString → δ) (opts : Options) (events : List Event) :
    (run hashPublishToken opts events).store.windowMs =
      (ChatTicketStore.new opts : ChatTicketStore δ).windowMs := by
  refine invariant_run (I := fun l : Ledger δ => l.store.windowMs = _) (P := fun _ _ => True) ?_ rfl
    (eachStep_of_forall fun _ _ _ => trivial)
  intro l e h _
  cases e with
  | issue r bytes =>
      have hissue := l.store.windowMs_issue hashPublishToken r bytes
      unfold step
      dsimp only
      split <;> rename_i heq <;> rw [heq] at hissue <;> exact hissue.trans h
  | verify p =>
      have hverify := l.store.windowMs_verify hashPublishToken p
      unfold step
      dsimp only
      split <;> rename_i heq <;> rw [heq] at hverify <;> exact hverify.trans h

end Ledger

/-- **Atomic.** In a store that some calls have led to, a call of `issue` that throws leaves no trace in
any later answers exactly when it is not an upload, within the cap of its session, that finds the store
full. A configured window is a length, that is, not negative.
Kind: P -/
theorem atomic_iff (hashPublishToken : JsString → δ) (opts : Options)
    (hwindow : ∀ w, opts.windowMs = some w → 0 ≤ w) (events : List Event) (r : Request)
    (bytes : Fin 32 → UInt8) {e : IssueError}
    (hfail : ((Ledger.run hashPublishToken opts events).store.issue hashPublishToken r bytes).2 =
      .error e) :
    (Ledger.run hashPublishToken opts events).store.Atomic hashPublishToken r bytes ↔
      ¬ (Ledger.run hashPublishToken opts events).store.LosesUpload r := by
  have hsize := (@Ledger.bounded_run _ _ hashPublishToken opts events).size_le
  have hpos : 0 < (Ledger.run hashPublishToken opts events).store.windowMs := by
    rw [Ledger.windowMs_run]
    unfold ChatTicketStore.new orElse
    dsimp only
    split_ifs with h0
    · decide +kernel
    · rcases hw : opts.windowMs with _ | w
      · rw [hw] at h0
        exact absurd rfl h0
      · rw [hw] at h0
        exact lt_of_le_of_ne (hwindow w hw) (Ne.symm h0)
  constructor
  · exact fun h hloses => ChatTicketStore.not_atomic_of_losesUpload hsize hpos hloses h
  · intro hnot later
    rw [ChatTicketStore.issue_of_not_losesUpload hsize hfail hnot]

/-- One ticket, and one upload for a session.
Kind: D -/
def oneTicket : Options := ⟨none, some 1, none, some 1⟩

/-- Somebody downloads.
Kind: D -/
def download : Request := ⟨some (js "ann"), some .download, .text (js "file"), 0⟩

/-- Somebody else uploads.
Kind: D -/
def upload : Request := ⟨some (js "bob"), some .upload, .undefined, 1⟩

/-- A download without a file.
Kind: D -/
def noFile : Request := ⟨some (js "bob"), some .download, .undefined, 1⟩

/-- It is refused, and leaves no trace.
Kind: C -/
theorem atomic_iff_noFile :
    ((Ledger.run id oneTicket [.issue download fun _ => 0]).store.issue id noFile fun _ => 1).2 =
        .error .missing_ref ∧
      (Ledger.run id oneTicket [.issue download fun _ => 0]).store.Atomic id noFile fun _ => 1 := by
  have hfail : ((Ledger.run id oneTicket [.issue download fun _ => 0]).store.issue id noFile
      fun _ => 1).2 = .error .missing_ref := by decide +kernel
  refine ⟨hfail, (@atomic_iff _ _ id oneTicket (by decide) _ noFile _ _ hfail).mpr ?_⟩
  rintro ⟨session, hchecked, -⟩
  cases hchecked

/-- The upload finds the store full. The download is redeemed, which makes room, and the upload is
refused again, now over a cap that no ticket has been issued under.
Kind: P -/
theorem not_atomic_full_store :
    let s := (Ledger.run id oneTicket [.issue download fun _ => 0]).store
    let later : List Event :=
      [.verify ⟨some (generatePublishToken fun _ => 0), some .download, .text (js "file"), 2⟩,
        .issue { upload with now := 3 } fun _ => 2]
    (s.issue id upload fun _ => 1).2 = .error .store_full ∧
      s.answers id later = [.verified true, .issued (generatePublishToken fun _ => 2)] ∧
        (s.issue id upload fun _ => 1).1.answers id later =
          [.verified true, .refused .cap_exceeded] := by
  decide +kernel

end TyoMq.Chat
