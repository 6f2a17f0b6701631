import TyoMq.Http.Streams

/-!
# The history of the streams

What the store keeps for clients that come back, in every run: what is read is what has been recorded, in its
order, but for what has expired or whose realm was removed.

* `Historied`: the invariant that says so, with one lemma for each operation.
-/

namespace TyoMq.Http

open Lib Storage

/-- A report that is not about what the history has.
Kind: D -/
def Effect.isAside : Effect → Bool
  | .recorded _ => false
  | .read .. => false
  | _ => true

namespace Streams

/-- What has been kept in the history.
Kind: D -/
def recorded (log : List Effect) : List (Entry Text) :=
  log.filterMap fun
    | .recorded e => some e
    | _ => none

/-- What has been kept of an event of a realm.
Kind: D -/
def historyOf (realm event : Text) (log : List Effect) : List (Entry Text) :=
  (recorded log).filter fun e => e.realm = realmOr realm ∧ e.event = event

theorem recorded_append (log new : List Effect) : recorded (log ++ new) = recorded log ++ recorded new :=
  List.filterMap_append

theorem historyOf_append (realm event : Text) (log new : List Effect) :
    historyOf realm event (log ++ new) = historyOf realm event log ++ historyOf realm event new := by
  rw [historyOf, recorded_append, List.filter_append]
  rfl

/-- A message of the history has expired, or its realm was removed.
Kind: D -/
def Lost (log : List Effect) (e : Entry Text) : Prop :=
  (∃ now t, .expired now e ∈ log ∧ e.expires_at = some t ∧ t ≤ now) ∨ .purged e.realm ∈ log

theorem Lost.append {log : List Effect} {e : Entry Text} (h : Lost log e) (new : List Effect) :
    Lost (log ++ new) e :=
  h.imp (fun ⟨now, t, hin, ht⟩ => ⟨now, t, List.mem_append_left _ hin, ht⟩) (List.mem_append_left _)

/-- What is read of the history is what has been kept and is not lost, in its order.
Kind: D -/
def ReadJustified (before : List Effect) : Effect → Prop
  | .read _ realm event entries => entries.Sublist (historyOf realm event before) ∧
      ∀ e ∈ historyOf realm event before, e ∈ entries ∨ Lost before e
  | _ => True

/-- The store has what has been kept and is not lost.
Kind: D -/
structure Historied (store : MemoryStore Text) (log : List Effect) : Prop where
  /-- In its order. -/
  kept : store.messages.Sublist (recorded log)
  /-- All of it. -/
  lost : ∀ e ∈ recorded log, e ∈ store.messages ∨ Lost log e
  /-- It is kept for the streams. -/
  consumer : ∀ e ∈ recorded log, e.consumer.getD [] = SSE_HISTORY_CONSUMER
  /-- What has been read so far. -/
  grounded : Grounded ReadJustified log

theorem recorded_eq_nil {new : List Effect} (hnew : ∀ e ∈ new, e.isAside = true) : recorded new = [] := by
  apply List.filterMap_eq_nil_iff.mpr
  intro e he
  cases e with
  | recorded => exact absurd (hnew _ he) Bool.false_ne_true
  | _ => rfl

theorem isAside_of_mem_expire {s : Streams} {now : ℤ} {e : Effect} (he : e ∈ s.expire now) :
    e.isAside = true := by
  obtain ⟨entry, -, rfl⟩ := List.mem_map.mp he
  rfl

namespace Historied

variable {store store' : MemoryStore Text} {log new : List Effect}

/-- Some messages are lost, and there are other reports.
Kind: L -/
theorem lose (h : Historied store log) (hsub : store'.messages.Sublist store.messages)
    (hlost : ∀ e ∈ store.messages, e ∈ store'.messages ∨ Lost (log ++ new) e)
    (hnew : ∀ e ∈ new, e.isAside = true) : Historied store' (log ++ new) := by
  have hsame : recorded (log ++ new) = recorded log := by
    rw [recorded_append, recorded_eq_nil hnew, List.append_nil]
  refine ⟨hsame ▸ hsub.trans h.kept, fun e he => ?_, hsame ▸ h.consumer, ?_⟩
  · rcases h.lost e (hsame ▸ he) with hin | hin
    · exact hlost e hin
    · exact Or.inr (hin.append new)
  · refine h.grounded.append fun before e after heq => ?_
    cases e with
    | read i realm event entries =>
        exact absurd (hnew (.read i realm event entries) (by rw [heq]; simp)) Bool.false_ne_true
    | _ => exact trivial

/-- Other reports.
Kind: L -/
theorem report (h : Historied store log) (hnew : ∀ e ∈ new, e.isAside = true) :
    Historied store (log ++ new) := h.lose (List.Sublist.refl _) (fun _ he => Or.inl he) hnew

theorem purgeExpired {s : Streams} (h : Historied s.store log) (now : ℤ) :
    Historied (s.store.purgeExpired now) (log ++ s.expire now) := by
  refine h.lose List.filter_sublist (fun e he => ?_) fun e he => isAside_of_mem_expire he
  by_cases hlive : (e.expires_at.all fun t => t = 0 ∨ now < t) = true
  · exact Or.inl (List.mem_filter.mpr ⟨he, hlive⟩)
  · obtain ⟨t, ht, hexpired⟩ : ∃ t, e.expires_at = some t ∧ ¬(t = 0 ∨ now < t) := by
      rcases hexpires : e.expires_at with _ | t
      · exact absurd (by rw [hexpires]; rfl) hlive
      · refine ⟨t, rfl, fun hbad => hlive ?_⟩
        rw [hexpires]
        exact decide_eq_true hbad
    refine Or.inr (Or.inl ⟨now, t, ?_, ht, Int.not_lt.mp fun hlt => hexpired (Or.inr hlt)⟩)
    apply List.mem_append_right
    exact List.mem_map.mpr ⟨e, List.mem_filter.mpr ⟨he, by rw [Bool.eq_false_iff.mpr hlive]; rfl⟩, rfl⟩

theorem purgeRealm (h : Historied store log) (realm : Text) :
    Historied (store.purgeRealm realm).1 (log ++ [.purged realm]) := by
  refine h.lose List.filter_sublist (fun e he => ?_) (by simp [Effect.isAside])
  by_cases hrealm : e.realm = realm
  · exact Or.inr (Or.inr (by simp [hrealm]))
  · exact Or.inl (List.mem_filter.mpr ⟨he, by simpa using hrealm⟩)

theorem record {s : Streams} (h : Historied s.store log) (c : Config) (now : ℤ)
    (realm event frame producer : Text) {deliveryId : Text} (hid : deliveryId ≠ []) (ttl : Option Ttl) :
    Historied (s.recordSseHistory c now realm event frame deliveryId producer ttl).1.store
      (log ++ (s.recordSseHistory c now realm event frame deliveryId producer ttl).2) := by
  unfold recordSseHistory
  split_ifs
  · have hpurged := h.purgeExpired now
    have hentry : (s.store.enqueue c.defaultTtl now realm event
        ⟨deliveryId, [], SSE_HISTORY_CONSUMER, frame, producer, ttl⟩ []).1.messages =
        (s.store.purgeExpired now).messages ++
          [historyEntry c now realm event frame deliveryId producer ttl] := by
      simp only [MemoryStore.enqueue, Message.idOr, Message.recipient, historyEntry, orElse]
      rw [if_neg hid]
      rfl
    dsimp only
    rw [← List.append_assoc]
    generalize log ++ s.expire now = log' at hpurged
    have happend : recorded (log' ++ [.recorded (historyEntry c now realm event frame deliveryId producer ttl)]) =
        recorded log' ++ [historyEntry c now realm event frame deliveryId producer ttl] := recorded_append ..
    refine ⟨?_, fun e he => ?_, fun e he => ?_, hpurged.grounded.append_singleton trivial⟩
    · rw [hentry, happend]
      exact hpurged.kept.append (List.Sublist.refl _)
    · rw [happend] at he
      rw [hentry]
      rcases List.mem_append.mp he with he | he
      · exact (hpurged.lost e he).imp (List.mem_append_left _) fun hlost => hlost.append _
      · exact Or.inl (List.mem_append_right _ he)
    · rw [happend] at he
      rcases List.mem_append.mp he with he | he
      · exact hpurged.consumer e he
      · rw [List.mem_singleton.mp he]
        rfl
  · rwa [List.append_nil]

/-- The history is read.
Kind: L -/
theorem read {s : Streams} (h : Historied s.store log) (now : ℤ) (i : ℕ) (realm event resumeId : Text) :
    Historied (s.readHistory now i realm event resumeId).1.store
      (log ++ (s.readHistory now i realm event resumeId).2) := by
  have hpurged := h.purgeExpired now
  unfold readHistory
  dsimp only
  rw [← List.append_assoc]
  generalize log ++ s.expire now = log' at hpurged
  set entries := (s.store.dequeue now realm event SSE_HISTORY_CONSUMER).2 with hentries
  have happend : recorded (log' ++ [.read i realm event entries]) = recorded log' := by
    rw [recorded_append]
    exact List.append_nil _
  have hfilter : ∀ e ∈ recorded log', (e.realm = realmOr realm ∧ e.event = event ∧
      e.consumer.getD [] = SSE_HISTORY_CONSUMER) ↔ e.realm = realmOr realm ∧ e.event = event := fun e he => by
    rw [eq_true (hpurged.consumer e he), and_true]
  have hread : entries = (s.store.purgeExpired now).messages.filter fun e =>
      e.realm = realmOr realm ∧ e.event = event := by
    rw [hentries]
    apply List.filter_congr
    intro e he
    rw [decide_eq_decide]
    exact hfilter e (hpurged.kept.subset he)
  refine ⟨happend ▸ hpurged.kept, fun e he => ?_, happend ▸ hpurged.consumer,
    hpurged.grounded.append_singleton ⟨?_, fun e he => ?_⟩⟩
  · exact (hpurged.lost e (happend ▸ he)).imp id fun hlost => hlost.append _
  · rw [hread]
    exact hpurged.kept.filter _
  · obtain ⟨he, hmatch⟩ := List.mem_filter.mp he
    rw [hread]
    exact (hpurged.lost e he).imp (fun hin => List.mem_filter.mpr ⟨hin, hmatch⟩) id

end Historied

end Streams

end TyoMq.Http
