import Mathlib.Data.List.Basic
import Mathlib.Data.List.Nodup
import TyoMq.Storage.Message

/-!
# Catching up

What of the history a client of the event streams of `lib/server.js` is sent that comes back and says which
message it saw last (`replaySseHistory`).

* `catchUp_suffix`: the end of what came after that message.
* `catchUp_of_not_truncated`: all of it, unless there is too much.
* `afterId_append`: what that is where the ids differ.
-/

namespace TyoMq.Http

open Storage

/-- A message of the history: its id and its frame, which is a JSON text.
Kind: D -/
abbrev Item := Text × Text

/-- A message of the history, from the store.
Kind: D -/
def itemOf (e : Entry Text) : Item := (e.id, e.message)

/-- How many messages are replayed at most.
Source: `lib/server.js`, `SSE_REPLAY_MAX_MESSAGES`
Kind: D -/
def SSE_REPLAY_MAX_MESSAGES : ℕ := 1000

/-- How many bytes are replayed at most, where it is more than one message.
Source: `lib/server.js`, `SSE_REPLAY_MAX_BYTES`
Kind: D -/
def SSE_REPLAY_MAX_BYTES : ℕ := 4 * 1024 * 1024

/-- What came after the first message with the id: all of it where there is none.
Source: `lib/server.js`, `replaySseHistory`
Kind: D -/
def afterId (resumeId : Text) (entries : List Item) : List Item :=
  if entries.any fun e => e.1 = resumeId then (entries.dropWhile fun e => e.1 ≠ resumeId).tail else entries

/-- What fits of some messages, from the first on, with `used` bytes taken up already if any is there. The
second part says whether something does not.
Source: `lib/server.js`, `replaySseHistory`
Kind: D -/
def fitting : Option ℕ → List Item → List Item × Bool
  | _, [] => ([], false)
  | used, e :: l =>
      if used.any fun bytes => SSE_REPLAY_MAX_BYTES < bytes + e.2.length then ([], true)
      else
        let rest := fitting (some (used.getD 0 + e.2.length)) l
        (e :: rest.1, rest.2)

theorem fitting_cons (used : Option ℕ) (e : Item) (l : List Item) :
    fitting used (e :: l) = if used.any fun bytes => SSE_REPLAY_MAX_BYTES < bytes + e.2.length then ([], true)
      else (e :: (fitting (some (used.getD 0 + e.2.length)) l).1,
        (fitting (some (used.getD 0 + e.2.length)) l).2) := rfl

/-- What is replayed, and whether something is left out.
Source: `lib/server.js`, `replaySseHistory`
Kind: D -/
def catchUp (resumeId : Text) (entries : List Item) : List Item × Bool :=
  let slice := afterId resumeId entries
  let newest := slice.drop (slice.length - SSE_REPLAY_MAX_MESSAGES)
  let out := fitting none newest.reverse
  (out.1.reverse, decide (SSE_REPLAY_MAX_MESSAGES < slice.length) || out.2)

theorem afterId_suffix (resumeId : Text) (entries : List Item) : afterId resumeId entries <:+ entries := by
  unfold afterId
  split_ifs
  · exact (List.tail_suffix _).trans (List.dropWhile_suffix _)
  · exact List.suffix_refl _

theorem fitting_prefix (used : Option ℕ) (l : List Item) : (fitting used l).1 <+: l := by
  induction l generalizing used with
  | nil => exact List.prefix_refl _
  | cons e l ih =>
      rw [fitting_cons]
      split_ifs
      · exact List.nil_prefix
      · exact List.cons_prefix_cons.mpr ⟨rfl, ih _⟩

theorem fitting_of_not_truncated {used : Option ℕ} {l : List Item} (h : (fitting used l).2 = false) :
    (fitting used l).1 = l := by
  induction l generalizing used with
  | nil => rfl
  | cons e l ih =>
      rw [fitting_cons] at h ⊢
      split_ifs at h ⊢
      exact congrArg (e :: ·) (ih h)

theorem reverse_fitting_suffix (l : List Item) (n : ℕ) :
    (fitting none (l.drop n).reverse).1.reverse <:+ l := by
  apply List.IsSuffix.trans _ (List.drop_suffix n l)
  apply List.reverse_prefix.mp
  rw [List.reverse_reverse]
  exact fitting_prefix ..

/-- What is replayed is the end of what came after.
Kind: L -/
theorem catchUp_suffix (resumeId : Text) (entries : List Item) :
    (catchUp resumeId entries).1 <:+ afterId resumeId entries := by
  unfold catchUp
  apply reverse_fitting_suffix

/-- Where nothing is left out, it is all of that.
Kind: L -/
theorem catchUp_of_not_truncated {resumeId : Text} {entries : List Item}
    (h : (catchUp resumeId entries).2 = false) :
    (catchUp resumeId entries).1 = afterId resumeId entries := by
  unfold catchUp at h ⊢
  dsimp only at h ⊢
  obtain ⟨hlength, hfits⟩ := Bool.or_eq_false_iff.mp h
  have hle : (afterId resumeId entries).length ≤ SSE_REPLAY_MAX_MESSAGES := by simpa using hlength
  rw [fitting_of_not_truncated hfits, List.reverse_reverse, Nat.sub_eq_zero_of_le hle, List.drop_zero]

/-- What came after a message, where the ids differ.
Kind: P -/
theorem afterId_append {before after : List Item} {e : Item}
    (h : e.1 ∉ before.map Prod.fst) : afterId e.1 (before ++ e :: after) = after := by
  have hany : (before ++ e :: after).any (fun x => x.1 = e.1) = true := by simp
  have hdrop : (before ++ e :: after).dropWhile (fun x => x.1 ≠ e.1) = e :: after := by
    induction before with
    | nil => simp
    | cons x before ih =>
        have hx : x.1 ≠ e.1 := fun heq => h (by simp [heq])
        have hrest : e.1 ∉ before.map Prod.fst := fun hin => h (List.mem_cons_of_mem _ hin)
        rw [List.cons_append, List.dropWhile_cons_of_pos (by simpa using hx)]
        exact ih hrest (by simp)
  unfold afterId
  rw [if_pos hany, hdrop, List.tail_cons]

/-- Where there is no message with the id, it is all.
Kind: P -/
theorem afterId_of_not_mem {resumeId : Text} {entries : List Item}
    (h : resumeId ∉ entries.map Prod.fst) : afterId resumeId entries = entries := by
  unfold afterId
  rw [if_neg]
  intro hany
  obtain ⟨e, he, hid⟩ := List.any_eq_true.mp hany
  exact h (List.mem_map.mpr ⟨e, he, by simpa using hid⟩)

/-! ### What was replayed, and the rest -/

/-- What is left of some messages where some have been sent.
Kind: D -/
def unsent (sent items : List Item) : List Item := items.filter fun item => !(sent.map Prod.fst).contains item.1

theorem unsent_append (sent items items' : List Item) :
    unsent sent (items ++ items') = unsent sent items ++ unsent sent items' := List.filter_append ..

section Once

variable {all sent items : List Item}

/-- Messages with the same id are the same, where the ids differ.
Kind: L -/
theorem eq_of_fst_eq (hids : (all.map Prod.fst).Nodup) {a b : Item} (ha : a ∈ all) (hb : b ∈ all)
    (hab : a.1 = b.1) : a = b := List.inj_on_of_nodup_map hids ha hb hab

/-- Nothing is sent twice.
Kind: L -/
theorem nodup_unsent (hids : (all.map Prod.fst).Nodup) (hsent : sent.Sublist all) (hitems : items.Sublist all) :
    ((sent ++ unsent sent items).map Prod.fst).Nodup := by
  rw [List.map_append]
  apply List.nodup_append.mpr
  refine ⟨hids.sublist (hsent.map _), hids.sublist ((List.filter_sublist.trans hitems).map _), ?_⟩
  intro id hid id' hid' heq
  obtain ⟨item, hitem, rfl⟩ := List.mem_map.mp hid'
  have hnew := (List.mem_filter.mp hitem).2
  exact absurd (heq ▸ hid) (by simpa using hnew)

/-- Everything is sent.
Kind: L -/
theorem mem_sent_or_unsent (hids : (all.map Prod.fst).Nodup) (hsent : sent ⊆ all) (hitems : items ⊆ all)
    {item : Item} (hitem : item ∈ items) : item ∈ sent ++ unsent sent items := by
  by_cases hin : item.1 ∈ sent.map Prod.fst
  · obtain ⟨other, hother, hid⟩ := List.mem_map.mp hin
    apply List.mem_append_left
    exact eq_of_fst_eq hids (hsent hother) (hitems hitem) hid ▸ hother
  · apply List.mem_append_right
    exact List.mem_filter.mpr ⟨hitem, by simpa using hin⟩

/-- What comes after all that has been sent is unsent.
Kind: L -/
theorem unsent_of_later {later : List Item} (hids : ((all ++ later).map Prod.fst).Nodup) (hsent : sent ⊆ all) :
    unsent sent later = later := by
  rw [List.map_append] at hids
  apply List.filter_eq_self.mpr
  intro item hitem
  have hnew : item.1 ∉ sent.map Prod.fst := fun hin => by
    obtain ⟨other, hother, hid⟩ := List.mem_map.mp hin
    exact (List.nodup_append.mp hids).2.2 _ (List.mem_map.mpr ⟨other, hsent hother, rfl⟩) _
      (List.mem_map.mpr ⟨item, hitem, rfl⟩) hid
  simpa using hnew

end Once

/-- The newest message is replayed, however long it is.
Kind: P -/
theorem getLast?_catchUp (resumeId : Text) (entries : List Item) :
    (catchUp resumeId entries).1.getLast? = (afterId resumeId entries).getLast? := by
  have hfirst : ∀ l : List Item, (fitting none l).1.head? = l.head? := by
    intro l
    cases l with
    | nil => rfl
    | cons e l => rfl
  unfold catchUp
  dsimp only
  generalize afterId resumeId entries = slice
  rw [List.getLast?_reverse, hfirst, List.head?_reverse]
  rcases slice.eq_nil_or_concat with rfl | ⟨slice, e, rfl⟩
  · rfl
  · rw [List.concat_eq_append]
    have hlt : (slice ++ [e]).length - SSE_REPLAY_MAX_MESSAGES ≤ slice.length := by
      have hpos : 0 < SSE_REPLAY_MAX_MESSAGES := Nat.succ_pos _
      rw [List.length_append, List.length_singleton]
      omega
    rw [List.drop_append_of_le_length hlt, List.getLast?_concat, List.getLast?_concat]

end TyoMq.Http
