import Mathlib.Data.List.DropRight
import Mathlib.Data.List.Infix
import Mathlib.Data.List.Nodup
import Mathlib.Tactic.Common

/-!
# The end of a log

A log to which entries are only ever added, of which an end is retained. A reader resumes from the key
of the last entry it has read.

* **Resuming** (`resume_eq_filter`): when the keys of the log are distinct, a reader that resumes from
  an entry is handed the retained entries behind it, whether that entry is itself retained or not.
* **A cap** (`rtake_succ_concat_of_dropped`): an end of the last entries, to which one is added and which is
  cut to the cap again, is an end of the last entries.
* **Following** (`Following`): a reader has read, in order and once each, entries of the log, and every
  retained entry up to its place in the log is among them. What is added to the log, what is dropped
  from the front, and what the reader resumes with keep this.
-/

namespace TyoMq.Lib

variable {α κ : Type*} [DecidableEq κ]

/-- What a reader is handed that resumes from the key `c`: what comes after the first entry with the
key, and everything when there is none.
Kind: D -/
def resume (key : α → κ) (kept : List α) (c : κ) : List α :=
  match kept.findIdx? fun x => decide (key x = c) with
  | some i => kept.drop (i + 1)
  | none => kept

section Resume

variable {key : α → κ} {kept log before after : List α} {x : α} {c : κ}

/-- The key is retained.
Kind: L -/
theorem resume_append_cons (h : key x ∉ before.map key) :
    resume key (before ++ x :: after) (key x) = after := by
  have hnone : before.findIdx? (fun y => decide (key y = key x)) = none := by
    refine List.findIdx?_eq_none_iff.mpr fun y hy => ?_
    exact decide_eq_false fun he => h (he ▸ List.mem_map_of_mem hy)
  have hidx : (before ++ x :: after).findIdx? (fun y => decide (key y = key x)) =
      some before.length := by
    rw [List.findIdx?_append, hnone]
    simp [List.findIdx?_cons]
  unfold resume
  simp only [hidx]
  rw [List.drop_append, List.drop_eq_nil_of_le (Nat.le_succ _)]
  simp

/-- The key is not retained.
Kind: L -/
theorem resume_of_not_mem (h : c ∉ kept.map key) : resume key kept c = kept := by
  have hnone : kept.findIdx? (fun y => decide (key y = c)) = none := by
    refine List.findIdx?_eq_none_iff.mpr fun y hy => ?_
    exact decide_eq_false fun he => h (he ▸ List.mem_map_of_mem hy)
  unfold resume
  simp only [hnone]

/-- A reader that looks at the keys through the entries.
Kind: L -/
theorem map_resume {β : Type*} (f : β → α) (kept : List β) (c : κ) :
    (resume (fun y => key (f y)) kept c).map f = resume key (kept.map f) c := by
  unfold resume
  rw [List.findIdx?_map]
  simp only [Function.comp_def]
  cases kept.findIdx? fun y => decide (key (f y) = c) with
  | none => rfl
  | some i => exact List.map_drop

/-- A retained end either starts behind an entry of the log, or reaches back past it; what a reader
that resumes from the entry is handed is the whole of it, or what comes after the entry.
Kind: L -/
theorem resume_cases (hkept : kept <:+ before ++ x :: after)
    (hnodup : ((before ++ x :: after).map key).Nodup) :
    kept <:+ after ∧ resume key kept (key x) = kept ∨
      ∃ front, front <:+ before ∧ kept = front ++ x :: after ∧
        resume key kept (key x) = after := by
  rw [List.map_append, List.map_cons] at hnodup
  obtain ⟨-, htail, hdisj⟩ := List.nodup_append.mp hnodup
  obtain ⟨hx, -⟩ := List.nodup_cons.mp htail
  have hbefore : key x ∉ before.map key := fun hm => hdisj _ hm _ List.mem_cons_self rfl
  obtain ⟨dropped, hd⟩ := hkept
  rcases List.append_eq_append_iff.mp hd with ⟨front, hb, hk⟩ | ⟨front, hb, hk⟩
  · have hfront : front <:+ before := ⟨dropped, hb.symm⟩
    have hout : key x ∉ front.map key := fun hm => hbefore (List.map_subset key hfront.subset hm)
    exact Or.inr ⟨front, hfront, hk, hk ▸ resume_append_cons hout⟩
  · rcases front with _ | ⟨y, front⟩
    · have hk' : kept = [] ++ x :: after := hk.symm
      exact Or.inr ⟨[], List.nil_suffix, hk', hk' ▸ resume_append_cons List.not_mem_nil⟩
    · obtain ⟨-, hafter⟩ := List.cons_eq_cons.mp hk
      have hsuffix : kept <:+ after := ⟨front, hafter.symm⟩
      have hout : key x ∉ kept.map key := fun hm => hx (List.map_subset key hsuffix.subset hm)
      exact Or.inl ⟨hsuffix, resume_of_not_mem hout⟩

/-- A reader that resumes from an entry of the log is handed the retained entries behind it.
Kind: P -/
theorem resume_eq_filter [DecidablePred fun y => key y ∈ after.map key] (hkept : kept <:+ before ++ x :: after)
    (hnodup : ((before ++ x :: after).map key).Nodup) :
    resume key kept (key x) = kept.filter fun y => decide (key y ∈ after.map key) := by
  have hall : ∀ l, l <:+ after → l.filter (fun y => decide (key y ∈ after.map key)) = l :=
    fun l hl => List.filter_eq_self.mpr fun y hy =>
      decide_eq_true (List.mem_map_of_mem (hl.subset hy))
  rcases resume_cases hkept hnodup with ⟨hafter, hr⟩ | ⟨front, hfront, rfl, hr⟩
  · rw [hr, hall kept hafter]
  · rw [List.map_append, List.map_cons] at hnodup
    obtain ⟨-, htail, hdisj⟩ := List.nodup_append.mp hnodup
    obtain ⟨hx, -⟩ := List.nodup_cons.mp htail
    have hnone : front.filter (fun y => decide (key y ∈ after.map key)) = [] := by
      refine List.filter_eq_nil_iff.mpr fun y hy hm => ?_
      exact hdisj _ (List.mem_map_of_mem (hfront.subset hy)) _
        (List.mem_cons_of_mem _ (of_decide_eq_true hm)) rfl
    rw [hr, List.filter_append, List.filter_cons_of_neg (by simpa using hx), hnone,
      hall after List.suffix_rfl, List.nil_append]

end Resume

/-! ### Entries that are dropped -/

section Dropped

variable {log dropped kept : List α}

/-- Where what is to be dropped comes before what is not, dropping it from the front drops it all.
Kind: L -/
theorem dropWhile_eq_filter {p : α → Bool} {l : List α}
    (h : l.Pairwise fun x y => p x = false → p y = false) : l.dropWhile p = l.filter fun x => !p x := by
  induction l with
  | nil => rfl
  | cons x l ih =>
      obtain ⟨hx, hl⟩ := List.pairwise_cons.mp h
      cases hp : p x with
      | true =>
          rw [List.dropWhile_cons_of_pos hp, List.filter_cons_of_neg (by simp [hp])]
          exact ih hl
      | false =>
          have hall : l.filter (fun x => !p x) = l := by
            rw [List.filter_eq_self]
            intro y hy
            rw [hx y hy hp, Bool.not_false]
          rw [List.dropWhile_cons_of_neg (by simp [hp]), List.filter_cons_of_pos (by simp [hp]), hall]

/-- The last entries of the last entries.
Kind: L -/
theorem rtake_rtake_succ (log : List α) (n : ℕ) : (log.rtake (n + 1)).rtake n = log.rtake n := by
  simp only [List.rtake, List.length_drop, List.drop_drop]
  congr 1
  omega

/-- The last entries of two lists.
Kind: L -/
theorem rtake_append (l l' : List α) (n : ℕ) :
    (l ++ l').rtake n = l.rtake (n - l'.length) ++ l'.rtake n := by
  have hright : l.length + l'.length - n - l.length = l'.length - n := by omega
  have hleft : l.drop (l.length + l'.length - n) = l.drop (l.length - (n - l'.length)) := by
    rcases le_total l'.length n with h | h
    · congr 1
      omega
    · rw [List.drop_eq_nil_of_le (by omega), List.drop_eq_nil_of_le (by omega)]
  simp only [List.rtake, List.drop_append, List.length_append, hright, hleft]

/-- An entry is added to what is kept of the last entries, and what is kept is cut to the cap.
Kind: P -/
theorem rtake_succ_concat_of_dropped {n : ℕ} (h : log.rtake (n + 1) = dropped ++ kept) (x : α) :
    ∃ dropped', dropped' <:+ dropped ∧
      (log ++ [x]).rtake (n + 1) = dropped' ++ (kept ++ [x]).rtake (n + 1) := by
  refine ⟨dropped.rtake (n - kept.length), List.drop_suffix _ _, ?_⟩
  rw [List.rtake_concat_succ, List.rtake_concat_succ, ← rtake_rtake_succ, h, rtake_append,
    List.append_assoc]

end Dropped

/-! ### Following a log -/

/-- A reader that has read `got` of a log of which `kept` is retained. The log falls into what comes
up to its place in the log, `before`, and what comes behind it.
Kind: D -/
structure Following (log kept got : List α) : Prop where
  /-- The end that is retained. -/
  suffix : kept <:+ log
  /-- Its place is the last entry it has read; what it has read was added in that order; and no
  retained entry up to its place was passed over. -/
  place : ∃ before after, log = before ++ after ∧ got.getLast? = before.getLast? ∧
    got.Sublist before ∧ ∀ x ∈ kept, x ∈ before → x ∈ got

namespace Following

variable {key : α → κ} {log kept kept' got : List α} {x : α}

/-- What a reader has read was added to the log, in that order.
Kind: L -/
theorem sublist (h : Following log kept got) : got.Sublist log := by
  obtain ⟨before, after, rfl, -, hsub, -⟩ := h.place
  exact hsub.trans (List.sublist_append_left before after)

theorem subset (h : Following log kept got) : got ⊆ log := h.sublist.subset

omit [DecidableEq κ] in
/-- It has been read once.
Kind: L -/
theorem nodup (h : Following log kept got) (hlog : (log.map key).Nodup) : (got.map key).Nodup :=
  hlog.sublist (h.sublist.map key)

/-- More is dropped.
Kind: L -/
theorem drop (h : Following log kept got) (hkept : kept' <:+ kept) : Following log kept' got := by
  obtain ⟨before, after, hlog, hlast, hsub, hall⟩ := h.place
  exact ⟨hkept.trans h.suffix, before, after, hlog, hlast, hsub,
    fun y hy => hall y (hkept.subset hy)⟩

/-- An entry is added.
Kind: L -/
theorem add (h : Following log kept got) (hx : x ∉ log) :
    Following (log ++ [x]) (kept ++ [x]) got := by
  obtain ⟨before, after, rfl, hlast, hsub, hall⟩ := h.place
  refine ⟨?_, before, after ++ [x], by rw [List.append_assoc], hlast, hsub, fun y hy hb => ?_⟩
  · obtain ⟨dropped, hd⟩ := h.suffix
    exact ⟨dropped, by rw [← List.append_assoc, hd]⟩
  · rcases List.mem_append.mp hy with hk | hnew
    · exact hall y hk hb
    · rw [List.mem_singleton.mp hnew] at hb
      exact absurd (List.mem_append_left _ hb) hx

/-- A reader that has read nothing yet reads everything that is retained.
Kind: L -/
theorem readAll (h : Following log kept []) : Following log kept kept := by
  rcases kept.eq_nil_or_concat with rfl | ⟨front, y, rfl⟩
  · exact h
  · refine ⟨h.suffix, log, [], by rw [List.append_nil], ?_, h.suffix.sublist, fun x hx _ => hx⟩
    obtain ⟨dropped, rfl⟩ := h.suffix
    simp [← List.append_assoc]

/-- What a reader is handed that resumes from the last entry it has read comes from behind its place.
Kind: L -/
theorem place_of_getLast? (h : Following log kept got) (hlog : (log.map key).Nodup)
    (hgot : got.getLast? = some x) :
    ∃ before after, log = before ++ after ∧ got.Sublist before ∧
      (∀ y ∈ kept, y ∈ before → y ∈ got) ∧ resume key kept (key x) <:+ after ∧
      ∀ y ∈ kept, y ∈ after → y ∈ resume key kept (key x) := by
  obtain ⟨before, after, hsplit, hlast, hsub, hall⟩ := h.place
  refine ⟨before, after, hsplit, hsub, hall, ?_⟩
  obtain ⟨front, rfl⟩ : ∃ front, before = front ++ [x] :=
    List.getLast?_eq_some_iff.mp (hlast ▸ hgot)
  have hcons : log = front ++ x :: after := by rw [hsplit, List.append_assoc, List.singleton_append]
  rcases resume_cases (hcons ▸ h.suffix) (hcons ▸ hlog) with ⟨hafter, hr⟩ | ⟨rest, -, -, hr⟩
  · rw [hr]
    exact ⟨hafter, fun y hy _ => hy⟩
  · rw [hr]
    exact ⟨List.suffix_rfl, fun y _ hy => hy⟩

/-- It leaves no retained entry behind.
Kind: L -/
theorem mem_resume (h : Following log kept got) (hlog : (log.map key).Nodup)
    (hgot : got.getLast? = some x) {y : α} (hy : y ∈ kept) :
    y ∈ got ++ resume key kept (key x) := by
  obtain ⟨before, after, hsplit, -, hall, -, hnews⟩ := h.place_of_getLast? hlog hgot
  rcases List.mem_append.mp (hsplit ▸ h.suffix.subset hy) with hb | ha
  · exact List.mem_append_left _ (hall y hy hb)
  · exact List.mem_append_right _ (hnews y hy ha)

/-- A reader that resumes from the last entry it has read still follows the log.
Kind: L -/
theorem resume (h : Following log kept got) (hlog : (log.map key).Nodup)
    (hgot : got.getLast? = some x) : Following log kept (got ++ resume key kept (key x)) := by
  obtain ⟨before, after, hsplit, hsub, -, hafter, -⟩ := h.place_of_getLast? hlog hgot
  rcases (Lib.resume key kept (key x)).eq_nil_or_concat with hnil | ⟨init, y, hy⟩
  · rw [hnil, List.append_nil]
    exact h
  · -- something is read: its last is the last of the log
    refine ⟨h.suffix, log, [], (List.append_nil _).symm, ?_, ?_, fun z hz _ => h.mem_resume hlog hgot hz⟩
    · obtain ⟨skipped, hs⟩ := hafter
      rw [hsplit, ← hs, hy]
      simp [← List.append_assoc]
    · exact hsplit ▸ hsub.append hafter.sublist

end Following

end TyoMq.Lib
