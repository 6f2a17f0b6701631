import TyoMq.Lib.JsString

/-!
# Texts with one doubled separator

Parts joined by a separator of one unit, where the separator may be doubled at one place, with any number
of parts on the two sides of it (`Sides`).

* The text is split at the doubled separator into its two sides (`split_text`), and **tells the parts**
  (`text_inj`).
* Parts that are pushed at the end come behind a separator (`text_push`); two last parts of a text can be
  taken off (`exists_push`).
-/

namespace TyoMq.Lib

/-- The parts of a text: all of them, or those on the two sides of a doubled separator.
Kind: D -/
structure Sides where
  /-- The parts, or those before the doubled separator. -/
  head : List JsString
  /-- The parts behind it, if there is one. -/
  tail : Option (List JsString)

namespace Sides

/-- The text, with separators `c`.
Kind: D -/
def text (s : Sides) (c : UInt16) : JsString :=
  match s.tail with
  | none => join [c] s.head
  | some tail => join [c] s.head ++ [c, c] ++ join [c] tail

/-- More parts at the end.
Kind: D -/
def push (s : Sides) (last : List JsString) : Sides :=
  match s.tail with
  | none => ⟨s.head ++ last, none⟩
  | some tail => ⟨s.head, some (tail ++ last)⟩

/-- The parts.
Kind: D -/
def parts (s : Sides) : List JsString := s.head ++ s.tail.getD []

/-- Every part has units, and no separator.
Kind: D -/
def Proper (s : Sides) (c : UInt16) : Prop := ∀ p ∈ s.parts, p ≠ [] ∧ c ∉ p

/-- The parts between single separators of a side: one that is empty where the side has none.
Kind: D -/
def pad (ps : List JsString) : List JsString := if ps = [] then [[]] else ps

/-- The parts between single separators that come before what is pushed.
Kind: D -/
def front (s : Sides) : List JsString :=
  match s.tail with
  | none => s.head
  | some tail => pad s.head ++ [] :: tail

variable {s s' : Sides} {ps last : List JsString} {c : UInt16}

theorem parts_push (s : Sides) (last : List JsString) : (s.push last).parts = s.parts ++ last := by
  rcases s with ⟨head, _ | tail⟩ <;> simp [push, parts]

theorem push_nil (s : Sides) : s.push [] = s := by
  rcases s with ⟨head, _ | tail⟩ <;> simp [push]

theorem push_cancel (h : s.push last = s'.push last) : s = s' := by
  rcases s with ⟨head, _ | tail⟩ <;> rcases s' with ⟨head', _ | tail'⟩
  · simpa [push] using h
  · simp [push] at h
  · simp [push] at h
  · simpa [push] using h

theorem pad_ne_nil (ps : List JsString) : pad ps ≠ [] := by
  unfold pad
  split_ifs with h
  · exact List.cons_ne_nil _ _
  · exact h

theorem pad_of_ne_nil (h : ps ≠ []) : pad ps = ps := if_neg h

theorem join_pad (ps : List JsString) : join [c] (pad ps) = join [c] ps := by
  unfold pad
  split_ifs with h
  · subst h
    rfl
  · rfl

theorem split_join_eq_pad (h : ∀ p ∈ ps, p ≠ [] ∧ c ∉ p) :
    split [c] (join [c] ps) = pad ps := by
  rw [← join_pad]
  apply split_join (pad_ne_nil ps)
  intro p hp
  unfold pad at hp
  split_ifs at hp
  · rw [List.mem_singleton.mp hp]
    exact List.not_mem_nil
  · exact (h p hp).2

theorem join_inj {qs : List JsString} (hp : ∀ p ∈ ps, p ≠ [] ∧ c ∉ p)
    (hq : ∀ p ∈ qs, p ≠ [] ∧ c ∉ p) (h : join [c] ps = join [c] qs) : ps = qs := by
  by_cases hnil : ps = []
  · subst hnil
    exact ((join_eq_nil fun p h => (hq p h).1).mp h.symm).symm
  · have hne : qs ≠ [] := by
      rintro rfl
      exact hnil ((join_eq_nil fun p h => (hp p h).1).mp h)
    rw [← split_join hnil fun p h => (hp p h).2, h, split_join hne fun p h => (hq p h).2]

/-- What is in a text.
Kind: L -/
theorem of_mem_text {x : UInt16} (h : x ∈ s.text c) : x = c ∨ ∃ p ∈ s.parts, x ∈ p := by
  have hside : ∀ ps, (∀ p ∈ ps, p ∈ s.parts) → x ∈ join [c] ps →
      x = c ∨ ∃ p ∈ s.parts, x ∈ p := by
    intro ps hps hc
    rcases mem_join hc with hcolon | ⟨p, hp, hcp⟩
    · exact Or.inl (List.mem_singleton.mp hcolon)
    · exact Or.inr ⟨p, hps p hp, hcp⟩
  rcases s with ⟨head, _ | tail⟩
  · exact hside head (by simp [parts]) h
  · rcases List.mem_append.mp h with hh | ht
    · rcases List.mem_append.mp hh with hhead | hcc
      · exact hside head (by simp +contextual [parts]) hhead
      · exact Or.inl (by simpa using hcc)
    · exact hside tail (by simp +contextual [parts]) ht

/-- The text with more parts, what is between single separators joined.
Kind: L -/
theorem text_push (hlast : last ≠ []) : (s.push last).text c = join [c] (s.front ++ last) := by
  rcases s with ⟨head, _ | tail⟩
  · rfl
  · have hne : tail ++ last ≠ [] := by simp [hlast]
    rw [front, List.append_assoc, List.cons_append, join_append (pad_ne_nil head) (List.cons_ne_nil _ _),
      join_cons hne, join_pad]
    simp [push, text]

/-- A text, split at the doubled separator.
Kind: L -/
theorem split_text (h : s.Proper c) : split [c, c] (s.text c) =
    join [c] s.head :: (s.tail.map (join [c])).toList := by
  rcases s with ⟨head, _ | tail⟩
  · exact split_of_single (single_join fun p hp => h p (by simpa [parts] using hp))
  · have hhead : Single (c) (join [c] head) :=
      single_join fun p hp => h p (by simp [parts, hp])
    have htail : Single (c) (join [c] tail) :=
      single_join fun p hp => h p (by simp [parts, hp])
    rw [text]
    simp only [List.append_assoc, List.cons_append, List.nil_append]
    rw [split_append_of_single hhead, split_of_single htail]
    rfl

/-- **The text tells the parts.**
Kind: P -/
theorem text_inj (h : s.Proper c) (h' : s'.Proper c) (htext : s.text c = s'.text c) : s = s' := by
  have hsplit := split_text h
  rw [htext, split_text h', List.cons.injEq] at hsplit
  obtain ⟨hhead, htail⟩ := hsplit
  rcases s with ⟨head, tail⟩
  rcases s' with ⟨head', tail'⟩
  have hheads : head' = head :=
    join_inj (fun p hp => h' p (by simp [parts, hp])) (fun p hp => h p (by simp [parts, hp])) hhead
  subst hheads
  rcases tail with _ | tail <;> rcases tail' with _ | tail'
  · rfl
  · exact absurd htail (by simp)
  · exact absurd htail (by simp)
  · have htails : tail' = tail := join_inj (fun p hp => h' p (by simp [parts, hp]))
      (fun p hp => h p (by simp [parts, hp])) (by simpa using htail)
    rw [htails]

/-- Two last parts that stand behind a separator each are the last parts of the text.
Kind: L -/
theorem exists_push {front g g' : JsString} (hs : s.Proper c) (hg : g ≠ [] ∧ c ∉ g)
    (hg' : g' ≠ [] ∧ c ∉ g')
    (h : s.text c = front ++ c :: join [c] [g, g']) :
    ∃ s' : Sides, s = s'.push [g, g'] ∧ s'.front ≠ [] ∧ front = join [c] s'.front := by
  have hsplit : split [c] (s.text c) = split [c] front ++ [g, g'] := by
    rw [h, split_append, split_join (List.cons_ne_nil _ _)]
    simp [hg.2, hg'.2]
  have hfront : front = join [c] (split [c] front) := (join_split _ _).symm
  have hne : split [c] front ≠ [] := splitFrom_ne_nil _ _ _
  rcases s with ⟨head, _ | tail⟩
  · rw [text, split_join_eq_pad fun p hp => hs p (by simpa [parts] using hp)] at hsplit
    refine ⟨⟨split [c] front, none⟩, ?_, hne, hfront⟩
    have hhead : head ≠ [] := by
      rintro rfl
      have hlength := congrArg List.length hsplit
      simp [pad] at hlength
    have hsegments : head = split [c] front ++ [g, g'] := by
      rw [← hsplit, pad_of_ne_nil hhead]
    rw [hsegments]
    rfl
  · have htext : text ⟨head, some tail⟩ c =
        join [c] head ++ c :: (c :: join [c] tail) := by simp [text]
    rw [htext, split_append, split_join_eq_pad (fun p hp => hs p (by simp [parts, hp])),
      show c :: join [c] tail = [] ++ c :: join [c] tail from rfl,
      split_append_cons List.not_mem_nil,
      split_join_eq_pad (fun p hp => hs p (by simp [parts, hp]))] at hsplit
    have hinj : ∀ {rest : List JsString} {x y : JsString},
        rest ++ [x, y] = split [c] front ++ [g, g'] → rest = split [c] front ∧ x = g ∧ y = g' := by
      intro rest x y heq
      obtain ⟨hrest, hlast⟩ := List.append_inj' heq rfl
      simpa [hrest] using hlast
    -- neither part is the empty one that the doubled separator makes, so that both stand behind it
    rcases List.eq_nil_or_concat tail with rfl | ⟨tail, y, rfl⟩
    · exact absurd (hinj hsplit).2.2.symm hg'.1
    · rcases List.eq_nil_or_concat tail with rfl | ⟨tail, x, rfl⟩
      · exact absurd (hinj hsplit).2.1.symm hg.1
      · have htail : (tail.concat x).concat y = tail ++ [x, y] := by simp
        have hne : tail ++ [x, y] ≠ [] := List.append_ne_nil_of_right_ne_nil tail (List.cons_ne_nil x [y])
        rw [htail, pad_of_ne_nil hne, ← List.cons_append, ← List.append_assoc] at hsplit
        obtain ⟨hrest, hx, hy⟩ := hinj hsplit
        refine ⟨⟨head, some tail⟩, by simp [push, hx, hy], by simp [Sides.front], ?_⟩
        rw [hfront, ← hrest]
        rfl

end Sides

end TyoMq.Lib
