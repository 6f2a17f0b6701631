import Mathlib.Algebra.Ring.Nat
import Mathlib.Data.List.Basic
import Mathlib.Data.List.Induction
import Mathlib.Tactic.Common

/-!
# JavaScript strings

A JavaScript string is a list of UTF-16 code units, which need not be well formed: a lone surrogate
is a string like any other.

* `js` reads a Lean string literal as the JavaScript string with the same text.
* `join`, `split`, `indexOf`, `lastIndexOf` follow the methods of the same names.
* **Splitting undoes joining** (`split_join`), joining undoes splitting (`join_splitFrom`), and a text
  whose separators all lie inside a part is not split (`split_of_single`, `split_append_of_single`).
* `replaceAll` follows `replace` with a global pattern of one unit.
* `digitVal`, `readDigits`, `toRadix` follow `parseInt` on digits and `toString` with a radix;
  reading undoes writing (`readDigits_toRadix`), and writing undoes reading where there is no leading
  zero (`toRadix_readDigits`).
-/

namespace TyoMq.Lib

/-- A JavaScript string: its UTF-16 code units.
Kind: D -/
abbrev JsString := List UInt16

/-- The code unit of a character of the basic multilingual plane.
Kind: D -/
def unit (c : Char) : UInt16 := UInt16.ofNat c.toNat

/-- The UTF-16 encoding of one character: one unit, or a surrogate pair.
Kind: D -/
def utf16Char (c : Char) : JsString :=
  if c.toNat < 0x10000 then [unit c]
  else [UInt16.ofNat (0xD800 + (c.toNat - 0x10000) / 0x400),
    UInt16.ofNat (0xDC00 + (c.toNat - 0x10000) % 0x400)]

/-- The JavaScript string with the text of a Lean string.
Kind: D -/
def js (s : String) : JsString := s.toList.flatMap utf16Char

/-- `parts.join(sep)`.
Kind: D -/
def join (sep : JsString) : List JsString → JsString
  | [] => []
  | [p] => p
  | p :: q :: ps => p ++ sep ++ join sep (q :: ps)

section Join

variable {sep : JsString} {ps qs : List JsString}

theorem join_cons (hne : qs ≠ []) (p : JsString) : join sep (p :: qs) = p ++ sep ++ join sep qs := by
  obtain ⟨q, qs, rfl⟩ := List.exists_cons_of_ne_nil hne
  rfl

/-- Joining is associative.
Kind: L -/
theorem join_append (hp : ps ≠ []) (hq : qs ≠ []) :
    join sep (ps ++ qs) = join sep ps ++ sep ++ join sep qs := by
  induction ps with
  | nil => exact absurd rfl hp
  | cons p ps ih =>
      rcases ps with _ | ⟨p', ps⟩
      · exact join_cons hq p
      · rw [List.cons_append, join_cons (by simp) p, ih (List.cons_ne_nil _ _),
          join_cons (List.cons_ne_nil _ _) p]
        simp only [List.append_assoc]

theorem join_eq_nil (h : ∀ p ∈ ps, p ≠ []) : join sep ps = [] ↔ ps = [] := by
  constructor
  · intro hj
    rcases ps with _ | ⟨p, ps⟩
    · rfl
    · refine absurd ?_ (h p List.mem_cons_self)
      rcases ps with _ | ⟨q, ps⟩
      · exact hj
      · exact (List.append_eq_nil_iff.mp (List.append_eq_nil_iff.mp hj).1).1
  · rintro rfl
    rfl

end Join

/-! ### Searching -/

/-- `s.indexOf(c)` for a single unit, with `none` for `-1`.
Kind: D -/
def indexOf (s : JsString) (c : UInt16) : Option ℕ := s.findIdx? fun x => x = c

/-- `s.lastIndexOf(c)` for a single unit, with `none` for `-1`.
Kind: D -/
def lastIndexOf (s : JsString) (c : UInt16) : Option ℕ :=
  (indexOf s.reverse c).map fun i => s.length - 1 - i

section Search

variable {a b s : JsString} {c : UInt16}

theorem indexOf_eq_none (h : c ∉ s) : indexOf s c = none := by
  refine List.findIdx?_eq_none_iff.mpr fun x hx => ?_
  exact decide_eq_false fun he => h (he ▸ hx)

theorem indexOf_ne_none (h : c ∈ s) : indexOf s c ≠ none := by
  intro hn
  have := List.findIdx?_eq_none_iff.mp hn c h
  simp at this

/-- The first occurrence.
Kind: L -/
theorem indexOf_append_cons (h : c ∉ a) : indexOf (a ++ c :: b) c = some a.length := by
  unfold indexOf
  rw [List.findIdx?_append, show a.findIdx? (fun x => x = c) = none from indexOf_eq_none h]
  simp [List.findIdx?_cons]

/-- The last occurrence.
Kind: L -/
theorem lastIndexOf_append_cons (h : c ∉ b) : lastIndexOf (a ++ c :: b) c = some a.length := by
  have hrev : (a ++ c :: b).reverse = b.reverse ++ c :: a.reverse := by simp
  rw [lastIndexOf, hrev, indexOf_append_cons (by simpa using h)]
  simp only [Option.map_some, List.length_reverse, List.length_append, List.length_cons]
  congr 1
  omega

end Search

/-- Two texts are the same when they are so before and after the first separator.
Kind: L -/
theorem append_cons_inj {α : Type*} [BEq α] [LawfulBEq α] {a a' s s' : List α} {x : α} (h : x ∉ a)
    (h' : x ∉ a') : a ++ x :: s = a' ++ x :: s' ↔ a = a' ∧ s = s' := by
  constructor
  · intro heq
    have hindex : ∀ b s, x ∉ b → (b ++ x :: s).idxOf x = b.length := by
      intro b s hb
      rw [List.idxOf_append_of_notMem hb, List.idxOf_cons_self, Nat.add_zero]
    have hlength : a.length = a'.length := by rw [← hindex a s h, heq, hindex a' s' h']
    obtain ⟨ha, hs⟩ := List.append_inj heq hlength
    exact ⟨ha, (List.cons.inj hs).2⟩
  · rintro ⟨rfl, rfl⟩
    rfl

/-- Two texts are the same when they are so before and after the last separator.
Kind: L -/
theorem append_cons_inj_last {α : Type*} [BEq α] [LawfulBEq α] {a a' s s' : List α} {x : α} (h : x ∉ s)
    (h' : x ∉ s') : a ++ x :: s = a' ++ x :: s' ↔ a = a' ∧ s = s' := by
  have hreverse : ∀ b t : List α, (b ++ x :: t).reverse = t.reverse ++ x :: b.reverse := fun b t => by simp
  rw [← List.reverse_inj, hreverse, hreverse, append_cons_inj (by simpa using h) (by simpa using h'),
    List.reverse_inj, List.reverse_inj, and_comm]

/-! ### Splitting -/

/-- Put a unit in front of the first part.
Kind: D -/
def consHead (c : UInt16) : List JsString → List JsString
  | [] => [[c]]
  | p :: ps => (c :: p) :: ps

/-- The parts of `s`, once the rest of a separator, of `skip` units, has been passed over.
Kind: D -/
def splitFrom (sep : JsString) : ℕ → JsString → List JsString
  | _, [] => [[]]
  | skip + 1, _ :: s => splitFrom sep skip s
  | 0, c :: s =>
      if sep.isPrefixOf (c :: s) then [] :: splitFrom sep (sep.length - 1) s
      else consHead c (splitFrom sep 0 s)

/-- `s.split(sep)` for a separator that is not empty.
Kind: D -/
def split (sep s : JsString) : List JsString := splitFrom sep 0 s

section SplitUnit

variable {a b : JsString} {c : UInt16}

/-- Without the separator there is one part.
Kind: L -/
theorem split_of_not_mem (h : c ∉ a) : split [c] a = [a] := by
  unfold split
  induction a with
  | nil => rfl
  | cons d a ih =>
      obtain ⟨hd, ha⟩ := not_or.mp (fun hm => h (List.mem_cons.mpr hm))
      simp [splitFrom, List.isPrefixOf, hd, ih ha, consHead]

/-- The part before the first separator comes first.
Kind: L -/
theorem split_append_cons (h : c ∉ a) : split [c] (a ++ c :: b) = a :: split [c] b := by
  unfold split
  induction a with
  | nil => simp [splitFrom, List.isPrefixOf]
  | cons d a ih =>
      obtain ⟨hd, ha⟩ := not_or.mp (fun hm => h (List.mem_cons.mpr hm))
      simp [splitFrom, List.isPrefixOf, hd, ih ha, consHead]

/-- Splitting undoes joining, when no part holds the separator.
Kind: P -/
theorem split_join {parts : List JsString} (hne : parts ≠ []) (h : ∀ p ∈ parts, c ∉ p) :
    split [c] (join [c] parts) = parts := by
  induction parts with
  | nil => exact absurd rfl hne
  | cons p ps ih =>
      cases ps with
      | nil => exact split_of_not_mem (h p List.mem_cons_self)
      | cons q ps =>
          have hq := ih (List.cons_ne_nil _ _) fun r hr => h r (List.mem_cons_of_mem _ hr)
          rw [join, List.append_assoc, List.singleton_append,
            split_append_cons (h p List.mem_cons_self), hq]

/-- There is always a part.
Kind: L -/
theorem splitFrom_ne_nil (sep : JsString) (skip : ℕ) (s : JsString) : splitFrom sep skip s ≠ [] := by
  induction s generalizing skip with
  | nil => simp [splitFrom]
  | cons d s ih =>
      cases skip with
      | succ skip => exact ih skip
      | zero =>
          rw [splitFrom]
          split_ifs
          · exact List.cons_ne_nil _ _
          · cases splitFrom sep 0 s <;> exact List.cons_ne_nil _ _

/-- The parts of two texts with a separator between them.
Kind: L -/
theorem split_append (c : UInt16) (a b : JsString) :
    split [c] (a ++ c :: b) = split [c] a ++ split [c] b := by
  unfold split
  induction a with
  | nil => simp [splitFrom, List.isPrefixOf]
  | cons d a ih =>
      by_cases hd : c = d
      · subst hd
        simp [splitFrom, List.isPrefixOf, ih]
      · obtain ⟨p, ps, hps⟩ := List.exists_cons_of_ne_nil (splitFrom_ne_nil [c] 0 a)
        simp [splitFrom, List.isPrefixOf, hd, ih, hps, consHead]

/-- Joining undoes splitting, once what was passed over is gone.
Kind: L -/
theorem join_splitFrom {sep : JsString} (hsep : sep ≠ []) {skip : ℕ} {s : JsString}
    (hskip : skip ≤ s.length) : join sep (splitFrom sep skip s) = s.drop skip := by
  induction s generalizing skip with
  | nil => simp [splitFrom, join]
  | cons d s ih =>
      cases skip with
      | succ skip => exact ih (Nat.le_of_succ_le_succ hskip)
      | zero =>
          rw [splitFrom]
          split_ifs with hp
          · obtain ⟨rest, hrest⟩ := List.isPrefixOf_iff_prefix.mp hp
            obtain ⟨c, cs, rfl⟩ := List.exists_cons_of_ne_nil hsep
            obtain ⟨rfl, rfl⟩ := List.cons.inj hrest
            rw [List.length_cons, Nat.add_sub_cancel, join_cons (splitFrom_ne_nil _ _ _),
              ih (by simp)]
            simp
          · obtain ⟨p, ps, hps⟩ := List.exists_cons_of_ne_nil (splitFrom_ne_nil sep 0 s)
            have hrec : join sep (p :: ps) = s := by
              rw [← hps]
              exact ih (Nat.zero_le _)
            rw [hps, consHead, List.drop_zero]
            rw [← hrec]
            cases ps <;> rfl

/-- Joining undoes splitting.
Kind: P -/
theorem join_split (c : UInt16) (s : JsString) : join [c] (split [c] s) = s :=
  join_splitFrom (List.cons_ne_nil c []) (Nat.zero_le _)

/-- What a joined text holds.
Kind: L -/
theorem mem_join {sep : JsString} {parts : List JsString} {x : UInt16} (h : x ∈ join sep parts) :
    x ∈ sep ∨ ∃ p ∈ parts, x ∈ p := by
  induction parts with
  | nil => exact absurd h List.not_mem_nil
  | cons p ps ih =>
      cases ps with
      | nil => exact Or.inr ⟨p, List.mem_cons_self, h⟩
      | cons q ps =>
          rcases List.mem_append.mp h with hpx | hx
          · rcases List.mem_append.mp hpx with hp | hsep
            · exact Or.inr ⟨p, List.mem_cons_self, hp⟩
            · exact Or.inl hsep
          · exact (ih hx).imp_right fun ⟨r, hr, hxr⟩ => ⟨r, List.mem_cons_of_mem _ hr, hxr⟩

end SplitUnit

section SplitPair

variable {a b : JsString} {c : UInt16}

/-- Every `c` is followed by something else than `c`.
Kind: D -/
def Single (c : UInt16) : JsString → Prop
  | [] => True
  | d :: s => (d = c → ∃ e s', s = e :: s' ∧ e ≠ c) ∧ Single c s

/-- Joined parts that are not empty, and that do not hold the separator, never have it twice in a
row.
Kind: L -/
theorem single_join {parts : List JsString} (h : ∀ p ∈ parts, p ≠ [] ∧ c ∉ p) :
    Single c (join [c] parts) := by
  have hskip : ∀ p s : JsString, c ∉ p → Single c s → Single c (p ++ s) := by
    intro p s hp hs
    induction p with
    | nil => exact hs
    | cons d p ih =>
        obtain ⟨hd, hp'⟩ := not_or.mp (fun hm => hp (List.mem_cons.mpr hm))
        exact ⟨fun he => absurd he.symm hd, ih hp'⟩
  induction parts with
  | nil => exact trivial
  | cons p ps ih =>
      obtain ⟨-, hcp⟩ := h p List.mem_cons_self
      cases ps with
      | nil => simpa [join] using hskip p [] hcp trivial
      | cons q ps =>
          have hq := ih fun r hr => h r (List.mem_cons_of_mem _ hr)
          have hnext : ∃ e s', join [c] (q :: ps) = e :: s' ∧ e ≠ c := by
            obtain ⟨hqne, hcq⟩ := h q (List.mem_cons_of_mem _ List.mem_cons_self)
            obtain ⟨e, q', rfl⟩ := List.exists_cons_of_ne_nil hqne
            have he : e ≠ c := fun he => hcq (he ▸ List.mem_cons_self)
            cases ps with
            | nil => exact ⟨e, q', rfl, he⟩
            | cons r ps => exact ⟨e, _, rfl, he⟩
          rw [join, List.append_assoc]
          exact hskip p _ hcp ⟨fun _ => hnext, hq⟩

/-- A text without a doubled separator is one part.
Kind: L -/
theorem split_of_single (h : Single c a) : split [c, c] a = [a] := by
  unfold split
  induction a with
  | nil => rfl
  | cons d a ih =>
      have hno : ([c, c] : JsString).isPrefixOf (d :: a) = false := by
        by_cases hd : d = c
        · obtain ⟨e, s', rfl, he⟩ := h.1 hd
          simp [List.isPrefixOf, Ne.symm he]
        · simp [List.isPrefixOf, Ne.symm hd]
      rw [splitFrom, hno, if_neg Bool.false_ne_true, ih h.2]
      rfl

/-- The part before the first doubled separator comes first.
Kind: L -/
theorem split_append_of_single (h : Single c a) :
    split [c, c] (a ++ c :: c :: b) = a :: split [c, c] b := by
  unfold split
  induction a with
  | nil => simp [splitFrom, List.isPrefixOf]
  | cons d a ih =>
      have hno : ([c, c] : JsString).isPrefixOf (d :: (a ++ c :: c :: b)) = false := by
        by_cases hd : d = c
        · obtain ⟨e, s', rfl, he⟩ := h.1 hd
          simp [List.isPrefixOf, Ne.symm he]
        · simp [List.isPrefixOf, Ne.symm hd]
      rw [List.cons_append, splitFrom, hno, if_neg Bool.false_ne_true, ih h.2]
      rfl

end SplitPair

/-! ### Replacing -/

/-- `s.replace(/c/g, t)`, for a `t` without dollar signs.
Kind: D -/
def replaceAll (c : UInt16) (t s : JsString) : JsString := s.flatMap fun u => if u = c then t else [u]

section Replace

variable {c u : UInt16} {s t : JsString}

/-- Without the unit nothing is replaced.
Kind: L -/
theorem replaceAll_of_not_mem (h : c ∉ s) : replaceAll c t s = s := by
  unfold replaceAll
  induction s with
  | nil => rfl
  | cons d s ih =>
      obtain ⟨hd, hs⟩ := not_or.mp (fun hm => h (List.mem_cons.mpr hm))
      rw [List.flatMap_cons, if_neg (Ne.symm hd), ih hs, List.singleton_append]

/-- What a text holds after a replacement.
Kind: L -/
theorem mem_replaceAll (h : u ∈ replaceAll c t s) : u ∈ t ∨ u ∈ s := by
  obtain ⟨d, hd, hu⟩ := List.mem_flatMap.mp h
  split_ifs at hu with hc
  · exact Or.inl hu
  · exact Or.inr (List.mem_singleton.mp hu ▸ hd)

/-- A unit that is not replaced stays.
Kind: L -/
theorem mem_replaceAll_of_ne (hu : u ≠ c) (h : u ∈ s) : u ∈ replaceAll c t s := by
  refine List.mem_flatMap.mpr ⟨u, h, ?_⟩
  rw [if_neg hu]
  exact List.mem_singleton_self u

/-- No text gets shorter when a unit is replaced by a text that is not empty.
Kind: L -/
theorem length_le_length_replaceAll (ht : t ≠ []) (s : JsString) : s.length ≤ (replaceAll c t s).length := by
  unfold replaceAll
  induction s with
  | nil => exact le_rfl
  | cons d s ih =>
      have hpos := List.length_pos_of_ne_nil ht
      rw [List.flatMap_cons, List.length_append, List.length_cons]
      split_ifs
      · omega
      · rw [List.length_singleton]
        omega

/-- A text gets longer when a unit of it is replaced by more than one.
Kind: L -/
theorem length_lt_length_replaceAll (ht : 1 < t.length) (h : c ∈ s) :
    s.length < (replaceAll c t s).length := by
  have hne : t ≠ [] := by
    rintro rfl
    exact absurd ht (Nat.not_lt_zero 1)
  obtain ⟨a, b, rfl⟩ := List.append_of_mem h
  have hsplit : replaceAll c t (a ++ c :: b) = replaceAll c t a ++ (t ++ replaceAll c t b) := by
    unfold replaceAll
    rw [List.flatMap_append, List.flatMap_cons, if_pos rfl]
  have ha : a.length ≤ (replaceAll c t a).length := length_le_length_replaceAll hne a
  have hb : b.length ≤ (replaceAll c t b).length := length_le_length_replaceAll hne b
  rw [hsplit, List.length_append, List.length_append, List.length_append, List.length_cons]
  omega

end Replace

/-! ### Numbers -/

/-- The value of a digit or a letter, and `36` for anything else.
Kind: D -/
def digitVal (c : UInt16) : ℕ :=
  if unit '0' ≤ c ∧ c ≤ unit '9' then c.toNat - 48
  else if unit 'a' ≤ c ∧ c ≤ unit 'z' then c.toNat - 87
  else if unit 'A' ≤ c ∧ c ≤ unit 'Z' then c.toNat - 55
  else 36

/-- Is `s` made of one to `n` digits of the radix?
Kind: D -/
def isNumeral (radix n : ℕ) (s : JsString) : Bool :=
  decide (1 ≤ s.length ∧ s.length ≤ n) && s.all fun c => decide (digitVal c < radix)

/-- `parseInt(s, radix)`, where `s` is made of digits.
Kind: D -/
def readDigits (radix : ℕ) (s : JsString) : ℕ := s.foldl (fun n c => n * radix + digitVal c) 0

/-- `n.toString(radix)`.
Kind: D -/
def toRadix (radix n : ℕ) : JsString := (Nat.toDigits radix n).map unit

section Numbers

variable {radix n : ℕ}

/-- The codes of digits and letters.
Kind: L -/
theorem toNat_of_digitVal_lt {u : UInt16} (h : digitVal u < 36) :
    48 ≤ u.toNat ∧ u.toNat ≤ 122 ∧ (u.toNat ≤ 57 ∨ 65 ≤ u.toNat) := by
  unfold digitVal at h
  simp only [UInt16.le_iff_toNat_le] at h
  have h0 : (unit '0').toNat = 48 := rfl
  have h9 : (unit '9').toNat = 57 := rfl
  have ha : (unit 'a').toNat = 97 := rfl
  have hz : (unit 'z').toNat = 122 := rfl
  have hA : (unit 'A').toNat = 65 := rfl
  have hZ : (unit 'Z').toNat = 90 := rfl
  split_ifs at h <;> omega

theorem digitVal_unit_digitChar {d : ℕ} (h : d < 16) : digitVal (unit d.digitChar) = d := by
  revert d
  decide

/-- Reading undoes writing.
Kind: P -/
theorem readDigits_toRadix (h₁ : 1 < radix) (h₂ : radix ≤ 16) (n : ℕ) :
    readDigits radix (toRadix radix n) = n := by
  induction n using Nat.strongRecOn with
  | ind n ih =>
      unfold readDigits toRadix
      rw [Nat.toDigits_eq_if h₁]
      split_ifs with hlt
      · simp [digitVal_unit_digitChar (Nat.lt_of_lt_of_le hlt h₂)]
      · have hdiv : n / radix < n := Nat.div_lt_self (by omega) h₁
        have hmod : n % radix < radix := Nat.mod_lt _ (by omega)
        have hrec : ((Nat.toDigits radix (n / radix)).map unit).foldl
            (fun n c => n * radix + digitVal c) 0 = n / radix := ih _ hdiv
        rw [List.map_append, List.foldl_append, hrec]
        simp only [List.map_cons, List.map_nil, List.foldl_cons, List.foldl_nil,
          digitVal_unit_digitChar (Nat.lt_of_lt_of_le hmod h₂)]
        exact Nat.div_add_mod' n radix

/-- Numbers with the same digits are the same.
Kind: L -/
theorem toRadix_inj (h₁ : 1 < radix) (h₂ : radix ≤ 16) {m n : ℕ} (h : toRadix radix m = toRadix radix n) :
    m = n := by
  rw [← readDigits_toRadix h₁ h₂ m, h, readDigits_toRadix h₁ h₂]

/-- A number is written in digits of the radix.
Kind: L -/
theorem digitVal_lt_of_mem_toRadix (h₁ : 1 < radix) (h₂ : radix ≤ 16) {c : UInt16}
    (hc : c ∈ toRadix radix n) : digitVal c < radix := by
  induction n using Nat.strongRecOn with
  | ind n ih =>
      unfold toRadix at hc
      rw [Nat.toDigits_eq_if h₁] at hc
      split_ifs at hc with hlt
      · simp only [List.map_cons, List.map_nil, List.mem_singleton] at hc
        rwa [hc, digitVal_unit_digitChar (Nat.lt_of_lt_of_le hlt h₂)]
      · have hdiv : n / radix < n := Nat.div_lt_self (by omega) h₁
        have hmod : n % radix < radix := Nat.mod_lt _ (by omega)
        rw [List.map_append, List.mem_append] at hc
        rcases hc with hc | hc
        · exact ih _ hdiv hc
        · simp only [List.map_cons, List.map_nil, List.mem_singleton] at hc
          rwa [hc, digitVal_unit_digitChar (Nat.lt_of_lt_of_le hmod h₂)]

theorem unit_digitChar_digitVal {c : UInt16} (h : digitVal c < 10) : unit (digitVal c).digitChar = c := by
  have hall : ∀ k : Fin 10, unit k.val.digitChar = UInt16.ofNat (48 + k.val) := by decide
  have hrange : 48 ≤ c.toNat ∧ digitVal c = c.toNat - 48 := by
    obtain ⟨hlow, hhigh, hgap⟩ := toNat_of_digitVal_lt (Nat.lt_of_lt_of_le h (by omega))
    unfold digitVal at h ⊢
    simp only [UInt16.le_iff_toNat_le] at h ⊢
    have h0 : (unit '0').toNat = 48 := rfl
    have h9 : (unit '9').toNat = 57 := rfl
    have ha : (unit 'a').toNat = 97 := rfl
    have hA : (unit 'A').toNat = 65 := rfl
    split_ifs at h ⊢ <;> omega
  calc unit (digitVal c).digitChar = UInt16.ofNat (48 + digitVal c) := hall ⟨digitVal c, h⟩
    _ = UInt16.ofNat c.toNat := by rw [hrange.2, Nat.add_sub_cancel' hrange.1]
    _ = c := UInt16.ofNat_toNat

/-- **Writing undoes reading**, where there is no leading zero.
Kind: P -/
theorem toRadix_readDigits {s : JsString} (hne : s ≠ []) (hdigits : ∀ c ∈ s, digitVal c < 10)
    (hzero : ∀ rest, s = unit '0' :: rest → rest = []) : toRadix 10 (readDigits 10 s) = s := by
  induction s using List.reverseRecOn with
  | nil => exact absurd rfl hne
  | append_singleton g d ih =>
      have hd : digitVal d < 10 := hdigits d (by simp)
      have hread : readDigits 10 (g ++ [d]) = readDigits 10 g * 10 + digitVal d := by
        simp [readDigits, List.foldl_append]
      by_cases hg : g = []
      · subst hg
        rw [hread, toRadix, Nat.toDigits_eq_if (by omega), if_pos (by simpa [readDigits] using hd)]
        simp [readDigits, unit_digitChar_digitVal hd]
      · have hgzero : ∀ rest, g = unit '0' :: rest → rest = [] := by
          intro rest hrest
          refine absurd (hzero (rest ++ [d]) (by rw [hrest]; rfl)) ?_
          simp
        have hrec := ih hg (fun c hc => hdigits c (List.mem_append_left _ hc)) hgzero
        -- the digits in front make a number that is not zero
        have hpos : readDigits 10 g ≠ 0 := by
          intro h0
          rw [h0] at hrec
          have hcons : g = unit '0' :: [] := hrec.symm
          exact absurd (hzero [d] (by rw [hcons]; rfl)) (List.cons_ne_nil _ _)
        rw [hread, toRadix, Nat.toDigits_eq_if (by omega), if_neg (by omega), List.map_append,
          show (readDigits 10 g * 10 + digitVal d) / 10 = readDigits 10 g by omega,
          show (readDigits 10 g * 10 + digitVal d) % 10 = digitVal d by omega]
        exact congrArg₂ (· ++ ·) hrec (by simp [unit_digitChar_digitVal hd])

/-- A number is written without leading zeros.
Kind: L -/
theorem eq_nil_of_toRadix_eq {rest : JsString} (h : toRadix 10 n = unit '0' :: rest) : rest = [] := by
  induction n using Nat.strongRecOn generalizing rest with
  | ind n ih =>
      rw [toRadix, Nat.toDigits_eq_if (by omega)] at h
      split_ifs at h with hlt
      · exact (List.cons.inj h).2.symm
      · have hdiv : n / 10 < n := Nat.div_lt_self (by omega) (by omega)
        obtain ⟨c, cs, hcs⟩ := List.exists_cons_of_ne_nil
          (List.ne_nil_of_length_pos (Nat.length_toDigits_pos (b := 10) (n := n / 10)))
        rw [hcs, List.map_append, List.map_cons, List.cons_append] at h
        have hfirst : toRadix 10 (n / 10) = unit '0' :: cs.map unit := by
          rw [toRadix, hcs, List.map_cons, (List.cons.inj h).1]
        -- what stands in front of the last digit would be the number zero
        have hread : readDigits 10 (toRadix 10 (n / 10)) = n / 10 :=
          readDigits_toRadix (by omega) (by omega) (n / 10)
        rw [hfirst, ih _ hdiv hfirst] at hread
        have hnull : n / 10 = 0 := hread.symm
        omega

/-- A number below `radix ^ k` is written as a numeral of at most `k` digits.
Kind: L -/
theorem isNumeral_toRadix (h₁ : 1 < radix) (h₂ : radix ≤ 16) {k : ℕ} (hk : 0 < k)
    (hn : n < radix ^ k) : isNumeral radix k (toRadix radix n) = true := by
  rw [isNumeral, Bool.and_eq_true, decide_eq_true_eq, List.all_eq_true]
  refine ⟨⟨?_, ?_⟩, fun c hc => decide_eq_true (digitVal_lt_of_mem_toRadix h₁ h₂ hc)⟩
  · rw [toRadix, List.length_map]
    exact Nat.length_toDigits_pos
  · rw [toRadix, List.length_map]
    exact (Nat.length_toDigits_le_iff h₁ hk).mpr hn

end Numbers

end TyoMq.Lib
