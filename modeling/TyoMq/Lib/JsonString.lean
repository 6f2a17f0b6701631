import TyoMq.Lib.Utf8

/-!
# Strings in JSON

`JSON.stringify` and `JSON.parse` on strings. Control characters and lone surrogates are escaped, so that
the text has an encoding whatever the string. Reading undoes writing (`readString_escaped`).
-/

namespace TyoMq.Lib

/-! ### Writing and reading -/

/-- A lower case hexadecimal digit.
Kind: D -/
def hexDigit (n : ℕ) : UInt16 := unit (Nat.digitChar (n % 16))

/-- The unit as `\uXXXX`, without the `\u`.
Kind: D -/
def hex4 (u : UInt16) : JsString :=
  [hexDigit (u.toNat / 4096), hexDigit (u.toNat / 256), hexDigit (u.toNat / 16), hexDigit u.toNat]

/-- A backslash.
Kind: D -/
def backslash : UInt16 := unit '\\'

/-- A quotation mark.
Kind: D -/
def quoteMark : UInt16 := unit '"'

/-- The letter behind the backslash, for the units that have one.
Kind: D -/
def escapeLetter (u : UInt16) : Option UInt16 :=
  if u = quoteMark then some quoteMark
  else if u = backslash then some backslash
  else if u = 8 then some (unit 'b')
  else if u = 12 then some (unit 'f')
  else if u = 10 then some (unit 'n')
  else if u = 13 then some (unit 'r')
  else if u = 9 then some (unit 't')
  else none

/-- A unit that is not half of a pair, in a quoted string.
Kind: D -/
def escapeUnit (u : UInt16) : JsString :=
  match escapeLetter u with
  | some c => [backslash, c]
  | none => if u < 0x20 || isHigh u || isLow u then backslash :: unit 'u' :: hex4 u else [u]

/-- A string between its quotation marks.
Kind: D -/
def escaped : JsString → JsString
  | [] => []
  | [u] => escapeUnit u
  | u :: v :: s =>
      if isHigh u && isLow v then u :: v :: escaped s else escapeUnit u ++ escaped (v :: s)

/-- `JSON.stringify(s)` of a string.
Kind: D -/
def quote (s : JsString) : JsString := quoteMark :: (escaped s ++ [quoteMark])

/-- What a letter behind a backslash stands for.
Kind: D -/
def unescapeLetter (c : UInt16) : Option UInt16 :=
  if c = quoteMark then some quoteMark
  else if c = backslash then some backslash
  else if c = unit '/' then some (unit '/')
  else if c = unit 'b' then some 8
  else if c = unit 'f' then some 12
  else if c = unit 'n' then some 10
  else if c = unit 'r' then some 13
  else if c = unit 't' then some 9
  else none

/-- Read a string behind its first quotation mark, and what comes behind the last.
Kind: D -/
def readString : JsString → Option (JsString × JsString)
  | [] => none
  | u :: s =>
      if u = quoteMark then some ([], s)
      else if u = backslash then
        match s with
        | [] => none
        | c :: s =>
            if c = unit 'u' then
              match s with
              | h₁ :: h₂ :: h₃ :: h₄ :: s =>
                  if isNumeral 16 4 [h₁, h₂, h₃, h₄] then
                    (readString s).map fun r =>
                      (UInt16.ofNat (readDigits 16 [h₁, h₂, h₃, h₄]) :: r.1, r.2)
                  else none
              | _ => none
            else
              match unescapeLetter c with
              | none => none
              | some v => (readString s).map fun r => (v :: r.1, r.2)
      else if u < 0x20 then none
      else (readString s).map fun r => (u :: r.1, r.2)

section Strings

variable {u v c : UInt16} {s t rest : JsString}

theorem digitVal_hexDigit (n : ℕ) : digitVal (hexDigit n) = n % 16 :=
  digitVal_unit_digitChar (Nat.mod_lt _ (by decide))

/-- The four digits are those of the unit.
Kind: L -/
theorem readDigits_hex4 (u : UInt16) : UInt16.ofNat (readDigits 16 (hex4 u)) = u := by
  have hlt := u.toNat_lt
  have hdigits : readDigits 16 (hex4 u) = u.toNat := by
    simp only [readDigits, hex4, List.foldl_cons, List.foldl_nil, digitVal_hexDigit]
    omega
  rw [hdigits]
  exact UInt16.ofNat_toNat

theorem isNumeral_hex4 (u : UInt16) : isNumeral 16 4 (hex4 u) = true := by
  have hdigit : ∀ n, decide (digitVal (hexDigit n) < 16) = true := fun n =>
    decide_eq_true (by rw [digitVal_hexDigit]; exact Nat.mod_lt _ (by decide))
  simp only [isNumeral, hex4, List.length_cons, List.length_nil, List.all_cons, List.all_nil, hdigit,
    Bool.and_self, Bool.and_true]
  rfl

/-- An escape letter stands for its unit, and is not a `u`.
Kind: L -/
theorem unescapeLetter_of_escapeLetter (h : escapeLetter u = some c) :
    unescapeLetter c = some u ∧ c ≠ unit 'u' := by
  unfold escapeLetter at h
  split_ifs at h with h₁ h₂ h₃ h₄ h₅ h₆ h₇
  all_goals
    obtain rfl := Option.some.inj h
    subst_vars
    decide

/-- A unit that has no escape letter is neither a quotation mark nor a backslash.
Kind: L -/
theorem ne_of_escapeLetter_eq_none (h : escapeLetter u = none) : u ≠ quoteMark ∧ u ≠ backslash := by
  unfold escapeLetter at h
  split_ifs at h with h₁ h₂
  exact ⟨h₁, h₂⟩

/-- A unit that stands for itself.
Kind: L -/
theorem readString_cons (hquote : u ≠ quoteMark) (hback : u ≠ backslash) (hlow : ¬ u < 0x20) :
    readString (u :: t) = (readString t).map fun r => (u :: r.1, r.2) := by
  rw [readString.eq_def]
  dsimp only
  rw [if_neg hquote, if_neg hback, if_neg hlow]

/-- Reading a written unit gives the unit.
Kind: L -/
theorem readString_escapeUnit (u : UInt16) (t : JsString) :
    readString (escapeUnit u ++ t) = (readString t).map fun r => (u :: r.1, r.2) := by
  have hback : backslash ≠ quoteMark := by decide
  unfold escapeUnit
  cases hletter : escapeLetter u with
  | some c =>
      obtain ⟨hc, hcu⟩ := unescapeLetter_of_escapeLetter hletter
      dsimp only [List.cons_append, List.nil_append]
      rw [readString.eq_def]
      dsimp only
      rw [if_neg hback, if_pos rfl, if_neg hcu, hc]
  | none =>
      obtain ⟨hquote, hne⟩ := ne_of_escapeLetter_eq_none hletter
      dsimp only
      split_ifs with hcode
      · have hnum := isNumeral_hex4 u
        have hread := readDigits_hex4 u
        unfold hex4 at hnum hread ⊢
        dsimp only [List.cons_append, List.nil_append]
        rw [readString.eq_def]
        dsimp only
        rw [if_neg hback, if_pos rfl, if_pos rfl, if_pos hnum, hread]
      · simp only [Bool.or_eq_true, not_or, decide_eq_true_eq] at hcode
        exact readString_cons hquote hne hcode.1.1

/-- Neither half of a pair is escaped.
Kind: L -/
theorem readString_half (h : 0xD800 ≤ u.toNat) :
    readString (u :: t) = (readString t).map fun r => (u :: r.1, r.2) := by
  have hne : ∀ w : UInt16, w.toNat < 0xD800 → u ≠ w := fun w hw he => by
    rw [he] at h
    omega
  refine readString_cons (hne _ (by decide)) (hne _ (by decide)) fun hlt => ?_
  have hlt' := UInt16.lt_iff_toNat_lt.mp hlt
  have hsmall : (0x20 : UInt16).toNat = 32 := rfl
  omega

/-- Reading a quoted string gives the string.
Kind: P -/
theorem readString_escaped (s rest : JsString) :
    readString (escaped s ++ quoteMark :: rest) = some (s, rest) := by
  have hend : readString (quoteMark :: rest) = some ([], rest) := by
    rw [readString.eq_def]
    exact if_pos rfl
  fun_induction escaped s with
  | case1 => exact hend
  | case2 u => rw [readString_escapeUnit, hend, Option.map_some]
  | case3 u v s hpair ih =>
      obtain ⟨hu, hv⟩ := Bool.and_eq_true_iff.mp hpair
      have hu' := isHigh_iff.mp hu
      have hv' := isLow_iff.mp hv
      rw [List.cons_append, List.cons_append, readString_half (by omega), readString_half (by omega), ih,
        Option.map_some, Option.map_some]
  | case4 u v s hpair ih =>
      rw [List.append_assoc, readString_escapeUnit, ih, Option.map_some]

/-- Quoted strings are the same when the strings are.
Kind: L -/
theorem quote_inj {s' : JsString} (h : quote s = quote s') : s = s' := by
  have hescaped : escaped s ++ [quoteMark] = escaped s' ++ [quoteMark] := List.tail_eq_of_cons_eq h
  have hread := readString_escaped s []
  rw [hescaped, readString_escaped s' []] at hread
  exact (congrArg Prod.fst (Option.some.inj hread)).symm

/-- A unit is written without control characters.
Kind: L -/
theorem le_of_mem_escapeUnit {w : UInt16} (h : w ∈ escapeUnit u) : 0x20 ≤ w := by
  have hhex : ∀ n, 0x20 ≤ hexDigit n := by
    have hall : ∀ d < 16, 0x20 ≤ unit (Nat.digitChar d) := by decide
    exact fun n => hall (n % 16) (Nat.mod_lt n (by decide))
  unfold escapeUnit at h
  rcases hletter : escapeLetter u with _ | c
  · rw [hletter] at h
    dsimp only at h
    split_ifs at h with hcode
    · rw [hex4, List.mem_cons, List.mem_cons, List.mem_cons, List.mem_cons, List.mem_cons, List.mem_cons] at h
      rcases h with rfl | rfl | rfl | rfl | rfl | rfl | h
      · decide
      · decide
      · exact hhex _
      · exact hhex _
      · exact hhex _
      · exact hhex _
      · exact absurd h List.not_mem_nil
    · rw [Bool.or_eq_true, Bool.or_eq_true, not_or, not_or, decide_eq_true_eq] at hcode
      rw [List.mem_singleton.mp h]
      exact UInt16.not_lt.mp hcode.1.1
  · have hletters : c ∈ [quoteMark, backslash, unit 'b', unit 'f', unit 'n', unit 'r', unit 't'] := by
      unfold escapeLetter at hletter
      split_ifs at hletter <;> simp [← Option.some.inj hletter]
    have hprintable : ([quoteMark, backslash, unit 'b', unit 'f', unit 'n', unit 'r', unit 't'].all
        fun c => 0x20 ≤ c) = true := rfl
    rw [hletter] at h
    rcases List.mem_cons.mp h with rfl | h
    · decide
    · rw [List.mem_singleton.mp h]
      exact of_decide_eq_true (List.all_eq_true.mp hprintable c hletters)

/-- A string is written without control characters.
Kind: L -/
theorem le_of_mem_escaped {w : UInt16} (h : w ∈ escaped s) : 0x20 ≤ w := by
  fun_induction escaped s with
  | case1 => exact absurd h List.not_mem_nil
  | case2 u => exact le_of_mem_escapeUnit h
  | case3 u v s hpair ih =>
      obtain ⟨hu, hv⟩ := Bool.and_eq_true_iff.mp hpair
      have hu' := isHigh_iff.mp hu
      have hv' := isLow_iff.mp hv
      have hcode : (0x20 : UInt16).toNat = 32 := rfl
      rcases List.mem_cons.mp h with rfl | h
      · exact UInt16.le_iff_toNat_le.mpr (by omega)
      · rcases List.mem_cons.mp h with rfl | h
        · exact UInt16.le_iff_toNat_le.mpr (by omega)
        · exact ih h
  | case4 u v s hpair ih =>
      rcases List.mem_append.mp h with h | h
      · exact le_of_mem_escapeUnit h
      · exact ih h

end Strings

/-! ### Sizes -/

/-- The quotation marks of a string are two bytes.
Kind: L -/
theorem byteLength_quote (s : JsString) : byteLength (quote s) = byteLength (escaped s) + 2 := by
  unfold quote
  rw [byteLength_cons (by decide), byteLength_append_cons (by decide), byteLength_cons (by decide),
    byteLength_nil]

/-- A unit that JSON writes as it is, in one byte.
Kind: D -/
def isPlain (u : UInt16) : Bool := 0x20 ≤ u && u < 0x80 && u != quoteMark && u != backslash

theorem escapeUnit_of_isPlain {u : UInt16} (h : isPlain u = true) :
    escapeUnit u = [u] ∧ u.toNat < 128 ∧ isHigh u = false := by
  simp only [isPlain, Bool.and_eq_true, decide_eq_true_eq, bne_iff_ne, UInt16.le_iff_toNat_le,
    UInt16.lt_iff_toNat_lt] at h
  obtain ⟨⟨⟨hlow, hhigh⟩, hquote⟩, hback⟩ := h
  have hspace : (0x20 : UInt16).toNat = 32 := rfl
  have hend : (0x80 : UInt16).toNat = 128 := rfl
  have hne : ∀ w : UInt16, w.toNat < 32 → u ≠ w := fun w hw he => by
    rw [he] at hlow
    omega
  have hletter : escapeLetter u = none := by
    unfold escapeLetter
    rw [if_neg hquote, if_neg hback, if_neg (hne _ (by decide)), if_neg (hne _ (by decide)),
      if_neg (hne _ (by decide)), if_neg (hne _ (by decide)), if_neg (hne _ (by decide))]
  have h₁ : isHigh u = false := by
    rw [← Bool.not_eq_true, isHigh_iff]
    omega
  have h₂ : isLow u = false := by
    rw [← Bool.not_eq_true, isLow_iff]
    omega
  have h₃ : ¬ u < 0x20 := by
    rw [UInt16.lt_iff_toNat_lt]
    omega
  refine ⟨?_, by omega, h₁⟩
  unfold escapeUnit
  rw [hletter, h₁, h₂, decide_eq_false h₃]
  rfl

/-- A plain string is written as it is.
Kind: L -/
theorem byteLength_escaped_of_isPlain {s : JsString} (h : ∀ u ∈ s, isPlain u = true) :
    byteLength (escaped s) = s.length := by
  have hsame : escaped s = s := by
    fun_induction escaped s with
    | case1 => rfl
    | case2 u => exact (escapeUnit_of_isPlain (h u List.mem_cons_self)).1
    | case3 u v s hpair ih =>
        rw [(escapeUnit_of_isPlain (h u List.mem_cons_self)).2.2, Bool.false_and] at hpair
        exact absurd hpair Bool.false_ne_true
    | case4 u v s hpair ih =>
        rw [(escapeUnit_of_isPlain (h u List.mem_cons_self)).1,
          ih fun w hw => h w (List.mem_cons_of_mem _ hw), List.singleton_append]
  rw [hsame]
  exact byteLength_of_ascii fun u hu => (escapeUnit_of_isPlain (h u hu)).2.1

end TyoMq.Lib
