import TyoMq.Lib.JsObject
import TyoMq.Lib.JsonString
import TyoMq.Notify.Message

/-!
# The `.env` file

`lib/env.js`, which reads settings out of a file of lines `KEY=value` and appends a generated one.

* A file is the text that it decodes to. What is appended is encoded, so that a lone surrogate in it
  comes back as U+FFFD.
* Reading a file with a line appended is reading the file, then the line (`parseEnv_appendEnvValue`),
  also when its last line was not ended.
* **The round trip** (`roundTrips_iff`): a setting with a value of one line comes back, and no other
  setting changes, exactly when the value has no backslash, no quotation mark and no lone surrogate and
  the key is not `__proto__`. The writer escapes the first two and the reader does not undo it
  (`not_roundTrips_quoted`); the reader collects the settings in a plain object.
-/

namespace TyoMq.Config

open TyoMq.Lib TyoMq.Notify

/-! ### Reading -/

/-- The line without the carriage return that belongs to its line break.
Kind: D -/
def chopReturn (line : JsString) : JsString := if line.getLast? = some 13 then line.dropLast else line

/-- The parts between line feeds, all but the last of which end in a line break.
Kind: D -/
def chopReturns : List JsString → List JsString
  | [] => []
  | [line] => [line]
  | line :: line' :: lines => chopReturn line :: chopReturns (line' :: lines)

/-- `raw.split(/\r?\n/)`.
Kind: D -/
def lines (raw : JsString) : List JsString := chopReturns (split [10] raw)

/-- A value without the quotation marks around it.
Source: `lib/env.js`, `parseEnv`, lines 23-26
Kind: D -/
def unquote (value : JsString) : JsString :=
  if (value.head? = some quoteMark ∧ value.getLast? = some quoteMark) ∨
      (value.head? = some 39 ∧ value.getLast? = some 39) then
    (value.drop 1).dropLast
  else value

/-- The settings after one line.
Source: `lib/env.js`, `parseEnv`, lines 13-28
Kind: D -/
def readLine (result : JsObject JsString) (line : JsString) : JsObject JsString :=
  let trimmed := trim line
  if trimmed = [] ∨ trimmed.head? = some (unit '#') then result
  else
    match indexOf trimmed (unit '=') with
    | none => result
    | some idx =>
        let key := trim (trimmed.take idx)
        let value := trim (trimmed.drop (idx + 1))
        if key = [] then result else result.assign key (unquote value)

/-- Source: `lib/env.js`, `parseEnv`
Kind: D -/
def parseEnv (raw : JsString) : JsObject JsString := (lines raw).foldl readLine JsObject.empty

/-! ### Writing -/

/-- Source: `lib/env.js`, `quoteEnv`
Kind: D -/
def quoteEnv (value : JsString) : JsString :=
  quoteMark ::
    (replaceAll quoteMark [backslash, quoteMark] (replaceAll backslash [backslash, backslash] value) ++
      [quoteMark])

/-- What ends the last line of the file, if it has to be ended.
Source: `lib/env.js`, `appendEnvValue`, lines 56-61
Kind: D -/
def lineEnd (file : Option JsString) : JsString :=
  match file with
  | none => []
  | some current => if 0 < current.length ∧ current.getLast? ≠ some 10 then [10] else []

/-- The text of the file afterwards, `none` for no file.
Source: `lib/env.js`, `appendEnvValue`
Kind: D -/
def appendEnvValue (file : Option JsString) (key value : JsString) : JsString :=
  file.getD [] ++ toWellFormed (lineEnd file ++ key ++ [unit '='] ++ quoteEnv value ++ [10])

/-! ### The round trip -/

/-- The letters, the digits and the underscore.
Kind: D -/
def isNameUnit (u : UInt16) : Bool := digitVal u < 36 || u == unit '_'

/-- Is the string the name of an environment variable?
Kind: D -/
def isEnvName (key : JsString) : Bool :=
  key.all isNameUnit && key.head?.any fun u => decide (10 ≤ digitVal u)

/-- The key has the value in the file with the setting appended, and every other key has what it had
before. A missing file has no settings.
Kind: D -/
def RoundTrips (file : Option JsString) (key value : JsString) : Prop :=
  (parseEnv (appendEnvValue file key value)).lookup key = .own value ∧
    ∀ k ≠ key, (parseEnv (appendEnvValue file key value)).lookup k = (parseEnv (file.getD [])).lookup k

section Trim

variable {s : JsString} {u : UInt16}

/-- A text that neither begins nor ends with white space is trimmed already.
Kind: L -/
theorem trim_eq_self (hhead : ∀ u ∈ s.head?, isWhiteSpace u = false)
    (hlast : ∀ u ∈ s.getLast?, isWhiteSpace u = false) : trim s = s := by
  have hkeep : ∀ t : JsString, (∀ u ∈ t.head?, isWhiteSpace u = false) →
      t.dropWhile isWhiteSpace = t := by
    intro t ht
    cases t with
    | nil => rfl
    | cons d t => exact List.dropWhile_cons_of_neg (Bool.not_eq_true _ ▸ ht d rfl)
  unfold trim
  rw [hkeep s hhead, hkeep s.reverse (by rwa [List.head?_reverse]), List.reverse_reverse]

/-- White space at the end does not count.
Kind: L -/
theorem trim_append_singleton (hu : isWhiteSpace u = true) (s : JsString) : trim (s ++ [u]) = trim s := by
  have hdrop : [u].dropWhile isWhiteSpace = [] := List.dropWhile_cons_of_pos hu
  unfold trim
  rw [List.dropWhile_append]
  split_ifs with h
  · rw [hdrop, List.isEmpty_iff.mp h]
  · rw [List.reverse_append, List.reverse_singleton, List.singleton_append,
      List.dropWhile_cons_of_pos hu]

theorem trim_chopReturn (line : JsString) : trim (chopReturn line) = trim line := by
  unfold chopReturn
  split_ifs with h
  · have hline := List.dropLast_append_getLast? 13 h
    conv_rhs => rw [← hline]
    exact (trim_append_singleton rfl _).symm
  · rfl

end Trim

section Lines

variable {result : JsObject JsString} {a b : JsString}

theorem readLine_chopReturn (result : JsObject JsString) (line : JsString) :
    readLine result (chopReturn line) = readLine result line := by
  unfold readLine
  rw [trim_chopReturn]

/-- Line breaks of either kind are read the same.
Kind: L -/
theorem parseEnv_eq (raw : JsString) : parseEnv raw = (split [10] raw).foldl readLine JsObject.empty := by
  have hchop : ∀ (parts : List JsString) (result : JsObject JsString),
      (chopReturns parts).foldl readLine result = parts.foldl readLine result := by
    intro parts
    induction parts using chopReturns.induct with
    | case1 => exact fun _ => rfl
    | case2 line => exact fun _ => rfl
    | case3 line line' lines ih =>
        intro result
        rw [chopReturns, List.foldl_cons, List.foldl_cons, readLine_chopReturn, ih]
  exact hchop _ _

/-- A text of two parts is read one after the other.
Kind: L -/
theorem parseEnv_append (a b : JsString) :
    parseEnv (a ++ 10 :: b) = (split [10] b).foldl readLine (parseEnv a) := by
  rw [parseEnv_eq, split_append, List.foldl_append, ← parseEnv_eq]

/-- A line break at the end makes no difference.
Kind: L -/
theorem parseEnv_append_singleton (a : JsString) : parseEnv (a ++ [10]) = parseEnv a :=
  parseEnv_append a []

/-- Reading a file with a line more.
Kind: L -/
theorem parseEnv_append_line (ha : a = [] ∨ a.getLast? = some 10) (hb : 10 ∉ b) :
    parseEnv (a ++ (b ++ [10])) = readLine (parseEnv a) b := by
  have hline : split [10] b = [b] := split_of_not_mem hb
  rw [← List.append_assoc, parseEnv_append_singleton]
  rcases ha with rfl | ha
  · rw [List.nil_append, parseEnv_eq, hline]
    rfl
  · have hsplit := List.dropLast_append_getLast? 10 ha
    rw [← hsplit, List.append_assoc, List.singleton_append, parseEnv_append, parseEnv_append_singleton,
      hline]
    rfl

end Lines

section Append

variable {file : Option JsString} {key value : JsString} {u : UInt16}

theorem isNameUnit_of_mem (hkey : isEnvName key = true) (hu : u ∈ key) : isNameUnit u = true :=
  List.all_eq_true.mp (Bool.and_eq_true_iff.mp hkey).1 u hu

theorem ne_nil_of_isEnvName (hkey : isEnvName key = true) : key ≠ [] := by
  rintro rfl
  exact Bool.false_ne_true hkey

/-- The units of a name are none that lines are read by.
Kind: L -/
theorem isNameUnit_spec (hu : isNameUnit u = true) :
    isWhiteSpace u = false ∧ u ≠ 10 ∧ u ≠ unit '#' ∧ u ≠ unit '=' ∧ (isHigh u || isLow u) = false := by
  have hcode : 48 ≤ u.toNat ∧ u.toNat ≤ 122 ∧ u.toNat ≠ 61 := by
    rw [isNameUnit, Bool.or_eq_true, decide_eq_true_eq, beq_iff_eq] at hu
    rcases hu with hu | rfl
    · have hdigit := toNat_of_digitVal_lt hu
      omega
    · decide
  have hall : ∀ n < 123, 48 ≤ n → n ≠ 61 → isWhiteSpace (UInt16.ofNat n) = false ∧
      UInt16.ofNat n ≠ 10 ∧ UInt16.ofNat n ≠ unit '#' ∧ UInt16.ofNat n ≠ unit '=' ∧
      (isHigh (UInt16.ofNat n) || isLow (UInt16.ofNat n)) = false := by decide
  have h := hall u.toNat (by omega) hcode.1 hcode.2.2
  rwa [UInt16.ofNat_toNat] at h

/-- The value between its quotation marks, as it is written.
Kind: D -/
def escapedValue (value : JsString) : JsString :=
  replaceAll quoteMark [backslash, quoteMark] (replaceAll backslash [backslash, backslash] value)

/-- The line that a setting is written on.
Kind: D -/
def settingLine (key value : JsString) : JsString :=
  key ++ unit '=' :: quoteMark :: (toWellFormed (escapedValue value) ++ [quoteMark])

/-- A name is well formed in front of anything.
Kind: L -/
theorem toWellFormed_name_append (hkey : ∀ u ∈ key, isNameUnit u = true) (s : JsString) :
    toWellFormed (key ++ s) = key ++ toWellFormed s := by
  induction key with
  | nil => rfl
  | cons u key ih =>
      obtain ⟨-, -, -, -, hu⟩ := isNameUnit_spec (hkey u List.mem_cons_self)
      rw [List.cons_append, toWellFormed_cons hu, ih fun v hv => hkey v (List.mem_cons_of_mem _ hv),
        List.cons_append]

/-- What is appended is the end of the last line and one more line.
Kind: L -/
theorem appendEnvValue_eq (file : Option JsString) (hkey : isEnvName key = true) (value : JsString) :
    appendEnvValue file key value = file.getD [] ++ lineEnd file ++ (settingLine key value ++ [10]) := by
  have hend : ∀ s : JsString, toWellFormed (lineEnd file ++ s) = lineEnd file ++ toWellFormed s := by
    intro s
    unfold lineEnd
    rcases file with _ | current
    · rfl
    · dsimp only
      split_ifs
      · exact toWellFormed_cons rfl s
      · rfl
  have hquote : (isHigh quoteMark || isLow quoteMark) = false := rfl
  have hlast : toWellFormed [quoteMark, 10] = [quoteMark, 10] := rfl
  have hline : lineEnd file ++ key ++ [unit '='] ++ quoteEnv value ++ [10] =
      lineEnd file ++ (key ++ unit '=' :: quoteMark :: (escapedValue value ++ [quoteMark, 10])) := by
    simp [quoteEnv, escapedValue]
  rw [appendEnvValue, hline, hend, toWellFormed_name_append fun u hu => isNameUnit_of_mem hkey hu,
    toWellFormed_cons rfl, toWellFormed_cons hquote, toWellFormed_append_cons rfl, hlast]
  simp [settingLine]

theorem trim_quoted (w : JsString) :
    trim (quoteMark :: (w ++ [quoteMark])) = quoteMark :: (w ++ [quoteMark]) := by
  apply trim_eq_self
  · rintro u ⟨⟩
    rfl
  · intro u hu
    rw [← List.cons_append, List.getLast?_concat] at hu
    obtain rfl := Option.some.inj hu
    rfl

theorem unquote_quoted (w : JsString) : unquote (quoteMark :: (w ++ [quoteMark])) = w := by
  have hlast : (quoteMark :: (w ++ [quoteMark])).getLast? = some quoteMark := by
    rw [← List.cons_append, List.getLast?_concat]
  rw [unquote, if_pos (Or.inl ⟨rfl, hlast⟩), List.drop_one, List.tail_cons, List.dropLast_concat]

theorem trim_name (hkey : isEnvName key = true) : trim key = key := by
  apply trim_eq_self
  · intro u hu
    exact (isNameUnit_spec (isNameUnit_of_mem hkey (List.mem_of_mem_head? hu))).1
  · intro u hu
    exact (isNameUnit_spec (isNameUnit_of_mem hkey (List.mem_of_mem_getLast? hu))).1

/-- The line of a setting begins with a unit of the name and ends in a quotation mark.
Kind: L -/
theorem head_settingLine (hkey : isEnvName key = true) (value : JsString) :
    ∃ u, (settingLine key value).head? = some u ∧ isNameUnit u = true := by
  obtain ⟨c, name, rfl⟩ := List.exists_cons_of_ne_nil (ne_nil_of_isEnvName hkey)
  exact ⟨c, rfl, isNameUnit_of_mem hkey List.mem_cons_self⟩

theorem trim_settingLine (hkey : isEnvName key = true) (value : JsString) :
    trim (settingLine key value) = settingLine key value := by
  apply trim_eq_self
  · intro u hu
    obtain ⟨c, hc, hname⟩ := head_settingLine hkey value
    obtain rfl := Option.some.inj (hc.symm.trans hu)
    exact (isNameUnit_spec hname).1
  · intro u hu
    have hend : settingLine key value =
        (key ++ unit '=' :: quoteMark :: toWellFormed (escapedValue value)) ++ [quoteMark] := by
      simp [settingLine]
    rw [hend, List.getLast?_concat] at hu
    obtain rfl := Option.some.inj hu
    rfl

/-- Reading the line of a setting.
Kind: L -/
theorem readLine_settingLine (result : JsObject JsString) (hkey : isEnvName key = true)
    (value : JsString) :
    readLine result (settingLine key value) = result.assign key (toWellFormed (escapedValue value)) := by
  have heq : unit '=' ∉ key := fun h => (isNameUnit_spec (isNameUnit_of_mem hkey h)).2.2.2.1 rfl
  have hidx : indexOf (settingLine key value) (unit '=') = some key.length := indexOf_append_cons heq
  have htake : (settingLine key value).take key.length = key := List.take_left
  have hdrop : (settingLine key value).drop (key.length + 1) =
      quoteMark :: (toWellFormed (escapedValue value) ++ [quoteMark]) := by
    rw [settingLine, ← List.drop_drop, List.drop_left, List.drop_one, List.tail_cons]
  have hstart : ¬ (settingLine key value = [] ∨ (settingLine key value).head? = some (unit '#')) := by
    obtain ⟨c, hc, hname⟩ := head_settingLine hkey value
    rintro (h | h)
    · rw [h] at hc
      cases hc
    · exact (isNameUnit_spec hname).2.2.1 (Option.some.inj (hc.symm.trans h))
  unfold readLine
  rw [trim_settingLine hkey]
  dsimp only
  rw [if_neg hstart, hidx]
  dsimp only
  rw [htake, hdrop, trim_name hkey, trim_quoted, unquote_quoted, if_neg (ne_nil_of_isEnvName hkey)]

theorem not_mem_settingLine (hkey : isEnvName key = true) (hvalue : 10 ∉ value) :
    10 ∉ settingLine key value := by
  have hescaped : 10 ∉ escapedValue value := by
    intro h
    rcases mem_replaceAll h with h | h
    · exact absurd h (by decide)
    · rcases mem_replaceAll h with h | h
      · exact absurd h (by decide)
      · exact hvalue h
  intro h
  rw [settingLine, List.mem_append, List.mem_cons, List.mem_cons, List.mem_append,
    List.mem_singleton] at h
  rcases h with h | h | h | h | h
  · exact (isNameUnit_spec (isNameUnit_of_mem hkey h)).2.1 rfl
  · exact absurd h (by decide)
  · exact absurd h (by decide)
  · rcases mem_toWellFormed h with h | h
    · exact hescaped h
    · exact absurd h (by decide)
  · exact absurd h (by decide)

/-- The last line is ended, and nothing else changes.
Kind: L -/
theorem lineEnd_spec (file : Option JsString) :
    (file.getD [] ++ lineEnd file = [] ∨ (file.getD [] ++ lineEnd file).getLast? = some 10) ∧
      parseEnv (file.getD [] ++ lineEnd file) = parseEnv (file.getD []) := by
  rcases file with _ | current
  · exact ⟨Or.inl rfl, rfl⟩
  · unfold lineEnd
    dsimp only [Option.getD_some]
    split_ifs with h
    · exact ⟨Or.inr List.getLast?_concat, parseEnv_append_singleton current⟩
    · rw [List.append_nil]
      refine ⟨?_, rfl⟩
      by_cases hlast : current.getLast? = some 10
      · exact Or.inr hlast
      · exact Or.inl (List.eq_nil_of_length_eq_zero (Nat.eq_zero_of_not_pos fun hpos => h ⟨hpos, hlast⟩))

/-- Reading a file with a setting appended is reading the file, then the setting.
Kind: L -/
theorem parseEnv_appendEnvValue (file : Option JsString) (hkey : isEnvName key = true)
    (hvalue : 10 ∉ value) :
    parseEnv (appendEnvValue file key value) =
      (parseEnv (file.getD [])).assign key (toWellFormed (escapedValue value)) := by
  obtain ⟨hended, hsame⟩ := lineEnd_spec file
  rw [appendEnvValue_eq file hkey, parseEnv_append_line hended (not_mem_settingLine hkey hvalue), hsame,
    readLine_settingLine _ hkey]

/-- A value comes through the escaping and the encoding when they leave it alone.
Kind: L -/
theorem toWellFormed_escapedValue_eq_iff :
    toWellFormed (escapedValue value) = value ↔
      backslash ∉ value ∧ quoteMark ∉ value ∧ WellFormed value := by
  constructor
  · intro h
    have hlength : (escapedValue value).length = value.length := by
      rw [← length_toWellFormed, h]
    have hfirst : value.length ≤ (replaceAll backslash [backslash, backslash] value).length :=
      length_le_length_replaceAll (List.cons_ne_nil _ _) value
    have hsecond : (replaceAll backslash [backslash, backslash] value).length ≤
        (escapedValue value).length := length_le_length_replaceAll (List.cons_ne_nil _ _) _
    have hback : backslash ∉ value := by
      intro hmem
      have hlt : value.length < (replaceAll backslash [backslash, backslash] value).length :=
        length_lt_length_replaceAll Nat.one_lt_two hmem
      omega
    have hmark : quoteMark ∉ value := by
      intro hmem
      have hstays : quoteMark ∈ replaceAll backslash [backslash, backslash] value :=
        mem_replaceAll_of_ne (by decide) hmem
      have hlt : (replaceAll backslash [backslash, backslash] value).length <
          (escapedValue value).length := length_lt_length_replaceAll Nat.one_lt_two hstays
      omega
    have hsame : escapedValue value = value := by
      unfold escapedValue
      rw [replaceAll_of_not_mem hback, replaceAll_of_not_mem hmark]
    exact ⟨hback, hmark, by rwa [hsame] at h⟩
  · rintro ⟨hback, hmark, hwell⟩
    unfold escapedValue
    rwa [replaceAll_of_not_mem hback, replaceAll_of_not_mem hmark]

/-- **The round trip of a setting**, for any file before.
Source: `lib/env.js`, `parseEnv`, `quoteEnv`, `appendEnvValue`
Kind: P -/
theorem roundTrips_iff (file : Option JsString) (hkey : isEnvName key = true) (hvalue : 10 ∉ value) :
    RoundTrips file key value ↔
      backslash ∉ value ∧ quoteMark ∉ value ∧ WellFormed value ∧ key ≠ protoName := by
  unfold RoundTrips
  rw [parseEnv_appendEnvValue file hkey hvalue]
  constructor
  · rintro ⟨hown, -⟩
    rw [JsObject.lookup_eq_own_iff, JsObject.get_own_assign] at hown
    by_cases hproto : key = protoName
    · rw [if_neg fun h => h.2 hproto, hproto, JsObject.get_proto] at hown
      exact absurd hown (Option.some_ne_none value).symm
    · rw [if_pos ⟨rfl, hproto⟩] at hown
      obtain ⟨hback, hmark, hwell⟩ := toWellFormed_escapedValue_eq_iff.mp (Option.some.inj hown)
      exact ⟨hback, hmark, hwell, hproto⟩
  · rintro ⟨hback, hmark, hwell, hproto⟩
    have hsame := toWellFormed_escapedValue_eq_iff.mpr ⟨hback, hmark, hwell⟩
    rw [hsame]
    constructor
    · rw [JsObject.lookup_eq_own_iff, JsObject.get_own_assign, if_pos ⟨rfl, hproto⟩]
    · intro k hk
      rw [JsObject.lookup, JsObject.lookup, JsObject.get_own_assign, if_neg fun h => hk h.1]

/-- A setting behind a last line that was not ended.
Kind: C -/
theorem roundTrips_iff_unended :
    RoundTrips (some (js "A=1
B=2")) (js "TOKEN") (js "a b=c#d") :=
  (roundTrips_iff _ (by decide) (by decide)).mpr ⟨by decide, by decide, by decide, by decide⟩

/-- A secret with a quotation mark in it comes back with a backslash before that.
Kind: C -/
theorem not_roundTrips_quoted :
    ¬ ∀ (file : Option JsString) (key value : JsString), isEnvName key = true → 10 ∉ value →
      RoundTrips file key value := by
  intro h
  have hread := (h none (js "TOKEN") (js "a\x22b") (by decide) (by decide)).1
  exact absurd hread (by decide)

end Append

end TyoMq.Config
