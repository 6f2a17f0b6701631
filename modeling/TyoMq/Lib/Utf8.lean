import TyoMq.Lib.JsString

/-!
# JavaScript strings as bytes

What becomes of a JavaScript string that is written as UTF-8, and of bytes that are written as base64url.

* A lone surrogate has no encoding, and is written as the replacement character (`scalars`). Two strings
  have the same bytes exactly when `toWellFormed` makes them the same (`utf8_inj`).
* Base64url is injective, and writes letters, digits, `-` and `_` only (`base64Digits_inj`,
  `mem_base64Digits`).
-/

namespace TyoMq.Lib

/-! ### Characters -/

/-- Is the unit the first half of a surrogate pair?
Kind: D -/
def isHigh (u : UInt16) : Bool := 0xD800 ≤ u && u < 0xDC00

/-- Is it the second half?
Kind: D -/
def isLow (u : UInt16) : Bool := 0xDC00 ≤ u && u < 0xE000

/-- The replacement character.
Kind: D -/
def replacement : Char := Char.ofNat 0xFFFD

/-- The character of a unit that is not half of a pair.
Kind: D -/
def scalar (u : UInt16) : Char := if isHigh u || isLow u then replacement else Char.ofNat u.toNat

/-- The character of a pair.
Kind: D -/
def pairScalar (u v : UInt16) : Char :=
  Char.ofNat (0x10000 + (u.toNat - 0xD800) * 0x400 + (v.toNat - 0xDC00))

/-- The characters of a string, with the replacement character for each lone surrogate.
Kind: D -/
def scalars : JsString → List Char
  | [] => []
  | [u] => [scalar u]
  | u :: v :: s =>
      if isHigh u && isLow v then pairScalar u v :: scalars s else scalar u :: scalars (v :: s)

/-- `s.toWellFormed()`.
Kind: D -/
def toWellFormed (s : JsString) : JsString := (scalars s).flatMap utf16Char

/-- Has the string no lone surrogates?
Kind: D -/
def WellFormed (s : JsString) : Prop := toWellFormed s = s

instance (s : JsString) : Decidable (WellFormed s) := inferInstanceAs (Decidable (_ = _))

section Scalars

variable {a b s s' : JsString} {u : UInt16}

theorem scalars_cons_of_not_high (h : isHigh u = false) (s : JsString) :
    scalars (u :: s) = scalar u :: scalars s := by
  cases s with
  | nil => rfl
  | cons v s => rw [scalars, h, Bool.false_and, if_neg Bool.false_ne_true]

theorem isHigh_iff : isHigh u = true ↔ 0xD800 ≤ u.toNat ∧ u.toNat < 0xDC00 := by
  rw [isHigh, Bool.and_eq_true, decide_eq_true_eq, decide_eq_true_eq, UInt16.le_iff_toNat_le,
    UInt16.lt_iff_toNat_lt]
  rfl

theorem isLow_iff : isLow u = true ↔ 0xDC00 ≤ u.toNat ∧ u.toNat < 0xE000 := by
  rw [isLow, Bool.and_eq_true, decide_eq_true_eq, decide_eq_true_eq, UInt16.le_iff_toNat_le,
    UInt16.lt_iff_toNat_lt]
  rfl

/-- No character is half of a pair, and none lies past the pairs.
Kind: L -/
theorem toNat_char (c : Char) : c.toNat < 0xD800 ∨ 0xDFFF < c.toNat ∧ c.toNat < 0x110000 := by
  rcases c.valid with h | ⟨hgt, hlt⟩
  · exact Or.inl h
  · exact Or.inr ⟨hgt, hlt⟩

/-- Writing a character and reading it back.
Kind: L -/
theorem scalars_utf16Char (c : Char) (s : JsString) : scalars (utf16Char c ++ s) = c :: scalars s := by
  have hc := toNat_char c
  rw [utf16Char]
  split_ifs with hsmall
  · have hunit : (unit c).toNat = c.toNat := by
      rw [unit, UInt16.toNat_ofNat']
      omega
    have hhigh : isHigh (unit c) = false := by
      rw [← Bool.not_eq_true, isHigh_iff]
      omega
    have hlow : isLow (unit c) = false := by
      rw [← Bool.not_eq_true, isLow_iff]
      omega
    rw [List.singleton_append, scalars_cons_of_not_high hhigh, scalar, hhigh, hlow, Bool.or_self,
      if_neg Bool.false_ne_true, hunit, Char.ofNat_toNat]
  · set h := UInt16.ofNat (0xD800 + (c.toNat - 0x10000) / 0x400) with hh
    set l := UInt16.ofNat (0xDC00 + (c.toNat - 0x10000) % 0x400) with hl
    have hhnat : h.toNat = 0xD800 + (c.toNat - 0x10000) / 0x400 := by
      rw [hh, UInt16.toNat_ofNat']
      omega
    have hlnat : l.toNat = 0xDC00 + (c.toNat - 0x10000) % 0x400 := by
      rw [hl, UInt16.toNat_ofNat']
      omega
    have hpair : (isHigh h && isLow l) = true := by
      rw [Bool.and_eq_true, isHigh_iff, isLow_iff]
      omega
    have hscalar : pairScalar h l = c := by
      rw [pairScalar, hhnat, hlnat]
      have : 0x10000 + (0xD800 + (c.toNat - 0x10000) / 0x400 - 0xD800) * 0x400 +
          (0xDC00 + (c.toNat - 0x10000) % 0x400 - 0xDC00) = c.toNat := by omega
      rw [this, Char.ofNat_toNat]
    rw [List.cons_append, List.singleton_append, scalars, if_pos hpair, hscalar]

theorem scalars_flatMap (l : List Char) (s : JsString) :
    scalars (l.flatMap utf16Char ++ s) = l ++ scalars s := by
  induction l with
  | nil => rfl
  | cons c l ih => rw [List.flatMap_cons, List.append_assoc, scalars_utf16Char, ih, List.cons_append]

@[simp] theorem scalars_toWellFormed (s : JsString) : scalars (toWellFormed s) = scalars s := by
  have h := scalars_flatMap (scalars s) []
  rwa [List.append_nil, scalars, List.append_nil] at h

/-- Two strings have the same characters when `toWellFormed` makes them the same.
Kind: P -/
theorem scalars_inj : scalars s = scalars s' ↔ toWellFormed s = toWellFormed s' := by
  constructor
  · intro h
    rw [toWellFormed, h, toWellFormed]
  · intro h
    rw [← scalars_toWellFormed s, h, scalars_toWellFormed]

theorem toNat_ofNat {n : ℕ} (h : n.isValidChar) : (Char.ofNat n).toNat = n := by
  rw [Char.ofNat, dif_pos h]
  rfl

/-- A unit that is no half of a pair is encoded by itself.
Kind: L -/
theorem utf16Char_scalar (h : (isHigh u || isLow u) = false) : utf16Char (scalar u) = [u] := by
  have hscalar : scalar u = Char.ofNat u.toNat := by rw [scalar, h, if_neg Bool.false_ne_true]
  obtain ⟨hhigh, hlow⟩ := Bool.or_eq_false_iff.mp h
  rw [← Bool.not_eq_true, isHigh_iff] at hhigh
  rw [← Bool.not_eq_true, isLow_iff] at hlow
  have hlt := u.toNat_lt
  have hvalid : u.toNat.isValidChar := by
    rw [Nat.isValidChar]
    omega
  have hnat : (Char.ofNat u.toNat).toNat = u.toNat := toNat_ofNat hvalid
  rw [hscalar, utf16Char, hnat, if_pos (by omega), unit, hnat, UInt16.ofNat_toNat]

/-- A surrogate pair is encoded by its two halves.
Kind: L -/
theorem utf16Char_pairScalar {v : UInt16} (h : (isHigh u && isLow v) = true) :
    utf16Char (pairScalar u v) = [u, v] := by
  obtain ⟨hu, hv⟩ := Bool.and_eq_true_iff.mp h
  rw [isHigh_iff] at hu
  rw [isLow_iff] at hv
  set n := 0x10000 + (u.toNat - 0xD800) * 0x400 + (v.toNat - 0xDC00) with hn
  have hvalid : n.isValidChar := by
    rw [Nat.isValidChar]
    omega
  have hnat : (pairScalar u v).toNat = n := toNat_ofNat hvalid
  have hdiv : 0xD800 + (n - 0x10000) / 0x400 = u.toNat := by omega
  have hmod : 0xDC00 + (n - 0x10000) % 0x400 = v.toNat := by omega
  rw [utf16Char, hnat, if_neg (by omega), hdiv, hmod, UInt16.ofNat_toNat, UInt16.ofNat_toNat]

/-- A string that is not well formed has the replacement character.
Kind: L -/
theorem wellFormed_of_not_mem (h : replacement ∉ scalars s) : WellFormed s := by
  have hunit : ∀ u : UInt16, scalar u ≠ replacement → utf16Char (scalar u) = [u] := by
    intro u hu
    apply utf16Char_scalar
    by_contra hhalf
    exact hu (if_pos (Bool.not_eq_false _ ▸ hhalf))
  rw [WellFormed, toWellFormed]
  induction s using scalars.induct with
  | case1 => rfl
  | case2 u =>
      simp only [scalars, List.mem_singleton] at h
      simp [scalars, hunit u (Ne.symm h)]
  | case3 u v s huv ih =>
      rw [scalars, if_pos huv] at h ⊢
      rw [List.mem_cons, not_or] at h
      rw [List.flatMap_cons, utf16Char_pairScalar huv, ih h.2]
      rfl
  | case4 u v s huv ih =>
      rw [scalars, if_neg huv] at h ⊢
      rw [List.mem_cons, not_or] at h
      rw [List.flatMap_cons, hunit u (Ne.symm h.1), ih h.2]
      rfl

/-- Replacing lone surrogates brings nothing else in.
Kind: L -/
theorem mem_toWellFormed (h : u ∈ toWellFormed s) : u ∈ s ∨ u = 0xFFFD := by
  have hscalar : ∀ v : UInt16, u ∈ utf16Char (scalar v) → u = v ∨ u = 0xFFFD := by
    intro v hu
    by_cases hv : (isHigh v || isLow v) = true
    · rw [scalar, if_pos hv] at hu
      exact Or.inr (List.mem_singleton.mp hu)
    · rw [utf16Char_scalar (Bool.not_eq_true _ ▸ hv)] at hu
      exact Or.inl (List.mem_singleton.mp hu)
  unfold toWellFormed at h
  induction s using scalars.induct with
  | case1 => exact absurd h List.not_mem_nil
  | case2 v =>
      rw [scalars, List.flatMap_singleton] at h
      exact (hscalar v h).imp_left List.mem_singleton.mpr
  | case3 v w s hvw ih =>
      rw [scalars, if_pos hvw, List.flatMap_cons, utf16Char_pairScalar hvw, List.mem_append] at h
      rcases h with h | h
      · exact Or.inl (List.mem_append_left s h)
      · exact (ih h).imp_left fun hs => List.mem_append_right [v, w] hs
  | case4 v w s hvw ih =>
      rw [scalars, if_neg hvw, List.flatMap_cons, List.mem_append] at h
      rcases h with h | h
      · exact (hscalar v h).imp_left fun hv => List.mem_cons.mpr (Or.inl hv)
      · exact (ih h).imp_left (List.mem_cons_of_mem v)

/-- Replacing lone surrogates leaves the length.
Kind: L -/
theorem length_toWellFormed (s : JsString) : (toWellFormed s).length = s.length := by
  have hunit : ∀ u : UInt16, (utf16Char (scalar u)).length = 1 := by
    intro u
    by_cases h : (isHigh u || isLow u) = true
    · rw [scalar, if_pos h]
      rfl
    · rw [utf16Char_scalar (Bool.not_eq_true _ ▸ h)]
      rfl
  unfold toWellFormed
  induction s using scalars.induct with
  | case1 => rfl
  | case2 u => simp [scalars, hunit]
  | case3 u v s huv ih =>
      rw [scalars, if_pos huv, List.flatMap_cons, utf16Char_pairScalar huv, List.length_append, ih,
        List.length_cons, List.length_cons, List.length_cons, List.length_cons, List.length_nil]
      omega
  | case4 u v s huv ih =>
      rw [scalars, if_neg huv, List.flatMap_cons, List.length_append, hunit, ih, Nat.add_comm]
      rfl

/-- **No other string becomes the same** exactly when there is neither a lone surrogate nor a replacement
character.
Kind: P -/
theorem unmistakable_iff :
    (∀ s', toWellFormed s' = toWellFormed s → s' = s) ↔ replacement ∉ scalars s := by
  constructor
  · intro hall hmem
    obtain ⟨before, after, hsplit⟩ := List.append_of_mem hmem
    -- the replacement character, and a lone surrogate in its place
    have hfirst := hall (before.flatMap utf16Char ++ (utf16Char replacement ++ after.flatMap utf16Char))
    have hsecond := hall (before.flatMap utf16Char ++ (0xDC00 :: after.flatMap utf16Char))
    have hafter : scalars (after.flatMap utf16Char) = after := by
      have h := scalars_flatMap after []
      rwa [List.append_nil, scalars, List.append_nil] at h
    rw [← scalars_inj, scalars_flatMap, scalars_utf16Char, hafter] at hfirst
    rw [← scalars_inj, scalars_flatMap, scalars_cons_of_not_high (by decide), hafter] at hsecond
    have hsame := (hfirst hsplit.symm).trans (hsecond hsplit.symm).symm
    have hunits := List.append_cancel_left hsame
    rw [show utf16Char replacement = [0xFFFD] by decide, List.singleton_append, List.cons.injEq] at hunits
    exact absurd hunits.1 (by decide)
  · intro h s' hs'
    have h' : replacement ∉ scalars s' := by rwa [scalars_inj.mpr hs']
    have hs := wellFormed_of_not_mem h
    have hs'' := wellFormed_of_not_mem h'
    rw [WellFormed] at hs hs''
    rw [← hs'', hs', hs]

/-- A string ends before a unit that is not the second half of a pair.
Kind: L -/
theorem scalars_append_cons (h : isLow u = false) (a b : JsString) :
    scalars (a ++ u :: b) = scalars a ++ scalars (u :: b) := by
  induction a using scalars.induct with
  | case1 => rfl
  | case2 v => simp [scalars, h]
  | case3 v w s hpair ih => simp [scalars, hpair, ih]
  | case4 v w s hpair ih =>
      simp only [List.cons_append, scalars, if_neg hpair]
      rw [← List.cons_append, ih]

/-- A string that begins with an ASCII unit.
Kind: L -/
theorem scalars_cons_of_ascii (h : u.toNat < 128) (s : JsString) :
    scalars (u :: s) = Char.ofNat u.toNat :: scalars s ∧ (Char.ofNat u.toNat).toNat = u.toNat := by
  have hhigh : isHigh u = false := by
    rw [← Bool.not_eq_true, isHigh_iff]
    omega
  have hlow : isLow u = false := by
    rw [← Bool.not_eq_true, isLow_iff]
    omega
  have hscalar : scalar u = Char.ofNat u.toNat := by
    rw [scalar, hhigh, hlow, Bool.or_self, if_neg Bool.false_ne_true]
  refine ⟨?_, toNat_ofNat (Or.inl (by omega))⟩
  rw [scalars_cons_of_not_high hhigh, hscalar]

/-- An ASCII string is mistaken for no other.
Kind: L -/
theorem replacement_not_mem_of_ascii (h : ∀ u ∈ s, u.toNat < 128) : replacement ∉ scalars s := by
  induction s with
  | nil => exact List.not_mem_nil
  | cons u s ih =>
      have hu := h u List.mem_cons_self
      obtain ⟨hcons, hnat⟩ := scalars_cons_of_ascii hu s
      rw [hcons, List.mem_cons, not_or]
      refine ⟨fun heq => ?_, ih fun v hv => h v (List.mem_cons_of_mem _ hv)⟩
      rw [← heq] at hnat
      have hcode : replacement.toNat = 0xFFFD := rfl
      omega

theorem toWellFormed_append_cons (h : isLow u = false) (a b : JsString) :
    toWellFormed (a ++ u :: b) = toWellFormed a ++ toWellFormed (u :: b) := by
  rw [toWellFormed, scalars_append_cons h, List.flatMap_append]
  rfl

theorem toWellFormed_cons (h : (isHigh u || isLow u) = false) (s : JsString) :
    toWellFormed (u :: s) = u :: toWellFormed s := by
  rw [toWellFormed, scalars_cons_of_not_high (Bool.or_eq_false_iff.mp h).1, List.flatMap_cons,
    utf16Char_scalar h]
  rfl

end Scalars

/-! ### UTF-8 -/

/-- The bytes of some characters.
Kind: D -/
def encode (l : List Char) : List (Fin 256) := (l.flatMap String.utf8EncodeChar).map UInt8.toFin

/-- `Buffer.from(s, 'utf8')`.
Kind: D -/
def utf8 (s : JsString) : List (Fin 256) := encode (scalars s)

/-- The byte of an ASCII character.
Kind: D -/
def byte (c : Char) : Fin 256 := ⟨c.toNat % 256, Nat.mod_lt _ (Nat.succ_pos 255)⟩

section Utf8

variable {s s' : JsString} {l l' : List Char}

theorem encode_append (l l' : List Char) : encode (l ++ l') = encode l ++ encode l' := by
  rw [encode, List.flatMap_append, List.map_append, encode, encode]

theorem encode_inj (h : encode l = encode l') : l = l' := by
  have hbytes : l.flatMap String.utf8EncodeChar = l'.flatMap String.utf8EncodeChar :=
    List.map_injective_iff.mpr (fun a b hab => UInt8.toFin_inj.mp hab) h
  have hencode : l.utf8Encode = l'.utf8Encode := congrArg List.toByteArray hbytes
  have hdecode := congrArg ByteArray.utf8Decode? hencode
  rw [List.utf8Decode?_utf8Encode, List.utf8Decode?_utf8Encode] at hdecode
  simpa using hdecode

/-- ASCII characters are a byte each.
Kind: L -/
theorem encode_of_ascii (h : ∀ c ∈ l, c.toNat < 128) : encode l = l.map byte := by
  induction l with
  | nil => rfl
  | cons c l ih =>
      have hc := h c (List.mem_cons_self ..)
      have hsize : c.utf8Size = 1 := by
        rw [Char.utf8Size_eq_one_iff, UInt32.le_iff_toNat_le]
        have hval : c.val.toNat = c.toNat := rfl
        have hmax : (127 : UInt32).toNat = 127 := rfl
        omega
      rw [← List.singleton_append, encode_append, ih fun c' hc' => h c' (List.mem_cons_of_mem _ hc'),
        encode, List.flatMap_singleton, String.utf8EncodeChar_eq_singleton hsize, List.map_append]
      congr 1

/-- Two strings have the same bytes when they have the same characters.
Kind: P -/
theorem utf8_eq_iff : utf8 s = utf8 s' ↔ scalars s = scalars s' :=
  ⟨encode_inj, congrArg encode⟩

/-- Two strings have the same bytes when `toWellFormed` makes them the same.
Kind: P -/
theorem utf8_inj : utf8 s = utf8 s' ↔ toWellFormed s = toWellFormed s' :=
  utf8_eq_iff.trans scalars_inj

theorem utf8_eq_nil {s : JsString} : utf8 s = [] ↔ s = [] := by
  have hnil : utf8 [] = [] := rfl
  rw [← hnil, utf8_eq_iff]
  rcases s with _ | ⟨u, _ | ⟨v, s⟩⟩
  · simp
  · simp [scalars]
  · rw [scalars.eq_3]
    split_ifs <;> simp [scalars]

end Utf8

/-! ### Lengths -/

/-- `Buffer.byteLength(s, 'utf8')`.
Kind: D -/
def byteLength (s : JsString) : ℕ := (utf8 s).length

section ByteLength

variable {u : UInt16} {a b s : JsString}

theorem byteLength_nil : byteLength [] = 0 := rfl

/-- An ASCII unit is a byte.
Kind: L -/
theorem byteLength_cons (h : u.toNat < 128) (s : JsString) : byteLength (u :: s) = byteLength s + 1 := by
  obtain ⟨hcons, hnat⟩ := scalars_cons_of_ascii h s
  have hascii : ∀ c ∈ [Char.ofNat u.toNat], c.toNat < 128 := by
    intro c hc
    rw [List.mem_singleton.mp hc, hnat]
    exact h
  unfold byteLength utf8
  rw [hcons, ← List.singleton_append, encode_append, encode_of_ascii hascii,
    List.length_append, List.length_map, List.length_singleton, Nat.add_comm]

/-- The bytes of a text that is cut before a unit that is not the second half of a pair.
Kind: L -/
theorem byteLength_append_cons (h : isLow u = false) (a b : JsString) :
    byteLength (a ++ u :: b) = byteLength a + byteLength (u :: b) := by
  unfold byteLength utf8
  rw [scalars_append_cons h, encode_append, List.length_append]

/-- A text of ASCII units has as many bytes.
Kind: L -/
theorem byteLength_of_ascii (h : ∀ u ∈ s, u.toNat < 128) : byteLength s = s.length := by
  induction s with
  | nil => rfl
  | cons u s ih =>
      rw [byteLength_cons (h u List.mem_cons_self), ih fun v hv => h v (List.mem_cons_of_mem _ hv),
        List.length_cons]

end ByteLength

/-! ### Base64url -/

/-- The digits.
Kind: D -/
def base64Alphabet : List Char :=
  "ABCDEFGHIJKLMNOPQRSTUVWXYZabcdefghijklmnopqrstuvwxyz0123456789-_".toList

/-- A digit.
Kind: D -/
def base64Digit (n : ℕ) : Char := base64Alphabet.getD n '_'

/-- The digits of some bytes, three at a time.
Kind: D -/
def base64Digits : List (Fin 256) → List Char
  | [] => []
  | [a] => [base64Digit (a / 4), base64Digit (a % 4 * 16)]
  | [a, b] => [base64Digit (a / 4), base64Digit (a % 4 * 16 + b / 16), base64Digit (b % 16 * 4)]
  | a :: b :: c :: l =>
      base64Digit (a / 4) :: base64Digit (a % 4 * 16 + b / 16) :: base64Digit (b % 16 * 4 + c / 64) ::
        base64Digit (c % 64) :: base64Digits l

/-- `buffer.toString('base64url')`.
Kind: D -/
def base64url (bytes : List (Fin 256)) : JsString := (base64Digits bytes).map unit

section Base64

variable {l l' : List (Fin 256)}

theorem base64Alphabet_eq : base64Alphabet =
    ['A', 'B', 'C', 'D', 'E', 'F', 'G', 'H', 'I', 'J', 'K', 'L', 'M', 'N', 'O', 'P', 'Q', 'R', 'S', 'T', 'U',
      'V', 'W', 'X', 'Y', 'Z', 'a', 'b', 'c', 'd', 'e', 'f', 'g', 'h', 'i', 'j', 'k', 'l', 'm', 'n', 'o', 'p',
      'q', 'r', 's', 't', 'u', 'v', 'w', 'x', 'y', 'z', '0', '1', '2', '3', '4', '5', '6', '7', '8', '9', '-',
      '_'] := by
  unfold base64Alphabet
  simp

/-- The code of a digit.
Kind: L -/
theorem toNat_base64Digit {n : ℕ} (hn : n < 64) :
    (base64Digit n).toNat =
      if n < 26 then n + 65
      else if n < 52 then n + 71
      else if n < 62 then n - 4
      else if n = 62 then 45
      else 95 := by
  unfold base64Digit
  rw [base64Alphabet_eq]
  revert n
  decide

theorem base64Digit_inj {m n : ℕ} (hm : m < 64) (hn : n < 64) (h : base64Digit m = base64Digit n) :
    m = n := by
  have hcode := congrArg Char.toNat h
  rw [toNat_base64Digit hm, toNat_base64Digit hn] at hcode
  split_ifs at hcode <;> omega

theorem base64Digit_mem (n : ℕ) : base64Digit n ∈ base64Alphabet := by
  rw [base64Digit, List.getD_eq_getElem?_getD]
  rcases hn : base64Alphabet[n]? with _ | c
  · rw [base64Alphabet_eq]
    decide
  · exact List.mem_of_getElem? hn

/-- Base64url writes nothing but its digits.
Kind: L -/
theorem mem_base64Digits {c : Char} (h : c ∈ base64Digits l) : c ∈ base64Alphabet := by
  induction l using base64Digits.induct with
  | case1 => exact absurd h List.not_mem_nil
  | case2 a =>
      simp only [base64Digits, List.mem_cons, List.not_mem_nil, or_false] at h
      rcases h with rfl | rfl <;> exact base64Digit_mem _
  | case3 a b =>
      simp only [base64Digits, List.mem_cons, List.not_mem_nil, or_false] at h
      rcases h with rfl | rfl | rfl <;> exact base64Digit_mem _
  | case4 a b c l ih =>
      simp only [base64Digits, List.mem_cons] at h
      rcases h with rfl | rfl | rfl | rfl | h
      · exact base64Digit_mem _
      · exact base64Digit_mem _
      · exact base64Digit_mem _
      · exact base64Digit_mem _
      · exact ih h

/-- The digits tell the bytes.
Kind: P -/
theorem base64Digits_inj (h : base64Digits l = base64Digits l') : l = l' := by
  induction l using base64Digits.induct generalizing l' with
  | case1 =>
      rcases l' with _ | ⟨a', _ | ⟨b', _ | ⟨c', l'⟩⟩⟩
      · rfl
      all_goals exact absurd h (by simp [base64Digits])
  | case2 a =>
      rcases l' with _ | ⟨a', _ | ⟨b', _ | ⟨c', l'⟩⟩⟩
      · exact absurd h (by simp [base64Digits])
      · simp only [base64Digits, List.cons.injEq, and_true] at h
        have h₁ := base64Digit_inj (by omega) (by omega) h.1
        have h₂ := base64Digit_inj (by omega) (by omega) h.2
        have ha : a = a' := by omega
        rw [ha]
      all_goals exact absurd h (by simp [base64Digits])
  | case3 a b =>
      rcases l' with _ | ⟨a', _ | ⟨b', _ | ⟨c', l'⟩⟩⟩
      · exact absurd h (by simp [base64Digits])
      · exact absurd h (by simp [base64Digits])
      · simp only [base64Digits, List.cons.injEq, and_true] at h
        have h₁ := base64Digit_inj (by omega) (by omega) h.1
        have h₂ := base64Digit_inj (by omega) (by omega) h.2.1
        have h₃ := base64Digit_inj (by omega) (by omega) h.2.2
        have ha : a = a' := by omega
        have hb : b = b' := by omega
        rw [ha, hb]
      · exact absurd h (by simp [base64Digits])
  | case4 a b c l ih =>
      rcases l' with _ | ⟨a', _ | ⟨b', _ | ⟨c', l'⟩⟩⟩
      · exact absurd h (by simp [base64Digits])
      · exact absurd h (by simp [base64Digits])
      · exact absurd h (by simp [base64Digits])
      · simp only [base64Digits, List.cons.injEq] at h
        have h₁ := base64Digit_inj (by omega) (by omega) h.1
        have h₂ := base64Digit_inj (by omega) (by omega) h.2.1
        have h₃ := base64Digit_inj (by omega) (by omega) h.2.2.1
        have h₄ := base64Digit_inj (by omega) (by omega) h.2.2.2.1
        have ha : a = a' := by omega
        have hb : b = b' := by omega
        have hc : c = c' := by omega
        rw [ha, hb, hc, ih h.2.2.2.2]

/-- What is so for each digit is so for each character of base64url.
Kind: L -/
theorem forall_mem_base64Digits {p : Char → Prop} [DecidablePred p]
    (h : base64Alphabet.all (fun c => decide (p c)) = true) : ∀ c ∈ base64Digits l, p c := by
  intro c hc
  exact of_decide_eq_true (List.all_eq_true.mp h c (mem_base64Digits hc))

/-- Base64url stands for itself.
Kind: L -/
theorem scalars_base64url (bytes : List (Fin 256)) (s : JsString) :
    scalars (base64url bytes ++ s) = base64Digits bytes ++ scalars s := by
  have hascii : ∀ c ∈ base64Digits bytes, utf16Char c = [unit c] := by
    apply forall_mem_base64Digits
    rw [base64Alphabet_eq]
    decide
  have hflat : base64url bytes = (base64Digits bytes).flatMap utf16Char := by
    rw [base64url, List.map_eq_flatMap]
    exact List.flatMap_congr fun c hc => (hascii c hc).symm
  rw [hflat, scalars_flatMap]

end Base64

end TyoMq.Lib
