import TyoMq.Lib.Utf8

/-!
# Decoding UTF-8 piece by piece

The UTF-8 decoder of the web's encoding standard, a machine that takes a byte at a time, and the
`TextDecoder` around it, which drops a byte order mark at the front and may be given its bytes in chunks.

* Where the bytes are cut makes no difference (`TextDecoder.decode_append`).
* The decoder undoes `encode` (`Utf8Decoder.run_encode`). What is not UTF-8 becomes replacement characters.
-/

namespace TyoMq.Lib

/-! ### The decoder -/

/-- What the decoder knows of a character that it is in the middle of.
Kind: D -/
structure Utf8Decoder where
  /-- How many bytes are missing. -/
  needed : ℕ
  /-- The code point so far. -/
  codePoint : ℕ
  /-- The least byte that may come next. -/
  lower : ℕ
  /-- The greatest. -/
  upper : ℕ
  deriving DecidableEq

namespace Utf8Decoder

/-- Between characters.
Kind: D -/
def idle : Utf8Decoder := ⟨0, 0, 0x80, 0xBF⟩

/-- A byte between characters, and what comes out.
Kind: D -/
def lead (b : ℕ) : Utf8Decoder × List Char :=
  if b < 0x80 then (idle, [Char.ofNat b])
  else if 0xC2 ≤ b ∧ b ≤ 0xDF then (⟨1, b - 0xC0, 0x80, 0xBF⟩, [])
  else if 0xE0 ≤ b ∧ b ≤ 0xEF then
    (⟨2, b - 0xE0, if b = 0xE0 then 0xA0 else 0x80, if b = 0xED then 0x9F else 0xBF⟩, [])
  else if 0xF0 ≤ b ∧ b ≤ 0xF4 then
    (⟨3, b - 0xF0, if b = 0xF0 then 0x90 else 0x80, if b = 0xF4 then 0x8F else 0xBF⟩, [])
  else (idle, [replacement])

/-- A byte, and what comes out. One that does not go on with the character starts another.
Kind: D -/
def step (d : Utf8Decoder) (b : Fin 256) : Utf8Decoder × List Char :=
  if d.needed = 0 then lead b.val
  else if d.lower ≤ b.val ∧ b.val ≤ d.upper then
    let codePoint := d.codePoint * 64 + (b.val - 0x80)
    if d.needed = 1 then (idle, [Char.ofNat codePoint])
    else (⟨d.needed - 1, codePoint, 0x80, 0xBF⟩, [])
  else ((lead b.val).1, replacement :: (lead b.val).2)

/-- Bytes, and what comes out.
Kind: D -/
def run (d : Utf8Decoder) : List (Fin 256) → Utf8Decoder × List Char
  | [] => (d, [])
  | b :: bytes => (((d.step b).1.run bytes).1, (d.step b).2 ++ ((d.step b).1.run bytes).2)

/-- The end of the bytes.
Kind: D -/
def flush (d : Utf8Decoder) : List Char := if d.needed = 0 then [] else [replacement]

theorem run_append (d : Utf8Decoder) (a b : List (Fin 256)) :
    d.run (a ++ b) = (((d.run a).1.run b).1, (d.run a).2 ++ ((d.run a).1.run b).2) := by
  induction a generalizing d with
  | nil => rfl
  | cons c a ih => simp only [List.cons_append, run, ih, List.append_assoc]

section Encode

variable {b : Fin 256} {bytes : List (Fin 256)}

/-- A first byte of several.
Kind: L -/
theorem run_lead {d : Utf8Decoder} (h : lead b.val = (d, [])) :
    idle.run (b :: bytes) = d.run bytes := by
  have hstep : idle.step b = (d, []) := h
  rw [run, hstep, List.nil_append]

/-- A byte that goes on with the character, and is not the last.
Kind: L -/
theorem run_middle {n cp lower upper : ℕ} (hlow : lower ≤ b.val) (hup : b.val ≤ upper) :
    (⟨n + 2, cp, lower, upper⟩ : Utf8Decoder).run (b :: bytes) =
      (⟨n + 1, cp * 64 + (b.val - 0x80), 0x80, 0xBF⟩ : Utf8Decoder).run bytes := by
  have hstep : (⟨n + 2, cp, lower, upper⟩ : Utf8Decoder).step b =
      (⟨n + 1, cp * 64 + (b.val - 0x80), 0x80, 0xBF⟩, []) := by
    simp [step, hlow, hup]
  rw [run, hstep, List.nil_append]

/-- The last byte of a character.
Kind: L -/
theorem run_last {cp lower upper : ℕ} (hlow : lower ≤ b.val) (hup : b.val ≤ upper) :
    (⟨1, cp, lower, upper⟩ : Utf8Decoder).run [b] = (idle, [Char.ofNat (cp * 64 + (b.val - 0x80))]) := by
  have hstep : (⟨1, cp, lower, upper⟩ : Utf8Decoder).step b =
      (idle, [Char.ofNat (cp * 64 + (b.val - 0x80))]) := by
    simp [step, hlow, hup]
  rw [run, hstep]
  rfl

section Lengths

variable {v : ℕ} {b1 b2 b3 b4 : Fin 256}

theorem run_one (h : b1.val = v) (hv : v < 0x80) : idle.run [b1] = (idle, [Char.ofNat v]) := by
  have hlead : lead b1.val = (idle, [Char.ofNat v]) := by
    rw [h, lead, if_pos hv]
  have hstep : idle.step b1 = (idle, [Char.ofNat v]) := hlead
  rw [run, hstep]
  rfl

theorem run_two (h1 : b1.val = v / 64 % 32 + 192) (h2 : b2.val = v % 64 + 128) (hlow : 0x80 ≤ v)
    (hup : v < 0x800) : idle.run [b1, b2] = (idle, [Char.ofNat v]) := by
  have hlead : lead b1.val = (⟨1, b1.val - 0xC0, 0x80, 0xBF⟩, []) := by
    rw [lead, if_neg (by omega), if_pos (by omega)]
  have hcp : (b1.val - 0xC0) * 64 + (b2.val - 0x80) = v := by omega
  rw [run_lead hlead, run_last (by omega) (by omega), hcp]

/-- What the second byte may be excludes long forms and surrogates.
Kind: L -/
theorem run_three (h1 : b1.val = v / 4096 % 16 + 224) (h2 : b2.val = v / 64 % 64 + 128)
    (h3 : b3.val = v % 64 + 128) (hlow : 0x800 ≤ v) (hup : v < 0x10000)
    (hvalid : v < 0xD800 ∨ 0xDFFF < v) : idle.run [b1, b2, b3] = (idle, [Char.ofNat v]) := by
  have hlead : lead b1.val = (⟨2, b1.val - 0xE0, if b1.val = 0xE0 then 0xA0 else 0x80,
      if b1.val = 0xED then 0x9F else 0xBF⟩, []) := by
    rw [lead, if_neg (by omega), if_neg (by omega), if_pos (by omega)]
  have hleast : (if b1.val = 0xE0 then 0xA0 else 0x80) ≤ b2.val := by split_ifs <;> omega
  have hgreatest : b2.val ≤ if b1.val = 0xED then 0x9F else 0xBF := by split_ifs <;> omega
  have hcp : ((b1.val - 0xE0) * 64 + (b2.val - 0x80)) * 64 + (b3.val - 0x80) = v := by omega
  rw [run_lead hlead, run_middle hleast hgreatest, run_last (by omega) (by omega), hcp]

theorem run_four (h1 : b1.val = v / 262144 % 8 + 240) (h2 : b2.val = v / 4096 % 64 + 128)
    (h3 : b3.val = v / 64 % 64 + 128) (h4 : b4.val = v % 64 + 128) (hlow : 0x10000 ≤ v)
    (hup : v < 0x110000) : idle.run [b1, b2, b3, b4] = (idle, [Char.ofNat v]) := by
  have hlead : lead b1.val = (⟨3, b1.val - 0xF0, if b1.val = 0xF0 then 0x90 else 0x80,
      if b1.val = 0xF4 then 0x8F else 0xBF⟩, []) := by
    rw [lead, if_neg (by omega), if_neg (by omega), if_neg (by omega), if_pos (by omega)]
  have hleast : (if b1.val = 0xF0 then 0x90 else 0x80) ≤ b2.val := by split_ifs <;> omega
  have hgreatest : b2.val ≤ if b1.val = 0xF4 then 0x8F else 0xBF := by split_ifs <;> omega
  have hcp : (((b1.val - 0xF0) * 64 + (b2.val - 0x80)) * 64 + (b3.val - 0x80)) * 64 +
      (b4.val - 0x80) = v := by omega
  rw [run_lead hlead, run_middle hleast hgreatest, run_middle (by omega) (by omega),
    run_last (by omega) (by omega), hcp]

end Lengths

theorem val_toFin_ofNat {n : ℕ} (h : n < 256) : (UInt8.ofNat n).toFin.val = n := by
  show n % 256 = n
  exact Nat.mod_eq_of_lt h

/-- The bytes of one character are that character.
Kind: L -/
theorem run_encode_singleton (c : Char) : idle.run (encode [c]) = (idle, [c]) := by
  have hback : Char.ofNat c.val.toNat = c := Char.ofNat_toNat c
  have hvalid : c.val.toNat < 0xD800 ∨ 0xDFFF < c.val.toNat ∧ c.val.toNat < 0x110000 := toNat_char c
  rw [encode, List.flatMap_singleton, String.utf8EncodeChar]
  generalize c.val.toNat = v at hback hvalid ⊢
  rw [← hback]
  split_ifs with h1 h2 h3
  · have hb1 := @val_toFin_ofNat v (by omega)
    exact run_one hb1 (by omega)
  · have hb1 := @val_toFin_ofNat (v / 64 % 32 + 192) (by omega)
    have hb2 := @val_toFin_ofNat (v % 64 + 128) (by omega)
    exact run_two hb1 hb2 (by omega) (by omega)
  · have hb1 := @val_toFin_ofNat (v / 4096 % 16 + 224) (by omega)
    have hb2 := @val_toFin_ofNat (v / 64 % 64 + 128) (by omega)
    have hb3 := @val_toFin_ofNat (v % 64 + 128) (by omega)
    exact run_three hb1 hb2 hb3 (by omega) (by omega) (by omega)
  · have hb1 := @val_toFin_ofNat (v / 262144 % 8 + 240) (by omega)
    have hb2 := @val_toFin_ofNat (v / 4096 % 64 + 128) (by omega)
    have hb3 := @val_toFin_ofNat (v / 64 % 64 + 128) (by omega)
    have hb4 := @val_toFin_ofNat (v % 64 + 128) (by omega)
    exact run_four hb1 hb2 hb3 hb4 (by omega) (by omega)

/-- **Decoding undoes encoding.**
Kind: P -/
theorem run_encode (l : List Char) : idle.run (encode l) = (idle, l) := by
  induction l with
  | nil => rfl
  | cons c l ih =>
      rw [← List.singleton_append, encode_append, run_append, run_encode_singleton, ih]

end Encode

end Utf8Decoder

/-! ### The text decoder -/

/-- The byte order mark.
Kind: D -/
def byteOrderMark : Char := Char.ofNat 0xFEFF

/-- `new TextDecoder()`, in the middle of a stream.
Kind: D -/
structure TextDecoder where
  /-- What it knows of the next character. -/
  decoder : Utf8Decoder
  /-- Has there been a first character, after which no byte order mark is dropped? -/
  bomSeen : Bool
  deriving DecidableEq

namespace TextDecoder

/-- Nothing has been decoded.
Kind: D -/
def init : TextDecoder := ⟨Utf8Decoder.idle, false⟩

/-- Characters without the byte order mark at the front.
Kind: D -/
def dropBom : Bool → List Char → Bool × List Char
  | false, c :: l => (true, if c = byteOrderMark then l else c :: l)
  | seen, l => (seen, l)

/-- `decoder.decode(chunk, {stream: true})`.
Kind: D -/
def decode (t : TextDecoder) (chunk : List (Fin 256)) : TextDecoder × JsString :=
  let r := t.decoder.run chunk
  let out := dropBom t.bomSeen r.2
  (⟨r.1, out.1⟩, out.2.flatMap utf16Char)

/-- `new TextDecoder().decode(bytes)`.
Kind: D -/
def text (bytes : List (Fin 256)) : JsString :=
  let r := Utf8Decoder.idle.run bytes
  (dropBom false (r.2 ++ r.1.flush)).2.flatMap utf16Char

theorem dropBom_append (seen : Bool) (l l' : List Char) :
    dropBom seen (l ++ l') =
      ((dropBom (dropBom seen l).1 l').1, (dropBom seen l).2 ++ (dropBom (dropBom seen l).1 l').2) := by
  cases seen with
  | true => rfl
  | false =>
      cases l with
      | nil => cases l' <;> rfl
      | cons c l =>
          by_cases hc : c = byteOrderMark
          · simp [dropBom, hc]
          · simp [dropBom, hc]

/-- Where the bytes are cut makes no difference.
Kind: P -/
theorem decode_append (t : TextDecoder) (a b : List (Fin 256)) :
    t.decode (a ++ b) = (((t.decode a).1.decode b).1, (t.decode a).2 ++ ((t.decode a).1.decode b).2) := by
  simp only [decode, Utf8Decoder.run_append, dropBom_append, List.flatMap_append]

/-- The whole text is what has come out of the stream, and maybe a replacement character.
Kind: P -/
theorem text_eq (bytes : List (Fin 256)) :
    text bytes = (init.decode bytes).2 ∨ text bytes = (init.decode bytes).2 ++ utf16Char replacement := by
  unfold text decode init
  simp only [dropBom_append, List.flatMap_append]
  generalize (Utf8Decoder.idle.run bytes).2 = l
  unfold Utf8Decoder.flush
  split_ifs with hidle
  · left
    cases (dropBom false l).1 <;> simp [dropBom]
  · right
    have hne : replacement ≠ byteOrderMark := by decide
    cases (dropBom false l).1 <;> simp [dropBom, hne]

/-- A text that is encoded comes back, without the byte order mark.
Kind: P -/
theorem text_encode (l : List Char) : text (encode l) = (dropBom false l).2.flatMap utf16Char := by
  rw [text, Utf8Decoder.run_encode]
  simp [Utf8Decoder.flush, Utf8Decoder.idle]

end TextDecoder

end TyoMq.Lib
