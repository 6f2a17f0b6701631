import TyoMq.Push.Reserved

/-!
# Push endpoints: the spellings of an address

An IPv6 address has many texts. What the classifier makes of one depends on the sixteen bytes only.

* **One class for all spellings** (`classifyAddress_render`): two texts of an address have the same class,
  an address that carries an IPv4 address has the class of its dotted quad, and outside `2000::/3` all the
  others are refused.
* Every address has a text (`exists_text`).
-/

namespace TyoMq.Push

open TyoMq.Lib

/-! ### Kinds of addresses -/

/-- `::`.
Kind: D -/
def unspecified : List UInt8 := List.replicate 16 0

/-- `::1`.
Kind: D -/
def loopback : List UInt8 := List.replicate 15 0 ++ [1]

/-- The address carries the IPv4 address in one of the forms that are decoded.
Kind: D -/
def Carries (bytes : List UInt8) (v4 : V4) : Prop :=
  bytes ≠ unspecified ∧ bytes ≠ loopback ∧ ∃ e, e ≠ Embedding.teredo ∧ Embeds bytes v4 e

/-- The address is in `2000::/3`: its first three bits are 001.
Kind: D -/
def IsGlobal (bytes : List UInt8) : Prop := (byteAt bytes 0).toNat / 2 ^ 5 = 1

/-! ### Their classes -/

section Classes

variable {bytes : List UInt8} {v4 : V4}

/-- What is carried decides.
Kind: P -/
theorem classifyV6_of_carries (h : Carries bytes v4) : classifyV6 bytes = classifyV4 v4 := by
  obtain ⟨hunspecified, hloopback, e, hteredo, hembeds⟩ := h
  cases e with
  | mapped =>
      rw [show bytes = _ from hembeds]
      exact classifyV6_mapped v4
  | compatible =>
      rw [show bytes = _ from hembeds] at hunspecified hloopback ⊢
      apply classifyV6_compatible
      constructor
      · rintro rfl
        exact hunspecified rfl
      · rintro rfl
        exact hloopback rfl
  | nat64 =>
      rw [show bytes = _ from hembeds]
      exact classifyV6_nat64 v4
  | sixToFour =>
      obtain ⟨rest, rfl⟩ := hembeds
      exact classifyV6_sixToFour v4 rest
  | teredo => exact absurd rfl hteredo

theorem classifyV6_loopback : classifyV6 loopback = .loopback := by decide

/-- The mask of the first three bits.
Kind: L -/
theorem and_mask_iff (x : UInt8) : x &&& 0xe0 = 0x20 ↔ x.toNat / 2 ^ 5 = 1 := by
  have hall : ∀ n : Fin 256, n.val &&& 0xe0 = 0x20 ↔ n.val / 2 ^ 5 = 1 := by decide +kernel
  rw [← UInt8.toNat_inj, UInt8.toNat_and]
  exact hall ⟨x.toNat, x.toNat_lt⟩

/-- The bytes from one on, the first of them written out.
Kind: L -/
theorem drop_eq_cons {i : ℕ} (hi : i < bytes.length) :
    bytes.drop i = byteAt bytes i :: bytes.drop (i + 1) := by
  rw [List.drop_eq_getElem_cons hi, byteAt, List.getD_eq_getElem?_getD, List.getElem?_eq_getElem hi,
    Option.getD_some]

theorem drop_eq_v4At {i : ℕ} (hi : i + 4 ≤ bytes.length) :
    bytes.drop i = (v4At bytes i).bytes ++ bytes.drop (i + 4) := by
  rw [drop_eq_cons (by omega), drop_eq_cons (by omega), drop_eq_cons (by omega), drop_eq_cons (by omega)]
  rfl

theorem drop_eq_replicate {i j : ℕ} (hij : i ≤ j) (hj : j ≤ bytes.length) (h : zeroFrom bytes i j = true) :
    bytes.drop i = List.replicate (j - i) 0 ++ bytes.drop j := by
  have hzero : (bytes.drop i).take (j - i) = List.replicate (j - i) 0 := by
    apply List.eq_replicate_iff.mpr
    refine ⟨List.length_take_of_le (by rw [List.length_drop]; omega), ?_⟩
    intro x hx
    exact of_decide_eq_true (List.all_eq_true.mp h x hx)
  rw [← hzero, ← Nat.add_sub_cancel' hij, ← List.drop_drop, Nat.add_sub_cancel_left,
    List.take_append_drop]

theorem drop_twelve (hlength : bytes.length = 16) : bytes.drop 12 = (v4At bytes 12).bytes := by
  have hend : bytes.drop 16 = [] := List.drop_of_length_le (Nat.le_of_eq hlength)
  have hlast : bytes.drop 12 = (v4At bytes 12).bytes ++ bytes.drop 16 := drop_eq_v4At (by omega)
  rw [hlast, hend, List.append_nil]

/-- What the tests of the classifier say about sixteen bytes.
Kind: L -/
theorem embeds_mapped (hlength : bytes.length = 16)
    (h : zeroFrom bytes 0 10 && decide (byteAt bytes 10 = 0xff) && decide (byteAt bytes 11 = 0xff)) :
    Embeds bytes (v4At bytes 12) .mapped := by
  simp only [Bool.and_eq_true, decide_eq_true_eq] at h
  obtain ⟨⟨hzero, h₁₀⟩, h₁₁⟩ := h
  have hten : bytes.drop 10 = byteAt bytes 10 :: bytes.drop 11 := drop_eq_cons (by omega)
  have heleven : bytes.drop 11 = byteAt bytes 11 :: bytes.drop 12 := drop_eq_cons (by omega)
  calc bytes = List.replicate 10 0 ++ bytes.drop 10 := drop_eq_replicate (by omega) (by omega) hzero
    _ = List.replicate 10 0 ++ [0xff, 0xff] ++ (v4At bytes 12).bytes := by
        rw [hten, heleven, h₁₀, h₁₁, drop_twelve hlength]
        rfl

theorem embeds_nat64 (hlength : bytes.length = 16)
    (h : decide (byteAt bytes 0 = 0x00 ∧ byteAt bytes 1 = 0x64 ∧ byteAt bytes 2 = 0xff ∧
      byteAt bytes 3 = 0x9b) && zeroFrom bytes 4 12) :
    Embeds bytes (v4At bytes 12) .nat64 := by
  simp only [Bool.and_eq_true, decide_eq_true_eq] at h
  obtain ⟨⟨h₀, h₁, h₂, h₃⟩, hzero⟩ := h
  have hfour : bytes.drop 4 = List.replicate 8 0 ++ bytes.drop 12 :=
    drop_eq_replicate (by omega) (by omega) hzero
  calc bytes = (v4At bytes 0).bytes ++ bytes.drop 4 := drop_eq_v4At (i := 0) (by omega)
    _ = [0x00, 0x64, 0xff, 0x9b] ++ List.replicate 8 0 ++ (v4At bytes 12).bytes := by
        rw [hfour, drop_twelve hlength, v4At, h₀, h₁, h₂, h₃]
        rfl

theorem embeds_sixToFour (hlength : bytes.length = 16)
    (h : byteAt bytes 0 = 0x20 ∧ byteAt bytes 1 = 0x02) : Embeds bytes (v4At bytes 2) .sixToFour := by
  have hone : bytes.drop 1 = byteAt bytes 1 :: bytes.drop 2 := drop_eq_cons (by omega)
  have htwo : bytes.drop 2 = (v4At bytes 2).bytes ++ bytes.drop 6 := drop_eq_v4At (by omega)
  refine ⟨bytes.drop 6, ?_⟩
  calc bytes = byteAt bytes 0 :: bytes.drop 1 := drop_eq_cons (i := 0) (by omega)
    _ = [0x20, 0x02] ++ (v4At bytes 2).bytes ++ bytes.drop 6 := by
        rw [hone, htwo, h.1, h.2]
        rfl

theorem embeds_compatible (hlength : bytes.length = 16) (h : zeroFrom bytes 0 12 = true) :
    Embeds bytes (v4At bytes 12) .compatible := by
  calc bytes = List.replicate 12 0 ++ bytes.drop 12 := drop_eq_replicate (by omega) (by omega) h
    _ = List.replicate 12 0 ++ (v4At bytes 12).bytes := by rw [drop_twelve hlength]

theorem eq_loopback (hlength : bytes.length = 16)
    (h : zeroFrom bytes 0 15 && decide (byteAt bytes 15 = 1)) : bytes = loopback := by
  simp only [Bool.and_eq_true, decide_eq_true_eq] at h
  have hlast : bytes.drop 15 = byteAt bytes 15 :: bytes.drop 16 := drop_eq_cons (by omega)
  calc bytes = List.replicate 15 0 ++ bytes.drop 15 := drop_eq_replicate (by omega) (by omega) h.1
    _ = loopback := by
        rw [hlast, h.2, List.drop_of_length_le (Nat.le_of_eq hlength)]
        rfl

/-- Nothing else outside `2000::/3` is let through.
Kind: P -/
theorem classifyV6_eq_blocked (hlength : bytes.length = 16) (hcarries : ∀ v4, ¬ Carries bytes v4)
    (hloopback : bytes ≠ loopback) (hglobal : ¬ IsGlobal bytes) : classifyV6 bytes = .blocked := by
  by_cases hunspecified : bytes = unspecified
  · rw [hunspecified]
    decide
  have hno : ∀ v4 e, e ≠ Embedding.teredo → ¬ Embeds bytes v4 e := fun v4 e he hembeds =>
    hcarries v4 ⟨hunspecified, hloopback, e, he, hembeds⟩
  rw [classifyV6, if_neg fun h => hno _ .mapped (by decide) (embeds_mapped hlength h),
    if_neg fun h => hno _ .nat64 (by decide) (embeds_nat64 hlength h),
    if_neg fun h => hno _ .sixToFour (by decide) (embeds_sixToFour hlength h),
    if_neg fun h => hno _ .compatible (by decide)
      (embeds_compatible hlength (Bool.and_eq_true_iff.mp h).1),
    if_neg fun h => hloopback (eq_loopback hlength h), if_neg fun h => hglobal ((and_mask_iff _).mp h)]
  simp only [ite_self]

end Classes

/-! ### Texts -/

/-- The group of a word.
Kind: D -/
def Group.ofNat (n : ℕ) (h : n < 16 ^ 4) : Group :=
  ⟨toRadix 16 n, isNumeral_toRadix (by omega) (by omega) (by omega) h⟩

theorem Group.value_ofNat {n : ℕ} (h : n < 16 ^ 4) : (Group.ofNat n h).value = n :=
  readDigits_toRadix (by omega) (by omega) n

/-- Every address has a text.
Kind: P -/
theorem exists_text {bytes : List UInt8} (hlength : bytes.length = 16) :
    ∃ t : AddressText, t.bytes = bytes := by
  have hword : ∀ x y : UInt8, x.toNat * 256 + y.toNat < 16 ^ 4 := by
    intro x y
    have hx := x.toNat_lt
    have hy := y.toNat_lt
    omega
  have hhigh : ∀ x y : UInt8, UInt8.ofNat ((x.toNat * 256 + y.toNat) / 256) = x := by
    intro x y
    have hy := y.toNat_lt
    rw [show (x.toNat * 256 + y.toNat) / 256 = x.toNat by omega]
    exact UInt8.ofNat_toNat
  match bytes, hlength with
  | [b₀, b₁, b₂, b₃, b₄, b₅, b₆, b₇, b₈, b₉, b₁₀, b₁₁, b₁₂, b₁₃, b₁₄, b₁₅], _ =>
      refine ⟨⟨[.ofNat _ (hword b₀ b₁), .ofNat _ (hword b₂ b₃), .ofNat _ (hword b₄ b₅),
        .ofNat _ (hword b₆ b₇), .ofNat _ (hword b₈ b₉), .ofNat _ (hword b₁₀ b₁₁),
        .ofNat _ (hword b₁₂ b₁₃), .ofNat _ (hword b₁₄ b₁₅)], none, none, none, rfl⟩, ?_⟩
      simp [AddressText.bytes, AddressText.value, AddressText.words, Group.value_ofNat, hhigh]

/-- A text has the class of its bytes, whatever family it is passed with.
Kind: L -/
theorem classifyAddress_eq (t : AddressText) (family : Option ℕ) :
    classifyAddress t.render family = if family = some 4 then .blocked else classifyV6 t.bytes := by
  have hquad : parseIPv4 t.render = none := parseIPv4_eq_none t.colon_mem_render
  have hno : isIPv4 t.render = false := by rw [isIPv4, hquad]
  rw [classifyAddress, hno, hquad, AddressText.parseIPv6_render]
  by_cases hfamily : family = some 4 <;> simp [hfamily]

theorem length_bytes (t : AddressText) : t.bytes.length = 16 := by
  simp [AddressText.bytes, List.length_flatMap, AddressText.length_value]

/-- **One class for all spellings.** Two texts of an IPv6 address have the same class. With a family other
than 4: a text of an address that carries an IPv4 address has the class of its dotted quad, one of `::1` is
loopback, and one of any other address outside `2000::/3` is refused.
Kind: C -/
theorem classifyAddress_render (family : Option ℕ) :
    (∀ t t' : AddressText, t.bytes = t'.bytes →
      classifyAddress t.render family = classifyAddress t'.render family) ∧
    (family ≠ some 4 → ∀ t : AddressText,
      (∀ v4, Carries t.bytes v4 → classifyAddress t.render family = classifyAddress v4.text none) ∧
      (t.bytes = loopback → classifyAddress t.render family = .loopback) ∧
      (¬ IsGlobal t.bytes → t.bytes ≠ loopback → (∀ v4, ¬ Carries t.bytes v4) →
        classifyAddress t.render family = .blocked)) := by
  refine ⟨?_, ?_⟩
  · intro t t' hbytes
    rw [classifyAddress_eq, classifyAddress_eq, hbytes]
  · intro hfamily t
    rw [classifyAddress_eq, if_neg hfamily]
    refine ⟨?_, ?_, ?_⟩
    · intro v4 hcarries
      rw [classifyV6_of_carries hcarries, classifyAddress, if_pos (Or.inr (isIPv4_text v4)),
        parseIPv4_text]
    · intro hloopback
      rw [hloopback]
      exact classifyV6_loopback
    · intro hglobal hloopback hcarries
      exact classifyV6_eq_blocked (length_bytes t) hcarries hloopback hglobal

/-- The text `0064:FF9B:0::10.0.0.1%eth0`.
Kind: D -/
def nat64QuadText : AddressText :=
  ⟨[⟨js "0064", by decide⟩, ⟨js "FF9B", by decide⟩, ⟨js "0", by decide⟩], some [], some ⟨10, 0, 0, 1⟩,
    some (js "eth0"), by decide⟩

/-- Another text of the address that `nat64Text` writes.
Kind: L -/
theorem classifyAddress_render_nat64 :
    classifyAddress nat64QuadText.render none = classifyAddress nat64Text.render none ∧
      classifyAddress nat64Text.render none = classifyAddress (V4.text ⟨10, 0, 0, 1⟩) none := by
  have hembeds : Embeds nat64Text.bytes ⟨10, 0, 0, 1⟩ .nat64 := by
    unfold Embeds
    decide
  have hcarries : Carries nat64Text.bytes ⟨10, 0, 0, 1⟩ :=
    ⟨by decide, by decide, .nat64, by decide, hembeds⟩
  refine ⟨(classifyAddress_render none).1 _ _ (by decide), ?_⟩
  exact ((classifyAddress_render none).2 (by decide) nat64Text).1 _ hcarries

end TyoMq.Push
