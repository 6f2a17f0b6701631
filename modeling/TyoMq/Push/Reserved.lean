import TyoMq.Push.AddressText

/-!
# Push endpoints: which addresses the guard lets through

* **Exactly the ranges refused** (`classifyAddress_ne_ok_iff`): the guard refuses an IPv4 address,
  in any text and in any embedding that it decodes, exactly when it is in one of six ranges; an
  address inside a Teredo address it never refuses.
* **Not all that is reserved** (`ok_sharedAddress`): five ranges that are not globally reachable are
  let through.
-/

namespace TyoMq.Push

open TyoMq.Lib

/-! ### Ranges -/

/-- The 32-bit number of an IPv4 address.
Kind: D -/
def V4.toNat (v4 : V4) : ℕ :=
  v4.a.toNat * 2 ^ 24 + v4.b.toNat * 2 ^ 16 + v4.c.toNat * 2 ^ 8 + v4.d.toNat

/-- The addresses that share their first `bits` bits with `base`, `base/bits` for short.
Kind: D -/
structure Range where
  /-- The first address. -/
  base : V4
  /-- The length of the prefix. -/
  bits : ℕ
  deriving DecidableEq

/-- Is the address in the range?
Kind: D -/
def V4.InRange (v4 : V4) (r : Range) : Prop :=
  v4.toNat / 2 ^ (32 - r.bits) = r.base.toNat / 2 ^ (32 - r.bits)

instance (v4 : V4) (r : Range) : Decidable (v4.InRange r) :=
  inferInstanceAs (Decidable (_ = _))

/-- The ranges that are not globally reachable.
Kind: D -/
def reserved : List Range :=
  [⟨⟨0, 0, 0, 0⟩, 8⟩, ⟨⟨10, 0, 0, 0⟩, 8⟩, ⟨⟨100, 64, 0, 0⟩, 10⟩, ⟨⟨127, 0, 0, 0⟩, 8⟩,
    ⟨⟨169, 254, 0, 0⟩, 16⟩, ⟨⟨172, 16, 0, 0⟩, 12⟩, ⟨⟨192, 0, 0, 0⟩, 24⟩, ⟨⟨192, 168, 0, 0⟩, 16⟩,
    ⟨⟨198, 18, 0, 0⟩, 15⟩, ⟨⟨224, 0, 0, 0⟩, 4⟩, ⟨⟨240, 0, 0, 0⟩, 4⟩]

/-- The ranges that `classifyV4` knows.
Kind: D -/
def refused : List Range :=
  [⟨⟨0, 0, 0, 0⟩, 8⟩, ⟨⟨10, 0, 0, 0⟩, 8⟩, ⟨⟨127, 0, 0, 0⟩, 8⟩, ⟨⟨169, 254, 0, 0⟩, 16⟩,
    ⟨⟨172, 16, 0, 0⟩, 12⟩, ⟨⟨192, 168, 0, 0⟩, 16⟩]

/-- The address is in one of the reserved ranges.
Kind: D -/
def V4.Reserved (v4 : V4) : Prop := ∃ r ∈ reserved, v4.InRange r

/-- The address is in one of the ranges that `classifyV4` knows.
Kind: D -/
def V4.Refused (v4 : V4) : Prop := ∃ r ∈ refused, v4.InRange r

/-- A range of eight bits is told by the first byte.
Kind: L -/
theorem V4.inRange_eight {v4 base : V4} : v4.InRange ⟨base, 8⟩ ↔ v4.a = base.a := by
  have hhead : ∀ v : V4, v.toNat / 2 ^ 24 = v.a.toNat := by
    intro v
    have hb := v.b.toNat_lt
    have hc := v.c.toNat_lt
    have hd := v.d.toNat_lt
    unfold V4.toNat
    omega
  show v4.toNat / 2 ^ 24 = base.toNat / 2 ^ 24 ↔ v4.a = base.a
  rw [hhead, hhead, UInt8.toNat_inj]

theorem V4.toNat_div {v4 : V4} : v4.toNat / 2 ^ 16 = v4.a.toNat * 256 + v4.b.toNat := by
  have hc := v4.c.toNat_lt
  have hd := v4.d.toNat_lt
  unfold V4.toNat
  omega

/-- A range of sixteen bits is told by the first two.
Kind: L -/
theorem V4.inRange_sixteen {v4 base : V4} :
    v4.InRange ⟨base, 16⟩ ↔ v4.a = base.a ∧ v4.b = base.b := by
  have hb := v4.b.toNat_lt
  have hb' := base.b.toNat_lt
  show v4.toNat / 2 ^ 16 = base.toNat / 2 ^ 16 ↔ v4.a = base.a ∧ v4.b = base.b
  rw [V4.toNat_div, V4.toNat_div, ← UInt8.toNat_inj, ← UInt8.toNat_inj]
  omega

/-- A range of twelve bits is told by the first byte and half of the second.
Kind: L -/
theorem V4.inRange_twelve {v4 base : V4} :
    v4.InRange ⟨base, 12⟩ ↔ v4.a = base.a ∧ v4.b.toNat / 16 = base.b.toNat / 16 := by
  have hb := v4.b.toNat_lt
  have hb' := base.b.toNat_lt
  have hhead : ∀ v : V4, v.toNat / 2 ^ 20 = (v.a.toNat * 256 + v.b.toNat) / 16 := by
    intro v
    rw [← V4.toNat_div]
    omega
  show v4.toNat / 2 ^ 20 = base.toNat / 2 ^ 20 ↔ v4.a = base.a ∧ v4.b.toNat / 16 = base.b.toNat / 16
  rw [hhead, hhead, ← UInt8.toNat_inj]
  omega

/-- The classifier refuses exactly the ranges it knows.
Kind: P -/
theorem classifyV4_ne_ok_iff (v4 : V4) : classifyV4 v4 ≠ .ok ↔ v4.Refused := by
  have hclass : classifyV4 v4 ≠ .ok ↔ v4.a = 0 ∨ v4.a = 10 ∨ v4.a = 127 ∨ (v4.a = 169 ∧ v4.b = 254) ∨
      (v4.a = 172 ∧ 16 ≤ v4.b ∧ v4.b ≤ 31) ∨ v4.a = 192 ∧ v4.b = 168 := by
    unfold classifyV4
    split_ifs <;> simp_all
  have hhalf : 16 ≤ v4.b ∧ v4.b ≤ 31 ↔ v4.b.toNat / 16 = 1 := by
    simp only [UInt8.le_iff_toNat_le, UInt8.reduceToNat]
    omega
  rw [hclass, hhalf]
  simp only [V4.Refused, refused, List.mem_cons, List.not_mem_nil, or_false, exists_eq_or_imp,
    exists_eq_left, V4.inRange_eight, V4.inRange_sixteen, V4.inRange_twelve, UInt8.reduceToNat,
    Nat.reduceDiv]

/-! ### Embeddings -/

/-- The ways an IPv6 address carries an IPv4 address.
Kind: D -/
inductive Embedding where
  | mapped
  | compatible
  | nat64
  | sixToFour
  | teredo
  deriving DecidableEq

/-- The sixteen bytes carry the IPv4 address. A Teredo address carries it with every bit inverted.
Kind: D -/
def Embeds (bytes : List UInt8) (v4 : V4) : Embedding → Prop
  | .mapped => bytes = List.replicate 10 0 ++ [0xff, 0xff] ++ v4.bytes
  | .compatible => bytes = List.replicate 12 0 ++ v4.bytes
  | .nat64 => bytes = [0x00, 0x64, 0xff, 0x9b] ++ List.replicate 8 0 ++ v4.bytes
  | .sixToFour => ∃ rest, bytes = [0x20, 0x02] ++ v4.bytes ++ rest
  | .teredo => ∃ mid, mid.length = 8 ∧
      bytes = [0x20, 0x01, 0x00, 0x00] ++ mid ++ v4.bytes.map (· ^^^ 0xff)

/-- An address that carries another is tested in the order of the forms.
Kind: L -/
theorem classifyV6_mapped (v4 : V4) :
    classifyV6 (List.replicate 10 0 ++ [0xff, 0xff] ++ v4.bytes) = classifyV4 v4 := rfl

theorem classifyV6_nat64 (v4 : V4) :
    classifyV6 ([0x00, 0x64, 0xff, 0x9b] ++ List.replicate 8 0 ++ v4.bytes) = classifyV4 v4 := rfl

theorem classifyV6_sixToFour (v4 : V4) (rest : List UInt8) :
    classifyV6 ([0x20, 0x02] ++ v4.bytes ++ rest) = classifyV4 v4 := rfl

theorem classifyV6_compatible {v4 : V4} (h : v4 ≠ ⟨0, 0, 0, 0⟩ ∧ v4 ≠ ⟨0, 0, 0, 1⟩) :
    classifyV6 (List.replicate 12 0 ++ v4.bytes) = classifyV4 v4 := if_pos (decide_eq_true h)

/-- An embedded address has its own class, except that a Teredo address is always `ok`.
Kind: P -/
theorem classifyV6_ne_ok_iff {bytes : List UInt8} {v4 : V4} {e : Embedding} (h : Embeds bytes v4 e) :
    classifyV6 bytes ≠ .ok ↔ e ≠ .teredo ∧ classifyV4 v4 ≠ .ok := by
  cases e with
  | mapped =>
      subst h
      rw [classifyV6_mapped]
      simp
  | compatible =>
      subst h
      by_cases hv4 : v4 ≠ ⟨0, 0, 0, 0⟩ ∧ v4 ≠ ⟨0, 0, 0, 1⟩
      · rw [classifyV6_compatible hv4]
        simp
      · -- `::` and `::1` have rules of their own, and are refused all the same
        rw [not_and_or, not_not, not_not] at hv4
        rcases hv4 with rfl | rfl <;> decide
  | nat64 =>
      subst h
      rw [classifyV6_nat64]
      simp
  | sixToFour =>
      obtain ⟨rest, rfl⟩ := h
      rw [classifyV6_sixToFour]
      simp
  | teredo =>
      obtain ⟨mid, hmid, rfl⟩ := h
      have hteredo : classifyV6 ([0x20, 0x01, 0x00, 0x00] ++ mid ++
          v4.bytes.map (· ^^^ 0xff)) = .ok := by
        simp +decide [classifyV6, zeroFrom, byteAt]
      rw [hteredo]
      simp

/-- **Exactly the ranges refused.** For every IPv4 address: its dotted quad is refused exactly when
it is in a range that `classifyV4` knows, and so is every text of every IPv6 address that carries it,
unless the text is passed as one of family 4, which is always refused, or the carrier is a Teredo
address, which never is.
Kind: P -/
theorem classifyAddress_ne_ok_iff (v4 : V4) (family : Option ℕ) :
    (classifyAddress v4.text family ≠ .ok ↔ v4.Refused) ∧
      ∀ (t : AddressText) (e : Embedding), Embeds t.bytes v4 e →
        (classifyAddress t.render family ≠ .ok ↔
          family = some 4 ∨ (e ≠ .teredo ∧ v4.Refused)) := by
  constructor
  · rw [classifyAddress, if_pos (Or.inr (isIPv4_text v4)), parseIPv4_text, classifyV4_ne_ok_iff]
  · intro t e he
    have hcolon := t.colon_mem_render
    by_cases hfamily : family = some 4
    · rw [classifyAddress, if_pos (Or.inl hfamily), parseIPv4_eq_none hcolon]
      simp [hfamily]
    · have hno : ¬ (family = some 4 ∨ isIPv4 t.render = true) := by
        rintro (h | h)
        · exact hfamily h
        · rw [isIPv4, parseIPv4_eq_none hcolon] at h
          exact Bool.false_ne_true h
      rw [classifyAddress, if_neg hno, AddressText.parseIPv6_render, classifyV6_ne_ok_iff he,
        classifyV4_ne_ok_iff]
      simp [hfamily]

/-! ### Some addresses -/

/-- The text `64:ff9b::a00:1`.
Kind: D -/
def nat64Text : AddressText :=
  ⟨[⟨js "64", by decide⟩, ⟨js "ff9b", by decide⟩], some [⟨js "a00", by decide⟩, ⟨js "1", by decide⟩],
    none, none, by decide⟩

/-- The text `2001::5:6:7:f5ff:fffe`.
Kind: D -/
def teredoText : AddressText :=
  ⟨[⟨js "2001", by decide⟩], some [⟨js "5", by decide⟩, ⟨js "6", by decide⟩, ⟨js "7", by decide⟩,
    ⟨js "f5ff", by decide⟩, ⟨js "fffe", by decide⟩], none, none, by decide⟩

/-- `10.0.0.1` is refused, and so is `64:ff9b::a00:1`, which carries it.
Kind: C -/
theorem ne_ok_privateAddress :
    classifyAddress (V4.text ⟨10, 0, 0, 1⟩) none ≠ .ok ∧
      classifyAddress nat64Text.render none ≠ .ok := by
  have hrefused : V4.Refused ⟨10, 0, 0, 1⟩ := ⟨⟨⟨10, 0, 0, 0⟩, 8⟩, by decide, by decide⟩
  have hembeds : Embeds nat64Text.bytes ⟨10, 0, 0, 1⟩ .nat64 := by
    unfold Embeds
    decide
  obtain ⟨hquad, htext⟩ := classifyAddress_ne_ok_iff ⟨10, 0, 0, 1⟩ none
  exact ⟨hquad.mpr hrefused, (htext _ _ hembeds).mpr (Or.inr ⟨by decide, hrefused⟩)⟩

/-- **Not all that is reserved.** `100.100.100.200`, in the shared address space, is `ok`, and so is
`2001::5:6:7:f5ff:fffe`, a Teredo address that carries `10.0.0.1`.
Kind: P -/
theorem ok_sharedAddress :
    (V4.Reserved ⟨100, 100, 100, 200⟩ ∧
      classifyAddress (V4.text ⟨100, 100, 100, 200⟩) none = .ok) ∧
    (V4.Reserved ⟨10, 0, 0, 1⟩ ∧ Embeds teredoText.bytes ⟨10, 0, 0, 1⟩ .teredo ∧
      classifyAddress teredoText.render none = .ok) := by
  refine ⟨⟨⟨⟨⟨100, 64, 0, 0⟩, 10⟩, by decide, by decide⟩, by decide⟩,
    ⟨⟨⟨10, 0, 0, 0⟩, 8⟩, by decide, by decide⟩, ?_, by decide⟩
  exact ⟨[0, 0, 0, 5, 0, 6, 0, 7], by decide, by decide⟩

end TyoMq.Push
