import TyoMq.Push.LooseTexts

/-!
# Push endpoints: where the address parsers are exact

A parser is exact on a string when it reads bytes from it exactly if it is a text of an address, and then the
bytes of that address (`Exact`).

* **Both parsers are exact** on a string exactly when it is no dotted quad with a leading zero, no IPv6
  text that ends in one, and none whose `::` stands beside eight groups (`parsers_exact_iff`). The parsers
  read these too (`not_exact_octal`).
* A text tells its groups and its quad (`LooseText.groups_eq_of_render_eq`), so that none of these is the
  text of an address as well.
-/

namespace TyoMq.Push

open TyoMq.Lib

/-! ### What a text tells -/

namespace LooseText

variable {t t' : LooseText}

theorem proper_push (t : LooseText) :
    (t.groups.push (t.quad.toList.map QuadText.text)).Proper (unit ':') := by
  intro p hp
  rw [Sides.parts_push] at hp
  rcases List.mem_append.mp hp with hg | hq
  · exact proper_of_segments (fun _ => t.isSegment_of_mem_parts) p hg
  · obtain ⟨q, -, rfl⟩ := List.mem_map.mp hq
    exact ⟨List.ne_nil_of_mem q.dot_mem_text, colon_not_mem_text q⟩

/-- Segments with a dot, behind segments without, are told from them.
Kind: L -/
theorem append_inj_of_dot {ps ps' last last' : List JsString} (hp : ∀ p ∈ ps, unit '.' ∉ p)
    (hp' : ∀ p ∈ ps', unit '.' ∉ p) (hl : ∀ p ∈ last, unit '.' ∈ p) (hl' : ∀ p ∈ last', unit '.' ∈ p)
    (h : ps ++ last = ps' ++ last') : ps = ps' ∧ last = last' := by
  have hfilter : ∀ {xs ys : List JsString}, (∀ p ∈ xs, unit '.' ∉ p) → (∀ p ∈ ys, unit '.' ∈ p) →
      (xs ++ ys).filter (fun p => decide (unit '.' ∈ p)) = ys := by
    intro xs ys hx hy
    rw [List.filter_append, List.filter_eq_nil_iff.mpr (by simpa using hx),
      List.filter_eq_self.mpr (by simpa using hy), List.nil_append]
  have hlast : last = last' := by rw [← hfilter hp hl, h, hfilter hp' hl']
  subst hlast
  exact ⟨List.append_cancel_right h, rfl⟩

/-- The text tells the segments and the text of the quad.
Kind: L -/
theorem groups_eq_of_render_eq (h : t.render = t'.render) :
    t.groups = t'.groups ∧ t.quad.toList.map QuadText.text = t'.quad.toList.map QuadText.text := by
  have hbody : t.body = t'.body := by rw [← t.stripZone_render, h, t'.stripZone_render]
  have hpush := Sides.text_inj t.proper_push t'.proper_push hbody
  have hdot : ∀ (u : LooseText), ∀ p ∈ u.groups.parts, unit '.' ∉ p := by
    intro u p hp hm
    have := (u.isSegment_of_mem_parts hp).digits hm
    rw [digitVal_dot] at this
    omega
  have hquad : ∀ (u : LooseText), ∀ p ∈ u.quad.toList.map QuadText.text, unit '.' ∈ p := by
    intro u p hp
    obtain ⟨q, -, rfl⟩ := List.mem_map.mp hp
    exact q.dot_mem_text
  have hparts : t.groups.parts ++ t.quad.toList.map QuadText.text =
      t'.groups.parts ++ t'.quad.toList.map QuadText.text := by
    rw [← Sides.parts_push, hpush, Sides.parts_push]
  obtain ⟨-, hlast⟩ := append_inj_of_dot (hdot t) (hdot t') (hquad t) (hquad t') hparts
  rw [hlast] at hpush
  exact ⟨Sides.push_cancel hpush, hlast⟩

/-- Texts that are the same string have the same defects.
Kind: L -/
theorem idle_of_render_eq (h : t.render = t'.render) (hidle : t.Idle) : t'.Idle := by
  obtain ⟨hgroups, hquad⟩ := groups_eq_of_render_eq h
  obtain ⟨tail, hgap, hsize⟩ := hidle
  have hgaps := congrArg Sides.tail hgroups
  simp only [groups, show t.gap = some tail from hgap, Option.map_some] at hgaps
  obtain ⟨tail', hgap', htails⟩ := Option.map_eq_some_iff.mp hgaps.symm
  have hheads := congrArg List.length (congrArg Sides.head hgroups)
  have htail := congrArg List.length htails
  have hquads := congrArg List.length hquad
  simp only [groups, List.length_map] at hheads htail hquads
  exact ⟨tail', hgap', by omega⟩

end LooseText

/-- The number written in decimal.
Kind: D -/
def octetText (x : UInt8) : OctetText where
  text := toRadix 10 x.toNat
  numeral := isNumeral_toRadix (by omega) (by omega) (by omega) (Nat.lt_trans x.toNat_lt (by omega))
  small := by
    rw [readDigits_toRadix (by omega) (by omega)]
    exact Nat.le_of_lt_succ x.toNat_lt

/-- The canonical dotted quad.
Kind: D -/
def V4.quadText (v4 : V4) : QuadText := ⟨octetText v4.a, octetText v4.b, octetText v4.c, octetText v4.d⟩

/-- A text of an address as one that the parser reads.
Kind: D -/
def AddressText.loose (t : AddressText) : LooseText where
  head := t.head
  gap := t.gap
  quad := t.quad.map V4.quadText
  zone := t.zone
  size := by
    have hsize := t.size
    have hlength : (t.quad.map V4.quadText).toList.length = t.quad.toList.length := by
      cases t.quad <;> rfl
    rw [hlength]
    rcases hgap : t.gap with _ | tail
    · rw [hgap] at hsize
      exact hsize
    · rw [hgap] at hsize
      exact Nat.le_succ_of_le hsize

namespace AddressText

variable (t : AddressText)

theorem render_loose : t.loose.render = t.render := by
  have htext : t.loose.quad.toList.map QuadText.text = t.quad.toList.map V4.text := by
    simp only [loose]
    cases t.quad <;> rfl
  have hbody : t.loose.body = t.body := by
    rw [LooseText.body, htext, body, bodyWith]
    simp only [LooseText.groups, loose]
    cases t.gap <;> rfl
  rw [LooseText.render, render, hbody]
  rfl

theorem not_idle_loose : ¬ t.loose.Idle := by
  rintro ⟨tail, hgap, hsize⟩
  have hlength : t.loose.quad.toList.length = t.quad.toList.length := by
    simp only [loose]
    cases t.quad <;> rfl
  have hbound := t.size
  rw [show t.gap = some tail from hgap] at hbound
  rw [hlength] at hsize
  have hle : t.head.length + tail.length + 2 * t.quad.toList.length ≤ 7 := hbound
  have heq : t.head.length + tail.length + 2 * t.quad.toList.length = 8 := hsize
  omega

end AddressText

namespace LooseText

variable {t : LooseText}

/-- A text without the two defects is one of an address.
Kind: L -/
theorem exists_addressText (hpadded : ¬ t.Padded) (hidle : ¬ t.Idle) :
    ∃ a : AddressText, a.render = t.render ∧ a.bytes = t.bytes := by
  rcases t with ⟨head, gap, quad, zone, size⟩
  have hlength : (quad.map QuadText.value).toList.length = quad.toList.length := by
    cases quad <;> rfl
  have htext : (quad.map QuadText.value).toList.map V4.text = quad.toList.map QuadText.text := by
    rcases quad with _ | q
    · rfl
    · have hq : q.text = q.value.text := QuadText.text_eq_of_not_padded fun hp => hpadded ⟨q, rfl, hp⟩
      simp [hq]
  rcases gap with _ | tail
  · refine ⟨⟨head, none, quad.map QuadText.value, zone, by rw [hlength]; exact size⟩, ?_, rfl⟩
    rw [AddressText.render, AddressText.body, htext]
    rfl
  · have hsize : head.length + tail.length + 2 * quad.toList.length ≤ 7 := by
      have hle : head.length + tail.length + 2 * quad.toList.length ≤ 8 := size
      have hne : head.length + tail.length + 2 * quad.toList.length ≠ 8 := fun h => hidle ⟨tail, rfl, h⟩
      omega
    refine ⟨⟨head, some tail, quad.map QuadText.value, zone, by rw [hlength]; exact hsize⟩, ?_, rfl⟩
    rw [AddressText.render, AddressText.body, htext]
    rfl

/-- The text of an address has neither defect.
Kind: L -/
theorem not_defective_of_render_eq {a : AddressText} (h : a.render = t.render) : ¬ (t.Padded ∨ t.Idle) := by
  rw [← a.render_loose] at h
  rintro (⟨q, hq, hpadded⟩ | hidle)
  · obtain ⟨-, hquad⟩ := groups_eq_of_render_eq h
    rw [show t.quad = some q from hq] at hquad
    obtain ⟨q', hq', htext⟩ : ∃ q', a.loose.quad = some q' ∧ q'.text = q.text := by
      rcases hloose : a.loose.quad with _ | q'
      · rw [hloose] at hquad
        exact absurd hquad (by simp)
      · rw [hloose] at hquad
        exact ⟨q', rfl, by simpa using hquad⟩
    obtain ⟨v4, -, rfl⟩ := Option.map_eq_some_iff.mp hq'
    exact QuadText.not_padded_of_text_eq htext.symm hpadded
  · exact a.not_idle_loose (idle_of_render_eq h.symm hidle)

end LooseText

/-- A dotted quad with a number that has a leading zero.
Kind: D -/
def IsPaddedQuad (s : JsString) : Prop := ∃ q : QuadText, q.text = s ∧ q.Padded

/-- An IPv6 text, up to a zone id, that ends in such a quad, or whose `::` stands beside eight groups.
Kind: D -/
def IsDefective (s : JsString) : Prop := ∃ t : LooseText, t.render = s ∧ (t.Padded ∨ t.Idle)

/-- The parsers are exact on a string: each reads bytes from it exactly when it is a text of an
address, and then the bytes of that address.
Kind: D -/
structure Exact (s : JsString) : Prop where
  /-- Canonical dotted quads. -/
  v4 : ∀ v4, parseIPv4 s = some v4 ↔ s = v4.text
  /-- Texts of IPv6 addresses. -/
  v6 : ∀ bytes, parseIPv6 s = some bytes ↔ ∃ t : AddressText, t.render = s ∧ t.bytes = bytes

section Exact

variable {s : JsString}

theorem exactV4_iff : (∀ v4, parseIPv4 s = some v4 ↔ s = v4.text) ↔ ¬ IsPaddedQuad s := by
  constructor
  · rintro h ⟨q, rfl, hpadded⟩
    have htext := (h q.value).mp (parseIPv4_eq_some_iff.mpr ⟨q, rfl, rfl⟩)
    exact QuadText.not_padded_of_text_eq htext hpadded
  · intro h v4
    constructor
    · intro hparse
      obtain ⟨q, rfl, rfl⟩ := parseIPv4_eq_some_iff.mp hparse
      exact QuadText.text_eq_of_not_padded fun hpadded => h ⟨q, rfl, hpadded⟩
    · rintro rfl
      exact parseIPv4_text v4

theorem exactV6_iff : (∀ bytes, parseIPv6 s = some bytes ↔
    ∃ t : AddressText, t.render = s ∧ t.bytes = bytes) ↔ ¬ IsDefective s := by
  constructor
  · rintro h ⟨t, rfl, hdefect⟩
    obtain ⟨a, hrender, -⟩ := (h t.bytes).mp (parseIPv6_eq_some_iff.mpr ⟨t, rfl, rfl⟩)
    exact LooseText.not_defective_of_render_eq hrender hdefect
  · intro h bytes
    constructor
    · intro hparse
      obtain ⟨t, rfl, rfl⟩ := parseIPv6_eq_some_iff.mp hparse
      have hdefect : ¬ (t.Padded ∨ t.Idle) := fun hd => h ⟨t, rfl, hd⟩
      exact LooseText.exists_addressText (fun hp => hdefect (Or.inl hp)) fun hi => hdefect (Or.inr hi)
    · rintro ⟨t, rfl, rfl⟩
      exact AddressText.parseIPv6_render t

/-- **The parsers are exact** on a string exactly when it is no dotted quad with a leading zero, no
IPv6 text that ends in one, and none whose `::` stands beside eight groups.
Kind: P -/
theorem parsers_exact_iff (s : JsString) : Exact s ↔ ¬ IsPaddedQuad s ∧ ¬ IsDefective s := by
  constructor
  · intro h
    exact ⟨exactV4_iff.mp h.v4, exactV6_iff.mp h.v6⟩
  · rintro ⟨h₄, h₆⟩
    exact ⟨exactV4_iff.mpr h₄, exactV6_iff.mpr h₆⟩

/-- A number with a leading zero is read as decimal, and a `::` may stand beside eight groups.
Kind: P -/
theorem not_exact_octal : ¬ Exact (js "010.0.0.1") ∧ ¬ Exact (js "1:2:3:4:5:6:7::8") := by
  constructor
  · intro h
    have hread : parseIPv4 (js "010.0.0.1") = some ⟨10, 0, 0, 1⟩ := by decide
    exact absurd ((h.v4 ⟨10, 0, 0, 1⟩).mp hread) (by decide)
  · intro h
    let digit (c : Char) (hc : isNumeral 16 4 [unit c] = true) : Group := ⟨[unit c], hc⟩
    let t : LooseText := ⟨[digit '1' rfl, digit '2' rfl, digit '3' rfl, digit '4' rfl, digit '5' rfl,
      digit '6' rfl, digit '7' rfl], some [digit '8' rfl], none, none, Nat.le_refl 8⟩
    apply exactV6_iff.mp h.v6
    exact ⟨t, by decide, Or.inr ⟨[digit '8' rfl], rfl, rfl⟩⟩

end Exact

end TyoMq.Push
