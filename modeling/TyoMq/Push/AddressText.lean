import TyoMq.Push.Address

/-!
# Push endpoints: the texts of an address

What an address text is, apart from the parsers: a dotted quad (`V4.text`), and the texts of an
IPv6 address, with groups in any spelling, a run of zero groups left out, a dotted quad at the end
and a zone id (`AddressText`).

* **Reading undoes writing** (`parseIPv4_text`, `parseIPv6_render`): the parsers read from such a
  text the bytes it stands for.
* `isIPv4_text` and `isIPv4_render`: the two kinds of text are told apart.
-/

namespace TyoMq.Push

open TyoMq.Lib

/-! ### Dotted quads -/

theorem digitVal_dot : digitVal (unit '.') = 36 := by decide

theorem digitVal_colon : digitVal (unit ':') = 36 := by decide

theorem digitVal_percent : digitVal (unit '%') = 36 := by decide

/-- A unit that is no digit does not occur in a number.
Kind: L -/
theorem not_mem_toRadix {radix : ℕ} (h₁ : 1 < radix) (h₂ : radix ≤ 16) {c : UInt16}
    (hc : digitVal c = 36) (n : ℕ) : c ∉ toRadix radix n := by
  intro hm
  have := digitVal_lt_of_mem_toRadix h₁ h₂ hm
  omega

/-- The octet written in decimal is read back.
Kind: L -/
theorem parseOctet_toRadix (x : UInt8) : parseOctet (toRadix 10 x.toNat) = some x := by
  have hx : x.toNat < 256 := x.toNat_lt
  have hnum : isNumeral 10 3 (toRadix 10 x.toNat) = true :=
    isNumeral_toRadix (by omega) (by omega) (by omega) (by omega)
  rw [parseOctet, if_pos hnum, readDigits_toRadix (by omega) (by omega)]
  simp only [show ¬ 255 < x.toNat by omega, if_false, Option.some.injEq]
  exact UInt8.ofNat_toNat

/-- The parts of the canonical dotted quad are its numbers.
Kind: L -/
theorem split_text_v4 (v4 : V4) : split [unit '.'] v4.text = [toRadix 10 v4.a.toNat,
    toRadix 10 v4.b.toNat, toRadix 10 v4.c.toNat, toRadix 10 v4.d.toNat] := by
  have hdot : ∀ n, unit '.' ∉ toRadix 10 n := fun n =>
    not_mem_toRadix (by omega) (by omega) digitVal_dot n
  exact split_join (List.cons_ne_nil _ _) (by simp [hdot])

/-- The canonical dotted quad is read back.
Kind: P -/
theorem parseIPv4_text (v4 : V4) : parseIPv4 v4.text = some v4 := by
  simp only [parseIPv4, split_text_v4, parseOctet_toRadix]
  rfl

theorem isIPv4_text (v4 : V4) : isIPv4 v4.text = true := by
  rw [isIPv4, parseIPv4_text]
  exact decide_eq_true rfl

/-- What the parser accepts is made of decimal digits and dots.
Kind: L -/
theorem of_parseIPv4 {s : JsString} {v4 : V4} (h : parseIPv4 s = some v4) {c : UInt16} (hc : c ∈ s) :
    c = unit '.' ∨ digitVal c < 10 := by
  have hoctet : ∀ {p : JsString} {x : UInt8}, parseOctet p = some x → c ∈ p → digitVal c < 10 := by
    intro p x hp hcp
    rw [parseOctet] at hp
    split_ifs at hp with hnum
    rw [isNumeral, Bool.and_eq_true, List.all_eq_true] at hnum
    exact of_decide_eq_true (hnum.2 c hcp)
  unfold parseIPv4 at h
  split at h
  · rename_i p₀ p₁ p₂ p₃ hsplit
    simp only [Option.bind_eq_bind, Option.bind_eq_some_iff] at h
    obtain ⟨x₀, h₀, x₁, h₁, x₂, h₂, x₃, h₃, -⟩ := h
    rw [← join_split (unit '.') s, hsplit] at hc
    rcases mem_join hc with hdot | ⟨p, hp, hcp⟩
    · exact Or.inl (List.mem_singleton.mp hdot)
    · simp only [List.mem_cons, List.not_mem_nil, or_false] at hp
      rcases hp with rfl | rfl | rfl | rfl
      · exact Or.inr (hoctet h₀ hcp)
      · exact Or.inr (hoctet h₁ hcp)
      · exact Or.inr (hoctet h₂ hcp)
      · exact Or.inr (hoctet h₃ hcp)
  · exact absurd h (by simp)

/-- A text that holds a colon is no dotted quad.
Kind: L -/
theorem parseIPv4_eq_none {s : JsString} (h : unit ':' ∈ s) : parseIPv4 s = none := by
  rcases hp : parseIPv4 s with _ | v4
  · rfl
  · rcases of_parseIPv4 hp h with hc | hc
    · exact absurd hc (by decide)
    · rw [digitVal_colon] at hc
      omega

/-! ### The texts of an IPv6 address -/

/-- A group: one to four hexadecimal digits, of either case, with any leading zeros.
Kind: D -/
structure Group where
  /-- The digits. -/
  text : JsString
  /-- They are one to four hexadecimal digits. -/
  numeral : isNumeral 16 4 text = true

/-- The value of a group.
Kind: D -/
def Group.value (g : Group) : ℕ := readDigits 16 g.text

/-- A text of an IPv6 address: eight groups, of which a quad at the end stands for two, and of which
at least one is left out where there is a `::`.
Kind: D -/
structure AddressText where
  /-- The groups, or those before the `::`. -/
  head : List Group
  /-- The groups behind the `::`, if there is one. -/
  gap : Option (List Group)
  /-- The dotted quad at the end. -/
  quad : Option V4
  /-- The zone id. -/
  zone : Option JsString
  /-- There are eight groups in all. -/
  size : match gap with
    | none => head.length + 2 * quad.toList.length = 8
    | some tail => head.length + tail.length + 2 * quad.toList.length ≤ 7

namespace AddressText

/-- The words of a side, the quad being two.
Kind: D -/
def words (gs : List Group) (quad : Option V4) : List ℕ :=
  gs.map Group.value ++ quad.toList.flatMap fun v4 =>
    [v4.a.toNat * 256 + v4.b.toNat, v4.c.toNat * 256 + v4.d.toNat]

/-- The text without the zone id, with some last segments.
Kind: D -/
def bodyWith (t : AddressText) (last : List JsString) : JsString :=
  match t.gap with
  | none => join [unit ':'] (t.head.map Group.text ++ last)
  | some tail => join [unit ':'] (t.head.map Group.text) ++ [unit ':', unit ':'] ++
      join [unit ':'] (tail.map Group.text ++ last)

/-- The text without the zone id.
Kind: D -/
def body (t : AddressText) : JsString := t.bodyWith (t.quad.toList.map V4.text)

/-- The text.
Kind: D -/
def render (t : AddressText) : JsString :=
  match t.zone with
  | none => t.body
  | some zone => t.body ++ unit '%' :: zone

/-- The eight words it stands for.
Kind: D -/
def value (t : AddressText) : List ℕ :=
  match t.gap with
  | none => words t.head t.quad
  | some tail => words t.head none ++
      List.replicate (8 - t.head.length - (words tail t.quad).length) 0 ++ words tail t.quad

/-- The sixteen bytes it stands for.
Kind: D -/
def bytes (t : AddressText) : List UInt8 :=
  t.value.flatMap fun w => [UInt8.ofNat (w / 256), UInt8.ofNat (w % 256)]

/-! ### What the parser makes of them -/

/-- A segment of one to four hexadecimal digits.
Kind: D -/
def IsSegment (s : JsString) : Prop := isNumeral 16 4 s = true

theorem IsSegment.digits {s : JsString} (h : IsSegment s) {c : UInt16} (hc : c ∈ s) :
    digitVal c < 16 := by
  rw [IsSegment, isNumeral, Bool.and_eq_true, List.all_eq_true] at h
  exact of_decide_eq_true (h.2 c hc)

theorem IsSegment.ne_nil {s : JsString} (h : IsSegment s) : s ≠ [] := by
  rintro rfl
  exact absurd (show isNumeral 16 4 [] = true from h) (by decide)

theorem IsSegment.not_mem_colon {s : JsString} (h : IsSegment s) : unit ':' ∉ s := by
  intro hc
  have := h.digits hc
  rw [digitVal_colon] at this
  omega

theorem isSegment_group (g : Group) : IsSegment g.text := g.numeral

/-- The two groups of a quad are segments.
Kind: L -/
theorem isSegment_of_mem_groups {v4 : V4} {s : JsString} (h : s ∈ v4.groups) : IsSegment s := by
  have hword : ∀ x y : UInt8, x.toNat <<< 8 ||| y.toNat < 16 ^ 4 := by
    intro x y
    have hx := x.toNat_lt
    have hy := y.toNat_lt
    rw [← Nat.shiftLeft_add_eq_or_of_lt (by omega), Nat.shiftLeft_eq]
    omega
  simp only [V4.groups, List.mem_cons, List.not_mem_nil, or_false] at h
  rcases h with rfl | rfl <;>
    exact isNumeral_toRadix (by omega) (by omega) (by omega) (hword _ _)

section Sides

variable {parts : List JsString}

/-- One side of a text, read.
Kind: L -/
theorem toWords_join (h : ∀ p ∈ parts, IsSegment p) :
    toWords (join [unit ':'] parts) = some (parts.map (readDigits 16)) := by
  have hmap : ∀ l : List JsString, (∀ p ∈ l, IsSegment p) → (l.mapM fun seg =>
      if isNumeral 16 4 seg then some (readDigits 16 seg) else none) =
        some (l.map (readDigits 16)) := by
    intro l hl
    induction l with
    | nil => rfl
    | cons p l ih =>
        have hp : isNumeral 16 4 p = true := hl p List.mem_cons_self
        rw [List.mapM_cons, if_pos hp, ih fun q hq => hl q (List.mem_cons_of_mem _ hq)]
        rfl
  by_cases hne : parts = []
  · subst hne
    rfl
  · have hj : join [unit ':'] parts ≠ [] := fun hj =>
      hne ((join_eq_nil fun p hp => (h p hp).ne_nil).mp hj)
    rw [toWords, if_neg hj, split_join hne fun p hp => (h p hp).not_mem_colon]
    exact hmap parts h

theorem single_segments (h : ∀ p ∈ parts, IsSegment p) :
    Single (unit ':') (join [unit ':'] parts) :=
  single_join fun p hp => ⟨(h p hp).ne_nil, (h p hp).not_mem_colon⟩

end Sides

variable {t : AddressText} {last : List JsString}

/-- What is in a text without zone id: colons, the last segments, and hexadecimal digits.
Kind: L -/
theorem of_mem_bodyWith {c : UInt16} (h : c ∈ t.bodyWith last) :
    c = unit ':' ∨ (∃ p ∈ last, c ∈ p) ∨ digitVal c < 16 := by
  have hside : ∀ gs : List Group, c ∈ join [unit ':'] (gs.map Group.text ++ last) →
      c = unit ':' ∨ (∃ p ∈ last, c ∈ p) ∨ digitVal c < 16 := by
    intro gs hc
    rcases mem_join hc with hcolon | ⟨p, hp, hcp⟩
    · exact Or.inl (List.mem_singleton.mp hcolon)
    · rcases List.mem_append.mp hp with hg | hl
      · obtain ⟨g, -, rfl⟩ := List.mem_map.mp hg
        exact Or.inr (Or.inr ((isSegment_group g).digits hcp))
      · exact Or.inr (Or.inl ⟨p, hl, hcp⟩)
  unfold bodyWith at h
  rcases hgap : t.gap with _ | tail
  · rw [hgap] at h
    exact hside _ h
  · rw [hgap] at h
    rcases List.mem_append.mp h with hh | ht
    · rcases List.mem_append.mp hh with hhead | hcc
      · rcases mem_join hhead with hcolon | ⟨p, hp, hcp⟩
        · exact Or.inl (List.mem_singleton.mp hcolon)
        · obtain ⟨g, -, rfl⟩ := List.mem_map.mp hp
          exact Or.inr (Or.inr ((isSegment_group g).digits hcp))
      · exact Or.inl (by simpa using hcc)
    · exact hside _ ht

/-- Without a `::` there are groups in front of the quad.
Kind: L -/
theorem head_ne_nil (hgap : t.gap = none) : t.head ≠ [] := by
  intro hnil
  have hsize := t.size
  rw [hgap, hnil] at hsize
  cases hq : t.quad <;> simp [hq] at hsize

/-- The last segments come behind a colon.
Kind: L -/
theorem bodyWith_eq_append (t : AddressText) : ∃ front : JsString, ∀ last : List JsString,
    last ≠ [] → t.bodyWith last = front ++ unit ':' :: join [unit ':'] last := by
  have hside : ∀ gs : List Group, gs ≠ [] → ∀ last : List JsString, last ≠ [] →
      join [unit ':'] (gs.map Group.text ++ last) =
        join [unit ':'] (gs.map Group.text) ++ unit ':' :: join [unit ':'] last := by
    intro gs hgs last hlast
    rw [join_append (by simpa using hgs) hlast, List.append_assoc]
    rfl
  rcases hgap : t.gap with _ | tail
  · refine ⟨join [unit ':'] (t.head.map Group.text), fun last hlast => ?_⟩
    rw [bodyWith, hgap]
    exact hside t.head (head_ne_nil hgap) last hlast
  · by_cases htail : tail = []
    · refine ⟨join [unit ':'] (t.head.map Group.text) ++ [unit ':'], fun last hlast => ?_⟩
      simp [bodyWith, hgap, htail]
    · refine ⟨join [unit ':'] (t.head.map Group.text) ++ [unit ':', unit ':'] ++
        join [unit ':'] (tail.map Group.text), fun last hlast => ?_⟩
      simp only [bodyWith, hgap, hside tail htail last hlast, List.append_assoc]

/-- The zone id is stripped.
Kind: L -/
theorem stripZone_render (t : AddressText) : stripZone t.render = t.body := by
  have hpercent : unit '%' ∉ t.body := by
    intro hm
    rcases of_mem_bodyWith hm with hc | ⟨p, hp, hcp⟩ | hc
    · exact absurd hc (by decide)
    · obtain ⟨v4, -, rfl⟩ := List.mem_map.mp hp
      rcases of_parseIPv4 (parseIPv4_text v4) hcp with hc | hc
      · exact absurd hc (by decide)
      · rw [digitVal_percent] at hc
        omega
    · rw [digitVal_percent] at hc
      omega
  unfold stripZone render
  rcases t.zone with _ | zone
  · simp only [indexOf_eq_none hpercent]
  · simp only [indexOf_append_cons hpercent, List.take_left]

/-- The quad at the end is folded into two groups.
Kind: L -/
theorem foldQuad_body (t : AddressText) :
    foldQuad t.body = some (t.bodyWith (t.quad.toList.flatMap V4.groups)) := by
  rcases hquad : t.quad with _ | v4
  · have hbody : t.body = t.bodyWith [] := by rw [body, hquad]; rfl
    have hdot : unit '.' ∉ t.bodyWith [] := by
      intro hm
      rcases of_mem_bodyWith hm with hc | ⟨p, hp, -⟩ | hc
      · exact absurd hc (by decide)
      · exact absurd hp List.not_mem_nil
      · rw [digitVal_dot] at hc
        omega
    rw [hbody, foldQuad, indexOf_eq_none hdot]
    rfl
  · obtain ⟨front, hfront⟩ := t.bodyWith_eq_append
    have hbody : t.body = front ++ unit ':' :: v4.text := by
      rw [body, hquad]
      exact hfront [v4.text] (List.cons_ne_nil _ _)
    have hgroups : t.bodyWith v4.groups = front ++ unit ':' :: join [unit ':'] v4.groups :=
      hfront _ (List.cons_ne_nil _ _)
    have hdot : unit '.' ∈ front ++ unit ':' :: v4.text := by
      simp [V4.text, join]
    have hcolon : unit ':' ∉ v4.text := by
      intro hm
      rcases of_parseIPv4 (parseIPv4_text v4) hm with hc | hc
      · exact absurd hc (by decide)
      · rw [digitVal_colon] at hc
        omega
    obtain ⟨i, hi⟩ := Option.ne_none_iff_exists'.mp (indexOf_ne_none hdot)
    have htake : (front ++ unit ':' :: v4.text).take (front.length + 1) = front ++ [unit ':'] := by
      simp [List.take_append, List.take_of_length_le]
    have hdrop : (front ++ unit ':' :: v4.text).drop (front.length + 1) = v4.text := by
      simp [List.drop_append]
    rw [hbody, foldQuad, hi, lastIndexOf_append_cons hcolon]
    simp only [Option.bind_eq_bind, Option.bind_some, hdrop, htake, parseIPv4_text,
      Option.toList_some, List.flatMap_singleton, hgroups]
    simp

/-- The words of the folded text.
Kind: L -/
theorem map_readDigits (gs : List Group) (quad : Option V4) :
    (gs.map Group.text ++ quad.toList.flatMap V4.groups).map (readDigits 16) = words gs quad := by
  have hword : ∀ x y : UInt8, readDigits 16 (toRadix 16 (x.toNat <<< 8 ||| y.toNat)) =
      x.toNat * 256 + y.toNat := by
    intro x y
    have hy := y.toNat_lt
    rw [readDigits_toRadix (by omega) (by omega), ← Nat.shiftLeft_add_eq_or_of_lt (by omega),
      Nat.shiftLeft_eq]
  rw [List.map_append, List.map_map, words]
  congr 1
  rcases quad with _ | v4
  · rfl
  · simp [V4.groups, hword]

/-- The words are read, and the `::` filled up.
Kind: L -/
theorem expand_bodyWith (t : AddressText) :
    expand (split [unit ':', unit ':'] (t.bodyWith (t.quad.toList.flatMap V4.groups))) =
      some t.value := by
  have hside : ∀ gs : List Group, ∀ p ∈ gs.map Group.text ++ t.quad.toList.flatMap V4.groups,
      IsSegment p := by
    intro gs p hp
    rcases List.mem_append.mp hp with hg | hq
    · obtain ⟨g, -, rfl⟩ := List.mem_map.mp hg
      exact isSegment_group g
    · obtain ⟨v4, -, hv4⟩ := List.mem_flatMap.mp hq
      exact isSegment_of_mem_groups hv4
  have hhead : ∀ p ∈ t.head.map Group.text, IsSegment p := by
    intro p hp
    obtain ⟨g, -, rfl⟩ := List.mem_map.mp hp
    exact isSegment_group g
  rcases hgap : t.gap with _ | tail
  · rw [bodyWith, value, hgap]
    simp only [split_of_single (single_segments (hside t.head)), expand, toWords_join (hside t.head),
      map_readDigits]
  · have hsize := t.size
    rw [hgap] at hsize
    have hlen : (words tail t.quad).length = tail.length + 2 * t.quad.toList.length := by
      cases t.quad <;> simp [words]
    have hfirst : (t.head.map Group.text).map (readDigits 16) = words t.head none := by
      simpa using map_readDigits t.head none
    rw [bodyWith, value, hgap]
    simp only [List.append_assoc, List.cons_append, List.nil_append]
    rw [split_append_of_single (single_segments hhead),
      split_of_single (single_segments (hside tail))]
    simp only [expand, toWords_join hhead, toWords_join (hside tail), map_readDigits, hfirst,
      Option.bind_eq_bind, Option.bind_some]
    rw [if_neg]
    · simp [words]
    · rw [hlen]
      simp only [words, List.length_append, List.length_map, Option.toList_none, List.flatMap_nil,
        List.length_nil]
      omega

/-- There are eight words.
Kind: L -/
theorem length_value (t : AddressText) : t.value.length = 8 := by
  have hsize := t.size
  have hlen : ∀ gs : List Group, (words gs t.quad).length = gs.length + 2 * t.quad.toList.length := by
    intro gs
    cases t.quad <;> simp [words]
  rcases hgap : t.gap with _ | tail
  · rw [hgap] at hsize
    rw [value, hgap]
    exact (hlen t.head).trans hsize
  · rw [hgap] at hsize
    have hfirst : (words t.head none).length = t.head.length := by simp [words]
    simp only [value, hgap, List.length_append, List.length_replicate, hlen, hfirst]
    simp only at hsize
    omega

/-- The two bytes of each word.
Kind: L -/
theorem flatMap_bytes (ws : List ℕ) :
    (ws.flatMap fun w => [UInt8.ofNat ((w >>> 8) &&& 0xff), UInt8.ofNat (w &&& 0xff)]) =
      ws.flatMap fun w => [UInt8.ofNat (w / 256), UInt8.ofNat (w % 256)] := by
  congr 1
  funext w
  rw [Nat.shiftRight_eq_div_pow, Nat.and_two_pow_sub_one_eq_mod _ 8,
    Nat.and_two_pow_sub_one_eq_mod _ 8]
  rw [show UInt8.ofNat (w / 2 ^ 8 % 2 ^ 8) = UInt8.ofNat (w / 256) from
    UInt8.toNat_inj.mp (by simp)]

/-- **Reading undoes writing.** From every text of an IPv6 address the parser reads its bytes.
Kind: P -/
theorem parseIPv6_render (t : AddressText) : parseIPv6 t.render = some t.bytes := by
  simp only [parseIPv6, stripZone_render, foldQuad_body, expand_bodyWith, length_value,
    Option.bind_eq_bind, Option.bind_some, if_true, flatMap_bytes]
  rfl

/-- A text of an IPv6 address holds a colon, so that it is no dotted quad.
Kind: L -/
theorem colon_mem_render (t : AddressText) : unit ':' ∈ t.render := by
  have hbody : unit ':' ∈ t.body := by
    rcases hgap : t.gap with _ | tail
    · have hsize := t.size
      rw [hgap] at hsize
      rcases hquad : t.quad with _ | v4
      · rw [hquad] at hsize
        obtain ⟨g, gs, hgs⟩ := List.exists_cons_of_ne_nil (head_ne_nil hgap)
        rcases gs with _ | ⟨g', gs⟩
        · rw [hgs] at hsize
          exact absurd hsize (by simp)
        · simp [body, bodyWith, hgap, hgs, join]
      · obtain ⟨front, hfront⟩ := t.bodyWith_eq_append
        rw [body, hquad, show Option.toList (some v4) = [v4] from rfl, List.map_singleton,
          hfront _ (List.cons_ne_nil _ _)]
        exact List.mem_append_right _ List.mem_cons_self
    · simp [body, bodyWith, hgap]
  unfold render
  rcases t.zone with _ | zone
  · exact hbody
  · exact List.mem_append_left _ hbody

end AddressText

end TyoMq.Push
