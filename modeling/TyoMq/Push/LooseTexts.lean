import TyoMq.Lib.Sides
import TyoMq.Push.AddressText

/-!
# Push endpoints: the texts the parsers accept

Which strings `parseIPv4` and `parseIPv6` read, in both directions (`parseIPv4_eq_some_iff`,
`parseIPv6_eq_some_iff`): besides those of `V4.text` and of `AddressText`, quads with leading zeros
(`QuadText`), and a `::` beside eight groups (`LooseText`).
-/

namespace TyoMq.Push

open TyoMq.Lib

/-! ### Dotted quads -/

/-- A number of a dotted quad, with any leading zeros.
Kind: D -/
structure OctetText where
  /-- The digits. -/
  text : JsString
  /-- They are one to three decimal digits. -/
  numeral : isNumeral 10 3 text = true
  /-- They fit into an octet. -/
  small : readDigits 10 text ≤ 255

namespace OctetText

variable {o : OctetText} {n : ℕ}

/-- The octet it denotes.
Kind: D -/
def value (o : OctetText) : UInt8 := UInt8.ofNat (readDigits 10 o.text)

/-- It has a leading zero.
Kind: D -/
def Padded (o : OctetText) : Prop := o.text.head? = some (unit '0') ∧ 1 < o.text.length

theorem digits (o : OctetText) {c : UInt16} (hc : c ∈ o.text) : digitVal c < 10 := by
  have h := o.numeral
  rw [isNumeral, Bool.and_eq_true, List.all_eq_true] at h
  exact of_decide_eq_true (h.2 c hc)

theorem ne_nil (o : OctetText) : o.text ≠ [] := by
  intro hnil
  have h := o.numeral
  rw [hnil] at h
  exact absurd h (by decide)

/-- A unit that is no digit does not occur in it.
Kind: L -/
theorem not_mem (o : OctetText) {c : UInt16} (hc : digitVal c = 36) : c ∉ o.text := by
  intro hm
  have := o.digits hm
  omega

theorem toNat_value (o : OctetText) : o.value.toNat = readDigits 10 o.text := by
  have h := o.small
  rw [value, UInt8.toNat_ofNat']
  omega

/-- Without a leading zero it is the number written in decimal.
Kind: L -/
theorem text_eq_of_not_padded (h : ¬ o.Padded) : o.text = toRadix 10 o.value.toNat := by
  rw [toNat_value]
  refine (toRadix_readDigits o.ne_nil (fun c hc => o.digits hc) ?_).symm
  intro rest hrest
  by_contra hne
  apply h
  rw [Padded, hrest]
  exact ⟨rfl, by simpa using List.length_pos_of_ne_nil hne⟩

theorem not_padded_of_text_eq (h : o.text = toRadix 10 n) : ¬ o.Padded := by
  rintro ⟨hhead, hlength⟩
  obtain ⟨c, rest, hrest⟩ := List.exists_cons_of_ne_nil o.ne_nil
  rw [hrest, List.head?_cons, Option.some.injEq] at hhead
  rw [hrest, hhead] at h
  rw [hrest, eq_nil_of_toRadix_eq h.symm] at hlength
  exact absurd hlength (by simp)

end OctetText

/-- One part of a dotted quad is read exactly when it is such a number.
Kind: L -/
theorem parseOctet_eq_some_iff {p : JsString} {x : UInt8} :
    parseOctet p = some x ↔ ∃ o : OctetText, o.text = p ∧ o.value = x := by
  unfold parseOctet
  constructor
  · intro h
    split_ifs at h with hnumeral
    by_cases hbig : 255 < readDigits 10 p
    · simp only [hbig, if_true] at h
      exact absurd h (by simp)
    · simp only [hbig, if_false] at h
      exact ⟨⟨p, hnumeral, Nat.not_lt.mp hbig⟩, rfl, Option.some.inj h⟩
  · rintro ⟨o, rfl, rfl⟩
    have hsmall : ¬ 255 < readDigits 10 o.text := Nat.not_lt.mpr o.small
    rw [if_pos o.numeral]
    simp only [hsmall, if_false]
    rfl

/-- A dotted quad, with any leading zeros.
Kind: D -/
structure QuadText where
  /-- The first number. -/
  a : OctetText
  /-- The second number. -/
  b : OctetText
  /-- The third number. -/
  c : OctetText
  /-- The fourth number. -/
  d : OctetText

namespace QuadText

/-- The four numbers.
Kind: D -/
def parts (q : QuadText) : List OctetText := [q.a, q.b, q.c, q.d]

/-- The text.
Kind: D -/
def text (q : QuadText) : JsString := join [unit '.'] (q.parts.map OctetText.text)

/-- The four octets it denotes.
Kind: D -/
def value (q : QuadText) : V4 := ⟨q.a.value, q.b.value, q.c.value, q.d.value⟩

/-- A number of it has a leading zero.
Kind: D -/
def Padded (q : QuadText) : Prop := ∃ o ∈ q.parts, o.Padded

theorem split_text (q : QuadText) : split [unit '.'] q.text = q.parts.map OctetText.text := by
  apply split_join (by simp [parts])
  intro p hp
  obtain ⟨o, -, rfl⟩ := List.mem_map.mp hp
  exact o.not_mem digitVal_dot

theorem dot_mem_text (q : QuadText) : unit '.' ∈ q.text := by simp [text, parts, join]

/-- Without leading zeros it is the canonical dotted quad.
Kind: L -/
theorem text_eq_of_not_padded {q : QuadText} (h : ¬ q.Padded) : q.text = q.value.text := by
  have hpart : ∀ o ∈ q.parts, o.text = toRadix 10 o.value.toNat := fun o ho =>
    OctetText.text_eq_of_not_padded fun hp => h ⟨o, ho, hp⟩
  rw [text, V4.text, List.map_congr_left hpart]
  rfl

theorem not_padded_of_text_eq {q : QuadText} {v4 : V4} (h : q.text = v4.text) : ¬ q.Padded := by
  have hsplit := split_text_v4 v4
  rw [← h, split_text] at hsplit
  simp only [parts, List.map_cons, List.map_nil, List.cons.injEq, and_true] at hsplit
  obtain ⟨ha, hb, hc, hd⟩ := hsplit
  rintro ⟨o, ho, hpadded⟩
  simp only [parts, List.mem_cons, List.not_mem_nil, or_false] at ho
  rcases ho with rfl | rfl | rfl | rfl
  · exact OctetText.not_padded_of_text_eq ha hpadded
  · exact OctetText.not_padded_of_text_eq hb hpadded
  · exact OctetText.not_padded_of_text_eq hc hpadded
  · exact OctetText.not_padded_of_text_eq hd hpadded

end QuadText

/-- **What `parseIPv4` accepts**: the dotted quads, with any leading zeros.
Kind: P -/
theorem parseIPv4_eq_some_iff {s : JsString} {v4 : V4} :
    parseIPv4 s = some v4 ↔ ∃ q : QuadText, q.text = s ∧ q.value = v4 := by
  constructor
  · intro h
    unfold parseIPv4 at h
    split at h
    · rename_i p₀ p₁ p₂ p₃ hsplit
      simp only [Option.bind_eq_bind, Option.bind_eq_some_iff, Option.pure_def,
        Option.some.injEq] at h
      obtain ⟨x₀, h₀, x₁, h₁, x₂, h₂, x₃, h₃, rfl⟩ := h
      obtain ⟨a, rfl, rfl⟩ := parseOctet_eq_some_iff.mp h₀
      obtain ⟨b, rfl, rfl⟩ := parseOctet_eq_some_iff.mp h₁
      obtain ⟨c, rfl, rfl⟩ := parseOctet_eq_some_iff.mp h₂
      obtain ⟨d, rfl, rfl⟩ := parseOctet_eq_some_iff.mp h₃
      refine ⟨⟨a, b, c, d⟩, ?_, rfl⟩
      rw [← join_split (unit '.') s, hsplit]
      rfl
    · exact absurd h (by simp)
  · rintro ⟨q, rfl, rfl⟩
    have hpart : ∀ o : OctetText, parseOctet o.text = some o.value := fun o =>
      parseOctet_eq_some_iff.mpr ⟨o, rfl, rfl⟩
    simp only [parseIPv4, q.split_text, QuadText.parts, List.map_cons, List.map_nil, hpart]
    rfl

/-! ### The stages of the parser -/

/-- The words of segments, the `::` filled up.
Kind: D -/
def wordsOf (s : Sides) : List ℕ :=
  match s.tail with
  | none => s.head.map (readDigits 16)
  | some tail => s.head.map (readDigits 16) ++
      List.replicate (8 - s.head.length - tail.length) 0 ++ tail.map (readDigits 16)

/-- There are eight segments, or at most eight around a `::`.
Kind: D -/
def HasSize (s : Sides) : Prop :=
  match s.tail with
  | none => s.head.length = 8
  | some tail => s.head.length + tail.length ≤ 8

section Stages

variable {s b : JsString} {words : List ℕ} {sides : Sides}

/-- What follows the text that `stripZone` leaves is nothing, or a zone id.
Kind: L -/
theorem eq_stripZone (s : JsString) :
    s = stripZone s ∨ ∃ zone, s = stripZone s ++ unit '%' :: zone := by
  by_cases h : unit '%' ∈ s
  · obtain ⟨front, zone, rfl, hfront⟩ := List.eq_append_cons_of_mem h
    have hstrip : stripZone (front ++ unit '%' :: zone) = front := by
      rw [stripZone, indexOf_append_cons hfront]
      exact List.take_left
    rw [hstrip]
    exact Or.inr ⟨zone, rfl⟩
  · left
    rw [stripZone, indexOf_eq_none h]

theorem stripZone_append (h : unit '%' ∉ s) (zone : JsString) : stripZone (s ++ unit '%' :: zone) = s := by
  rw [stripZone, indexOf_append_cons h]
  exact List.take_left

theorem stripZone_of_not_mem (h : unit '%' ∉ s) : stripZone s = s := by
  rw [stripZone, indexOf_eq_none h]

/-- One side, read.
Kind: L -/
theorem toWords_eq_some (h : toWords b = some words) :
    ∃ segs, (∀ p ∈ segs, AddressText.IsSegment p) ∧ b = join [unit ':'] segs ∧
      words = segs.map (readDigits 16) := by
  have hmem : ∀ (l : List JsString) (ws : List ℕ), (l.mapM fun seg =>
      if isNumeral 16 4 seg then some (readDigits 16 seg) else none) = some ws →
        ∀ p ∈ l, AddressText.IsSegment p := by
    intro l
    induction l with
    | nil =>
        intro ws _ p hp
        exact absurd hp List.not_mem_nil
    | cons q l ih =>
        intro ws hws p hp
        simp only [List.mapM_cons, Option.bind_eq_bind, Option.bind_eq_some_iff] at hws
        obtain ⟨w, hw, ws', hws', -⟩ := hws
        rcases List.mem_cons.mp hp with rfl | hp
        · by_contra hno
          exact absurd (hw.symm.trans (if_neg hno)) (by simp)
        · exact ih ws' hws' p hp
  by_cases hnil : b = []
  · subst hnil
    exact ⟨[], by simp, rfl, (Option.some.inj h).symm⟩
  · have hsegs : ∀ p ∈ split [unit ':'] b, AddressText.IsSegment p := by
      rw [toWords, if_neg hnil] at h
      exact hmem _ _ h
    have hb : b = join [unit ':'] (split [unit ':'] b) := (join_split _ _).symm
    refine ⟨split [unit ':'] b, hsegs, hb, ?_⟩
    rw [hb, AddressText.toWords_join hsegs] at h
    exact (Option.some.inj h).symm

theorem proper_of_segments (h : ∀ p ∈ sides.parts, AddressText.IsSegment p) : sides.Proper (unit ':') :=
  fun p hp => ⟨(h p hp).ne_nil, (h p hp).not_mem_colon⟩

/-- What is read comes from segments.
Kind: L -/
theorem exists_of_expand (h : expand (split [unit ':', unit ':'] b) = some words)
    (hlength : words.length = 8) :
    ∃ sides : Sides, (∀ p ∈ sides.parts, AddressText.IsSegment p) ∧ HasSize sides ∧
      sides.text (unit ':') = b ∧ wordsOf sides = words := by
  have hjoin : join [unit ':', unit ':'] (split [unit ':', unit ':'] b) = b :=
    join_splitFrom (List.cons_ne_nil _ _) (Nat.zero_le _)
  unfold expand at h
  split at h
  · rename_i half hsplit
    rw [hsplit] at hjoin
    obtain ⟨segs, hsegs, hhalf, rfl⟩ := toWords_eq_some h
    refine ⟨⟨segs, none⟩, by simpa [Sides.parts] using hsegs, ?_, ?_, rfl⟩
    · simpa [HasSize] using hlength
    · exact hhalf.symm.trans hjoin
  · rename_i half₀ half₁ hsplit
    rw [hsplit] at hjoin
    simp only [Option.bind_eq_bind, Option.bind_eq_some_iff] at h
    obtain ⟨head, hhead, tail, htail, h⟩ := h
    obtain ⟨segs₀, hsegs₀, rfl, rfl⟩ := toWords_eq_some hhead
    obtain ⟨segs₁, hsegs₁, rfl, rfl⟩ := toWords_eq_some htail
    split_ifs at h with hsize
    refine ⟨⟨segs₀, some segs₁⟩, ?_, ?_, hjoin, ?_⟩
    · intro p hp
      exact (List.mem_append.mp hp).elim (hsegs₀ p) (hsegs₁ p)
    · simpa [HasSize] using hsize
    · simpa [wordsOf] using h
  · exact absurd h (by simp)

/-- As many segments as there have to be are read.
Kind: L -/
theorem expand_text (hsegs : ∀ p ∈ sides.parts, AddressText.IsSegment p) (hfits : HasSize sides) :
    expand (split [unit ':', unit ':'] (sides.text (unit ':'))) = some (wordsOf sides) := by
  rw [Sides.split_text (proper_of_segments hsegs)]
  rcases sides with ⟨head, _ | tail⟩
  · have hhead : ∀ p ∈ head, AddressText.IsSegment p := by simpa [Sides.parts] using hsegs
    exact AddressText.toWords_join hhead
  · have hhead : ∀ p ∈ head, AddressText.IsSegment p := fun p hp => hsegs p (List.mem_append_left _ hp)
    have htail : ∀ p ∈ tail, AddressText.IsSegment p := fun p hp => hsegs p (List.mem_append_right _ hp)
    have hsize : head.length + tail.length ≤ 8 := hfits
    simp only [Option.map_some, Option.toList_some, expand, AddressText.toWords_join hhead,
      AddressText.toWords_join htail, Option.bind_eq_bind, Option.bind_some, List.length_map]
    rw [if_neg (by omega)]
    rfl

theorem length_wordsOf (h : HasSize sides) : (wordsOf sides).length = 8 := by
  rcases sides with ⟨head, _ | tail⟩
  · simpa [wordsOf, HasSize] using h
  · have hsize : head.length + tail.length ≤ 8 := h
    simp only [wordsOf, List.length_append, List.length_map, List.length_replicate]
    omega

/-- The stages of `parseIPv6`.
Kind: L -/
theorem parseIPv6_eq_some {bytes : List UInt8} :
    parseIPv6 s = some bytes ↔ ∃ b words, foldQuad (stripZone s) = some b ∧
      (expand (split [unit ':', unit ':'] b) = some words ∧ words.length = 8) ∧
        (words.flatMap fun w => [UInt8.ofNat (w / 256), UInt8.ofNat (w % 256)]) = bytes := by
  simp only [parseIPv6, Option.bind_eq_bind, Option.bind_eq_some_iff, AddressText.flatMap_bytes,
    Option.ite_none_right_eq_some, Option.pure_def, Option.some.injEq, and_assoc, exists_and_left]

end Stages

section Quads

variable {s b front : JsString}

theorem colon_not_mem_text (q : QuadText) : unit ':' ∉ q.text := by
  intro hm
  have hnone := parseIPv4_eq_none hm
  rw [parseIPv4_eq_some_iff.mpr ⟨q, rfl, rfl⟩] at hnone
  exact absurd hnone (by simp)

/-- A quad at the end is folded.
Kind: L -/
theorem foldQuad_append (front : JsString) (q : QuadText) :
    foldQuad (front ++ unit ':' :: q.text) =
      some (front ++ unit ':' :: join [unit ':'] q.value.groups) := by
  have hdot : unit '.' ∈ front ++ unit ':' :: q.text :=
    List.mem_append_right _ (List.mem_cons_of_mem _ q.dot_mem_text)
  have hquad : parseIPv4 q.text = some q.value := parseIPv4_eq_some_iff.mpr ⟨q, rfl, rfl⟩
  have htake : (front ++ unit ':' :: q.text).take (front.length + 1) = front ++ [unit ':'] := by
    simp [List.take_append, List.take_of_length_le]
  have hdrop : (front ++ unit ':' :: q.text).drop (front.length + 1) = q.text := by
    simp [List.drop_append]
  obtain ⟨i, hi⟩ := Option.ne_none_iff_exists'.mp (indexOf_ne_none hdot)
  rw [foldQuad, hi, lastIndexOf_append_cons (colon_not_mem_text q)]
  simp only [Option.bind_eq_bind, Option.bind_some, hdrop, htake, hquad]
  simp

/-- What is folded ends in a quad; without a dot nothing is.
Kind: L -/
theorem foldQuad_eq_some (h : foldQuad s = some b) :
    (unit '.' ∉ s ∧ b = s) ∨ ∃ front, ∃ q : QuadText, s = front ++ unit ':' :: q.text ∧
      b = front ++ unit ':' :: join [unit ':'] q.value.groups := by
  by_cases hdot : unit '.' ∈ s
  · right
    obtain ⟨i, hi⟩ := Option.ne_none_iff_exists'.mp (indexOf_ne_none hdot)
    have hfold := h
    rw [foldQuad, hi] at hfold
    simp only [Option.bind_eq_bind, Option.bind_eq_some_iff] at hfold
    obtain ⟨li, hli, v4, hv4, -⟩ := hfold
    have hcolon : unit ':' ∈ s.reverse := by
      by_contra hno
      rw [lastIndexOf, indexOf_eq_none hno] at hli
      exact absurd hli (by simp)
    obtain ⟨rest, front, hs, hrest⟩ := List.eq_append_cons_of_mem hcolon
    have hsplit : s = front.reverse ++ unit ':' :: rest.reverse := by
      rw [← List.reverse_reverse s, hs]
      simp
    have hlast : unit ':' ∉ rest.reverse := by simpa using hrest
    have hindex : li = front.reverse.length := by
      rw [hsplit, lastIndexOf_append_cons hlast] at hli
      exact (Option.some.inj hli).symm
    have hdrop : s.drop (li + 1) = rest.reverse := by
      rw [hindex, hsplit]
      simp [List.drop_append]
    rw [hdrop] at hv4
    obtain ⟨q, hq, -⟩ := parseIPv4_eq_some_iff.mp hv4
    rw [← hq] at hsplit
    rw [hsplit, foldQuad_append] at h
    exact ⟨front.reverse, q, hsplit, (Option.some.inj h).symm⟩
  · left
    rw [foldQuad, indexOf_eq_none hdot] at h
    exact ⟨hdot, (Option.some.inj h).symm⟩

end Quads

/-! ### What `parseIPv6` accepts -/

/-- A text that `parseIPv6` reads: as `AddressText`, but with any leading zeros in the quad, and with
eight groups or fewer around a `::`.
Kind: D -/
structure LooseText where
  /-- The groups, or those before the `::`. -/
  head : List Group
  /-- The groups behind the `::`, if there is one. -/
  gap : Option (List Group)
  /-- The dotted quad at the end. -/
  quad : Option QuadText
  /-- The zone id. -/
  zone : Option JsString
  /-- There are eight groups in all. -/
  size : match gap with
    | none => head.length + 2 * quad.toList.length = 8
    | some tail => head.length + tail.length + 2 * quad.toList.length ≤ 8

namespace LooseText

/-- The segments, but for the quad.
Kind: D -/
def groups (t : LooseText) : Sides := ⟨t.head.map Group.text, t.gap.map (List.map Group.text)⟩

/-- The text without the zone id.
Kind: D -/
def body (t : LooseText) : JsString := (t.groups.push (t.quad.toList.map QuadText.text)).text (unit ':')

/-- The text.
Kind: D -/
def render (t : LooseText) : JsString :=
  match t.zone with
  | none => t.body
  | some zone => t.body ++ unit '%' :: zone

/-- The eight words it stands for.
Kind: D -/
def value (t : LooseText) : List ℕ :=
  match t.gap with
  | none => AddressText.words t.head (t.quad.map QuadText.value)
  | some tail => AddressText.words t.head none ++
      List.replicate (8 - t.head.length - (AddressText.words tail (t.quad.map QuadText.value)).length) 0 ++
        AddressText.words tail (t.quad.map QuadText.value)

/-- The sixteen bytes it stands for.
Kind: D -/
def bytes (t : LooseText) : List UInt8 :=
  t.value.flatMap fun w => [UInt8.ofNat (w / 256), UInt8.ofNat (w % 256)]

/-- Its quad has a number with a leading zero.
Kind: D -/
def Padded (t : LooseText) : Prop := ∃ q ∈ t.quad, q.Padded

/-- Its `::` stands beside eight groups.
Kind: D -/
def Idle (t : LooseText) : Prop :=
  ∃ tail ∈ t.gap, t.head.length + tail.length + 2 * t.quad.toList.length = 8

variable (t : LooseText)

theorem exists_groups {ps : List JsString} (h : ∀ p ∈ ps, AddressText.IsSegment p) :
    ∃ gs : List Group, gs.map Group.text = ps := by
  refine ⟨ps.attach.map fun p : { p // p ∈ ps } => ⟨p.1, h p.1 p.2⟩, ?_⟩
  rw [List.map_map]
  exact List.attach_map_subtype_val ps

theorem isSegment_of_mem_parts {p : JsString} (hp : p ∈ t.groups.parts) : AddressText.IsSegment p := by
  rcases List.mem_append.mp hp with hhead | htail
  · obtain ⟨g, -, rfl⟩ := List.mem_map.mp hhead
    exact AddressText.isSegment_group g
  · rcases hgap : t.gap with _ | tail
    · simp [groups, hgap] at htail
    · simp only [groups, hgap, Option.map_some, Option.getD_some] at htail
      obtain ⟨g, -, rfl⟩ := List.mem_map.mp htail
      exact AddressText.isSegment_group g

/-- Before the quad there is a segment, or the `::`.
Kind: L -/
theorem front_ne_nil : t.groups.front ≠ [] := by
  rcases hgap : t.gap with _ | tail
  · intro hnil
    have hsize := t.size
    simp only [groups, Sides.front, hgap, Option.map_none, List.map_eq_nil_iff] at hnil
    rw [hgap, hnil] at hsize
    cases hq : t.quad <;> simp [hq] at hsize
  · simp [groups, Sides.front, hgap]

/-- The segments once the quad is folded.
Kind: D -/
def folded : Sides := t.groups.push (t.quad.toList.flatMap fun q => q.value.groups)

theorem isSegment_of_mem_folded {p : JsString} (hp : p ∈ t.folded.parts) : AddressText.IsSegment p := by
  rw [folded, Sides.parts_push] at hp
  rcases List.mem_append.mp hp with hg | hq
  · exact t.isSegment_of_mem_parts hg
  · obtain ⟨q, -, hq⟩ := List.mem_flatMap.mp hq
    exact AddressText.isSegment_of_mem_groups hq

theorem fits_folded : HasSize t.folded := by
  have hsize := t.size
  have hlength : (t.quad.toList.flatMap fun q => q.value.groups).length = 2 * t.quad.toList.length := by
    cases t.quad <;> simp [V4.groups]
  rcases hgap : t.gap with _ | tail
  · rw [hgap] at hsize
    simpa [folded, groups, Sides.push, hgap, HasSize, hlength] using hsize
  · rw [hgap] at hsize
    simpa [folded, groups, Sides.push, hgap, HasSize, hlength, Nat.add_assoc] using hsize

/-- The words of the folded text.
Kind: L -/
theorem words_folded : wordsOf t.folded = t.value := by
  have hquad : (t.quad.toList.flatMap fun q => q.value.groups) =
      (t.quad.map QuadText.value).toList.flatMap V4.groups := by
    cases t.quad <;> rfl
  have hwords := fun gs => AddressText.map_readDigits gs (t.quad.map QuadText.value)
  have hlength : ∀ gs : List Group, (gs.map Group.text ++
      (t.quad.map QuadText.value).toList.flatMap V4.groups).length =
        (AddressText.words gs (t.quad.map QuadText.value)).length := by
    intro gs
    rw [← hwords, List.length_map]
  have hhead : (t.head.map Group.text).map (readDigits 16) = AddressText.words t.head none := by
    simpa using AddressText.map_readDigits t.head none
  rcases hgap : t.gap with _ | tail
  · simp only [folded, groups, Sides.push, hgap, Option.map_none, wordsOf, value, hquad, hwords]
  · simp only [folded, groups, Sides.push, hgap, Option.map_some, wordsOf, value, hquad, hwords,
      hlength, hhead, List.length_map]

/-- What is in a text without zone id: colons, the quad, and hexadecimal digits.
Kind: L -/
theorem of_mem_body {c : UInt16} (h : c ∈ t.body) :
    c = unit ':' ∨ (∃ q ∈ t.quad, c ∈ q.text) ∨ digitVal c < 16 := by
  rcases Sides.of_mem_text h with hc | ⟨p, hp, hcp⟩
  · exact Or.inl hc
  · rw [Sides.parts_push] at hp
    rcases List.mem_append.mp hp with hg | hq
    · exact Or.inr (Or.inr ((t.isSegment_of_mem_parts hg).digits hcp))
    · obtain ⟨q, hquad, rfl⟩ := List.mem_map.mp hq
      exact Or.inr (Or.inl ⟨q, Option.mem_toList.mp hquad, hcp⟩)

theorem stripZone_render : stripZone t.render = t.body := by
  have hpercent : unit '%' ∉ t.body := by
    intro hm
    rcases t.of_mem_body hm with hc | ⟨q, -, hcq⟩ | hc
    · exact absurd hc (by decide)
    · rcases of_parseIPv4 (parseIPv4_eq_some_iff.mpr ⟨q, rfl, rfl⟩) hcq with hc | hc
      · exact absurd hc (by decide)
      · rw [digitVal_percent] at hc
        omega
    · rw [digitVal_percent] at hc
      omega
  unfold render
  rcases t.zone with _ | zone
  · exact stripZone_of_not_mem hpercent
  · exact stripZone_append hpercent zone

/-- The quad at the end is folded into two segments.
Kind: L -/
theorem foldQuad_body : foldQuad t.body = some (t.folded.text (unit ':')) := by
  rcases hquad : t.quad with _ | q
  · have hdot : unit '.' ∉ t.body := by
      intro hm
      rcases t.of_mem_body hm with hc | ⟨q, hq, -⟩ | hc
      · exact absurd hc (by decide)
      · rw [hquad] at hq
        exact absurd hq (by simp)
      · rw [digitVal_dot] at hc
        omega
    rw [foldQuad, indexOf_eq_none hdot, body, folded, hquad]
    rfl
  · have hpush : ∀ last : List JsString, last ≠ [] →
        (t.groups.push last).text (unit ':') =
          join [unit ':'] t.groups.front ++ unit ':' :: join [unit ':'] last := by
      intro last hlast
      rw [Sides.text_push hlast, join_append t.front_ne_nil hlast, List.append_assoc]
      rfl
    have hbody : t.body = join [unit ':'] t.groups.front ++ unit ':' :: q.text := by
      rw [body, hquad]
      exact hpush [q.text] (List.cons_ne_nil _ _)
    have hfolded : t.folded.text (unit ':') =
        join [unit ':'] t.groups.front ++ unit ':' :: join [unit ':'] q.value.groups := by
      rw [folded, hquad]
      exact hpush q.value.groups (List.cons_ne_nil _ _)
    rw [hbody, foldQuad_append, hfolded]

/-- Segments of which there are as many as there have to be make a text, with any quad and zone id.
Kind: L -/
theorem exists_of_segments {sides : Sides} (hsegs : ∀ p ∈ sides.parts, AddressText.IsSegment p)
    {quad : Option QuadText}
    (hfits : HasSize (sides.push (quad.toList.flatMap fun q => q.value.groups))) (zone : Option JsString) :
    ∃ t : LooseText, t.groups = sides ∧ t.quad = quad ∧ t.zone = zone := by
  have hlength : (quad.toList.flatMap fun q => q.value.groups).length = 2 * quad.toList.length := by
    cases quad <;> simp [V4.groups]
  rcases sides with ⟨head, _ | tail⟩
  · obtain ⟨gs, rfl⟩ := exists_groups fun p hp => hsegs p (by simpa [Sides.parts] using hp)
    have hsize : gs.length + 2 * quad.toList.length = 8 := by
      simpa [Sides.push, HasSize, hlength] using hfits
    exact ⟨⟨gs, none, quad, zone, hsize⟩, rfl, rfl, rfl⟩
  · obtain ⟨gs, rfl⟩ := exists_groups fun p hp => hsegs p (List.mem_append_left _ hp)
    obtain ⟨gs', rfl⟩ := exists_groups fun p hp => hsegs p (List.mem_append_right _ hp)
    have hsize : gs.length + gs'.length + 2 * quad.toList.length ≤ 8 := by
      simpa [Sides.push, HasSize, hlength, Nat.add_assoc] using hfits
    exact ⟨⟨gs, some gs', quad, zone, hsize⟩, rfl, rfl, rfl⟩

/-- Segments that are found in what the zone id leaves, with any quad, make a text of the string.
Kind: L -/
theorem exists_of_stripZone {s : JsString} {sides : Sides} (quad : Option QuadText)
    (hsegs : ∀ p ∈ sides.parts, AddressText.IsSegment p)
    (hfits : HasSize (sides.push (quad.toList.flatMap fun q => q.value.groups)))
    (htext : (sides.push (quad.toList.map QuadText.text)).text (unit ':') = stripZone s) :
    ∃ t : LooseText, t.render = s ∧
      t.folded = sides.push (quad.toList.flatMap fun q => q.value.groups) := by
  rcases eq_stripZone s with hs | ⟨zone, hs⟩
  · obtain ⟨t, rfl, rfl, hzone⟩ := exists_of_segments hsegs hfits none
    refine ⟨t, ?_, rfl⟩
    rw [hs, render, hzone]
    exact htext
  · obtain ⟨t, rfl, rfl, hzone⟩ := exists_of_segments hsegs hfits (some zone)
    refine ⟨t, ?_, rfl⟩
    rw [hs, render, hzone]
    exact congrArg (· ++ unit '%' :: zone) htext

/-- What is read of a string comes from a text.
Kind: L -/
theorem exists_folded {s b : JsString} {sides : Sides} (hfold : foldQuad (stripZone s) = some b)
    (hsegs : ∀ p ∈ sides.parts, AddressText.IsSegment p) (hfits : HasSize sides)
    (hb : sides.text (unit ':') = b) : ∃ t : LooseText, t.render = s ∧ t.folded = sides := by
  rcases foldQuad_eq_some hfold with ⟨-, rfl⟩ | ⟨front, q, hs, rfl⟩
  · have hpush : sides.push [] = sides := Sides.push_nil sides
    obtain ⟨t, ht, hfolded⟩ := exists_of_stripZone none hsegs
      (by rw [Option.toList_none, List.flatMap_nil, hpush]; exact hfits)
      (by rw [Option.toList_none, List.map_nil, hpush]; exact hb)
    exact ⟨t, ht, hfolded.trans hpush⟩
  · have hgroup : ∀ g ∈ q.value.groups, g ≠ [] ∧ unit ':' ∉ g := fun g hg =>
      ⟨(AddressText.isSegment_of_mem_groups hg).ne_nil,
        (AddressText.isSegment_of_mem_groups hg).not_mem_colon⟩
    -- the last two segments are those of the quad
    obtain ⟨sides', rfl, hne, rfl⟩ := Sides.exists_push (proper_of_segments hsegs)
      (hgroup _ (by simp [V4.groups])) (hgroup _ (by simp [V4.groups])) hb
    have hsegs' : ∀ p ∈ sides'.parts, AddressText.IsSegment p := fun p hp =>
      hsegs p (by rw [Sides.parts_push]; exact List.mem_append_left _ hp)
    apply exists_of_stripZone (some q) hsegs' hfits
    calc (sides'.push [q.text]).text (unit ':')
        = join [unit ':'] (sides'.front ++ [q.text]) := Sides.text_push (List.cons_ne_nil _ _)
      _ = stripZone s := by
          rw [join_append hne (List.cons_ne_nil _ _), List.append_assoc, hs]
          rfl

end LooseText

/-- **What `parseIPv6` accepts**: the texts of groups, `::`, quad and zone id, with any leading zeros
in the quad, and with eight groups or fewer around a `::`.
Kind: P -/
theorem parseIPv6_eq_some_iff {s : JsString} {bytes : List UInt8} :
    parseIPv6 s = some bytes ↔ ∃ t : LooseText, t.render = s ∧ t.bytes = bytes := by
  rw [parseIPv6_eq_some]
  constructor
  · rintro ⟨b, words, hfold, ⟨hexpand, hlength⟩, rfl⟩
    obtain ⟨sides, hsegs, hfits, hb, rfl⟩ := exists_of_expand hexpand hlength
    obtain ⟨t, ht, hfolded⟩ := LooseText.exists_folded hfold hsegs hfits hb
    refine ⟨t, ht, ?_⟩
    rw [LooseText.bytes, ← t.words_folded, hfolded]
  · rintro ⟨t, rfl, rfl⟩
    have hsegs : ∀ p ∈ t.folded.parts, AddressText.IsSegment p := fun p => t.isSegment_of_mem_folded
    refine ⟨t.folded.text (unit ':'), t.value, ?_, ?_, rfl⟩
    · rw [t.stripZone_render, t.foldQuad_body]
    · rw [← t.words_folded]
      exact ⟨expand_text hsegs t.fits_folded, length_wordsOf t.fits_folded⟩

end TyoMq.Push
