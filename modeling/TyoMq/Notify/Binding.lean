import Mathlib.Data.Rat.Encodable
import TyoMq.Lib.JsonString
import TyoMq.Notify.Auth

/-!
# Private topics: what a proof is bound to

The text that a proof signs joins four parts by newlines, and the third of them, the nonce, may hold
newlines of its own. The action and the timestamp hold none, and neither does the body, so that the first
two newlines and the last one separate the parts (`parts_inj`).

* **Proofs are bound** (`proof_binding`): the text determines its parts, and where signatures cannot be
  forged a proof that is accepted was signed for that action and that body, whatever else is presented.
-/

namespace TyoMq.Notify

open TyoMq.Lib

variable {Body Key : Type} {c : Crypto Body Key} {Same : Body → Body → Prop}

/-! ### What is taken from elsewhere -/

/-- `stableStringify` is canonical: bodies with the same text are the same but for the order of their
keys, and the text is on one line.
Kind: D -/
structure Canonical (c : Crypto Body Key) (Same : Body → Body → Prop) : Prop where
  /-- Bodies with the same text are the same. -/
  same : ∀ b b', c.stableStringify b = c.stableStringify b' → Same b b'
  /-- A text has no newline. -/
  newline_not_mem : ∀ b, 10 ∉ c.stableStringify b

/-- Numbers have texts of their own, each on one line.
Kind: D -/
structure PrintsNumbers (c : Crypto Body Key) : Prop where
  /-- Numbers with the same text are the same. -/
  inj : ∀ t t', c.numberToString t = c.numberToString t' → t = t'
  /-- A text has no newline. -/
  newline_not_mem : ∀ t, 10 ∉ c.numberToString t

/-- What the holder of a key has signed.
Kind: D -/
structure Statement (Body : Type) where
  /-- The action. -/
  action : JsString
  /-- The body. -/
  body : Body
  /-- The timestamp. -/
  timestamp : ℚ
  /-- The nonce. -/
  nonce : JsString

/-- A signature that verifies under the key is one that its holder has made, over the same bytes.
Kind: D -/
def Unforgeable (c : Crypto Body Key) (key : Key) (signed : Set (Statement Body)) : Prop :=
  ∀ base signature, c.verify base key signature = some true →
    ∃ st ∈ signed, utf8 base = utf8 (signatureBase c st.action st.body st.timestamp st.nonce)

/-! ### The parts of the text -/

section Parts

variable {a a' t t' n n' b b' : JsString}

/-- Four parts with newlines between them, of which only the third may hold any.
Kind: L -/
theorem parts_inj (ha : 10 ∉ a) (ha' : 10 ∉ a') (ht : 10 ∉ t) (ht' : 10 ∉ t') (hb : 10 ∉ b)
    (hb' : 10 ∉ b')
    (h : a ++ 10 :: (t ++ 10 :: (n ++ 10 :: b)) = a' ++ 10 :: (t' ++ 10 :: (n' ++ 10 :: b'))) :
    a = a' ∧ t = t' ∧ n = n' ∧ b = b' := by
  obtain ⟨haction, hrest⟩ := (append_cons_inj ha ha').mp h
  obtain ⟨htime, hrest⟩ := (append_cons_inj ht ht').mp hrest
  obtain ⟨hnonce, hbody⟩ := (append_cons_inj_last hb hb').mp hrest
  exact ⟨haction, htime, hnonce, hbody⟩

/-- The timestamp in the text.
Kind: D -/
def timeText (c : Crypto Body Key) (timestamp : ℚ) : JsString :=
  if timestamp = 0 then [] else c.numberToString timestamp

theorem newline_not_mem_timeText (h : PrintsNumbers c) (timestamp : ℚ) : 10 ∉ timeText c timestamp := by
  unfold timeText
  split_ifs
  · exact List.not_mem_nil
  · exact h.newline_not_mem timestamp

theorem signatureBase_eq (c : Crypto Body Key) (action : JsString) (body : Body) (timestamp : ℚ)
    (nonce : JsString) :
    signatureBase c action body timestamp nonce =
      action ++ 10 :: (timeText c timestamp ++ 10 :: (nonce ++ 10 :: c.stableStringify body)) := by
  have hnewline : js "\n" = [10] := rfl
  rw [signatureBase, hnewline]
  simp only [join, List.append_assoc, List.singleton_append]
  rfl

/-- Lone surrogates are replaced in each part on its own.
Kind: L -/
theorem toWellFormed_parts (a t n b : JsString) :
    toWellFormed (a ++ 10 :: (t ++ 10 :: (n ++ 10 :: b))) =
      toWellFormed a ++ 10 :: (toWellFormed t ++ 10 :: (toWellFormed n ++ 10 :: toWellFormed b)) := by
  have hone : ∀ s rest : JsString,
      toWellFormed (s ++ 10 :: rest) = toWellFormed s ++ 10 :: toWellFormed rest := by
    intro s rest
    rw [toWellFormed_append_cons (by decide), toWellFormed_cons (by decide)]
  rw [hone, hone, hone]

theorem newline_not_mem_toWellFormed {s : JsString} (h : 10 ∉ s) : 10 ∉ toWellFormed s := by
  intro hmem
  rcases mem_toWellFormed hmem with hmem | hmem
  · exact h hmem
  · exact absurd hmem (by decide)

end Parts

/-! ### Binding -/

/-- The text determines its parts.
Kind: L -/
theorem signatureBase_inj (hbody : Canonical c Same) (hnumbers : PrintsNumbers c) {a a' : JsString}
    {b b' : Body} {t t' : ℚ} {n n' : JsString} (ha : 10 ∉ a) (ha' : 10 ∉ a') (ht : t ≠ 0) (ht' : t' ≠ 0)
    (h : signatureBase c a b t n = signatureBase c a' b' t' n') : a = a' ∧ Same b b' ∧ t = t' ∧ n = n' := by
  rw [signatureBase_eq, signatureBase_eq] at h
  obtain ⟨haction, htime, hnonce, htext⟩ := parts_inj ha ha' (newline_not_mem_timeText hnumbers t)
    (newline_not_mem_timeText hnumbers t') (hbody.newline_not_mem b) (hbody.newline_not_mem b') h
  rw [timeText, timeText, if_neg ht, if_neg ht'] at htime
  exact ⟨haction, hbody.same b b' htext, hnumbers.inj t t' htime, hnonce⟩

/-- The bytes of the text determine the action and the body, where these are well formed.
Kind: L -/
theorem action_body_of_utf8 (hbody : Canonical c Same) (hnumbers : PrintsNumbers c) {a a' : JsString}
    {b b' : Body} {t t' : ℚ} {n n' : JsString} (ha : 10 ∉ a) (ha' : 10 ∉ a') (hwa : WellFormed a)
    (hwa' : WellFormed a') (hwb : WellFormed (c.stableStringify b))
    (hwb' : WellFormed (c.stableStringify b'))
    (h : utf8 (signatureBase c a b t n) = utf8 (signatureBase c a' b' t' n')) : a = a' ∧ Same b b' := by
  rw [utf8_inj, signatureBase_eq, signatureBase_eq, toWellFormed_parts, toWellFormed_parts] at h
  obtain ⟨haction, -, -, htext⟩ := parts_inj (newline_not_mem_toWellFormed ha)
    (newline_not_mem_toWellFormed ha')
    (newline_not_mem_toWellFormed (newline_not_mem_timeText hnumbers t))
    (newline_not_mem_toWellFormed (newline_not_mem_timeText hnumbers t'))
    (newline_not_mem_toWellFormed (hbody.newline_not_mem b))
    (newline_not_mem_toWellFormed (hbody.newline_not_mem b')) h
  rw [hwa, hwa'] at haction
  rw [hwb, hwb'] at htext
  exact ⟨haction, hbody.same b b' htext⟩

/-- A proof that is accepted carries a signature of the text.
Kind: L -/
theorem verify_of_verifyProof {pubkey action : JsString} {body : Body} {proof : Proof} {now : ℚ} {key : Key}
    (hkey : importPubkey c pubkey = some key) (h : verifyProof c pubkey action body proof now = true) :
    ∃ t, c.verify (signatureBase c action body t proof.nonce) key proof.signature = some true := by
  unfold verifyProof at h
  split at h
  · cases h
  · cases h
  · rename_i t ht
    split_ifs at h with hempty hfresh
    rw [hkey] at h
    dsimp only at h
    refine ⟨t, ?_⟩
    rcases hverify : c.verify (signatureBase c action body t proof.nonce) key proof.signature with _ | b
    · rw [hverify] at h
      cases h
    · rw [hverify] at h
      rw [show b = true from h]

/-- **Proofs are bound to their action and body.** The signed text determines its parts; and where what
verifies under a key has been signed by its holder, a proof is accepted only for an action and a body that
the holder has signed, whatever nonce, timestamp and signature are presented.
Source: `lib/notify-auth.js`, `signatureBase`, `verifyProof`
Kind: P -/
theorem proof_binding (hbody : Canonical c Same) (hnumbers : PrintsNumbers c) :
    (∀ a a' b b' t t' n n', 10 ∉ a → 10 ∉ a' → t ≠ 0 → t' ≠ 0 →
      signatureBase c a b t n = signatureBase c a' b' t' n' → a = a' ∧ Same b b' ∧ t = t' ∧ n = n') ∧
    ∀ pubkey key signed, importPubkey c pubkey = some key → Unforgeable c key signed →
      (∀ st ∈ signed, 10 ∉ st.action ∧ WellFormed st.action ∧ WellFormed (c.stableStringify st.body)) →
      ∀ action body proof now, 10 ∉ action → WellFormed action → WellFormed (c.stableStringify body) →
        verifyProof c pubkey action body proof now = true →
        ∃ st ∈ signed, st.action = action ∧ Same st.body body := by
  refine ⟨fun a a' b b' t t' n n' ha ha' ht ht' h => signatureBase_inj hbody hnumbers ha ha' ht ht' h, ?_⟩
  intro pubkey key signed hkey hsigned hclean action body proof now haction hwell htext hverified
  obtain ⟨t, hverify⟩ := verify_of_verifyProof hkey hverified
  obtain ⟨st, hst, hbytes⟩ := hsigned _ _ hverify
  obtain ⟨hnewline, hwellAction, hwellBody⟩ := hclean st hst
  have hsame := action_body_of_utf8 hbody hnumbers hnewline haction hwellAction hwell hwellBody htext
    hbytes.symm
  exact ⟨st, hst, hsame⟩

/-! ### A signed proof -/

namespace BindingSample

/-- A text for every number, the usual one for the natural numbers.
Kind: D -/
def numberText (q : ℚ) : JsString :=
  if q.num.natAbs = q then toRadix 10 q.num.natAbs else unit '-' :: toRadix 10 (Encodable.encode q)

/-- The body of a request to read a topic.
Kind: D -/
def bodyText (topic : JsString) : JsString :=
  js "\x7b\"topic\":" ++ (quote topic ++ js "\x7d")

/-- The text of the one proof that is signed.
Kind: D -/
def signedText : JsString := js "json\n1060000\nn1\n\x7b\"topic\":\"alerts\"\x7d"

/-- One signature verifies.
Kind: D -/
def crypto : Crypto JsString Unit where
  stableStringify := bodyText
  numberToString := numberText
  createPublicKey _ := some ()
  verify base _ signature := some (decide (base = signedText ∧ signature = js "c2ln"))

/-- The text of a number is made of digits, behind a dash or not.
Kind: L -/
theorem not_mem_toRadix {u : UInt16} (hu : 10 ≤ digitVal u) (n : ℕ) : u ∉ toRadix 10 n := by
  intro h
  have hdigit := digitVal_lt_of_mem_toRadix (by decide) (by decide) h
  omega

theorem prints_numbers : PrintsNumbers crypto := by
  have hinj : ∀ m n, toRadix 10 m = toRadix 10 n → m = n := fun m n => toRadix_inj (by decide) (by decide)
  have hdash : ∀ m n, toRadix 10 m ≠ unit '-' :: toRadix 10 n := by
    intro m n h
    have hmem : unit '-' ∈ toRadix 10 m := by
      rw [h]
      exact List.mem_cons_self
    exact not_mem_toRadix (by decide) m hmem
  constructor
  · intro t t' h
    have htext : numberText t = numberText t' := h
    unfold numberText at htext
    split_ifs at htext with hnat hnat' hnat'
    · rw [← hnat, hinj _ _ htext, hnat']
    · exact absurd htext (hdash _ _)
    · exact absurd htext.symm (hdash _ _)
    · exact Encodable.encode_injective (hinj _ _ (List.tail_eq_of_cons_eq htext))
  · intro t hmem
    have hmem' : 10 ∈ numberText t := hmem
    unfold numberText at hmem'
    split_ifs at hmem'
    · exact not_mem_toRadix (by decide) _ hmem'
    · rcases List.mem_cons.mp hmem' with heq | hmem'
      · exact absurd heq (by decide)
      · exact not_mem_toRadix (by decide) _ hmem'

theorem canonical : Canonical crypto (fun b b' : JsString => b = b') := by
  constructor
  · intro b b' h
    have htext : bodyText b = bodyText b' := h
    unfold bodyText at htext
    exact quote_inj (List.append_cancel_right (List.append_cancel_left htext))
  · intro b hmem
    have hmem' : 10 ∈ bodyText b := hmem
    unfold bodyText quote at hmem'
    rw [List.mem_append, List.mem_append, List.mem_cons, List.mem_append] at hmem'
    rcases hmem' with h | (h | h | h) | h
    · exact absurd h (by decide)
    · exact absurd h (by decide)
    · exact absurd (le_of_mem_escaped h) (by decide)
    · exact absurd h (by decide)
    · exact absurd h (by decide)

end BindingSample

/-- The proof that is signed is accepted, and its action and body are what has been signed.
Kind: C -/
theorem proof_binding_signed :
    verifyProof BindingSample.crypto (js "MCow") (js "json") (js "alerts")
      ⟨some (some 1060000), js "n1", js "c2ln"⟩ 1060000 = true ∧
    ∃ st ∈ ({⟨js "json", js "alerts", 1060000, js "n1"⟩} : Set (Statement JsString)),
      st.action = js "json" ∧ st.body = js "alerts" := by
  have haccepted : verifyProof BindingSample.crypto (js "MCow") (js "json") (js "alerts")
      ⟨some (some 1060000), js "n1", js "c2ln"⟩ 1060000 = true := by decide +kernel
  have hsigned : Unforgeable BindingSample.crypto () {⟨js "json", js "alerts", 1060000, js "n1"⟩} := by
    intro base signature hverify
    have hboth := of_decide_eq_true (Option.some.inj hverify)
    refine ⟨_, Set.mem_singleton _, ?_⟩
    rw [hboth.1]
    decide +kernel
  refine ⟨haccepted, (proof_binding BindingSample.canonical BindingSample.prints_numbers).2 (js "MCow") () _
    rfl hsigned ?_ (js "json") (js "alerts") _ 1060000 (by decide) (by decide) (by decide +kernel) haccepted⟩
  rintro st rfl
  exact ⟨by decide, by decide, by decide +kernel⟩

end TyoMq.Notify
