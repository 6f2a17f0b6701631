import TyoMq.Jwks.Cache

/-!
# The pre-shared keys of realms

`lib/realm-keys.js`: a realm's key is stored as a digest of it. A config that still carries the key
itself, under one of three names, is rewritten: the digest goes under `key_hash`, and the three names are
deleted.

* SHA-256 is a parameter (`Sha256`), with the form of its digests. That a digest is that of one key only is
  a hypothesis about the key (`CollisionFree`).
* `realmKeyMatches_iff`: a key opens the realm exactly when the stored digest is its own.
* **The migration** (`migrated_iff`): when it leaves no raw key behind, and lets in that key and no other.
* **It is idempotent** (`normalizeRealmConfig_idem`).
-/

namespace TyoMq.Auth

open TyoMq.Lib
open TyoMq.Jwks (Value truthy)

/-- SHA-256, written in hexadecimal.
Kind: D -/
structure Sha256 where
  /-- `createHash('sha256').update(bytes).digest('hex')`. -/
  hex : List (Fin 256) → JsString
  /-- It has 64 digits. -/
  length_hex : ∀ bytes, (hex bytes).length = 64
  /-- They are hexadecimal digits. -/
  digitVal_of_mem : ∀ bytes, ∀ u ∈ hex bytes, digitVal u < 16

/-- `HASH_PREFIX`.
Kind: D -/
def HASH_PREFIX : JsString := js "sha256:"

/-- `HASH_DOMAIN`.
Kind: D -/
def HASH_DOMAIN : JsString := js "tyo-mq realm key v1\x00"

/-- A realm's config: what a JSON object holds.
Kind: D -/
abbrev RealmConfig := JsMap JsString Value

section Model

variable (d : Sha256) (dateParse : Option Value → Option ℚ)

/-- The stored form of a key.
Source: `lib/realm-keys.js`, `hashRealmKey`
Kind: D -/
def hashRealmKey (key : JsString) : JsString := HASH_PREFIX ++ d.hex (utf8 (HASH_DOMAIN ++ key))

/-- Does the value have the form of a stored key?
Source: `lib/realm-keys.js`, `isRealmKeyHash`
Kind: D -/
def isRealmKeyHash : Option Value → Bool
  | some (.str value) => HASH_PREFIX.isPrefixOf value && value.length == HASH_PREFIX.length + 64
  | _ => false

/-- Is the presented key the one that is stored?
Source: `lib/realm-keys.js`, `realmKeyMatches`
Kind: D -/
def realmKeyMatches (presented storedHash : Option Value) : Bool :=
  match presented, storedHash with
  | some (.str presented), some (.str storedHash) =>
      if presented = [] ∨ isRealmKeyHash (some (.str storedHash)) = false then false
      else utf8 (hashRealmKey d presented) = utf8 storedHash
  | _, _ => false

/-- Is the time still to come? `dateParse` is `Date.parse`, with `none` for `NaN`.
Source: `lib/realm-keys.js`, `stillValid`
Kind: D -/
def stillValid (till : Option Value) (now : ℚ) : Bool :=
  match dateParse till with
  | some t => now < t
  | none => false

/-- `a || b`.
Kind: D -/
def orElse (a b : Option Value) : Option Value := if a.any truthy then a else b

/-- `rc.key || rc.preshared_key || rc.presharedKey`.
Source: `lib/realm-keys.js`, `normalizeRealmConfig`
Kind: D -/
def rawKey (rc : RealmConfig) : Option Value :=
  orElse (rc.get (js "key")) (orElse (rc.get (js "preshared_key")) (rc.get (js "presharedKey")))

/-- The raw key becomes its digest. A key that has the form of a digest is stored as it is.
Source: `lib/realm-keys.js`, `normalizeRealmConfig`
Kind: D -/
def rewriteKey (rc : RealmConfig) : RealmConfig × Bool :=
  match rawKey rc with
  | some (.str raw) =>
      if raw = [] then (rc, false)
      else
        let key_hash := if isRealmKeyHash (some (.str raw)) then raw else hashRealmKey d raw
        ((((rc.set (js "key_hash") (.str key_hash)).delete (js "key")).delete (js "preshared_key")).delete
          (js "presharedKey"), true)
  | _ => (rc, false)

/-- A previous secret is dropped once its time is over.
Source: `lib/realm-keys.js`, `normalizeRealmConfig`
Kind: D -/
def dropPrevious (field till : JsString) (rc : RealmConfig) (now : ℚ) : RealmConfig × Bool :=
  match rc.get field with
  | none => (rc, false)
  | some previous =>
      if truthy previous ∧ stillValid dateParse (rc.get till) now then (rc, false)
      else ((rc.delete field).delete till, true)

/-- One realm's config, and whether something has changed. `now` is the time given, or the clock's.
Source: `lib/realm-keys.js`, `normalizeRealmConfig`
Kind: D -/
def normalizeRealmConfig (rc : RealmConfig) (now : ℚ) : RealmConfig × Bool :=
  let key := rewriteKey d rc
  let previousKey := dropPrevious dateParse (js "previous_key_hash") (js "previous_key_until") key.1 now
  let previousManager :=
    dropPrevious dateParse (js "previous_manager_key") (js "previous_manager_until") previousKey.1 now
  (previousManager.1, key.2 || previousKey.2 || previousManager.2)

end Model

/-! ### What the migration is for -/

/-- The names under which a raw key may stand.
Kind: D -/
def keyFields : List JsString := [js "key", js "preshared_key", js "presharedKey"]

/-- No non-empty string stands under them.
Kind: D -/
def NoSecret (rc : RealmConfig) : Prop := ∀ k ∈ keyFields, ∀ s, rc.get k = some (.str s) → s = []

/-- The string, if it is a raw key: it is not empty and has not the form of a digest.
Kind: D -/
def raw? (value : Option Value) : Option JsString :=
  (value.bind JsonValue.text?).filter fun s => s ≠ [] && !isRealmKeyHash (some (.str s))

/-- The raw key of a config: that of the first name that has one.
Kind: D -/
def firstRaw (rc : RealmConfig) : Option JsString := keyFields.findSome? fun k => raw? (rc.get k)

/-- A config after the migration, beside the one before it.
Kind: D -/
structure Migrated (d : Sha256) (rc rc' : RealmConfig) : Prop where
  /-- No raw secret is left. -/
  noSecret : NoSecret rc'
  /-- The raw key opens the realm, and no other well-formed string does. -/
  opens : ∀ r, firstRaw rc = some r → ∀ p, WellFormed p →
    (realmKeyMatches d (some (.str p)) (rc'.get (js "key_hash")) = true ↔ p = r)

/-- No other bytes have the digest of this key.
Kind: D -/
def CollisionFree (d : Sha256) (key : JsString) : Prop :=
  ∀ bytes, d.hex bytes = d.hex (utf8 (HASH_DOMAIN ++ key)) → bytes = utf8 (HASH_DOMAIN ++ key)

/-! ### Digests -/

section Digests

variable {d : Sha256} {p r s : JsString}

/-- Every unit of a stored key is ASCII.
Kind: L -/
theorem toNat_lt_of_mem_hashRealmKey {u : UInt16} (h : u ∈ hashRealmKey d p) : u.toNat < 128 := by
  rcases List.mem_append.mp h with h | h
  · have hascii : (HASH_PREFIX.all fun u => u.toNat < 128) = true := rfl
    exact of_decide_eq_true (List.all_eq_true.mp hascii u h)
  · have hdigit := d.digitVal_of_mem _ u h
    obtain ⟨-, hle, -⟩ := toNat_of_digitVal_lt (hdigit.trans (by decide))
    omega

theorem isRealmKeyHash_hashRealmKey (d : Sha256) (p : JsString) :
    isRealmKeyHash (some (.str (hashRealmKey d p))) = true := by
  rw [isRealmKeyHash, Bool.and_eq_true]
  constructor
  · rw [List.isPrefixOf_iff_prefix]
    exact List.prefix_append _ _
  · rw [hashRealmKey, List.length_append, d.length_hex, beq_self_eq_true]

/-- A key opens the realm exactly when the stored digest is its own.
Kind: L -/
theorem realmKeyMatches_iff :
    realmKeyMatches d (some (.str p)) (some (.str s)) = true ↔ p ≠ [] ∧ s = hashRealmKey d p := by
  have hsame : utf8 (hashRealmKey d p) = utf8 s ↔ s = hashRealmKey d p := by
    constructor
    · intro h
      have hascii : replacement ∉ scalars (hashRealmKey d p) :=
        replacement_not_mem_of_ascii fun u hu => toNat_lt_of_mem_hashRealmKey hu
      exact unmistakable_iff.mpr hascii s (utf8_inj.mp h).symm
    · intro h
      rw [h]
  simp only [realmKeyMatches]
  split_ifs with h
  · refine iff_of_false id fun ⟨hne, hs⟩ => ?_
    rcases h with h | h
    · exact hne h
    · rw [hs, isRealmKeyHash_hashRealmKey] at h
      exact Bool.false_ne_true h.symm
  · rw [decide_eq_true_eq, hsame]
    exact ⟨fun hs => ⟨fun hp => h (Or.inl hp), hs⟩, And.right⟩

theorem utf8_domain_iff :
    utf8 (HASH_DOMAIN ++ p) = utf8 (HASH_DOMAIN ++ r) ↔ toWellFormed p = toWellFormed r := by
  -- the domain ends in a unit that cannot begin a pair
  have hdomain : ∀ key, toWellFormed (HASH_DOMAIN ++ key) =
      toWellFormed (js "tyo-mq realm key v1") ++ 0 :: toWellFormed key := by
    intro key
    have hsplit : HASH_DOMAIN = js "tyo-mq realm key v1" ++ [0] := by decide
    rw [hsplit, List.append_assoc, List.singleton_append, toWellFormed_append_cons (by decide),
      toWellFormed_cons (by decide)]
  rw [utf8_inj, hdomain, hdomain, List.append_cancel_left_eq, List.cons.injEq]
  exact and_iff_right rfl

/-- Two keys have the same digest when they are the same once lone surrogates are replaced.
Kind: L -/
theorem hashRealmKey_eq_of_toWellFormed (h : toWellFormed p = toWellFormed r) :
    hashRealmKey d p = hashRealmKey d r := by
  rw [hashRealmKey, hashRealmKey, utf8_domain_iff.mpr h]

theorem toWellFormed_eq_of_hashRealmKey (hfree : CollisionFree d r)
    (h : hashRealmKey d p = hashRealmKey d r) : toWellFormed p = toWellFormed r :=
  utf8_domain_iff.mp (hfree _ (List.append_cancel_left h))

end Digests

/-! ### The config after the migration -/

section Fields

variable {d : Sha256} {dateParse : Option Value → Option ℚ} {rc : RealmConfig} {k : JsString}

/-- Dropping a previous secret leaves the other names alone.
Kind: L -/
theorem get_dropPrevious {field till : JsString} {now : ℚ} (hfield : k ≠ field) (htill : k ≠ till) :
    (dropPrevious dateParse field till rc now).1.get k = rc.get k := by
  unfold dropPrevious
  split
  · rfl
  · split_ifs
    · rfl
    · rw [JsMap.get_delete_of_ne _ htill, JsMap.get_delete_of_ne _ hfield]

/-- What the migration makes of the raw key is what it makes of it first.
Kind: L -/
theorem get_normalizeRealmConfig {now : ℚ} (hk : k ∈ js "key_hash" :: keyFields) :
    (normalizeRealmConfig d dateParse rc now).1.get k = (rewriteKey d rc).1.get k := by
  have hother : k ≠ js "previous_key_hash" ∧ k ≠ js "previous_key_until" ∧ k ≠ js "previous_manager_key" ∧
      k ≠ js "previous_manager_until" := by
    have hall : ((js "key_hash" :: keyFields).all fun k =>
        k ≠ js "previous_key_hash" ∧ k ≠ js "previous_key_until" ∧ k ≠ js "previous_manager_key" ∧
          k ≠ js "previous_manager_until") = true := rfl
    exact of_decide_eq_true (List.all_eq_true.mp hall k hk)
  obtain ⟨hkey, hkeyTill, hmanager, hmanagerTill⟩ := hother
  rw [normalizeRealmConfig, get_dropPrevious hmanager hmanagerTill, get_dropPrevious hkey hkeyTill]

/-- The same for the names of raw keys.
Kind: L -/
theorem get_normalizeRealmConfig_keyFields {now : ℚ} (hk : k ∈ keyFields) :
    (normalizeRealmConfig d dateParse rc now).1.get k = (rewriteKey d rc).1.get k :=
  get_normalizeRealmConfig (List.mem_cons_of_mem _ hk)

/-- A raw key is deleted, and its digest stored.
Kind: L -/
theorem rewriteKey_of_text {s : JsString} (hs : s ≠ []) (h : rawKey rc = some (.str s)) :
    (∀ k ∈ keyFields, (rewriteKey d rc).1.get k = none) ∧
      (rewriteKey d rc).1.get (js "key_hash") =
        some (.str (if isRealmKeyHash (some (.str s)) then s else hashRealmKey d s)) := by
  have hne : js "key_hash" ≠ js "key" ∧ js "key_hash" ≠ js "preshared_key" ∧
      js "key_hash" ≠ js "presharedKey" := by
    decide
  simp only [rewriteKey, h, if_neg hs]
  constructor
  · intro k hk
    simp only [keyFields, List.mem_cons, List.not_mem_nil, or_false] at hk
    rcases hk with rfl | rfl | rfl
    · rw [JsMap.get_delete_of_ne _ (by decide), JsMap.get_delete_of_ne _ (by decide), JsMap.get_delete_self]
    · rw [JsMap.get_delete_of_ne _ (by decide), JsMap.get_delete_self]
    · exact JsMap.get_delete_self _ _
  · rw [JsMap.get_delete_of_ne _ hne.2.2, JsMap.get_delete_of_ne _ hne.2.1, JsMap.get_delete_of_ne _ hne.1,
      JsMap.get_set_self]

/-- Anything else stays as it is.
Kind: L -/
theorem rewriteKey_of_not_text (h : ∀ s, rawKey rc = some (.str s) → s = []) :
    rewriteKey d rc = (rc, false) := by
  unfold rewriteKey
  split
  · next raw hraw => rw [if_pos (h raw hraw)]
  · rfl

end Fields

/-! ### The raw key that is found first -/

section FirstRaw

variable {rc : RealmConfig} {s : JsString}

theorem truthy_str (s : JsString) : truthy (.str s) = true ↔ s ≠ [] := by rw [truthy, decide_eq_true_eq]

theorem raw?_str (hs : s ≠ []) (hform : isRealmKeyHash (some (.str s)) = false) :
    raw? (some (.str s)) = some s := by
  rw [raw?, Option.bind_some, JsonValue.text?, Option.filter_some, hform, if_pos]
  rw [Bool.not_false, Bool.and_true]
  exact decide_eq_true hs

/-- What `raw?` finds.
Kind: L -/
theorem eq_of_raw? {v : Option Value} (h : raw? v = some s) :
    v = some (.str s) ∧ s ≠ [] ∧ isRealmKeyHash (some (.str s)) = false := by
  rw [raw?, Option.filter_eq_some_iff, Option.bind_eq_some_iff] at h
  obtain ⟨⟨value, hv, htext⟩, hraw⟩ := h
  rw [Bool.and_eq_true, Bool.not_eq_true'] at hraw
  cases value with
  | str t =>
      rw [JsonValue.text?, Option.some.injEq] at htext
      subst htext
      exact ⟨hv, of_decide_eq_true hraw.1, hraw.2⟩
  | null | bool _ | num _ | arr _ | obj _ => cases htext

/-- What is not true in a condition is no raw key.
Kind: L -/
theorem raw?_of_not_truthy {v : Option Value} (h : v.any truthy = false) : raw? v = none := by
  cases hraw : raw? v with
  | none => rfl
  | some s =>
      obtain ⟨rfl, hne, -⟩ := eq_of_raw? hraw
      rw [Option.any_some, Bool.eq_false_iff, Ne, truthy_str] at h
      exact absurd hne h

/-- A non-empty string that a choice ends in is one of the two, and the first unless that is not true.
Kind: L -/
theorem orElse_eq_str {a b : Option Value} (h : orElse a b = some (.str s)) :
    a = some (.str s) ∨ a.any truthy = false ∧ b = some (.str s) := by
  unfold orElse at h
  split_ifs at h with ha
  · exact Or.inl h
  · exact Or.inr ⟨Bool.eq_false_iff.mpr ha, h⟩

theorem firstRaw_eq (rc : RealmConfig) :
    firstRaw rc = (raw? (rc.get (js "key"))).or
      ((raw? (rc.get (js "preshared_key"))).or (raw? (rc.get (js "presharedKey")))) := by
  simp only [firstRaw, keyFields, List.findSome?_cons, List.findSome?_nil]
  cases raw? (rc.get (js "key")) <;> cases raw? (rc.get (js "preshared_key")) <;>
    cases raw? (rc.get (js "presharedKey")) <;> rfl

/-- A raw key that the code reads is the first that there is.
Kind: L -/
theorem firstRaw_of_rawKey (hs : s ≠ []) (h : rawKey rc = some (.str s))
    (hform : isRealmKeyHash (some (.str s)) = false) : firstRaw rc = some s := by
  have hraw := raw?_str hs hform
  rw [firstRaw_eq]
  rcases orElse_eq_str h with hkey | ⟨hkey, h⟩
  · rw [hkey, hraw, Option.some_or]
  · rw [raw?_of_not_truthy hkey, Option.none_or]
    rcases orElse_eq_str h with hkey | ⟨hkey, h⟩
    · rw [hkey, hraw, Option.some_or]
    · rw [raw?_of_not_truthy hkey, Option.none_or, h, hraw]

/-- The raw key is the value of one of the names.
Kind: L -/
theorem exists_get_of_rawKey (h : rawKey rc = some (.str s)) : ∃ k ∈ keyFields, rc.get k = some (.str s) := by
  have hnames : js "key" ∈ keyFields ∧ js "preshared_key" ∈ keyFields ∧ js "presharedKey" ∈ keyFields := by
    simp [keyFields]
  rcases orElse_eq_str h with hkey | ⟨-, h⟩
  · exact ⟨_, hnames.1, hkey⟩
  · rcases orElse_eq_str h with hkey | ⟨-, hkey⟩
    · exact ⟨_, hnames.2.1, hkey⟩
    · exact ⟨_, hnames.2.2, hkey⟩

theorem firstRaw_eq_none (h : NoSecret rc) : firstRaw rc = none := by
  rw [firstRaw, List.findSome?_eq_none_iff]
  intro k hk
  cases hraw : raw? (rc.get k) with
  | none => rfl
  | some r =>
      obtain ⟨hget, hne, -⟩ := eq_of_raw? hraw
      exact absurd (h k hk r hget) hne

/-- A raw key that is found has not the form of a digest.
Kind: L -/
theorem isRealmKeyHash_of_firstRaw {r : JsString} (h : firstRaw rc = some r) :
    r ≠ [] ∧ isRealmKeyHash (some (.str r)) = false := by
  obtain ⟨k, -, hraw⟩ := List.exists_of_findSome?_eq_some h
  exact (eq_of_raw? hraw).2

end FirstRaw

/-! ### When the migration does what it is for -/

section Migration

variable {d : Sha256} {dateParse : Option Value → Option ℚ} {rc : RealmConfig} {r s : JsString} {now : ℚ}

/-- The value `s` that the code takes for the raw key keeps the raw key `r` working, and lets in no other.
Kind: D -/
def Keeps (d : Sha256) (s r : JsString) : Prop :=
  (WellFormed r ∧ (s = r ∨ s = hashRealmKey d r)) ∨
    (¬WellFormed r ∧ s ≠ r ∧ ∀ p, WellFormed p → p ≠ [] → s ≠ hashRealmKey d p)

/-- A stored digest lets in a raw key, and no other well-formed string.
Kind: L -/
theorem opens_iff_of_wellFormed (hne : r ≠ []) (hr : WellFormed r) (hfree : CollisionFree d r) :
    (∀ p, WellFormed p → (realmKeyMatches d (some (.str p)) (some (.str s)) = true ↔ p = r)) ↔
      s = hashRealmKey d r := by
  constructor
  · intro h
    exact (realmKeyMatches_iff.mp ((h r hr).mpr rfl)).2
  · rintro rfl p hp
    rw [realmKeyMatches_iff]
    constructor
    · rintro ⟨-, hhash⟩
      have hsame := toWellFormed_eq_of_hashRealmKey hfree hhash.symm
      rwa [hp, hr] at hsame
    · rintro rfl
      exact ⟨hne, rfl⟩

/-- A raw key that is not well formed has to be let in by no one.
Kind: L -/
theorem opens_iff_of_not_wellFormed (hr : ¬WellFormed r) :
    (∀ p, WellFormed p → (realmKeyMatches d (some (.str p)) (some (.str s)) = true ↔ p = r)) ↔
      ∀ p, WellFormed p → p ≠ [] → s ≠ hashRealmKey d p := by
  have hne : ∀ p, WellFormed p → p ≠ r := fun p hp heq => hr (heq ▸ hp)
  constructor
  · intro h p hp hp' hs
    exact hne p hp ((h p hp).mp (realmKeyMatches_iff.mpr ⟨hp', hs⟩))
  · intro h p hp
    refine iff_of_false (fun hmatch => ?_) (hne p hp)
    obtain ⟨hp', hs⟩ := realmKeyMatches_iff.mp hmatch
    exact h p hp hp' hs

/-- The replacement of lone surrogates is well formed.
Kind: L -/
theorem wellFormed_toWellFormed (r : JsString) : WellFormed (toWellFormed r) := by
  rw [WellFormed, toWellFormed, scalars_toWellFormed]
  rfl

/-- What is stored for `s` lets in the raw key `r` alone exactly when `s` keeps `r` working.
Kind: L -/
theorem opens_iff_keeps (hs : s ≠ []) (hraw : rawKey rc = some (.str s)) (hr : firstRaw rc = some r)
    (hfree : CollisionFree d r) :
    (∀ p, WellFormed p → (realmKeyMatches d (some (.str p))
        (some (.str (if isRealmKeyHash (some (.str s)) then s else hashRealmKey d s))) = true ↔ p = r)) ↔
      Keeps d s r := by
  obtain ⟨hrne, hrform⟩ := isRealmKeyHash_of_firstRaw hr
  by_cases hform : isRealmKeyHash (some (.str s)) = true
  · -- a digest is stored as it is, and the raw key is under a later name
    have hne : s ≠ r := by
      rintro rfl
      exact Bool.false_ne_true (hrform.symm.trans hform)
    rw [if_pos hform]
    by_cases hwell : WellFormed r
    · rw [opens_iff_of_wellFormed hrne hwell hfree, Keeps]
      exact ⟨fun h => Or.inl ⟨hwell, Or.inr h⟩, fun h =>
        h.elim (fun h => h.2.resolve_left hne) fun h => absurd hwell h.1⟩
    · rw [opens_iff_of_not_wellFormed hwell, Keeps]
      exact ⟨fun h => Or.inr ⟨hwell, hne, h⟩, fun h => h.elim (fun h => absurd h.1 hwell) fun h => h.2.2⟩
  · -- the raw key itself is stored as its digest
    have hsame : s = r := by
      have hfirst := firstRaw_of_rawKey hs hraw (Bool.eq_false_iff.mpr hform)
      exact Option.some.inj (hfirst.symm.trans hr)
    subst hsame
    rw [if_neg hform]
    by_cases hwell : WellFormed s
    · rw [opens_iff_of_wellFormed hs hwell hfree]
      exact iff_of_true rfl (Or.inl ⟨hwell, Or.inl rfl⟩)
    · rw [opens_iff_of_not_wellFormed hwell]
      -- the string with its lone surrogates replaced has the same digest
      have hfixed := wellFormed_toWellFormed s
      have hdigest : hashRealmKey d s = hashRealmKey d (toWellFormed s) :=
        hashRealmKey_eq_of_toWellFormed hfixed.symm
      have hfixedNe : toWellFormed s ≠ [] := by
        intro hnil
        have hlength := length_toWellFormed s
        rw [hnil] at hlength
        exact hs (List.length_eq_zero_iff.mp hlength.symm)
      exact iff_of_false (fun h => h _ hfixed hfixedNe hdigest)
        fun h => h.elim (fun h => hwell h.1) fun h => h.2.1 rfl

/-- **The migration** leaves no raw key behind and lets in the raw key alone, exactly when there is no
string to migrate, or the first of the three values that is true in a condition is a string and keeps the
raw key working.
Kind: P -/
theorem migrated_iff (d : Sha256) (dateParse : Option Value → Option ℚ) (rc : RealmConfig) (now : ℚ)
    (hfree : ∀ r, firstRaw rc = some r → CollisionFree d r) :
    Migrated d rc (normalizeRealmConfig d dateParse rc now).1 ↔
      NoSecret rc ∨
        ∃ s, s ≠ [] ∧ rawKey rc = some (.str s) ∧ ∀ r, firstRaw rc = some r → Keeps d s r := by
  have hgetHash : (normalizeRealmConfig d dateParse rc now).1.get (js "key_hash") =
      (rewriteKey d rc).1.get (js "key_hash") := get_normalizeRealmConfig List.mem_cons_self
  by_cases htext : ∃ s, s ≠ [] ∧ rawKey rc = some (.str s)
  · obtain ⟨s, hs, hraw⟩ := htext
    obtain ⟨hdeleted, hstored⟩ := rewriteKey_of_text (d := d) hs hraw
    have hopens : ∀ r, firstRaw rc = some r → _ := fun r hr => opens_iff_keeps hs hraw hr (hfree r hr)
    constructor
    · intro h
      refine Or.inr ⟨s, hs, hraw, fun r hr => (hopens r hr).mp ?_⟩
      rw [← hstored, ← hgetHash]
      exact h.opens r hr
    · rintro (h | ⟨s', hs', hraw', hkeeps⟩)
      · obtain ⟨k, hk, hkey⟩ := exists_get_of_rawKey hraw
        exact absurd (h k hk s hkey) hs
      · have hsame : s' = s := by
          rw [hraw, Option.some.injEq, JsonValue.str.injEq] at hraw'
          exact hraw'.symm
        subst hsame
        refine ⟨fun k hk t ht => ?_, fun r hr => ?_⟩
        · rw [get_normalizeRealmConfig_keyFields hk, hdeleted k hk] at ht
          cases ht
        · rw [hgetHash, hstored]
          exact (hopens r hr).mpr (hkeeps r hr)
  · have hsame : rewriteKey d rc = (rc, false) := by
      apply rewriteKey_of_not_text
      intro s hraw
      by_contra hs
      exact htext ⟨s, hs, hraw⟩
    have hget : ∀ k ∈ keyFields, (normalizeRealmConfig d dateParse rc now).1.get k = rc.get k := by
      intro k hk
      rw [get_normalizeRealmConfig_keyFields hk, hsame]
    constructor
    · intro h
      exact Or.inl fun k hk s hs => h.noSecret k hk s ((hget k hk).trans hs)
    · rintro (h | ⟨s, hs, hraw, -⟩)
      · refine ⟨fun k hk s hs => h k hk s ((hget k hk).symm.trans hs), fun r hr => ?_⟩
        rw [firstRaw_eq_none h] at hr
        cases hr
      · exact absurd ⟨s, hs, hraw⟩ htext

end Migration

/-! ### Two configs -/

/-- SHA-256 as far as one key needs it: the digest of that key, and zeros for anything else.
Kind: D -/
def alphaDigest (bytes : List (Fin 256)) : JsString :=
  if bytes = utf8 (HASH_DOMAIN ++ js "alpha") then
    js "dac9cbe322f36b27eaf93d72aa4bde6e4dc12b62d57a4ac1709bbc13e2eb4148"
  else List.replicate 64 (unit '0')

theorem alphaDigest_digits (bytes : List (Fin 256)) :
    (alphaDigest bytes).length = 64 ∧ ∀ u ∈ alphaDigest bytes, digitVal u < 16 := by
  unfold alphaDigest
  split_ifs
  · have hdigits : ((js "dac9cbe322f36b27eaf93d72aa4bde6e4dc12b62d57a4ac1709bbc13e2eb4148").all fun u =>
        digitVal u < 16) = true := rfl
    exact ⟨rfl, fun u hu => of_decide_eq_true (List.all_eq_true.mp hdigits u hu)⟩
  · refine ⟨List.length_replicate, fun u hu => ?_⟩
    rw [List.eq_of_mem_replicate hu]
    decide

/-- The digests of `alphaDigest`.
Kind: D -/
def alphaSha256 : Sha256 where
  hex := alphaDigest
  length_hex bytes := (alphaDigest_digits bytes).1
  digitVal_of_mem bytes := (alphaDigest_digits bytes).2

theorem collisionFree_alpha : CollisionFree alphaSha256 (js "alpha") := by
  intro bytes h
  by_contra hne
  have hdigest : alphaDigest bytes = alphaDigest (utf8 (HASH_DOMAIN ++ js "alpha")) := h
  rw [alphaDigest, if_neg hne, alphaDigest, if_pos rfl] at hdigest
  have hhead := congrArg List.head? hdigest
  exact absurd hhead (by decide)

/-- A config with a key under its first name.
Kind: D -/
def plainConfig : RealmConfig := JsMap.empty.set (js "key") (.str (js "alpha"))

/-- A config with a switch under the first name and the key under the second.
Kind: D -/
def switchConfig : RealmConfig :=
  (JsMap.empty.set (js "key") (.bool true)).set (js "preshared_key") (.str (js "alpha"))

/-- The first config is migrated.
Kind: C -/
theorem migrated_iff_plain :
    Migrated alphaSha256 plainConfig (normalizeRealmConfig alphaSha256 (fun _ => none) plainConfig 1).1 := by
  have hfirst : firstRaw plainConfig = some (js "alpha") := rfl
  have hwell : WellFormed (js "alpha") := rfl
  apply (migrated_iff alphaSha256 (fun _ => none) plainConfig 1 _).mpr
  · refine Or.inr ⟨js "alpha", by decide, rfl, fun r hr => ?_⟩
    rw [← Option.some.inj (hfirst.symm.trans hr)]
    exact Or.inl ⟨hwell, Or.inl rfl⟩
  · intro r hr
    rw [← Option.some.inj (hfirst.symm.trans hr)]
    exact collisionFree_alpha

/-- With the switch the code reads no further: the key stays as it is.
Kind: C -/
theorem not_migrated_switch :
    (∀ r, firstRaw switchConfig = some r → CollisionFree alphaSha256 r) ∧
      ¬Migrated alphaSha256 switchConfig
        (normalizeRealmConfig alphaSha256 (fun _ => none) switchConfig 1).1 := by
  constructor
  · intro r hr
    have hfirst : firstRaw switchConfig = some (js "alpha") := rfl
    rw [Option.some.inj (hr.symm.trans hfirst)]
    exact collisionFree_alpha
  · intro h
    have hleft : (normalizeRealmConfig alphaSha256 (fun _ => none) switchConfig 1).1.get
        (js "preshared_key") = some (.str (js "alpha")) := rfl
    exact absurd (h.noSecret (js "preshared_key") (by decide) (js "alpha") hleft) (by decide)

/-! ### A second run -/

section Again

variable {d : Sha256} {dateParse : Option Value → Option ℚ} {rc : RealmConfig} {field till : JsString}
  {now : ℚ}

/-- A previous secret is still in force, if there is one.
Kind: D -/
def InForce (dateParse : Option Value → Option ℚ) (field till : JsString) (rc : RealmConfig) (now : ℚ) :
    Prop :=
  ∀ v, rc.get field = some v → truthy v = true ∧ stillValid dateParse (rc.get till) now = true

theorem dropPrevious_of_inForce (h : InForce dateParse field till rc now) :
    dropPrevious dateParse field till rc now = (rc, false) := by
  unfold dropPrevious
  split
  · rfl
  · next v hv => rw [if_pos (h v hv)]

/-- A previous secret that is left is in force.
Kind: L -/
theorem inForce_dropPrevious (hne : field ≠ till) :
    InForce dateParse field till (dropPrevious dateParse field till rc now).1 now := by
  intro v hv
  unfold dropPrevious at hv ⊢
  split at hv
  · next hnone =>
      rw [hnone] at hv
      cases hv
  · next previous hprevious =>
      split_ifs at hv ⊢ with hvalid
      · rw [hprevious, Option.some.injEq] at hv
        rwa [← hv]
      · rw [JsMap.get_delete_of_ne _ hne, JsMap.get_delete_self] at hv
        cases hv

/-- The raw key after the migration is no string.
Kind: L -/
theorem rawKey_normalizeRealmConfig {s : JsString}
    (h : rawKey (normalizeRealmConfig d dateParse rc now).1 = some (.str s)) : s = [] := by
  by_contra hs
  obtain ⟨k, hk, hkey⟩ := exists_get_of_rawKey h
  have hall : ∀ t, rawKey rc = some (.str t) → t = [] := by
    intro t ht
    by_contra hne
    rw [get_normalizeRealmConfig_keyFields hk, (rewriteKey_of_text (d := d) hne ht).1 k hk] at hkey
    cases hkey
  have hget : ∀ k ∈ keyFields, (normalizeRealmConfig d dateParse rc now).1.get k = rc.get k := by
    intro k hk
    rw [get_normalizeRealmConfig_keyFields hk, rewriteKey_of_not_text hall]
  apply hs
  apply hall
  rw [← h, rawKey, rawKey, hget _ (by decide), hget _ (by decide), hget _ (by decide)]

/-- **A second run changes nothing.**
Kind: P -/
theorem normalizeRealmConfig_idem (d : Sha256) (dateParse : Option Value → Option ℚ) (rc : RealmConfig)
    (now : ℚ) :
    normalizeRealmConfig d dateParse (normalizeRealmConfig d dateParse rc now).1 now =
      ((normalizeRealmConfig d dateParse rc now).1, false) := by
  set rc' := (normalizeRealmConfig d dateParse rc now).1 with hrc'
  have hkey : rewriteKey d rc' = (rc', false) :=
    rewriteKey_of_not_text fun s hs => rawKey_normalizeRealmConfig hs
  have hprevious : InForce dateParse (js "previous_key_hash") (js "previous_key_until") rc' now := by
    intro v hv
    rw [hrc', normalizeRealmConfig] at hv ⊢
    rw [get_dropPrevious (by decide) (by decide)] at hv ⊢
    exact inForce_dropPrevious (by decide) v hv
  have hmanager : InForce dateParse (js "previous_manager_key") (js "previous_manager_until") rc' now :=
    inForce_dropPrevious (by decide)
  simp only [normalizeRealmConfig, hkey, dropPrevious_of_inForce hprevious, dropPrevious_of_inForce hmanager,
    Bool.or_self]

end Again

end TyoMq.Auth
