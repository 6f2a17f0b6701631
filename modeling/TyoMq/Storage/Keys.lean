import TyoMq.Lib.Utf8
import TyoMq.Storage.Redis

/-!
# Durable messages: the texts of the Redis store's keys

The keys as `lib/storage/redis.js` writes them, from JavaScript strings, and which of them are the same to
Redis, which sees their UTF-8 bytes.

* Two keys are the same exactly when they are of one family and their parts are the same once lone
  surrogates are replaced (`utf8_text_inj`); that is when they are the same `Key` (`key_eq_iff`).
-/

namespace TyoMq.Storage

open TyoMq.Lib

/-! ### Writing keys -/

/-- Source: `lib/storage/redis.js`, `encodeKeyPart`
Kind: D -/
def encodeKeyPart (value : JsString) : JsString := base64url (utf8 value)

/-- Source: `lib/storage/redis.js`, `RedisStore.prototype._messageKey`
Kind: D -/
def messageKey (keyPrefix id : JsString) : JsString := keyPrefix ++ js ":message:" ++ id

/-- Source: `lib/storage/redis.js`, `RedisStore.prototype._dlqMessageKey`
Kind: D -/
def dlqMessageKey (keyPrefix id : JsString) : JsString := keyPrefix ++ js ":dlq:message:" ++ id

/-- Source: `lib/storage/redis.js`, `RedisStore.prototype._dlqIndexKey`
Kind: D -/
def dlqIndexKey (keyPrefix realm : JsString) : JsString :=
  join (js ":") [keyPrefix, js "dlq", encodeKeyPart realm]

/-- Source: `lib/storage/redis.js`, `RedisStore.prototype._indexKey`
Kind: D -/
def indexKey (keyPrefix realm event consumer : JsString) : JsString :=
  join (js ":")
    [keyPrefix, js "index", encodeKeyPart realm, encodeKeyPart event, encodeKeyPart consumer]

/-- A key, by what it is made from.
Kind: D -/
inductive JsKey
  /-- A message. -/
  | message (id : JsString)
  /-- A dead letter. -/
  | dlqMessage (id : JsString)
  /-- The dead letters of a realm. -/
  | dlqIndex (realm : JsString)
  /-- A queue. -/
  | index (realm event consumer : JsString)
  deriving DecidableEq

namespace JsKey

/-- The key as it is written.
Kind: D -/
def text (keyPrefix : JsString) : JsKey → JsString
  | message id => messageKey keyPrefix id
  | dlqMessage id => dlqMessageKey keyPrefix id
  | dlqIndex realm => dlqIndexKey keyPrefix realm
  | index realm event consumer => indexKey keyPrefix realm event consumer

/-- The key with the lone surrogates of its parts replaced.
Kind: D -/
def wellFormed : JsKey → JsKey
  | message id => message (toWellFormed id)
  | dlqMessage id => dlqMessage (toWellFormed id)
  | dlqIndex realm => dlqIndex (toWellFormed realm)
  | index realm event consumer =>
      index (toWellFormed realm) (toWellFormed event) (toWellFormed consumer)

/-- The key, by the bytes of what it is made from.
Kind: D -/
def key : JsKey → Key
  | message id => .message (utf8 id)
  | dlqMessage id => .dlqMessage (utf8 id)
  | dlqIndex realm => .dlqIndex (utf8 realm)
  | index realm event consumer => .index (utf8 realm) (utf8 event) (utf8 consumer)

/-- The bytes tell as much as the strings with the lone surrogates replaced.
Kind: P -/
theorem key_eq_iff {k k' : JsKey} : k.key = k'.key ↔ k.wellFormed = k'.wellFormed := by
  cases k <;> cases k' <;> simp [key, wellFormed, utf8_inj]

/-! ### Which keys are the same -/

/-- The characters of a key after the prefix.
Kind: D -/
def suffix : JsKey → List Char
  | message id => [':', 'm', 'e', 's', 's', 'a', 'g', 'e', ':'] ++ scalars id
  | dlqMessage id =>
      [':', 'd', 'l', 'q', ':'] ++ (['m', 'e', 's', 's', 'a', 'g', 'e', ':'] ++ scalars id)
  | dlqIndex realm => [':', 'd', 'l', 'q', ':'] ++ base64Digits (utf8 realm)
  | index realm event consumer =>
      [':', 'i', 'n', 'd', 'e', 'x', ':'] ++ (base64Digits (utf8 realm) ++
        ':' :: (base64Digits (utf8 event) ++ ':' :: base64Digits (utf8 consumer)))

/-- The prefix ends before the colon, whatever it is.
Kind: L -/
theorem scalars_text (keyPrefix : JsString) (k : JsKey) :
    scalars (k.text keyPrefix) = scalars keyPrefix ++ k.suffix := by
  have hcolon : ∀ s : JsString, scalars (keyPrefix ++ (js ":" ++ s)) =
      scalars keyPrefix ++ scalars (js ":" ++ s) := fun s => scalars_append_cons (by decide) keyPrefix s
  have hjs : ∀ (t : String) (s : JsString), scalars (js t ++ s) = t.toList ++ scalars s :=
    fun t s => scalars_flatMap t.toList s
  have hpart : ∀ value s : JsString, scalars (encodeKeyPart value ++ s) =
      base64Digits (utf8 value) ++ scalars s := fun value s => scalars_base64url (utf8 value) s
  have hlast : ∀ value : JsString, scalars (encodeKeyPart value) = base64Digits (utf8 value) := by
    intro value
    have h := hpart value []
    rwa [List.append_nil, scalars, List.append_nil] at h
  cases k with
  | message id =>
      have hhead : js ":message:" = js ":" ++ js "message:" := rfl
      have hchars : ":".toList ++ "message:".toList = [':', 'm', 'e', 's', 's', 'a', 'g', 'e', ':'] := by
        decide
      rw [text, messageKey, List.append_assoc, hhead, List.append_assoc, hcolon, hjs, hjs, suffix,
        ← hchars, List.append_assoc]
  | dlqMessage id =>
      have hhead : js ":dlq:message:" = js ":" ++ js "dlq:message:" := rfl
      rw [text, dlqMessageKey, List.append_assoc, hhead, List.append_assoc, hcolon, hjs, hjs]
      rfl
  | dlqIndex realm =>
      simp only [text, dlqIndexKey, join, List.append_assoc]
      rw [hcolon, hjs, hjs, hjs, hlast]
      rfl
  | index realm event consumer =>
      simp only [text, indexKey, join, List.append_assoc]
      rw [hcolon, hjs, hjs, hjs, hpart, hjs, hpart, hjs, hlast]
      rfl

/-- Base64url holds no colon.
Kind: L -/
theorem colon_notMem (l : List (Fin 256)) : ':' ∉ base64Digits l := by
  intro h
  have hne : ∀ c ∈ base64Digits l, c ≠ ':' := by
    apply forall_mem_base64Digits
    rw [base64Alphabet_eq]
    decide
  exact hne ':' h rfl

theorem base64Digits_inj_iff {l l' : List (Fin 256)} : base64Digits l = base64Digits l' ↔ l = l' :=
  ⟨base64Digits_inj, congrArg base64Digits⟩

/-- The suffix tells the family and the parts.
Kind: P -/
theorem suffix_inj {k k' : JsKey} : k.suffix = k'.suffix ↔ k.key = k'.key := by
  have hmessage : ∀ (id : JsString) (realm : List (Fin 256)),
      "message:".toList ++ scalars id ≠ base64Digits realm := by
    intro id realm h
    exact colon_notMem realm (h ▸ List.mem_append_left _ (by decide))
  cases k with
  | message id =>
      cases k' with
      | message id' => simp [suffix, key, utf8_eq_iff]
      | dlqMessage | dlqIndex | index => simp [suffix, key]
  | dlqMessage id =>
      cases k' with
      | dlqMessage id' => simp [suffix, key, utf8_eq_iff]
      | dlqIndex realm =>
          have := hmessage id (utf8 realm)
          simpa [suffix, key] using this
      | message | index => simp [suffix, key]
  | dlqIndex realm =>
      cases k' with
      | dlqMessage id =>
          have := (hmessage id (utf8 realm)).symm
          simpa [suffix, key] using this
      | dlqIndex realm' => simp [suffix, key, base64Digits_inj_iff]
      | message | index => simp [suffix, key]
  | index realm event consumer =>
      cases k' with
      | index realm' event' consumer' =>
          simp [suffix, key, append_cons_inj, colon_notMem, base64Digits_inj_iff]
      | message | dlqMessage | dlqIndex => simp [suffix, key]

/-- **Which keys are the same to Redis.**
Kind: P -/
theorem utf8_text_inj (keyPrefix : JsString) {k k' : JsKey} :
    utf8 (k.text keyPrefix) = utf8 (k'.text keyPrefix) ↔ k.wellFormed = k'.wellFormed := by
  rw [utf8_eq_iff, scalars_text, scalars_text, List.append_cancel_left_eq, suffix_inj, key_eq_iff]

end JsKey

/-! ### The bytes of keys -/

/-- The bytes of a key.
Kind: D -/
def Key.bytes (keyPrefix : Text) : Key → Text
  | .message id => keyPrefix ++ (ascii ":message:" ++ id)
  | .dlqMessage id => keyPrefix ++ (ascii ":dlq:message:" ++ id)
  | .dlqIndex realm => keyPrefix ++ (ascii ":dlq:" ++ (base64Digits realm).map byte)
  | .index realm event consumer =>
      keyPrefix ++ (ascii ":index:" ++ ((base64Digits realm).map byte ++ (ascii ":" ++
        ((base64Digits event).map byte ++ (ascii ":" ++ (base64Digits consumer).map byte)))))

/-- The pattern of the queues of a realm.
Source: `lib/storage/redis.js`, `RedisStore.prototype.purgeRealm`
Kind: D -/
def queuePattern (keyPrefix realm : JsString) : JsString :=
  join (js ":") [keyPrefix, js "index", encodeKeyPart realm, js "*"]

theorem encode_base64Digits (l : List (Fin 256)) : encode (base64Digits l) = (base64Digits l).map byte := by
  apply encode_of_ascii
  apply forall_mem_base64Digits
  rw [base64Alphabet_eq]
  decide

/-- The bytes of a key as it is written.
Kind: P -/
theorem JsKey.utf8_text (keyPrefix : JsString) (k : JsKey) :
    utf8 (k.text keyPrefix) = k.key.bytes (utf8 keyPrefix) := by
  have hcolon : ∀ l, encode (':' :: l) = ascii ":" ++ encode l := fun l => encode_append [':'] l
  rw [utf8, scalars_text, encode_append]
  cases k with
  | message id => rw [suffix, encode_append]; rfl
  | dlqMessage id => rw [suffix, encode_append, encode_append]; rfl
  | dlqIndex realm => rw [suffix, encode_append, encode_base64Digits]; rfl
  | index realm event consumer =>
      have hparts : encode (':' :: (base64Digits (utf8 event) ++ ':' :: base64Digits (utf8 consumer))) =
          ascii ":" ++ ((base64Digits (utf8 event)).map byte ++ (ascii ":" ++
            (base64Digits (utf8 consumer)).map byte)) := by
        rw [hcolon, encode_append, hcolon, encode_base64Digits, encode_base64Digits]
      rw [suffix, encode_append, encode_append, encode_base64Digits, hparts]
      rfl

theorem utf8_queuePattern (keyPrefix realm : JsString) :
    utf8 (queuePattern keyPrefix realm) =
      utf8 keyPrefix ++ (ascii ":index:" ++ ((base64Digits (utf8 realm)).map byte ++ [58])) ++ [Redis.globStar] := by
  have hjs : ∀ (t : String) (s : JsString), scalars (js t ++ s) = t.toList ++ scalars s :=
    fun t s => scalars_flatMap t.toList s
  have hstar : scalars (js "*") = ['*'] := rfl
  have hcolon : ∀ s : JsString, scalars (keyPrefix ++ (js ":" ++ s)) =
      scalars keyPrefix ++ scalars (js ":" ++ s) := fun s => scalars_append_cons (by decide) keyPrefix s
  have hchars : scalars (queuePattern keyPrefix realm) = scalars keyPrefix ++
      ([':', 'i', 'n', 'd', 'e', 'x', ':'] ++ (base64Digits (utf8 realm) ++ [':', '*'])) := by
    simp only [queuePattern, join, List.append_assoc]
    rw [hcolon, hjs, hjs, hjs, encodeKeyPart, scalars_base64url, hjs, hstar]
    rfl
  rw [utf8, hchars, encode_append, encode_append, encode_append, encode_base64Digits, ← utf8]
  simp only [List.append_assoc]
  rfl

/-- Does the pattern match the keys of the queues of the realm, and no others?
Kind: D -/
def Fits (glob : Redis.Glob) (keyPrefix realm : JsString) : Prop :=
  ∀ k : Key, glob.isMatch (utf8 (queuePattern keyPrefix realm)) (k.bytes (utf8 keyPrefix)) =
    RedisStore.isIndexOf (utf8 realm) k

/-- A base64 digit means nothing in a pattern, and is no colon.
Kind: L -/
theorem plain_of_mem_digits {l : Text} {b : Fin 256} (hb : b ∈ (base64Digits l).map byte) :
    b ∉ Redis.globSpecial ∧ b ≠ 58 := by
  obtain ⟨c, hc, rfl⟩ := List.mem_map.mp hb
  have hall : ∀ c ∈ base64Digits l, byte c ∉ Redis.globSpecial ∧ byte c ≠ 58 := by
    apply forall_mem_base64Digits
    rw [base64Alphabet_eq]
    decide
  exact hall c hc

/-- The keys that begin like the queues of the realm.
Kind: L -/
theorem prefix_bytes_iff (p realm : Text) (k : Key) :
    p ++ (ascii ":index:" ++ ((base64Digits realm).map byte ++ [58])) <+: k.bytes p ↔
      RedisStore.isIndexOf realm k = true := by
  have hindex : ascii ":index:" = [58, 105, 110, 100, 101, 120, 58] := rfl
  cases k with
  | message id =>
      have hmessage : ascii ":message:" = [58, 109, 101, 115, 115, 97, 103, 101, 58] := rfl
      rw [Key.bytes, List.prefix_append_right_inj, hindex, hmessage]
      simp [RedisStore.isIndexOf]
  | dlqMessage id =>
      have hdlq : ascii ":dlq:message:" =
          [58, 100, 108, 113, 58, 109, 101, 115, 115, 97, 103, 101, 58] := rfl
      rw [Key.bytes, List.prefix_append_right_inj, hindex, hdlq]
      simp [RedisStore.isIndexOf]
  | dlqIndex r =>
      have hdlq : ascii ":dlq:" = [58, 100, 108, 113, 58] := rfl
      rw [Key.bytes, List.prefix_append_right_inj, hindex, hdlq]
      simp [RedisStore.isIndexOf]
  | index r ev c =>
      have hcolon : ascii ":" = [58] := rfl
      have hdigit : ∀ l : Text, 58 ∉ (base64Digits l).map byte := fun _ hb => (plain_of_mem_digits hb).2 rfl
      rw [Key.bytes, List.prefix_append_right_inj, List.prefix_append_right_inj, hcolon,
        RedisStore.isIndexOf, decide_eq_true_eq]
      constructor
      · rintro ⟨rest, hrest⟩
        rw [List.append_assoc, List.singleton_append, List.singleton_append,
          append_cons_inj (hdigit _) (hdigit _), ← encode_base64Digits, ← encode_base64Digits] at hrest
        exact (base64Digits_inj (encode_inj hrest.1)).symm
      · rintro rfl
        rw [List.prefix_append_right_inj]
        exact List.prefix_append _ _

/-- It does where the prefix has no bytes that mean something in a pattern, whatever the realm.
Kind: P -/
theorem fits_of_literal (glob : Redis.Glob) {keyPrefix : JsString}
    (hplain : ∀ b ∈ utf8 keyPrefix, b ∉ Redis.globSpecial) (realm : JsString) :
    Fits glob keyPrefix realm := by
  intro k
  have hindex : ascii ":index:" = [58, 105, 110, 100, 101, 120, 58] := rfl
  rw [utf8_queuePattern, glob.literal_star]
  · rw [Bool.eq_iff_iff, List.isPrefixOf_iff_prefix]
    exact prefix_bytes_iff (utf8 keyPrefix) (utf8 realm) k
  · intro b hb
    simp only [List.mem_append, hindex] at hb
    rcases hb with hb | hb | hb | hb
    · exact hplain b hb
    · simp [Redis.globSpecial, Redis.globStar, Fin.ext_iff] at hb ⊢
      omega
    · exact (plain_of_mem_digits hb).1
    · rw [List.mem_singleton.mp hb]
      decide

end TyoMq.Storage
