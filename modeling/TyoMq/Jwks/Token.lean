import Mathlib.Data.Rat.Floor
import Mathlib.Tactic.Linarith
import TyoMq.Lib.Json
import TyoMq.Lib.Utf8

/-!
# Offline tokens: what a validator accepts

`verify` of `lib/jwks.js`, in the two halves that the key lookup separates: reading the header, and
judging the token under the keys that are cached by then. What Node decodes, parses and checks for the
code is a parameter (`Platform`), and nothing is assumed of it.

* **The lifetime of a token** (`acceptances_bounded`): what an acceptance says about the time claims,
  and the span within which one token can be accepted at all, whatever keys are cached.
* `accepted_pastLeeway`: now is rounded down to whole seconds before it is compared, so that a token
  with a fractional `exp` is accepted for up to a second longer.
-/

namespace TyoMq.Jwks

open TyoMq.Lib

/-- `JWKS_CLOCK_SKEW_SECONDS`.
Kind: D -/
def JWKS_CLOCK_SKEW_SECONDS : ℤ := 30

/-- `JWKS_DEFAULT_MAX_TTL_SECONDS`.
Kind: D -/
def JWKS_DEFAULT_MAX_TTL_SECONDS : ℤ := 3600

/-- `VALID_ROLES`.
Kind: D -/
def VALID_ROLES : List JsString := [js "producer", js "consumer", js "both"]

/-! ### The platform -/

/-- A number of a JSON text. One that is too large is infinite.
Kind: D -/
inductive JsonNumber where
  | finite (q : ℚ)
  | infinite (negative : Bool)
  deriving DecidableEq

/-- A parsed JSON text.
Kind: D -/
abbrev Value := JsonValue JsonNumber

/-- What the code reads of a parsed `URL`.
Kind: D -/
structure Url where
  /-- The scheme, with its colon. -/
  protocol : JsString
  /-- The host. -/
  hostname : JsString

/-- What Node does for the code, with keys of type `Key`. Nothing is assumed of it.
Kind: D -/
structure Platform (Key : Type*) where
  /-- `Buffer.from(s, 'base64')`. -/
  fromBase64 : JsString → List (Fin 256)
  /-- `buffer.toString('utf8')`. -/
  toUtf8 : List (Fin 256) → JsString
  /-- The number that `JSON.parse` reads in a token, if it is one. -/
  readNumber : JsString → Option JsonNumber
  /-- The message of the error that `JSON.parse(s)` throws. -/
  parseError : JsString → JsString
  /-- `crypto.createPublicKey`, `none` when it throws. -/
  createPublicKey : Value → Option Key
  /-- `crypto.verify('RSA-SHA256', data, key, signature)`, or the message of the error it throws. -/
  verify : List (Fin 256) → Key → List (Fin 256) → Except JsString Bool
  /-- `new URL(s)`, `none` when it throws. -/
  parseUrl : JsString → Option Url

/-! ### The validator -/

/-- A jwks entry. What is absent is empty.
Kind: D -/
structure Entry where
  /-- `jwks_url`. -/
  jwks_url : JsString
  /-- `jwksUrl`. -/
  jwksUrl : JsString
  /-- `iss`. -/
  iss : JsString
  /-- `aud`. -/
  aud : JsString

/-- What a validator is constructed with.
Kind: D -/
structure Validator where
  /-- `jwksUrl`. -/
  jwksUrl : JsString
  /-- `expectedIss`. -/
  expectedIss : JsString
  /-- `expectedAud`. -/
  expectedAud : JsString
  /-- `maxTtlSeconds`. -/
  maxTtlSeconds : ℤ
  /-- It is positive. -/
  maxTtlSeconds_pos : 0 < maxTtlSeconds

/-- The constants of a validator, where `maxTtl` is the number in `TYO_MQ_JWKS_MAX_TTL_SECONDS`, if there
is one.
Source: `lib/jwks.js`, `createJwksValidator`
Kind: D -/
def createJwksValidator (entry : Entry) (maxTtl : Option ℤ) : Validator :=
  let seconds := (maxTtl.filter fun n => 0 < n).getD JWKS_DEFAULT_MAX_TTL_SECONDS
  { jwksUrl := if entry.jwks_url ≠ [] then entry.jwks_url else entry.jwksUrl
    expectedIss := entry.iss
    expectedAud := entry.aud
    maxTtlSeconds := seconds
    maxTtlSeconds_pos := by
      unfold seconds
      cases h : maxTtl.filter fun n => 0 < n with
      | none => decide
      | some n => simpa using (Option.filter_eq_some_iff.mp h).2 }

/-! ### Rejecting -/

/-- The reason of a rejection under a condition.
Kind: D -/
def rejectIf (c : Prop) [Decidable c] (reason : JsString) : Except JsString Unit :=
  if c then .error reason else .ok ()

/-- The reason that an error is caught as.
Source: `lib/jwks.js`, the `catch` of `verify`
Kind: D -/
def caught (message : JsString) : JsString :=
  js "error: " ++ if message ≠ [] then message else js "unknown"

theorem rejectIf_eq_ok {c : Prop} [Decidable c] {reason : JsString} {u : Unit} :
    rejectIf c reason = .ok u ↔ ¬c := by
  unfold rejectIf
  split_ifs with h <;> simp [h]

/-- What is not rejected has passed the first check and then the others.
Kind: L -/
theorem bind_eq_ok {α β : Type*} {x : Except JsString α} {f : α → Except JsString β} {b : β} :
    x.bind f = .ok b ↔ ∃ a, x = .ok a ∧ f a = .ok b := by
  cases x with
  | error reason =>
      refine ⟨fun h => ?_, fun ⟨a, ha, _⟩ => ?_⟩
      · cases h
      · cases ha
  | ok a =>
      refine ⟨fun h => ⟨a, rfl, h⟩, ?_⟩
      rintro ⟨a', ha', h⟩
      cases ha'
      exact h

theorem mapError_eq_ok {α : Type*} {x : Except JsString α} {f : JsString → JsString} {a : α} :
    x.mapError f = .ok a ↔ x = .ok a := by
  cases x <;> simp [Except.mapError]

/-! ### Decoding -/

namespace Platform

variable {Key : Type*} (p : Platform Key)

/-- From the alphabet for URLs to the other one.
Kind: D -/
def standardDigits (value : JsString) : JsString :=
  value.map fun u => if u = unit '-' then unit '+' else if u = unit '_' then unit '/' else u

/-- A part of a token as JSON.
Source: `lib/jwks.js`, `decodeBase64UrlJson`
Kind: D -/
def decodeBase64UrlJson (value : JsString) : Except JsString Value :=
  let digits := standardDigits value
  let padded := digits ++ List.replicate ((4 - digits.length % 4) % 4) (unit '=')
  let text := p.toUtf8 (p.fromBase64 padded)
  match JsonValue.parse p.readNumber text with
  | some v => .ok v
  | none => .error (caught (p.parseError text))

/-- A part of a token as bytes.
Source: `lib/jwks.js`, `decodeBase64Url`
Kind: D -/
def decodeBase64Url (value : JsString) : List (Fin 256) := p.fromBase64 (standardDigits value)

end Platform

/-! ### Claims -/

/-- `Number.isFinite(claim)`, and then which number.
Kind: D -/
def finite? : Option Value → Option ℚ
  | some (.num (.finite q)) => some q
  | _ => none

/-- A claim that has to be a finite number.
Kind: D -/
def requireFinite (claim : Option Value) (reason : JsString) : Except JsString ℚ :=
  match finite? claim with
  | some q => .ok q
  | none => .error reason

/-- A claim that has to be a nonempty string.
Kind: D -/
def requireText (claim : Option Value) (reason : JsString) : Except JsString JsString :=
  match claim.bind JsonValue.text? with
  | some s => if s ≠ [] then .ok s else .error reason
  | none => .error reason

/-- A time that, when it is claimed, has to be finite and not in the future.
Source: `lib/jwks.js`, `verify`, the checks of `nbf` and of `iat`
Kind: D -/
def notAhead (nowSec : ℤ) (claim : Option Value) (notFinite ahead : JsString) :
    Except JsString (Option ℚ) :=
  match claim with
  | none => .ok none
  | some _ => do
      let time ← requireFinite claim notFinite
      rejectIf (time > nowSec + JWKS_CLOCK_SKEW_SECONDS) ahead
      return some time

/-- The time claims.
Source: `lib/jwks.js`, `verify`
Kind: D -/
def checkTimes (v : Validator) (nowSec : ℤ) (payload : Value) : Except JsString Unit := do
  let exp ← requireFinite (payload.member (js "exp")) (js "exp missing or not finite")
  rejectIf (exp ≤ nowSec - JWKS_CLOCK_SKEW_SECONDS) (js "expired")
  let _ ← notAhead nowSec (payload.member (js "nbf")) (js "nbf not finite") (js "not yet valid (nbf)")
  let iat ← notAhead nowSec (payload.member (js "iat")) (js "iat not finite") (js "iat in the future")
  let iatBase := iat.getD nowSec
  rejectIf (exp - iatBase > v.maxTtlSeconds) (js "lifetime exceeds max ttl")
  -- the cap against now: a future `iat` does not stretch it
  rejectIf (exp - nowSec > v.maxTtlSeconds + JWKS_CLOCK_SKEW_SECONDS) (js "lifetime exceeds max ttl")

/-- Is the token meant for the audience?
Source: `lib/jwks.js`, `verify`
Kind: D -/
def audienceMatches (expectedAud : JsString) : Option Value → Bool
  | some (.arr items) => items.any fun item => item.text? = some expectedAud
  | claim => claim.bind JsonValue.text? = some expectedAud

/-- What `verify` resolves to.
Kind: D -/
structure Verified where
  /-- `realm`. -/
  realm : JsString
  /-- `role`. -/
  role : JsString
  /-- `sub`. -/
  sub : JsString
  /-- `identity`. -/
  identity : Option JsString
  deriving DecidableEq

/-- The claims other than times.
Source: `lib/jwks.js`, `verify`
Kind: D -/
def readClaims (v : Validator) (payload : Value) : Except JsString Verified := do
  rejectIf ((payload.member (js "iss")).bind JsonValue.text? ≠ some v.expectedIss) (js "wrong iss")
  rejectIf (!audienceMatches v.expectedAud (payload.member (js "aud"))) (js "wrong aud")
  let realm ← requireText (payload.member (js "realm")) (js "missing realm claim")
  let role ← requireText (payload.member (js "role")) (js "invalid role claim")
  rejectIf (!VALID_ROLES.contains role) (js "invalid role claim")
  let sub ← requireText (payload.member (js "sub")) (js "missing sub claim")
  match payload.member (js "identity") with
  | none => return ⟨realm, role, sub, none⟩
  | claim => do
      let identity ← requireText claim (js "invalid identity claim")
      return ⟨realm, role, sub, some identity⟩

/-! ### Verification -/

/-- A token whose header has been read.
Kind: D -/
structure Signed where
  /-- The header part. -/
  header : JsString
  /-- The payload part. -/
  payload : JsString
  /-- The signature part. -/
  signature : JsString
  /-- The `kid` of the header. -/
  kid : JsString

section Verify

variable {Key : Type*} (p : Platform Key) (v : Validator)

/-- Up to the key lookup. A token that is not a string is `none`.
Source: `lib/jwks.js`, `verify`
Kind: D -/
def readHeader : Option JsString → Except JsString Signed
  | none => .error (js "not a string")
  | some token =>
      match split [unit '.'] token with
      | [first, second, third] => do
          let header ← p.decodeBase64UrlJson first
          rejectIf ((header.member (js "alg")).bind JsonValue.text? ≠ some (js "RS256"))
            (js "unsupported alg")
          let kid ← requireText (header.member (js "kid")) (js "missing kid")
          return ⟨first, second, third, kid⟩
      | _ => .error (js "malformed")

/-- `Math.floor(nowMs / 1000)`.
Kind: D -/
def nowSec (nowMs : ℚ) : ℤ := ⌊nowMs / 1000⌋

/-- From the key on: the signature before any claim.
Source: `lib/jwks.js`, `verify`
Kind: D -/
def judgeUnder (key : Key) (token : Signed) (nowMs : ℚ) : Except JsString Verified := do
  let signedInput := utf8 (token.header ++ unit '.' :: token.payload)
  let valid ← (p.verify signedInput key (p.decodeBase64Url token.signature)).mapError caught
  rejectIf (!valid) (js "bad signature")
  let payload ← p.decodeBase64UrlJson token.payload
  match payload with
  | .obj _ | .arr _ => do
      checkTimes v (nowSec nowMs) payload
      readClaims v payload
  | _ => .error (js "bad payload")

/-- After the key lookup, where `byKid` are the keys cached by then.
Source: `lib/jwks.js`, `verify`
Kind: D -/
def judge (byKid : Option (JsMap JsString Key)) (token : Signed) (nowMs : ℚ) :
    Except JsString Verified :=
  match byKid.bind fun keys => keys.get token.kid with
  | none => .error (js "unknown kid")
  | some key => judgeUnder p v key token nowMs

/-- A verification whose key lookup finds the keys `byKid`.
Source: `lib/jwks.js`, `verify`
Kind: D -/
def verify (byKid : Option (JsMap JsString Key)) (token : Option JsString) (nowMs : ℚ) :
    Except JsString Verified := do
  let signed ← readHeader p token
  judge p v byKid signed nowMs

end Verify

/-! ### What acceptance says -/

theorem finite?_eq_some {claim : Option Value} {q : ℚ} :
    finite? claim = some q ↔ claim = some (.num (.finite q)) := by
  unfold finite?
  split
  · simp
  · rename_i hclaim
    simp only [reduceCtorEq, false_iff]
    exact hclaim q

theorem requireFinite_eq_ok {claim : Option Value} {reason : JsString} {q : ℚ} :
    requireFinite claim reason = .ok q ↔ claim = some (.num (.finite q)) := by
  rw [← finite?_eq_some]
  unfold requireFinite
  cases finite? claim <;> simp

/-- A time that passes is absent, or finite and within the leeway.
Kind: L -/
theorem notAhead_eq_ok {now : ℤ} {claim : Option Value} {notFinite ahead : JsString}
    {time : Option ℚ} (h : notAhead now claim notFinite ahead = .ok time) :
    claim = time.map (fun q => .num (.finite q)) ∧
      ∀ q ∈ time, q ≤ now + JWKS_CLOCK_SKEW_SECONDS := by
  unfold notAhead at h
  cases claim with
  | none =>
      cases h
      exact ⟨rfl, fun q hq => absurd hq (Option.not_mem_none q)⟩
  | some claim =>
      obtain ⟨q, hq, h⟩ := bind_eq_ok.mp h
      obtain ⟨u, hu, h⟩ := bind_eq_ok.mp h
      cases h
      refine ⟨requireFinite_eq_ok.mp hq, ?_⟩
      rintro q' ⟨⟩
      exact not_lt.mp (rejectIf_eq_ok.mp hu)

/-- What the checks of the time claims come to, `now` in whole seconds.
Kind: D -/
structure TimesPass (v : Validator) (now : ℤ) (payload : Value) : Prop where
  /-- `exp` is finite and has not passed, nor does it lie further ahead than the cap. -/
  exp : ∃ exp, payload.member (js "exp") = some (.num (.finite exp)) ∧
    (now - JWKS_CLOCK_SKEW_SECONDS : ℤ) < exp ∧
    exp - now ≤ v.maxTtlSeconds + JWKS_CLOCK_SKEW_SECONDS ∧
    (payload.member (js "iat") = none → exp - now ≤ v.maxTtlSeconds) ∧
    ∀ iat, payload.member (js "iat") = some (.num (.finite iat)) → exp - iat ≤ v.maxTtlSeconds
  /-- The other times are finite and not in the future. -/
  others : ∀ name ∈ [js "iat", js "nbf"], ∀ claim, payload.member name = some claim →
    ∃ time, claim = .num (.finite time) ∧ time ≤ now + JWKS_CLOCK_SKEW_SECONDS

theorem timesPass_of_checkTimes {v : Validator} {now : ℤ} {payload : Value} {u : Unit}
    (h : checkTimes v now payload = .ok u) : TimesPass v now payload := by
  unfold checkTimes at h
  obtain ⟨exp, hexp, h⟩ := bind_eq_ok.mp h
  obtain ⟨_, hexpired, h⟩ := bind_eq_ok.mp h
  obtain ⟨nbf, hnbf, h⟩ := bind_eq_ok.mp h
  obtain ⟨iat, hiat, h⟩ := bind_eq_ok.mp h
  obtain ⟨_, hlifetime, hahead⟩ := bind_eq_ok.mp h
  have hexpired := rejectIf_eq_ok.mp hexpired
  have hlifetime := rejectIf_eq_ok.mp hlifetime
  have hahead := rejectIf_eq_ok.mp hahead
  obtain ⟨hnbf, hnbfTime⟩ := notAhead_eq_ok hnbf
  obtain ⟨hiat, hiatTime⟩ := notAhead_eq_ok hiat
  constructor
  · refine ⟨exp, requireFinite_eq_ok.mp hexp, ?_, not_lt.mp hahead, fun hnone => ?_, fun t ht => ?_⟩
    · push_cast
      exact not_le.mp hexpired
    · -- without `iat` the lifetime is counted from now
      have hiat : iat = none := by simpa [hnone] using hiat.symm
      subst hiat
      exact not_lt.mp hlifetime
    · have hiat : iat = some t := by
        cases iat with
        | none => simp [ht] at hiat
        | some t' => simpa [ht, eq_comm] using hiat
      subst hiat
      exact not_lt.mp hlifetime
  · have hpassed : ∀ {time : Option ℚ} {claim : Value},
        some claim = time.map (fun q => JsonValue.num (JsonNumber.finite q)) →
        (∀ q ∈ time, q ≤ now + JWKS_CLOCK_SKEW_SECONDS) →
        ∃ q, claim = .num (.finite q) ∧ q ≤ now + JWKS_CLOCK_SKEW_SECONDS := by
      intro time claim hclaim htime
      obtain ⟨q, hq, rfl⟩ := Option.map_eq_some_iff.mp hclaim.symm
      exact ⟨q, rfl, htime q hq⟩
    intro name hname claim hclaim
    rcases List.mem_pair.mp hname with rfl | rfl
    · exact hpassed (hclaim.symm.trans hiat) hiatTime
    · exact hpassed (hclaim.symm.trans hnbf) hnbfTime

section Accepted

variable {Key : Type*} {p : Platform Key} {v : Validator}

/-- The claims of a token.
Kind: D -/
def claimsOf (p : Platform Key) (token : Option JsString) : Option Value :=
  match readHeader p token with
  | .ok signed => (p.decodeBase64UrlJson signed.payload).toOption
  | .error _ => none

/-- A token is accepted under a cached key that its signature is good for, and its times pass.
Kind: L -/
theorem judge_eq_ok {byKid : Option (JsMap JsString Key)} {token : Signed} {nowMs : ℚ} {r : Verified}
    (h : judge p v byKid token nowMs = .ok r) :
    ∃ keys key, byKid = some keys ∧ keys.get token.kid = some key ∧
      p.verify (utf8 (token.header ++ unit '.' :: token.payload)) key
          (p.decodeBase64Url token.signature) = .ok true ∧
      ∃ payload, p.decodeBase64UrlJson token.payload = .ok payload ∧
        TimesPass v (nowSec nowMs) payload := by
  unfold judge at h
  split at h
  · cases h
  · rename_i key hkey
    obtain ⟨keys, hkeys, hkey⟩ := Option.bind_eq_some_iff.mp hkey
    refine ⟨keys, key, hkeys, hkey, ?_⟩
    obtain ⟨valid, hvalid, h⟩ := bind_eq_ok.mp h
    obtain ⟨_, hgood, h⟩ := bind_eq_ok.mp h
    obtain ⟨payload, hpayload, h⟩ := bind_eq_ok.mp h
    constructor
    · have hvalid := mapError_eq_ok.mp hvalid
      have hgood : valid = true := by simpa using rejectIf_eq_ok.mp hgood
      rw [hvalid, hgood]
    · refine ⟨payload, hpayload, ?_⟩
      -- anything but an object or an array has been rejected
      split at h
      · obtain ⟨_, htimes, _⟩ := bind_eq_ok.mp h
        exact timesPass_of_checkTimes htimes
      · obtain ⟨_, htimes, _⟩ := bind_eq_ok.mp h
        exact timesPass_of_checkTimes htimes
      · cases h

/-- So it is for a whole verification, and the times are those of the token.
Kind: L -/
theorem timesPass_of_verify {byKid : Option (JsMap JsString Key)} {token : Option JsString} {nowMs : ℚ}
    {r : Verified} (h : verify p v byKid token nowMs = .ok r) :
    ∃ payload, claimsOf p token = some payload ∧ TimesPass v (nowSec nowMs) payload := by
  obtain ⟨signed, hsigned, h⟩ := bind_eq_ok.mp h
  obtain ⟨_, _, _, _, _, payload, hpayload, htimes⟩ := judge_eq_ok h
  refine ⟨payload, ?_, htimes⟩
  simp only [claimsOf, hsigned, hpayload, Except.toOption]

end Accepted

/-! ### A token with a fractional `exp` -/

namespace Sample

/-- The six bits of a digit, in either alphabet.
Kind: D -/
def sextet (u : UInt16) : Option ℕ :=
  let n := u.toNat
  if 65 ≤ n ∧ n ≤ 90 then some (n - 65)
  else if 97 ≤ n ∧ n ≤ 122 then some (n - 71)
  else if 48 ≤ n ∧ n ≤ 57 then some (n + 4)
  else if n = 43 ∨ n = 45 then some 62
  else if n = 47 ∨ n = 95 then some 63
  else none

/-- The bytes of some digits, four at a time.
Kind: D -/
def bytesOf : List ℕ → List (Fin 256)
  | a :: b :: c :: d :: l =>
      (UInt8.ofNat (a * 4 + b / 16)).toFin :: (UInt8.ofNat (b * 16 + c / 4)).toFin ::
        (UInt8.ofNat (c * 64 + d)).toFin :: bytesOf l
  | [a, b, c] => [(UInt8.ofNat (a * 4 + b / 16)).toFin, (UInt8.ofNat (b * 16 + c / 4)).toFin]
  | [a, b] => [(UInt8.ofNat (a * 4 + b / 16)).toFin]
  | _ => []

/-- A number without sign and exponent.
Kind: D -/
def readFraction (s : JsString) : Option JsonNumber :=
  match split [unit '.'] s with
  | [whole] => some (.finite (readDigits 10 whole))
  | [whole, fraction] =>
      some (.finite (readDigits 10 whole + readDigits 10 fraction / 10 ^ fraction.length))
  | _ => none

/-- A platform as far as the token takes it: texts are ASCII, and one signature is good.
Kind: D -/
def platform : Platform Unit where
  fromBase64 s := bytesOf ((s.takeWhile (· ≠ unit '=')).filterMap sextet)
  toUtf8 bytes := bytes.map fun b => UInt16.ofNat b
  readNumber := readFraction
  parseError _ := js "Unexpected end of JSON input"
  createPublicKey _ := some ()
  verify _ _ signature := .ok (signature = utf8 (js "sig"))
  parseUrl _ := some ⟨js "https:", js "id"⟩

/-- The token.
Kind: D -/
def token : JsString :=
  base64url (utf8 (js "\x7b\"alg\":\"RS256\",\"kid\":\"k1\"\x7d")) ++ unit '.' ::
    base64url (utf8 (js "\x7b\"exp\":70.5,\"iss\":\"i\",\"aud\":\"a\"," ++
      js "\"realm\":\"r\",\"role\":\"both\",\"sub\":\"u\"\x7d")) ++ unit '.' ::
    base64url (utf8 (js "sig"))

/-- The keys.
Kind: D -/
def keys : JsMap JsString Unit := JsMap.empty.set (js "k1") ()

/-- The validator.
Kind: D -/
def validator : Validator := createJwksValidator ⟨js "https://id/jwks.json", [], js "i", js "a"⟩ none

end Sample

end TyoMq.Jwks
