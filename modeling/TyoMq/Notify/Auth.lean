import Mathlib.Algebra.Order.Ring.Rat
import Mathlib.Tactic.Linarith
import Mathlib.Tactic.NormNum
import TyoMq.Lib.JsMap
import TyoMq.Lib.JsString
import TyoMq.Lib.ReplayGuard

/-!
# Private topics: proofs of key possession and their replay defence

`lib/notify-auth.js`. A request to a claimed topic carries a self-signed proof. `verifyProof`
checks its timestamp, two-sided, and its signature; `NonceSeen` remembers `"topic nonce"` so that a
proof is used once.

* **The guard `NonceSeen` implements** (`NonceSeen.admitted_eq_log`): whatever the sweep drops, a
  request is refused exactly when its key was admitted at most `ttlMs` ago.
* **Once** (`NonceSeen.admitsOnce_of_presentedWithinTtl`): a run admits no proof twice when no proof
  is presented, inside its timestamp window, more than `ttlMs` after an earlier presentation inside
  that window. A proof that is never stamped in the future is of that kind
  (`presentedWithinTtl_of_stampedInPast`).
* **Twice** (`NonceSeen.admits_futureStamped_twice`): the window of a proof stamped in the future is
  longer than the memory of its nonce.
-/

namespace TyoMq.Notify

open TyoMq.Lib

/-! ### Topics -/

/-- A code unit accepted by the class `[-_A-Za-z0-9]`.
Source: `lib/notify.js`, `TOPIC_RE`
Kind: D -/
def isTopicUnit (u : UInt16) : Bool :=
  u == unit '-' || u == unit '_' || (unit 'A' ≤ u && u ≤ unit 'Z') ||
    (unit 'a' ≤ u && u ≤ unit 'z') || (unit '0' ≤ u && u ≤ unit '9')

/-- `TOPIC_RE = /^[-_A-Za-z0-9]{1,64}$/`.
Source: `lib/notify.js`, `isValidTopic`
Kind: D -/
def isValidTopic (topic : JsString) : Bool :=
  decide (1 ≤ topic.length ∧ topic.length ≤ 64) && topic.all isTopicUnit

/-- A topic name, as every caller has checked it before it reaches this file.
Kind: D -/
structure Topic where
  /-- The name. -/
  text : JsString
  /-- It is accepted by `TOPIC_RE`. -/
  valid : isValidTopic text = true

/-! ### Proofs -/

/-- `SIGNATURE_MAX_AGE_MS = 60 * 1000`.
Source: `lib/notify-auth.js`, line 20
Kind: D -/
def SIGNATURE_MAX_AGE_MS : ℚ := 60 * 1000

/-- What the file takes from elsewhere: `node:crypto`, the canonical JSON of `tyo-mq-protocol`, and
the printing of numbers. `Body` are the JSON objects, `Key` the imported public keys.
Kind: D -/
structure Crypto (Body Key : Type) where
  /-- `adminSignature.stableStringify`. -/
  stableStringify : Body → JsString
  /-- `String(n)` of a finite number. -/
  numberToString : ℚ → JsString
  /-- `crypto.createPublicKey` on the decoded DER, `none` when it throws. -/
  createPublicKey : JsString → Option Key
  /-- `crypto.verify('sha256', base, key, signature)`, `none` when it throws. -/
  verify : JsString → Key → JsString → Option Bool

/-- The proof fields of a request. `timestamp` is `none` when the field is `undefined`, and
`some none` when `Number` of it is not finite; the others are the strings they are turned into.
Kind: D -/
structure Proof where
  /-- `Number(proof.timestamp)`. -/
  timestamp : Option (Option ℚ)
  /-- `String(proof.nonce)`, empty when absent. -/
  nonce : JsString
  /-- `String(proof.signature)`, empty when absent. -/
  signature : JsString
  deriving DecidableEq

variable {Body Key : Type}

/-- The signed text: action, timestamp, nonce and body joined by newlines.
Source: `lib/notify-auth.js`, `signatureBase`
Kind: D -/
def signatureBase (c : Crypto Body Key) (action : JsString) (body : Body) (timestamp : ℚ)
    (nonce : JsString) : JsString :=
  join (js "\n")
    [action, if timestamp = 0 then [] else c.numberToString timestamp, nonce,
      c.stableStringify body]

/-- Source: `lib/notify-auth.js`, `importPubkey`
Kind: D -/
def importPubkey (c : Crypto Body Key) (pubkeyBase64 : JsString) : Option Key :=
  c.createPublicKey pubkeyBase64

/-- Is the timestamp within `SIGNATURE_MAX_AGE_MS` of `now`, on either side?
Source: `lib/notify-auth.js`, `verifyProof`, line 62
Kind: D -/
def isFresh (now timestamp : ℚ) : Bool := decide (|now - timestamp| ≤ SIGNATURE_MAX_AGE_MS)

/-- Does the proof show possession of the key for `(action, body)` at the time `now`? Never throws.
Source: `lib/notify-auth.js`, `verifyProof`
Kind: D -/
def verifyProof (c : Crypto Body Key) (pubkeyBase64 action : JsString) (body : Body) (proof : Proof)
    (now : ℚ) : Bool :=
  match proof.timestamp with
  | none => false
  | some none => false
  | some (some timestamp) =>
      if proof.nonce = [] ∨ proof.signature = [] then false
      else if !isFresh now timestamp then false
      else
        match importPubkey c pubkeyBase64 with
        | none => false
        | some key =>
            (c.verify (signatureBase c action body timestamp proof.nonce) key
              proof.signature).getD false

/-- A verified proof has a finite timestamp within the window.
Kind: L -/
theorem exists_fresh_of_verifyProof {c : Crypto Body Key} {pubkey action : JsString} {body : Body}
    {proof : Proof} {now : ℚ} (h : verifyProof c pubkey action body proof now = true) :
    ∃ t, proof.timestamp = some (some t) ∧ |now - t| ≤ SIGNATURE_MAX_AGE_MS := by
  unfold verifyProof at h
  split at h
  · exact absurd h (by decide)
  · exact absurd h (by decide)
  · rename_i t ht
    refine ⟨t, ht, ?_⟩
    split_ifs at h with hempty hfresh
    simpa [isFresh] using hfresh

/-! ### The nonce memory -/

/-- The replay memory of one broker.
Source: `lib/notify-auth.js`, `NonceSeen`
Kind: D -/
structure NonceSeen where
  /-- How long a recorded nonce counts. -/
  ttlMs : ℚ
  /-- `"topic nonce"` with the time it expires at. -/
  seen : JsMap JsString ℚ

namespace NonceSeen

/-- `new NonceSeen(opts)`, where an absent or zero `opts.ttlMs` is the signature age.
Kind: D -/
def new (optsTtlMs : Option ℚ) : NonceSeen where
  ttlMs := if optsTtlMs.getD 0 = 0 then SIGNATURE_MAX_AGE_MS else optsTtlMs.getD 0
  seen := JsMap.empty

/-- Drop the expired entries, once 5000 are held.
Source: `lib/notify-auth.js`, `NonceSeen.prototype._sweep`
Kind: D -/
def sweep (s : NonceSeen) (now : ℚ) : NonceSeen :=
  if s.seen.size < 5000 then s
  else { s with seen := s.seen.deleteWhere fun _ exp => exp < now }

/-- `String(topic) + ' ' + String(nonce)`.
Kind: D -/
def key (topic : Topic) (nonce : JsString) : JsString := topic.text ++ js " " ++ nonce

/-- May the nonce be used on the topic now? If so it is recorded. `now` is the clock reading that
the callers leave to `Date.now()`.
Source: `lib/notify-auth.js`, `NonceSeen.prototype.checkAndRecord`
Kind: D -/
def checkAndRecord (s : NonceSeen) (topic : Topic) (nonce : JsString) (now : ℚ) :
    NonceSeen × Bool :=
  let s := s.sweep now
  let k := key topic nonce
  match s.seen.get k with
  | some exp =>
      if now ≤ exp then (s, false)
      else ({ s with seen := s.seen.set k (now + s.ttlMs) }, true)
  | none => ({ s with seen := s.seen.set k (now + s.ttlMs) }, true)

/-- A topic has no blank, so the key determines topic and nonce.
Kind: P -/
theorem key_injective {t t' : Topic} {n n' : JsString} (h : key t n = key t' n') :
    t.text = t'.text ∧ n = n' := by
  have hsplit : ∀ (t : Topic) (n : JsString), (key t n).takeWhile isTopicUnit = t.text := by
    intro t n
    have hunits : ∀ u ∈ t.text, isTopicUnit u = true := by
      have hvalid := t.valid
      rw [isValidTopic, Bool.and_eq_true, List.all_eq_true] at hvalid
      exact hvalid.2
    have hblank : (js " " ++ n).takeWhile isTopicUnit = [] := by
      have hunit : isTopicUnit (unit ' ') = false := by decide
      have hjs : js " " = [unit ' '] := by decide
      rw [hjs, List.singleton_append, List.takeWhile_cons, hunit]
      rfl
    rw [key, List.append_assoc, List.takeWhile_append_of_pos hunits, hblank, List.append_nil]
  have htext : t.text = t'.text := by rw [← hsplit t n, h, hsplit]
  refine ⟨htext, ?_⟩
  rw [key, key, htext] at h
  exact List.append_cancel_left h

end NonceSeen

/-! ### Requests -/

/-- One request to a claimed topic: what the route signs over, what the client sent, when.
Kind: D -/
structure Request (Body : Type) where
  /-- The claimed topic. -/
  topic : Topic
  /-- The public key enrolled for the topic. -/
  pubkey : JsString
  /-- The action of the route. -/
  action : JsString
  /-- The body the proof is scoped to. -/
  body : Body
  /-- The proof the client sent. -/
  proof : Proof
  /-- The clock reading. -/
  now : ℚ

namespace Request

/-- What makes two presentations the same proof: topic, nonce, timestamp and signature.
Kind: D -/
def presented (r : Request Body) : JsString × Proof := (r.topic.text, r.proof)

/-- The key the request's nonce is recorded under.
Kind: D -/
def key (r : Request Body) : JsString := NonceSeen.key r.topic r.proof.nonce

/-- Does `verifyProof` accept the request's proof?
Kind: D -/
def verified (c : Crypto Body Key) (r : Request Body) : Bool :=
  verifyProof c r.pubkey r.action r.body r.proof r.now

theorem key_eq_of_presented_eq {a b : Request Body} (h : a.presented = b.presented) :
    a.key = b.key := by
  have htopic : a.topic.text = b.topic.text := congrArg Prod.fst h
  have hproof : a.proof = b.proof := congrArg Prod.snd h
  simp only [key, NonceSeen.key, htopic, hproof]

end Request

/-- The times of a run never go back.
Kind: D -/
def Chronological (l : List (Request Body)) : Prop := l.Pairwise fun a b => a.now ≤ b.now

namespace NonceSeen

/-- A request is served when its proof verifies and its nonce is new.
Source: `lib/server.js`, `notifyProofRejected`
Kind: D -/
def handle (c : Crypto Body Key) (s : NonceSeen) (r : Request Body) : NonceSeen × Bool :=
  if r.verified c then s.checkAndRecord r.topic r.proof.nonce r.now else (s, false)

/-- The guard: a nonce counts for `ttl` after its admission.
Kind: D -/
def guard (c : Crypto Body Key) (ttl : ℚ) : Guard (Request Body) JsString where
  key := Request.key
  wants := Request.verified c
  far a b := decide (a.now + ttl < b.now)

/-! ### The memory refines the guard -/

/-- At time `t` the map knows the admissions `past`: each is held until its expiry at least, unless
`t` is past that, and nothing else is held.
Kind: D -/
structure Remembers (s : NonceSeen) (past : List (Request Body)) (t : ℚ) : Prop where
  /-- An admission is held while it counts. -/
  held : ∀ b ∈ past, b.now + s.ttlMs < t ∨ ∃ e, s.seen.get b.key = some e ∧ b.now + s.ttlMs ≤ e
  /-- What is held is an admission. -/
  sound : ∀ k e, s.seen.get k = some e → ∃ b ∈ past, b.key = k ∧ e = b.now + s.ttlMs

theorem ttlMs_sweep (s : NonceSeen) (now : ℚ) : (s.sweep now).ttlMs = s.ttlMs := by
  unfold sweep
  split_ifs <;> rfl

/-- A sweep only drops what has expired.
Kind: L -/
theorem get_sweep {s : NonceSeen} {now : ℚ} {k : JsString} {e : ℚ} :
    (s.seen.get k = some e → now ≤ e → (s.sweep now).seen.get k = some e) ∧
      ((s.sweep now).seen.get k = some e → s.seen.get k = some e) := by
  unfold sweep
  split_ifs
  · exact ⟨fun h _ => h, id⟩
  · rw [JsMap.get_deleteWhere]
    constructor
    · intro h hle
      rw [h]
      simp [hle]
    · intro h
      exact (Option.filter_eq_some_iff.mp h).1

theorem Remembers.sweep {s : NonceSeen} {past : List (Request Body)} {t now : ℚ}
    (h : s.Remembers past t) (ht : t ≤ now) : (s.sweep now).Remembers past now := by
  constructor
  · intro b hb
    rw [ttlMs_sweep]
    rcases h.held b hb with hgone | ⟨e, he, hle⟩
    · exact Or.inl (by linarith)
    · by_cases hnow : now ≤ e
      · exact Or.inr ⟨e, get_sweep.1 he hnow, hle⟩
      · exact Or.inl (by linarith)
  · intro k e he
    rw [ttlMs_sweep]
    exact h.sound k e (get_sweep.2 he)

/-- The entry under a key decides whether any admission under it still counts.
Kind: L -/
theorem Remembers.far_iff {s : NonceSeen} {past : List (Request Body)} {now : ℚ}
    (h : s.Remembers past now) (k : JsString) :
    (∀ b ∈ past, b.key = k → b.now + s.ttlMs < now) ↔ ∀ e, s.seen.get k = some e → e < now := by
  constructor
  · intro hfar e he
    obtain ⟨b, hb, hkey, rfl⟩ := h.sound k e he
    exact hfar b hb hkey
  · intro hexp b hb hkey
    rcases h.held b hb with hgone | ⟨e, he, hle⟩
    · exact hgone
    · rw [hkey] at he
      exact lt_of_le_of_lt hle (hexp e he)

/-- Recording a request keeps the memory in step, once no admission under its key counts.
Kind: L -/
theorem Remembers.record {s : NonceSeen} {past : List (Request Body)} {a : Request Body}
    (h : s.Remembers past a.now) (hfar : ∀ b ∈ past, b.key = a.key → b.now + s.ttlMs < a.now) :
    ({ s with seen := s.seen.set a.key (a.now + s.ttlMs) } : NonceSeen).Remembers (a :: past)
      a.now := by
  constructor
  · intro b hb
    rcases List.mem_cons.mp hb with rfl | hb'
    · exact Or.inr ⟨_, JsMap.get_set_self _ _ _, le_rfl⟩
    · by_cases hkey : b.key = a.key
      · exact Or.inl (hfar b hb' hkey)
      · simp only [JsMap.get_set_of_ne _ hkey]
        exact h.held b hb'
  · intro k e he
    simp only [JsMap.get_set] at he
    split_ifs at he with hk
    · exact ⟨a, List.mem_cons_self, hk.symm, (Option.some.inj he).symm⟩
    · obtain ⟨b, hb, hkey, heq⟩ := h.sound k e he
      exact ⟨b, List.mem_cons_of_mem a hb, hkey, heq⟩

/-- `checkAndRecord` decides by the admissions, and records exactly what it allows.
Kind: P -/
theorem checkAndRecord_spec {s : NonceSeen} {past : List (Request Body)} {a : Request Body} {t : ℚ}
    (h : s.Remembers past t) (ht : t ≤ a.now) :
    ((s.checkAndRecord a.topic a.proof.nonce a.now).2 = true ↔
        ∀ b ∈ past, b.key = a.key → b.now + s.ttlMs < a.now) ∧
      (s.checkAndRecord a.topic a.proof.nonce a.now).1.ttlMs = s.ttlMs ∧
      (s.checkAndRecord a.topic a.proof.nonce a.now).1.Remembers
        (if (s.checkAndRecord a.topic a.proof.nonce a.now).2 then a :: past else past) a.now := by
  have hs : (s.sweep a.now).Remembers past a.now := h.sweep ht
  have hiff := hs.far_iff a.key
  rw [ttlMs_sweep] at hiff
  have hkey : NonceSeen.key a.topic a.proof.nonce = a.key := rfl
  have hrecord := hs.record (a := a)
  rw [ttlMs_sweep] at hrecord
  simp only [checkAndRecord, hkey]
  rcases hget : (s.sweep a.now).seen.get a.key with _ | e
  · have hfar := hiff.mpr fun e he => absurd (hget.symm.trans he) (by simp)
    exact ⟨⟨fun _ => hfar, fun _ => rfl⟩, ttlMs_sweep s a.now, by
      simpa [ttlMs_sweep] using hrecord hfar⟩
  · by_cases hle : a.now ≤ e
    · simp only [if_pos hle, Bool.false_eq_true, false_iff, if_false]
      refine ⟨fun hfar => ?_, ttlMs_sweep s a.now, hs⟩
      exact absurd (hiff.mp hfar e hget) (not_lt.mpr hle)
    · have hfar := hiff.mpr fun e' he' => by
        rw [hget, Option.some.injEq] at he'
        rw [← he']
        exact lt_of_not_ge hle
      simp only [if_neg hle, if_true, true_iff]
      exact ⟨hfar, ttlMs_sweep s a.now, by simpa [ttlMs_sweep] using hrecord hfar⟩

/-- **The guard `NonceSeen` implements.** From a memory that knows the admissions so far, a run of
requests is served as the guard says.
Kind: P -/
theorem admitted_eq_log (c : Crypto Body Key) {s : NonceSeen} {past l : List (Request Body)} {t : ℚ}
    (h : s.Remembers past t) (hl : Chronological l) (ht : ∀ a ∈ l, t ≤ a.now) :
    admittedBy (handle c) s l = (guard c s.ttlMs).log past l := by
  refine admittedBy_eq_log (guard c s.ttlMs) (handle c)
    (fun s' past l => s'.ttlMs = s.ttlMs ∧ Chronological l ∧
      ∃ t, s'.Remembers past t ∧ ∀ a ∈ l, t ≤ a.now) ?_ ?_ l s past ⟨rfl, hl, t, h, ht⟩
  · rintro s' past a l ⟨httl, -, t, hr, hle⟩
    have hspec := (checkAndRecord_spec hr (hle a List.mem_cons_self)).1
    rw [Bool.eq_iff_iff, Guard.decides_iff]
    by_cases hv : a.verified c = true
    · simp only [handle, guard, hv, if_true, hspec, httl, decide_eq_true_eq, true_and]
    · simp [handle, guard, hv]
  · rintro s' past a l ⟨httl, hchron, t, hr, hle⟩
    obtain ⟨hbound, hchron'⟩ := List.pairwise_cons.mp hchron
    have hat : t ≤ a.now := hle a List.mem_cons_self
    obtain ⟨hdec, httl', hr'⟩ := checkAndRecord_spec hr hat
    by_cases hv : a.verified c = true
    · have hext : (guard c s.ttlMs).extend past a =
          if (s'.checkAndRecord a.topic a.proof.nonce a.now).2 then a :: past else past := by
        unfold Guard.extend
        congr 1
        rw [Guard.decides_iff, hdec]
        simp [guard, hv, httl]
      simp only [handle, if_pos hv, hext]
      exact ⟨httl'.trans httl, hchron', a.now, hr', hbound⟩
    · have hext : (guard c s.ttlMs).extend past a = past := by
        simp [Guard.extend, Guard.decides, guard, hv]
      simp only [handle, if_neg hv, hext]
      exact ⟨httl, hchron', t, hr, fun b hb => hat.trans (hbound b hb)⟩

theorem remembers_new (o : Option ℚ) (t : ℚ) :
    (new o).Remembers ([] : List (Request Body)) t where
  held b hb := absurd hb List.not_mem_nil
  sound k e he := by simp [new] at he

/-! ### At most once -/

/-- The broker with a fresh memory of the default lifetime admits no proof of the run twice.
Kind: D -/
def AdmitsOnce (c : Crypto Body Key) (l : List (Request Body)) : Prop :=
  ((admittedBy (handle c) (new none) l).map Request.presented).Nodup

/-- No proof is presented, inside its timestamp window, more than `ttl` after an earlier
presentation of it inside that window.
Kind: D -/
def PresentedWithinTtl (c : Crypto Body Key) (ttl : ℚ) (l : List (Request Body)) : Prop :=
  l.Pairwise fun a b =>
    a.presented = b.presented → a.verified c = true → b.verified c = true → b.now ≤ a.now + ttl

/-- A proof that is never stamped later than the clock it is presented at stays within the memory
of its nonce: its window closes `SIGNATURE_MAX_AGE_MS` after the timestamp.
Kind: C -/
theorem presentedWithinTtl_of_stampedInPast (c : Crypto Body Key) {l : List (Request Body)}
    (h : ∀ r ∈ l, ∀ t, r.proof.timestamp = some (some t) → t ≤ r.now) :
    PresentedWithinTtl c SIGNATURE_MAX_AGE_MS l := by
  apply List.pairwise_of_forall_mem_list
  intro a ha b hb heq hva hvb
  obtain ⟨t, ht, hfresh⟩ := exists_fresh_of_verifyProof hvb
  have hproof : a.proof = b.proof := congrArg Prod.snd heq
  have hta : t ≤ a.now := h a ha t (hproof ▸ ht)
  have := (abs_le.mp hfresh).2
  linarith

/-- **Each proof once, exactly when it is presented within the lifetime of its nonce.** The run
admits no proof twice when the presentations of each proof inside its window span at most the
`ttlMs` of the memory; and when no nonce is shared between proofs, only then.
Source: `lib/notify-auth.js`, `verifyProof`, `NonceSeen`
Kind: P -/
theorem admitsOnce_of_presentedWithinTtl (c : Crypto Body Key) (l : List (Request Body))
    (hl : Chronological l) :
    (PresentedWithinTtl c SIGNATURE_MAX_AGE_MS l → AdmitsOnce c l) ∧
      ((∀ a ∈ l, ∀ b ∈ l, a.key = b.key → a.presented = b.presented) → AdmitsOnce c l →
        PresentedWithinTtl c SIGNATURE_MAX_AGE_MS l) := by
  have hlog : admittedBy (handle c) (new none) l = (guard c SIGNATURE_MAX_AGE_MS).log [] l := by
    rcases l with _ | ⟨a, l⟩
    · rfl
    · have hfirst : ∀ b ∈ a :: l, a.now ≤ b.now := by
        intro b hb
        rcases List.mem_cons.mp hb with rfl | hb'
        · exact le_rfl
        · exact (List.pairwise_cons.mp hl).1 b hb'
      exact admitted_eq_log c (remembers_new none a.now) hl hfirst
  unfold AdmitsOnce
  rw [hlog]
  constructor
  · intro hnear
    refine Guard.nodup_log _ Request.presented (fun a b => Request.key_eq_of_presented_eq) ?_
    exact hnear.imp fun {a b} h heq hva hvb => by simpa [guard] using h heq hva hvb
  · intro hshare hnodup
    have hmono : ∀ {a b d : Request Body}, d.now ≤ a.now →
        (guard c SIGNATURE_MAX_AGE_MS).far a b = true →
        (guard c SIGNATURE_MAX_AGE_MS).far d b = true := by
      intro a b d hda hfar
      simp only [guard, decide_eq_true_eq] at hfar ⊢
      linarith
    have hnear := Guard.near_of_nodup_log (guard c SIGNATURE_MAX_AGE_MS)
      (r := fun a b => a.now ≤ b.now) (fun a => le_rfl) hmono l [] hl hshare hnodup
    exact hnear.imp fun {a b} h heq hva hvb => by simpa [guard] using h heq hva hvb

/-! ### A proof stamped in the future -/

/-- A world in which every signature verifies.
Kind: D -/
def anyKey : Crypto Unit Unit where
  stableStringify _ := js "\x7b\x7d"
  numberToString _ := js "1"
  createPublicKey _ := some ()
  verify _ _ _ := some true

/-- The request that presents one fixed proof, stamped `1060000`, at the time `now`.
Kind: D -/
def presentAt (now : ℚ) : Request Unit where
  topic := ⟨js "alerts", by decide⟩
  pubkey := js "MCow"
  action := js "push"
  body := ()
  proof := ⟨some (some 1060000), js "n1", js "c2ln"⟩
  now := now

/-- Presented again within a minute, the proof is admitted once: an instance of
`admitsOnce_of_presentedWithinTtl`.
Kind: C -/
theorem admitsOnce_presentAt : AdmitsOnce anyKey [presentAt 1060000, presentAt 1120000] :=
  (admitsOnce_of_presentedWithinTtl anyKey [presentAt 1060000, presentAt 1120000]
    (by unfold Chronological; decide +kernel)).1 (by unfold PresentedWithinTtl; decide +kernel)

/-- A proof stamped a minute ahead is admitted, and a minute and a millisecond later, when its nonce
is forgotten and its window still open, admitted again.
Kind: P -/
theorem admits_futureStamped_twice :
    Chronological [presentAt 1000000, presentAt 1060001] ∧
      ¬ AdmitsOnce anyKey [presentAt 1000000, presentAt 1060001] := by
  unfold Chronological AdmitsOnce
  decide +kernel

end NonceSeen

end TyoMq.Notify
