import Mathlib.Order.WithBot
import TyoMq.Lib.Double
import TyoMq.Storage.Equivalence

/-!
# Durable messages: times as JavaScript has them

The clock of the in-process store and of SQLite: readings and expiry times are doubles, and a time to live
is a double in seconds (`Instant`). With it the two stores answer every run alike that reads nothing but
what SQLite gives back as it was written (`answers_eq`).
-/

namespace TyoMq.Storage

open TyoMq.Lib

variable {π : Type*}

/-- A time in milliseconds: a double, or infinity.
Kind: D -/
abbrev Instant := WithTop {x : ℚ // IsDouble x}

instance : Zero {x : ℚ // IsDouble x} := ⟨0, by simpa using Double.isDouble_natCast (Nat.zero_le _)⟩

namespace Instant

/-- The time as a number.
Kind: D -/
def toDouble : Instant → Double
  | some x => .finite x.1 x.2
  | none => .infinity

/-- A number as a time.
Kind: D -/
def ofDouble : Double → Option Instant
  | .finite x double => some (some ⟨x, double⟩)
  | .infinity => some none
  | .nan | .negInfinity => none

/-- Source: `lib/storage/sqlite.js`, `SQLiteStore.prototype._expiresAt`
Kind: D -/
def expiresAt (defaultTtl : Double) (ttl : Option Double) (now : Instant) : Option Instant :=
  match ttl.getD defaultTtl with
  | .finite ttl double =>
      if ttl < 0 then none else ofDouble (now.toDouble + .finite ttl double * (1000 : ℕ))
  | _ => none

/-- An integer column has an integer as one, and any other number as it is.
Kind: D -/
def readable : Instant → Bool
  | some x => x.1.den ≠ 1 || Sqlite.readable x.1.num
  | none => true

/-- What lies after a number that is not negative lies after zero, when it is a time.
Kind: L -/
theorem pos_of_ofDouble {d : Double} {a : ℚ} {ha : IsDouble a} (hpos : 0 < a)
    (hle : Double.finite a ha ≤ d) : ∀ x ∈ ofDouble d, 0 < x := by
  intro x hx
  cases d with
  | nan | negInfinity => cases hx
  | infinity =>
      obtain rfl : (none : Instant) = x := Option.some.inj hx
      exact WithTop.coe_lt_top _
  | finite v hv =>
      obtain rfl : (some ⟨v, hv⟩ : Instant) = x := Option.some.inj hx
      apply WithTop.coe_lt_coe.mpr
      show (0 : ℚ) < v
      exact hpos.trans_le (Double.finite_le_finite.mp hle)

theorem expiresAt_pos {defaultTtl : Double} {ttl : Option Double} {now : Instant} (h : 0 < now) :
    ∀ x ∈ expiresAt defaultTtl ttl now, 0 < x := by
  intro x hx
  unfold expiresAt at hx
  split at hx
  · rename_i s hs _
    split_ifs at hx with hneg
    · cases hx
    · rw [Double.natCast_eq_finite (by norm_num)] at hx
      have hproduct : (0 : ℚ) ≤ s * ((1000 : ℕ) : ℚ) :=
        mul_nonneg (not_lt.mp hneg) (Nat.cast_nonneg _)
      rcases now with _ | a
      · -- the clock has no end
        rcases Double.ofRat_nonneg hproduct with hinf | ⟨v, hv, hfinite, -⟩
        · change x ∈ ofDouble (Double.infinity + Double.ofRat _) at hx
          rw [hinf] at hx
          obtain rfl : (none : Instant) = x := Option.some.inj hx
          exact WithTop.coe_lt_top _
        · change x ∈ ofDouble (Double.infinity + Double.ofRat _) at hx
          rw [hfinite] at hx
          obtain rfl : (none : Instant) = x := Option.some.inj hx
          exact WithTop.coe_lt_top _
      · have hcoe : ((0 : {x : ℚ // IsDouble x}) : Instant) < a := h
        have hlt : (0 : {x : ℚ // IsDouble x}) < a := WithTop.coe_lt_coe.mp hcoe
        have ha : (0 : ℚ) < a.1 := hlt
        refine @pos_of_ofDouble (Double.finite a.1 a.2 + _) a.1 a.2 ha ?_ x hx
        rcases Double.ofRat_nonneg hproduct with hinf | ⟨v, hv, hfinite, hnonneg⟩
        · show Double.finite a.1 a.2 ≤ Double.finite a.1 a.2 + Double.ofRat _
          rw [hinf]
          exact Double.le_infinity Double.noConfusion
        · show Double.finite a.1 a.2 ≤ Double.finite a.1 a.2 + Double.ofRat _
          rw [hfinite]
          have hmono : Double.ofRat a.1 ≤ Double.ofRat (a.1 + v) := Double.ofRat_mono (by linarith)
          rwa [Double.ofRat_eq_finite a.2] at hmono
  · cases hx

/-- A time after the epoch and before `2 ^ 53` can be read.
Kind: P -/
theorem readable_of_lt {x : {x : ℚ // IsDouble x}} (hpos : 0 < x.1) (h : x.1 < 2 ^ 53) :
    readable (some x) = true := by
  rw [readable, Bool.or_eq_true]
  by_cases hden : x.1.den = 1
  · right
    have hnum : x.1 = x.1.num := (Rat.den_eq_one_iff x.1).mp hden |>.symm
    rw [hnum] at hpos h
    exact Sqlite.readable_of_lt (by exact_mod_cast hpos.le) (by exact_mod_cast h)
  · left
    simpa using hden

end Instant

instance : Clock Instant Double where
  expiresAt := Instant.expiresAt
  readable := Instant.readable
  expiresAt_pos := Instant.expiresAt_pos

/-- **The in-process store and SQLite answer every proper run alike** that reads from the table nothing
but what comes back as it was written.
Kind: P -/
theorem answers_eq (copy : π → π) (defaultTtl : Double) {calls : List (Call π Instant Double)}
    (h : Proper calls) (hwell : ∀ c ∈ calls, c.written id = c)
    (hlegible : EachStep (MemoryStore.store defaultTtl).step (Legible copy) MemoryStore.init calls) :
    (MemoryStore.store defaultTtl).answers (MemoryStore.store defaultTtl).init calls =
      ((SQLiteStore.store defaultTtl).answers (SQLiteStore.store defaultTtl).init
        (calls.map (Call.written copy))).map Answer.toNull :=
  Agree.init.answers defaultTtl h.positive h.distinct hwell hlegible

/-- A whole number of milliseconds.
Kind: D -/
def millis (n : ℕ) : Instant := (Instant.ofDouble n).getD 0

/-- A message expires and another one, without a consumer, becomes a dead letter.
Kind: D -/
def expiring : List (Call ℕ Instant Double) :=
  [⟨millis 1, .enqueue [] (ascii "tick")
      ⟨ascii "a", [], [], 1, [], some (1 : ℕ)⟩ []⟩,
    ⟨millis 1, .enqueue [] (ascii "tick") ⟨ascii "b", [], [], 2, [], none⟩ []⟩,
    ⟨millis 1001, .dequeue [] (ascii "tick") []⟩,
    ⟨millis 1002, .deadLetter (ascii "b") []⟩, ⟨millis 1002, .listDlq none⟩,
    ⟨millis 1003, .purgeRealm (ascii "default")⟩]

instance {T D : Type} [LinearOrder T] [Zero T] [Clock T D] [DecidableEq π] (copy : π → π)
    (m : MemoryStore π T) : ∀ c : Call π T D, Decidable (Legible copy m c)
  | ⟨now, .dequeue realm event consumer⟩ =>
      inferInstanceAs (Decidable (∀ e ∈ m.messages, (e.expires_at.all fun t => t = 0 ∨ now < t) = true →
        e.isIn (realmOr realm) event consumer = true → e.Legible ∧ copy e.message = e.message))
  | ⟨_, .deadLetter msgId _⟩ =>
      inferInstanceAs (Decidable (∀ e ∈ m.messages, e.id = msgId → e.Legible))
  | ⟨_, .listDlq realm⟩ =>
      inferInstanceAs (Decidable (realm ≠ some [] ∧ ∀ d ∈ m.dlq, (∀ r ∈ realm, d.entry.realm = r) →
        (∀ reason ∈ d.reason, 0 ∉ reason) ∧ copy d.entry.message = d.entry.message))
  | ⟨_, .enqueue ..⟩ => isTrue trivial
  | ⟨_, .ack _⟩ => isTrue trivial
  | ⟨_, .discardDlq ..⟩ => isTrue trivial
  | ⟨_, .countQueued ..⟩ => isTrue trivial
  | ⟨_, .purgeRealm _⟩ => isTrue trivial

theorem answers_eq_expiring :
    (MemoryStore.store .infinity).answers (MemoryStore.store .infinity).init expiring =
      ((SQLiteStore.store .infinity).answers (SQLiteStore.store .infinity).init
        (expiring.map (Call.written id))).map Answer.toNull := by
  have hproper : Proper expiring := ⟨by decide +kernel, by decide +kernel, by decide⟩
  apply answers_eq id .infinity hproper
  · intro c hc
    simp only [expiring, List.mem_cons, List.not_mem_nil, or_false] at hc
    rcases hc with rfl | rfl | rfl | rfl | rfl | rfl <;> rfl
  · decide +kernel

/-- A message whose id has a U+0000.
Kind: D -/
def splitId : List (Call ℕ Instant Double) :=
  [⟨millis 1, .enqueue [] (ascii "tick") ⟨[97, 0, 98], [], [], 1, [], none⟩ []⟩,
    ⟨millis 2, .dequeue [] (ascii "tick") []⟩]

/-- SQLite returns it under the first part of its id.
Kind: P -/
theorem answers_ne_splitId :
    Proper splitId ∧ (∀ c ∈ splitId, c.written id = c) ∧
      (MemoryStore.store .infinity).answers (MemoryStore.store .infinity).init splitId ≠
        ((SQLiteStore.store .infinity).answers (SQLiteStore.store .infinity).init
          (splitId.map (Call.written id))).map Answer.toNull := by
  refine ⟨⟨by decide +kernel, by decide +kernel, by decide⟩, fun c hc => ?_, by decide +kernel⟩
  simp only [splitId, List.mem_cons, List.not_mem_nil, or_false] at hc
  rcases hc with rfl | rfl <;> rfl

end TyoMq.Storage
