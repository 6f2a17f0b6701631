import Mathlib.Algebra.Ring.Int.Defs
import Mathlib.Data.List.TakeWhile
import Mathlib.Data.Rat.Defs
import Mathlib.Tactic.Common
import TyoMq.Lib.Utf8

/-!
# Values that go through an SQLite table

What the synchronous driver of Node.js gives back for a value that it has stored.

* A text is stored as its UTF-8 bytes, and lone surrogates as U+FFFD (`toWellFormed`). It is read up to
  the first U+0000 (`cut`), so that a string comes back as it was exactly when it is well formed and has
  no U+0000 (`cut_toWellFormed_eq_self_iff`).
* A number is stored as a double, and in an integer column as an integer when it is one of 64 bits. An
  integer that is no safe one of JavaScript cannot be read: the call that would return its row throws
  (`readable`). What is no number is stored as `NULL`, and the negative zero as zero (`Number.stored`).
* A query returns all its rows or throws (`readAll`).
-/

namespace TyoMq.Lib.Sqlite

/-! ### Texts -/

section Cut

variable {α : Type*} [OfNat α 0] [DecidableEq α] {s : List α}

/-- What is read of a text, from its bytes or its code units: up to the first U+0000.
Kind: D -/
def cut (s : List α) : List α := s.takeWhile fun u => u ≠ 0

@[simp] theorem cut_nil : cut ([] : List α) = [] := rfl

theorem zero_not_mem_cut (s : List α) : 0 ∉ cut s := fun h => by
  simpa using List.mem_takeWhile_imp h

theorem cut_eq_self_iff : cut s = s ↔ 0 ∉ s := by
  rw [cut, List.takeWhile_eq_self_iff]
  constructor
  · intro h hmem
    simpa using h 0 hmem
  · intro h u hu
    rw [decide_eq_true_eq]
    rintro rfl
    exact h hu

@[simp] theorem cut_cut (s : List α) : cut (cut s) = cut s :=
  cut_eq_self_iff.mpr (zero_not_mem_cut s)

end Cut

/-- A string comes back as it was exactly when it is well formed and has no U+0000.
Kind: P -/
theorem cut_toWellFormed_eq_self_iff {s : JsString} :
    cut (toWellFormed s) = s ↔ WellFormed s ∧ 0 ∉ s := by
  constructor
  · intro h
    have hlength : (cut (toWellFormed s)).length = (toWellFormed s).length := by
      rw [h, length_toWellFormed]
    have hself : cut (toWellFormed s) = toWellFormed s :=
      (List.takeWhile_prefix _).eq_of_length hlength
    have hwell : WellFormed s := hself.symm.trans h
    refine ⟨hwell, ?_⟩
    rw [hwell] at hself
    exact cut_eq_self_iff.mp hself
  · rintro ⟨hwell, hzero⟩
    rw [hwell]
    exact cut_eq_self_iff.mpr hzero

/-- What columns make of texts, over any type of them.
Kind: D -/
class Texts (τ : Type*) where
  /-- What is stored of a text. -/
  stored : τ → τ
  /-- What is read of a stored text. -/
  read : τ → τ
  /-- What comes back as it was has been stored as it was. -/
  stored_eq_of_read : ∀ s, read (stored s) = s → stored s = s

instance : Texts JsString := ⟨toWellFormed, cut, fun _ h => (cut_toWellFormed_eq_self_iff.mp h).1⟩

section Whole

variable {τ υ : Type*} [Texts τ] [Texts υ]

/-- A text or `NULL`.
Kind: D -/
instance : Texts (Option τ) where
  stored := Option.map Texts.stored
  read := Option.map Texts.read
  stored_eq_of_read
    | none, _ => rfl
    | some s, h => congrArg some (Texts.stored_eq_of_read s (Option.some.inj h))

/-- Two columns.
Kind: D -/
instance : Texts (τ × υ) where
  stored := Prod.map Texts.stored Texts.stored
  read := Prod.map Texts.read Texts.read
  stored_eq_of_read s h := by
    obtain ⟨h₁, h₂⟩ := Prod.mk.inj h
    exact Prod.ext (Texts.stored_eq_of_read s.1 h₁) (Texts.stored_eq_of_read s.2 h₂)

/-- Is the text stored and read as it is?
Kind: D -/
def Whole (s : τ) : Prop := Texts.stored s = s ∧ Texts.read s = s

instance [DecidableEq τ] (s : τ) : Decidable (Whole s) := inferInstanceAs (Decidable (_ ∧ _))

/-- It is exactly when it comes back as it was.
Kind: P -/
theorem whole_iff_read {s : τ} : Whole s ↔ Texts.read (Texts.stored s) = s := by
  constructor
  · rintro ⟨hstored, hread⟩
    rw [hstored, hread]
  · intro h
    have hstored := Texts.stored_eq_of_read s h
    rw [hstored] at h
    exact ⟨hstored, h⟩

theorem whole_option_iff {o : Option τ} : Whole o ↔ ∀ s ∈ o, Whole s := by
  rcases o with _ | s
  · exact ⟨fun _ _ h => absurd h (by simp), fun _ => ⟨rfl, rfl⟩⟩
  · simp only [Option.mem_def, Option.some.injEq, forall_eq']
    exact and_congr (Option.some_inj (a := Texts.stored s)) (Option.some_inj (a := Texts.read s))

end Whole

theorem whole_iff {s : JsString} : Whole s ↔ WellFormed s ∧ 0 ∉ s :=
  and_congr_right fun _ => cut_eq_self_iff

/-! ### Numbers -/

/-- Can the integer in a column be read as a number? From `2 ^ 63` on the column has a double.
Kind: D -/
def readable (n : ℤ) : Bool := n.natAbs < 2 ^ 53 || 2 ^ 63 ≤ n.natAbs

theorem readable_of_lt {n : ℤ} (hnonneg : 0 ≤ n) (h : n < 2 ^ 53) : readable n = true := by
  rw [readable, Bool.or_eq_true, decide_eq_true_eq]
  left
  omega

/-- A number, the negative zero apart.
Kind: D -/
inductive Number where
  | finite (value : ℚ)
  | negZero
  | infinite (negative : Bool)
  | nan
  deriving DecidableEq

namespace Number

/-- What an integer column stores of a number.
Kind: D -/
def stored : Number → Option Number
  | finite value => some (finite value)
  | negZero => some (finite 0)
  | infinite negative => some (infinite negative)
  | nan => none

/-- Can the number in an integer column be read?
Kind: D -/
def readable : Number → Bool
  | finite value => value.den ≠ 1 || Sqlite.readable value.num
  | negZero | infinite _ | nan => true

end Number

/-! ### Rows -/

section Rows

variable {ρ ρ' : Type*} {read : ρ → Option ρ'} {rows : List ρ}

/-- All rows of a query, or none when one of them cannot be read.
Kind: D -/
def readAll (read : ρ → Option ρ') : List ρ → Option (List ρ')
  | [] => some []
  | row :: rows => (read row).bind fun r => (readAll read rows).map fun l => r :: l

/-- When no row fails, each is read.
Kind: L -/
theorem readAll_eq_some_map {f : ρ → ρ'} (h : ∀ row ∈ rows, read row = some (f row)) :
    readAll read rows = some (rows.map f) := by
  induction rows with
  | nil => rfl
  | cons row rows ih =>
      rw [readAll, h row (List.mem_cons_self ..), ih fun r hr => h r (List.mem_cons_of_mem _ hr)]
      rfl

/-- What is read are the rows, each of which is read.
Kind: P -/
theorem forall₂_of_readAll {l : List ρ'} (h : readAll read rows = some l) :
    List.Forall₂ (fun row r => read row = some r) rows l := by
  induction rows generalizing l with
  | nil =>
      obtain rfl := Option.some.inj h
      exact List.Forall₂.nil
  | cons row rows ih =>
      obtain ⟨r, hr, hrest⟩ := Option.bind_eq_some_iff.mp h
      obtain ⟨l', hl', rfl⟩ := Option.map_eq_some_iff.mp hrest
      exact List.Forall₂.cons hr (ih hl')

/-- Rows that are read have all been read.
Kind: L -/
theorem exists_of_readAll_eq_some {l : List ρ'} (h : readAll read rows = some l) :
    ∀ row ∈ rows, ∃ r ∈ l, read row = some r := by
  have hall := forall₂_of_readAll h
  clear h
  induction hall with
  | nil => exact fun _ hrow => absurd hrow List.not_mem_nil
  | @cons row r rows l hr _ ih =>
      intro row' hrow'
      rcases List.mem_cons.mp hrow' with rfl | hrow'
      · exact ⟨r, List.mem_cons_self .., hr⟩
      · obtain ⟨r', hr', hread⟩ := ih row' hrow'
        exact ⟨r', List.mem_cons_of_mem _ hr', hread⟩

/-- What has been read is what some row reads.
Kind: L -/
theorem exists_row_of_mem {l : List ρ'} (h : readAll read rows = some l) {r : ρ'} (hr : r ∈ l) :
    ∃ row ∈ rows, read row = some r := by
  have hall := forall₂_of_readAll h
  clear h
  induction hall with
  | nil => exact absurd hr List.not_mem_nil
  | @cons row r' rows l hrow _ ih =>
      rcases List.mem_cons.mp hr with rfl | hr
      · exact ⟨row, List.mem_cons_self .., hrow⟩
      · obtain ⟨row', hrow', hread⟩ := ih hr
        exact ⟨row', List.mem_cons_of_mem _ hrow', hread⟩

/-- The rows are read as they are exactly when each of them is.
Kind: P -/
theorem readAll_eq_self_iff {read : ρ → Option ρ} {rows : List ρ} :
    readAll read rows = some rows ↔ ∀ row ∈ rows, read row = some row := by
  constructor
  · intro h
    induction rows with
    | nil => exact fun _ hrow => absurd hrow List.not_mem_nil
    | cons row rows ih =>
        obtain ⟨r, hr, hrest⟩ := Option.bind_eq_some_iff.mp h
        obtain ⟨l, hl, heq⟩ := Option.map_eq_some_iff.mp hrest
        obtain ⟨rfl, rfl⟩ := List.cons.inj heq
        intro row' hrow'
        rcases List.mem_cons.mp hrow' with rfl | hrow'
        · exact hr
        · exact ih hl row' hrow'
  · intro h
    rw [readAll_eq_some_map h, List.map_id']

end Rows

end TyoMq.Lib.Sqlite
