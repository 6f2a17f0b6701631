import Mathlib.Data.List.Nodup
import Mathlib.Data.List.Perm.Subperm
import TyoMq.Lib.Runs

/-!
# Additions to a shared document by reading it and writing it back

Any number of clients share a cell. Each adds an entry of its own to the document in the cell, by a read
of the cell and, some time later, a write of what it has read with the entry added.

* `Additions`: what is in the cell, what it means as a document, and what it is to add an entry.
* **What is lost** (`Cell.kept_iff`): the additions that were written are all in the cell exactly when
  no write fell between a client's read and its own write. Once one has, an addition is missing for good,
  although it need not stay the same one: a later write may bring it back and lose another (`Cell.Lost`).
-/

namespace TyoMq.Lib

/-- Documents `δ`, kept as `ρ`, to which entries `ε` are added. Entries that are apart do not overwrite
each other.
Kind: D -/
structure Additions (ρ δ ε : Type*) where
  /-- What a read makes of what is kept. -/
  load : ρ → δ
  /-- What a write keeps. -/
  save : δ → ρ
  /-- A document with one more entry. -/
  add : δ → ε → δ
  /-- The document has the entry. -/
  Has : δ → ε → Prop
  /-- The two entries do not overwrite each other. -/
  Apart : ε → ε → Prop
  /-- Reading undoes writing. -/
  load_save : ∀ d, load (save d) = d
  /-- An added entry is there. -/
  has_add : ∀ d e, Has (add d e) e
  /-- Entries apart from the added one are there as before. -/
  has_add_of_apart : ∀ d e e', Apart e e' → (Has (add d e') e ↔ Has d e)

/-- The cell, the clients that have written, the last of them first, and what the others have read, with
the number of writes that came before.
Kind: D -/
structure Cell (ν ρ δ : Type*) where
  /-- What is kept. -/
  kept : ρ
  /-- Who has written. -/
  writers : List ν
  /-- What was read and not yet written back. -/
  held : ν → Option (δ × ℕ)

/-- A client reads, or writes.
Kind: D -/
inductive Access (ν : Type*) where
  | read (n : ν)
  | write (n : ν)
  deriving DecidableEq

namespace Cell

variable {ν ρ δ ε : Type*} [DecidableEq ν] (A : Additions ρ δ ε) (entry : ν → ε)

/-- A cell that nobody has read yet.
Kind: D -/
def start (kept : ρ) : Cell ν ρ δ := ⟨kept, [], fun _ => none⟩

/-- One access. A client reads once and then writes once.
Kind: D -/
def step (c : Cell ν ρ δ) : Access ν → Cell ν ρ δ
  | .read n =>
      if n ∈ c.writers ∨ (c.held n).isSome then c
      else
        { c with
          held := fun m => if m = n then some (A.load c.kept, c.writers.length) else c.held m }
  | .write n =>
      match c.held n with
      | none => c
      | some (doc, _) =>
          { kept := A.save (A.add doc (entry n))
            writers := n :: c.writers
            held := fun m => if m = n then none else c.held m }

/-- Nobody has written since the client that is about to write has read.
Kind: D -/
def Undisturbed (c : Cell ν ρ δ) : Access ν → Prop
  | .read _ => True
  | .write n => ∀ since ∈ (c.held n).map Prod.snd, since = c.writers.length

instance (c : Cell ν ρ δ) : DecidablePred c.Undisturbed
  | .read _ => isTrue trivial
  | .write n => inferInstanceAs (Decidable (∀ since ∈ (c.held n).map Prod.snd, since = c.writers.length))

/-- Every addition that was written is in the cell.
Kind: D -/
def Kept (c : Cell ν ρ δ) : Prop := ∀ n ∈ c.writers, A.Has (A.load c.kept) (entry n)

/-- At most so many clients have their entry in the document.
Kind: D -/
def Covers (doc : δ) (k : ℕ) : Prop :=
  ∃ l : List ν, l.length ≤ k ∧ ∀ n, A.Has doc (entry n) → n ∈ l

/-- Fewer entries are in the cell than were written.
Kind: D -/
def Lost (c : Cell ν ρ δ) : Prop := ∃ k < c.writers.length, Covers A entry (A.load c.kept) k

/-- What was read came before the writes that it does not know of.
Kind: D -/
structure Reads (c : Cell ν ρ δ) : Prop where
  /-- Nobody writes twice. -/
  nodup : c.writers.Nodup
  /-- Who has something to write back has not written. -/
  pending : ∀ n, (c.held n).isSome → n ∉ c.writers
  /-- What was read is what is kept, when nobody has written since. -/
  current : ∀ n doc since, c.held n = some (doc, since) →
    since ≤ c.writers.length ∧ (since = c.writers.length → doc = A.load c.kept)

/-- A document has at most the entries of those who wrote before it was read.
Kind: D -/
structure Counted (c : Cell ν ρ δ) : Prop where
  /-- What is kept. -/
  kept : Covers A entry (A.load c.kept) c.writers.length
  /-- What was read. -/
  held : ∀ n doc since, c.held n = some (doc, since) → Covers A entry doc since

variable {A entry} {c : Cell ν ρ δ} {n : ν} {doc : δ} {since : ℕ}

/-- A read changes nothing, or only what its client holds.
Kind: L -/
theorem step_read_cases (A : Additions ρ δ ε) (entry : ν → ε) (c : Cell ν ρ δ) (n : ν) :
    c.step A entry (.read n) = c ∨
      n ∉ c.writers ∧ c.step A entry (.read n) =
        { c with
          held := fun m => if m = n then some (A.load c.kept, c.writers.length) else c.held m } := by
  by_cases h : n ∈ c.writers ∨ (c.held n).isSome
  · exact Or.inl (if_pos h)
  · exact Or.inr ⟨fun hn => h (Or.inl hn), if_neg h⟩

theorem step_write_of_none (h : c.held n = none) : c.step A entry (.write n) = c := by
  simp only [step, h]

theorem step_write_of_some (h : c.held n = some (doc, since)) :
    c.step A entry (.write n) =
      ⟨A.save (A.add doc (entry n)), n :: c.writers, fun m => if m = n then none else c.held m⟩ := by
  simp only [step, h]

/-- A write leaves what the others have read.
Kind: L -/
theorem held_of_held_write {m : ν} {doc' : δ} {since' : ℕ}
    (h : (if m = n then none else c.held m) = some (doc', since')) :
    m ≠ n ∧ c.held m = some (doc', since') := by
  split_ifs at h with hm
  exact ⟨hm, h⟩

omit [DecidableEq ν] in
theorem reads_start (kept : ρ) : (start kept : Cell ν ρ δ).Reads A :=
  ⟨List.nodup_nil, fun _ h => absurd h Bool.false_ne_true, fun _ _ _ h => absurd h (by simp [start])⟩

/-- An access keeps account of what was read.
Kind: L -/
theorem Reads.step (h : c.Reads A) (a : Access ν) : (c.step A entry a).Reads A := by
  cases a with
  | read n =>
      rcases step_read_cases A entry c n with hstep | ⟨hwriters, hstep⟩
      · exact hstep.symm ▸ h
      · rw [hstep]
        refine ⟨h.nodup, fun m hm => ?_, fun m doc since hm => ?_⟩
        · by_cases hmn : m = n
          · exact hmn ▸ hwriters
          · exact h.pending m (by simpa only [if_neg hmn] using hm)
        · by_cases hmn : m = n
          · simp only [if_pos hmn, Option.some.injEq, Prod.mk.injEq] at hm
            exact ⟨hm.2 ▸ Nat.le_refl _, fun _ => hm.1.symm⟩
          · exact h.current m doc since (by simpa only [if_neg hmn] using hm)
  | write n =>
      cases hheld : c.held n with
      | none => exact (step_write_of_none hheld).symm ▸ h
      | some got =>
          rw [step_write_of_some hheld]
          have hn : n ∉ c.writers := h.pending n (by rw [hheld]; rfl)
          refine ⟨List.nodup_cons.mpr ⟨hn, h.nodup⟩, fun m hm => ?_, fun m doc since hm => ?_⟩
          · obtain ⟨got', hgot⟩ := Option.isSome_iff_exists.mp hm
            obtain ⟨hmn, hm'⟩ := held_of_held_write hgot
            exact List.not_mem_cons_of_ne_of_not_mem hmn (h.pending m (by rw [hm']; rfl))
          · obtain ⟨hmn, hm'⟩ := held_of_held_write hm
            have hle := (h.current m doc since hm').1
            refine ⟨Nat.le_succ_of_le hle, fun he => ?_⟩
            have he' : since = c.writers.length + 1 := he
            exact absurd (he' ▸ hle) (Nat.not_succ_le_self _)

/-- An undisturbed access keeps the additions.
Kind: L -/
theorem Kept.step (happart : ∀ m n, m ≠ n → A.Apart (entry m) (entry n)) (hreads : c.Reads A)
    (h : c.Kept A entry) (a : Access ν) (ha : c.Undisturbed a) : (c.step A entry a).Kept A entry := by
  cases a with
  | read n =>
      rcases step_read_cases A entry c n with hstep | ⟨-, hstep⟩
      · exact hstep.symm ▸ h
      · exact hstep.symm ▸ h
  | write n =>
      cases hheld : c.held n with
      | none => exact (step_write_of_none hheld).symm ▸ h
      | some got =>
          rw [step_write_of_some hheld]
          have hdoc : got.1 = A.load c.kept := (hreads.current n got.1 got.2 hheld).2 (ha _ (by rw [hheld]; rfl))
          have hn : n ∉ c.writers := hreads.pending n (by rw [hheld]; rfl)
          intro m hm
          rw [A.load_save, hdoc]
          rcases List.mem_cons.mp hm with rfl | hm
          · exact A.has_add _ _
          · have hmn : m ≠ n := fun he => hn (he ▸ hm)
            exact (A.has_add_of_apart _ _ _ (happart m n hmn)).mpr (h m hm)

/-- One more entry.
Kind: L -/
theorem Covers.add (happart : ∀ m n, m ≠ n → A.Apart (entry m) (entry n)) {k : ℕ}
    (h : Covers A entry doc k) (n : ν) : Covers A entry (A.add doc (entry n)) (k + 1) := by
  obtain ⟨l, hl, hall⟩ := h
  refine ⟨n :: l, Nat.succ_le_succ hl, fun m hm => ?_⟩
  by_cases hmn : m = n
  · exact hmn ▸ List.mem_cons_self
  · exact List.mem_cons_of_mem _ (hall m ((A.has_add_of_apart _ _ _ (happart m n hmn)).mp hm))

/-- An access keeps count of the entries.
Kind: L -/
theorem Counted.step (happart : ∀ m n, m ≠ n → A.Apart (entry m) (entry n)) (hreads : c.Reads A)
    (h : c.Counted A entry) (a : Access ν) : (c.step A entry a).Counted A entry := by
  cases a with
  | read n =>
      rcases step_read_cases A entry c n with hstep | ⟨-, hstep⟩
      · exact hstep.symm ▸ h
      · rw [hstep]
        refine ⟨h.kept, fun m doc since hm => ?_⟩
        by_cases hmn : m = n
        · simp only [if_pos hmn, Option.some.injEq, Prod.mk.injEq] at hm
          exact hm.1 ▸ hm.2 ▸ h.kept
        · exact h.held m doc since (by simpa only [if_neg hmn] using hm)
  | write n =>
      cases hheld : c.held n with
      | none => exact (step_write_of_none hheld).symm ▸ h
      | some got =>
          rw [step_write_of_some hheld]
          refine ⟨?_, fun m doc since hm => h.held m doc since (held_of_held_write hm).2⟩
          obtain ⟨l, hl, hall⟩ := (h.held n got.1 got.2 hheld).add happart n
          have hle := (hreads.current n got.1 got.2 hheld).1
          exact ⟨l, Nat.le_trans hl (Nat.succ_le_succ hle), by rwa [A.load_save]⟩

/-- A disturbed write loses an addition.
Kind: L -/
theorem lost_of_disturbed (happart : ∀ m n, m ≠ n → A.Apart (entry m) (entry n)) (hreads : c.Reads A)
    (h : c.Counted A entry) {a : Access ν} (ha : ¬ c.Undisturbed a) : (c.step A entry a).Lost A entry := by
  cases a with
  | read n => exact absurd trivial ha
  | write n =>
      unfold Undisturbed at ha
      obtain ⟨doc, since, hheld, hne⟩ : ∃ doc since, c.held n = some (doc, since) ∧
          since ≠ c.writers.length := by
        obtain ⟨since, hsince⟩ := not_forall.mp ha
        obtain ⟨hmem, hne⟩ := Classical.not_imp.mp hsince
        obtain ⟨got, hgot, rfl⟩ := Option.map_eq_some_iff.mp hmem
        exact ⟨got.1, got.2, hgot, hne⟩
      rw [step_write_of_some hheld]
      have hlt : since < c.writers.length :=
        Nat.lt_of_le_of_ne (hreads.current n doc since hheld).1 hne
      refine ⟨since + 1, Nat.succ_lt_succ hlt, ?_⟩
      rw [A.load_save]
      exact (h.held n doc since hheld).add happart n

/-- What is lost stays lost.
Kind: L -/
theorem Lost.step (happart : ∀ m n, m ≠ n → A.Apart (entry m) (entry n)) (hreads : c.Reads A)
    (hcounted : c.Counted A entry) (h : c.Lost A entry) (a : Access ν) : (c.step A entry a).Lost A entry := by
  by_cases ha : c.Undisturbed a
  · cases a with
    | read n =>
        rcases step_read_cases A entry c n with hstep | ⟨-, hstep⟩
        · exact hstep.symm ▸ h
        · exact hstep.symm ▸ h
    | write n =>
        cases hheld : c.held n with
        | none => exact (step_write_of_none hheld).symm ▸ h
        | some got =>
            rw [step_write_of_some hheld]
            have hdoc : got.1 = A.load c.kept := (hreads.current n got.1 got.2 hheld).2 (ha _ (by rw [hheld]; rfl))
            obtain ⟨k, hk, hcovers⟩ := h
            refine ⟨k + 1, Nat.succ_lt_succ hk, ?_⟩
            rw [A.load_save, hdoc]
            exact hcovers.add happart n
  · exact lost_of_disturbed happart hreads hcounted ha

omit [DecidableEq ν] in
/-- Where something is lost, not everything is kept.
Kind: L -/
theorem Lost.not_kept (hreads : c.Reads A) (h : c.Lost A entry) : ¬ c.Kept A entry := by
  intro hkept
  obtain ⟨k, hk, l, hl, hall⟩ := h
  have hsubset : c.writers ⊆ l := fun n hn => hall n (hkept n hn)
  have hle : c.writers.length ≤ l.length := (hreads.nodup.subperm hsubset).length_le
  omega

section Runs

variable {kept : ρ} (happart : ∀ m n, m ≠ n → A.Apart (entry m) (entry n))

include happart

/-- A run without disturbance keeps every addition.
Kind: P -/
theorem kept_of_undisturbed {l : List (Access ν)}
    (hl : EachStep (step A entry) Undisturbed (start kept) l) :
    (runFrom (step A entry) (start kept) l).Kept A entry := by
  have hboth : (runFrom (step A entry) (start kept) l).Reads A ∧
      (runFrom (step A entry) (start kept) l).Kept A entry :=
    invariant_run (I := fun c => c.Reads A ∧ c.Kept A entry)
      (fun c a hc ha => ⟨hc.1.step a, hc.2.step happart hc.1 a ha⟩)
      ⟨reads_start kept, fun n hn => absurd hn List.not_mem_nil⟩ hl
  exact hboth.2

/-- A run with a disturbance loses one, when the entries are new.
Kind: L -/
theorem lost_run (hreads : c.Reads A) (hcounted : c.Counted A entry) {l : List (Access ν)}
    (hl : c.Lost A entry ∨ ¬ EachStep (step A entry) Undisturbed c l) :
    (runFrom (step A entry) c l).Lost A entry := by
  induction l generalizing c with
  | nil => exact hl.resolve_right fun h => h trivial
  | cons a l ih =>
      refine ih (hreads.step a) (hcounted.step happart hreads a) ?_
      rcases hl with hl | hl
      · exact Or.inl (hl.step happart hreads hcounted a)
      · by_cases ha : c.Undisturbed a
        · exact Or.inr fun h => hl ⟨ha, h⟩
        · exact Or.inl (lost_of_disturbed happart hreads hcounted ha)

/-- When the entries are new, every addition that was written is kept exactly when no write fell between
a client's read and its own write.
Kind: P -/
theorem kept_iff (hnew : ∀ n, ¬ A.Has (A.load kept) (entry n)) (l : List (Access ν)) :
    (runFrom (step A entry) (start kept) l).Kept A entry ↔
      EachStep (step A entry) Undisturbed (start kept) l := by
  refine ⟨fun h => ?_, kept_of_undisturbed happart⟩
  by_contra hl
  have hcounted : (start kept : Cell ν ρ δ).Counted A entry :=
    ⟨⟨[], Nat.zero_le _, fun n hn => absurd hn (hnew n)⟩, fun _ _ _ hn => absurd hn (by simp [start])⟩
  have hreads : (runFrom (step A entry) (start kept) l).Reads A :=
    invariant_run (P := fun _ _ => True) (fun c a hc _ => hc.step a) (reads_start kept)
      (eachStep_of_forall fun _ _ _ => trivial)
  exact (lost_run happart (reads_start kept) hcounted (Or.inr hl)).not_kept hreads h

end Runs

end Cell

end TyoMq.Lib
