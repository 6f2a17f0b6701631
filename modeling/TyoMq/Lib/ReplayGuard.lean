import Mathlib.Data.List.Pairwise
import Mathlib.Data.List.Nodup
import Mathlib.Tactic.Common

/-!
# Replay guards

A replay guard sees a run of requests, each under a key, and admits a request when it is
acceptable in itself and no earlier admission under its key is still *near*. This file is about
that rule, for an arbitrary relation `far` between an earlier admission and a later request; how an
implementation remembers the admissions (a map, an expiry, a sweep) is not its business.

* `Guard.log` is the list of admitted requests of a run.
* `Guard.nodup_log`: what a presentation shows (`proof`) is admitted at most once when no two
  acceptable presentations of it are far apart.
* `Guard.near_of_nodup_log`: the converse, for proofs that share their key with no other proof.
* `admittedBy` runs an implementation, and `admittedBy_eq_log` is the simulation rule that reduces
  it to `Guard.log`.
-/

namespace TyoMq.Lib

/-- A replay guard over requests `α` under keys `κ`.
Kind: D -/
structure Guard (α κ : Type*) where
  /-- The key a request is remembered under. -/
  key : α → κ
  /-- The request is acceptable apart from replay. -/
  wants : α → Bool
  /-- The first request, once admitted, no longer counts against the second. -/
  far : α → α → Bool

namespace Guard

variable {α κ ι : Type*} [DecidableEq κ] (G : Guard α κ)

/-- The decision on `a` after the admissions `past`.
Kind: D -/
def decides (past : List α) (a : α) : Bool :=
  G.wants a && past.all fun b => G.key b ≠ G.key a || G.far b a

theorem decides_iff {past : List α} {a : α} :
    G.decides past a = true ↔
      G.wants a = true ∧ ∀ b ∈ past, G.key b = G.key a → G.far b a = true := by
  simp [decides, imp_iff_not_or]

/-- The admissions after one more request, newest first.
Kind: D -/
def extend (past : List α) (a : α) : List α := if G.decides past a then a :: past else past

/-- The requests admitted in the run `l`, oldest first, after the admissions `past`.
Kind: D -/
def log : List α → List α → List α
  | _, [] => []
  | past, a :: l =>
      if G.decides past a then a :: log (a :: past) l else log past l

theorem log_sublist : (l past : List α) → (G.log past l).Sublist l
  | [], _ => List.Sublist.refl _
  | a :: l, past => by
      unfold log
      split_ifs
      · exact (log_sublist l (a :: past)).cons_cons a
      · exact (log_sublist l past).cons a

/-- An admitted request was acceptable and far from every admission under its key before it.
Kind: L -/
theorem of_mem_log : (l past : List α) → ∀ a ∈ G.log past l,
    G.wants a = true ∧ ∀ b ∈ past, G.key b = G.key a → G.far b a = true
  | [], _, a, ha => absurd ha List.not_mem_nil
  | x :: l, past, a, ha => by
      unfold log at ha
      split_ifs at ha with hx
      · rcases List.mem_cons.mp ha with rfl | ha'
        · exact G.decides_iff.mp hx
        · obtain ⟨hw, hfar⟩ := of_mem_log l (x :: past) a ha'
          exact ⟨hw, fun b hb => hfar b (List.mem_cons_of_mem x hb)⟩
      · exact of_mem_log l past a ha

/-- Two admissions under one key are far apart.
Kind: P -/
theorem pairwise_log : (l past : List α) →
    (G.log past l).Pairwise fun a b => G.key a = G.key b → G.far a b = true
  | [], _ => List.Pairwise.nil
  | x :: l, past => by
      unfold log
      split_ifs with hx
      · refine List.pairwise_cons.mpr ⟨fun b hb => ?_, pairwise_log l (x :: past)⟩
        exact (G.of_mem_log l (x :: past) b hb).2 x List.mem_cons_self
      · exact pairwise_log l past

/-- No proof is admitted twice when its acceptable presentations are never far apart.
Kind: P -/
theorem nodup_log {l : List α} (proof : α → ι) (hkey : ∀ a b, proof a = proof b → G.key a = G.key b)
    (hnear : l.Pairwise fun a b =>
      proof a = proof b → G.wants a = true → G.wants b = true → G.far a b = false) :
    ((G.log [] l).map proof).Nodup := by
  rw [List.Nodup, List.pairwise_map]
  have hsub : (G.log [] l).Pairwise fun a b =>
      proof a = proof b → G.wants a = true → G.wants b = true → G.far a b = false :=
    hnear.sublist (G.log_sublist l [])
  refine (hsub.and (G.pairwise_log l [])).imp_of_mem fun {a b} ha hb hab heq => ?_
  have hfar : G.far a b = true := hab.2 (hkey a b heq)
  have hclose : G.far a b = false :=
    hab.1 heq (G.of_mem_log l [] a ha).1 (G.of_mem_log l [] b hb).1
  rw [hfar] at hclose
  exact absurd hclose (by decide)

theorem mem_log_cons {past l : List α} {a : α} (h : G.decides past a = true) :
    a ∈ G.log past (a :: l) := by
  unfold log
  rw [if_pos h]
  exact List.mem_cons_self

/-- The log of a run that is continued.
Kind: L -/
theorem log_append : (l₁ l₂ past : List α) →
    G.log past (l₁ ++ l₂) = G.log past l₁ ++ G.log ((G.log past l₁).reverse ++ past) l₂
  | [], _, _ => rfl
  | x :: l₁, l₂, past => by
      simp only [List.cons_append, log]
      split_ifs
      · simp [log_append l₁ l₂ (x :: past)]
      · exact log_append l₁ l₂ past

/-- After an acceptable request some request of its key has been admitted, itself or one that was
still near.
Kind: L -/
theorem exists_mem_log_of_wants {l : List α} {a : α} (ha : G.wants a = true) :
    ∃ c ∈ G.log [] (l ++ [a]), G.key c = G.key a ∧ (c = a ∨ c ∈ l) := by
  rw [log_append, List.append_nil]
  by_cases hd : G.decides (G.log [] l).reverse a = true
  · exact ⟨a, List.mem_append_right _ (G.mem_log_cons hd), rfl, Or.inl rfl⟩
  · rw [G.decides_iff] at hd
    push Not at hd
    obtain ⟨c, hc, hkey, -⟩ := hd ha
    rw [List.mem_reverse] at hc
    exact ⟨c, List.mem_append_left _ hc, hkey, Or.inr ((G.log_sublist l []).subset hc)⟩

/-- A presentation that is wanted, and far from an admission of its proof, has its proof admitted twice.
Kind: L -/
theorem not_nodup_log {proof : α → ι} {past post : List α} {b c : α} (hc : c ∈ G.log [] past)
    (hproof : proof c = proof b) (hfar : G.far c b = true) (hwants : G.wants b = true)
    (hshare : ∀ d ∈ past, G.key d = G.key b → proof d = proof b) :
    ¬ ((G.log [] (past ++ b :: post)).map proof).Nodup := by
  intro hnodup
  rw [log_append, List.map_append, List.append_nil] at hnodup
  by_cases hd : G.decides (G.log [] past).reverse b = true
  · exact (List.nodup_append.mp hnodup).2.2 (proof c) (List.mem_map_of_mem hc)
      (proof b) (List.mem_map_of_mem (G.mem_log_cons hd)) hproof
  · rw [G.decides_iff] at hd
    push Not at hd
    -- what stands for it in the log is the admission of its proof
    obtain ⟨d, hdpast, hdkey, hdfar⟩ := hd hwants
    rw [List.mem_reverse] at hdpast
    have hdproof : proof d = proof b := hshare d ((G.log_sublist _ []).subset hdpast) hdkey
    have hdc : d = c := List.inj_on_of_nodup_map (List.nodup_append.mp hnodup).1
      hdpast hc (hdproof.trans hproof.symm)
    exact hdfar (hdc ▸ hfar)

/-- **Exactness.** When every key belongs to one proof, and an admission that is far from a request
makes every earlier one far from it too, admitting each proof once forces the acceptable
presentations of a proof to be near one another.
Kind: P -/
theorem near_of_nodup_log {r : α → α → Prop} (hrefl : ∀ a, r a a)
    (hmono : ∀ {a b c}, r c a → G.far a b = true → G.far c b = true) {proof : α → ι} :
    (l₂ l₁ : List α) → (l₁ ++ l₂).Pairwise r →
      (∀ a ∈ l₁ ++ l₂, ∀ b ∈ l₁ ++ l₂, G.key a = G.key b → proof a = proof b) →
      ((G.log [] (l₁ ++ l₂)).map proof).Nodup →
      l₂.Pairwise fun a b =>
        proof a = proof b → G.wants a = true → G.wants b = true → G.far a b = false
  | [], _, _, _, _ => List.Pairwise.nil
  | a :: l₂, l₁, hle, hshare, hnodup => by
      have hassoc : l₁ ++ a :: l₂ = (l₁ ++ [a]) ++ l₂ := by simp
      refine List.pairwise_cons.mpr ⟨?_, ?_⟩
      · intro b hb heq hwa hwb
        by_contra hfar
        rw [Bool.not_eq_false] at hfar
        obtain ⟨m₁, m₂, rfl⟩ := List.append_of_mem hb
        -- `c` is the admission standing for `a`; it is far from `b` as `a` is
        obtain ⟨c, hc, hckey, hca⟩ := G.exists_mem_log_of_wants (l := l₁) hwa
        have hcle : r c a := by
          rcases hca with rfl | hcl
          · exact hrefl c
          · exact (List.pairwise_append.mp hle).2.2 c hcl a List.mem_cons_self
        have hcb : G.far c b = true := hmono hcle hfar
        have hwhole : l₁ ++ a :: (m₁ ++ b :: m₂) = (l₁ ++ [a] ++ m₁) ++ b :: m₂ := by simp
        rw [hwhole] at hnodup hshare
        have hcpast : c ∈ G.log [] (l₁ ++ [a] ++ m₁) := by
          rw [log_append]
          exact List.mem_append_left _ hc
        have hmem : ∀ x ∈ l₁ ++ [a] ++ m₁, x ∈ (l₁ ++ [a] ++ m₁) ++ b :: m₂ :=
          fun x hx => List.mem_append_left _ hx
        have hbmem : b ∈ (l₁ ++ [a] ++ m₁) ++ b :: m₂ := by simp
        have hamem : a ∈ (l₁ ++ [a] ++ m₁) ++ b :: m₂ := by simp
        have hcproof : proof c = proof b :=
          (hshare c (hmem c ((G.log_sublist _ []).subset hcpast)) a hamem hckey).trans heq
        exact G.not_nodup_log hcpast hcproof hcb hwb (fun d hd => hshare d (hmem d hd) b hbmem) hnodup
      · rw [hassoc] at hle hshare hnodup
        exact near_of_nodup_log hrefl hmono l₂ (l₁ ++ [a]) hle hshare hnodup

end Guard

/-! ### Implementations -/

/-- The requests of the run `l` that an implementation `handle` admits from the state `s`.
Kind: D -/
def admittedBy {σ α : Type*} (handle : σ → α → σ × Bool) : σ → List α → List α
  | _, [] => []
  | s, a :: l =>
      if (handle s a).2 then a :: admittedBy handle (handle s a).1 l
      else admittedBy handle (handle s a).1 l

/-- **The simulation rule.** An implementation whose state stays related to the admissions so far
(and to the requests still to come), and which decides every request as the guard does, admits
what the guard admits.
Kind: P -/
theorem admittedBy_eq_log {σ α κ : Type*} [DecidableEq κ] (G : Guard α κ) (handle : σ → α → σ × Bool)
    (R : σ → List α → List α → Prop)
    (hdec : ∀ s past a l, R s past (a :: l) → (handle s a).2 = G.decides past a)
    (hstep : ∀ s past a l, R s past (a :: l) → R (handle s a).1 (G.extend past a) l) :
    (l : List α) → ∀ s past, R s past l → admittedBy handle s l = G.log past l
  | [], _, _, _ => rfl
  | a :: l, s, past, h => by
      have hrec := admittedBy_eq_log G handle R hdec hstep l _ _ (hstep s past a l h)
      unfold admittedBy Guard.log
      rw [hdec s past a l h, hrec, Guard.extend]
      split_ifs <;> rfl

end TyoMq.Lib
