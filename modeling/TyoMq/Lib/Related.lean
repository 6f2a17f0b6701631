import Mathlib.Data.List.Forall2
import Mathlib.Logic.Relator
import TyoMq.Lib.JsMap

/-!
# Related options, lists and maps

Two options are related when both are empty or their values are (`Option.Rel`), two lists when their elements
are, one by one (`List.Forall₂`), and two maps when they have the same keys in the same order with related
values (`JsMap.Related`). What is done alike to both leaves them related, which is how two runs of a program
on related data are compared.
-/

namespace TyoMq.Lib

section Options

variable {α β γ δ : Type*} {S : α → β → Prop} {T : γ → δ → Prop} {a : Option α} {b : Option β}

/-- What is made alike of both is related.
Kind: L -/
theorem rel_option_map (h : Option.Rel S a b) {f : α → γ} {g : β → δ}
    (hfg : ∀ x y, S x y → T (f x) (g y)) : Option.Rel T (a.map f) (b.map g) := by
  cases h with
  | none => exact Option.Rel.none
  | some hxy => exact Option.Rel.some (hfg _ _ hxy)

/-- What is the same of both is the same.
Kind: L -/
theorem bind_eq_of_rel (h : Option.Rel S a b) {f : α → Option γ} {g : β → Option γ}
    (hfg : ∀ x y, S x y → f x = g y) : a.bind f = b.bind g := by
  cases h with
  | none => rfl
  | some hxy => exact hfg _ _ hxy

end Options

section Lists

variable {α β : Type*} {S : α → β → Prop} {l : List α} {l' : List β}

/-- What is found first is related.
Kind: L -/
theorem rel_find? (h : List.Forall₂ S l l') {p : α → Bool} {q : β → Bool}
    (hpq : ∀ a b, S a b → p a = q b) : Option.Rel S (l.find? p) (l'.find? q) := by
  induction h with
  | nil => exact Option.Rel.none
  | @cons a b l l' hab _ ih =>
      rw [List.find?_cons, List.find?_cons, ← hpq a b hab]
      cases p a with
      | true => exact Option.Rel.some hab
      | false => exact ih

/-- What is at a place is related.
Kind: L -/
theorem rel_getElem? (h : List.Forall₂ S l l') (i : ℕ) : Option.Rel S l[i]? l'[i]? := by
  induction h generalizing i with
  | nil => exact Option.Rel.none
  | cons hab _ ih =>
      cases i with
      | zero => exact Option.Rel.some hab
      | succ i =>
          rw [List.getElem?_cons_succ, List.getElem?_cons_succ]
          exact ih i

/-- One is taken out of both.
Kind: L -/
theorem rel_eraseIdx (h : List.Forall₂ S l l') (i : ℕ) :
    List.Forall₂ S (l.eraseIdx i) (l'.eraseIdx i) := by
  induction h generalizing i with
  | nil => exact List.Forall₂.nil
  | cons hab hrest ih =>
      cases i with
      | zero => exact hrest
      | succ i => exact List.Forall₂.cons hab (ih i)

/-- One is replaced in both.
Kind: L -/
theorem rel_set (h : List.Forall₂ S l l') (i : ℕ) {a : α} {b : β} (hab : S a b) :
    List.Forall₂ S (l.set i a) (l'.set i b) := by
  induction h generalizing i with
  | nil => exact List.Forall₂.nil
  | cons hcd hrest ih =>
      cases i with
      | zero => exact List.Forall₂.cons hab hrest
      | succ i => exact List.Forall₂.cons hcd (ih i)

/-- What is kept by like tests is related.
Kind: L -/
theorem rel_filter_of (h : List.Forall₂ S l l') {p : α → Bool} {q : β → Bool}
    (hpq : ∀ a b, S a b → p a = q b) : List.Forall₂ S (l.filter p) (l'.filter q) := by
  refine List.rel_filter ?_ h
  intro a b hab
  show p a = true ↔ q b = true
  rw [hpq a b hab]

/-- Pairs of related elements are related.
Kind: L -/
theorem rel_zip {γ δ : Type*} {T : γ → δ → Prop} {m : List γ} {m' : List δ} (h : List.Forall₂ S l l')
    (hm : List.Forall₂ T m m') :
    List.Forall₂ (fun e e' => S e.1 e'.1 ∧ T e.2 e'.2) (l.zip m) (l'.zip m') := by
  induction h generalizing m m' with
  | nil => exact List.Forall₂.nil
  | cons hab _ ih =>
      cases hm with
      | nil => exact List.Forall₂.nil
      | cons hcd hrest => exact List.Forall₂.cons ⟨hab, hcd⟩ (ih hrest)

end Lists

namespace JsMap

variable {κ ν ν' : Type*} {Q : ν → ν' → Prop} {m : JsMap κ ν} {m' : JsMap κ ν'}

/-- The same keys in the same order, with related values.
Kind: D -/
def Related (Q : ν → ν' → Prop) (m : JsMap κ ν) (m' : JsMap κ ν') : Prop :=
  List.Forall₂ (fun e e' => e.1 = e'.1 ∧ Q e.2 e'.2) m.entries m'.entries

namespace Related

theorem empty : Related Q (JsMap.empty : JsMap κ ν) JsMap.empty := List.Forall₂.nil

theorem keys (h : Related Q m m') : m.keys = m'.keys := by
  have hmap : List.Forall₂ (· = ·) (m.entries.map Prod.fst) (m'.entries.map Prod.fst) :=
    List.rel_map (fun _ _ he => he.1) h
  rwa [List.forall₂_eq_eq_eq] at hmap

theorem size (h : Related Q m m') : m.size = m'.size := List.Forall₂.length_eq h

theorem deleteWhere (h : Related Q m m') {p : κ → ν → Bool} {q : κ → ν' → Bool}
    (hpq : ∀ k v v', Q v v' → p k v = q k v') : Related Q (m.deleteWhere p) (m'.deleteWhere q) := by
  apply rel_filter_of h
  rintro ⟨k, v⟩ ⟨_, v'⟩ ⟨rfl, hv⟩
  dsimp only
  rw [hpq k v v' hv]

variable [DecidableEq κ]

theorem get (h : Related Q m m') (k : κ) : Option.Rel Q (m.get k) (m'.get k) := by
  have hfind : Option.Rel (fun e e' => e.1 = e'.1 ∧ Q e.2 e'.2)
      (m.entries.find? fun e => e.1 = k) (m'.entries.find? fun e => e.1 = k) := by
    apply rel_find? h
    rintro e e' ⟨hkey, -⟩
    rw [hkey]
  unfold JsMap.get
  generalize (m.entries.find? fun e => e.1 = k) = found at hfind ⊢
  generalize (m'.entries.find? fun e => e.1 = k) = found' at hfind ⊢
  cases hfind with
  | none => exact Option.Rel.none
  | some he => exact Option.Rel.some he.2

theorem delete (h : Related Q m m') (k : κ) : Related Q (m.delete k) (m'.delete k) := by
  apply rel_filter_of h
  rintro e e' ⟨hkey, -⟩
  rw [hkey]

theorem set (h : Related Q m m') (k : κ) {v : ν} {v' : ν'} (hv : Q v v') :
    Related Q (m.set k v) (m'.set k v') := by
  have hkeys : m.entries.map Prod.fst = m'.entries.map Prod.fst := h.keys
  unfold Related JsMap.set JsMap.setEntries
  dsimp only
  rw [hkeys]
  split_ifs
  · refine List.rel_map ?_ h
    rintro e e' ⟨hkey, he⟩
    dsimp only
    rw [← hkey]
    split_ifs
    · exact ⟨rfl, hv⟩
    · exact ⟨hkey, he⟩
  · exact List.rel_append h (List.Forall₂.cons ⟨rfl, hv⟩ List.Forall₂.nil)

end Related

end JsMap

end TyoMq.Lib
