import TyoMq.Lib.JsString

/-!
# Topic patterns

The patterns that a subscription in topic mode gives, level by level: `+` stands for any one level, and `#`
at the end for any number of them.

* `topicMatches_iff`: what the source's loop decides is what the patterns mean (`Fits`).
* `fits_iff_forall₂`, `fits_append_hash`: what that is without `#`, and with `#` at the end.
-/

namespace TyoMq.Broker

open Lib

/-- Source: `lib/server.js`, `topicMatches`, from a level on
Kind: D -/
def levelsMatch : List JsString → List JsString → Bool
  | [], t => t.isEmpty
  | p :: ps, t =>
      if p = js "#" then ps.isEmpty
      else
        match t with
        | [] => false
        | x :: xs => if p ≠ js "+" ∧ p ≠ x then false else levelsMatch ps xs

/-- Source: `lib/server.js`, `topicMatches`
Kind: D -/
def topicMatches (pattern topic : JsString) : Bool :=
  pattern = topic ∨ levelsMatch (split (js "/") pattern) (split (js "/") topic)

/-- The levels of a topic fit those of a pattern.
Kind: D -/
inductive Fits : List JsString → List JsString → Prop
  /-- Both end. -/
  | nil : Fits [] []
  /-- `#` stands for all the rest. -/
  | rest (t : List JsString) : Fits [js "#"] t
  /-- `+` stands for any one level. -/
  | any {ps t : List JsString} (x : JsString) (h : Fits ps t) : Fits (js "+" :: ps) (x :: t)
  /-- Any other level stands for itself. -/
  | same {ps t : List JsString} {x : JsString} (hx : x ≠ js "#") (h : Fits ps t) : Fits (x :: ps) (x :: t)

theorem levelsMatch_iff {ps t : List JsString} : levelsMatch ps t = true ↔ Fits ps t := by
  constructor
  · intro h
    induction ps generalizing t with
    | nil =>
        obtain rfl : t = [] := by simpa [levelsMatch] using h
        exact .nil
    | cons p ps ih =>
        unfold levelsMatch at h
        split_ifs at h with hhash
        · obtain rfl : ps = [] := by simpa using h
          exact hhash ▸ .rest t
        · rcases t with _ | ⟨x, xs⟩
          · exact absurd h (by simp)
          · dsimp only at h
            split_ifs at h with hne
            by_cases hplus : p = js "+"
            · exact hplus ▸ .any x (ih h)
            · obtain rfl : p = x := not_not.mp fun hx => hne ⟨hplus, hx⟩
              exact .same hhash (ih h)
  · intro h
    induction h with
    | nil => rfl
    | rest t => simp [levelsMatch]
    | any x _ ih =>
        have hplus : js "+" ≠ js "#" := by decide
        simp [levelsMatch, hplus, ih]
    | same hx _ ih => simp [levelsMatch, hx, ih]

/-- **What a pattern matches**: itself, and the topics whose levels fit its own.
Kind: P -/
theorem topicMatches_iff {pattern topic : JsString} :
    topicMatches pattern topic = true ↔
      pattern = topic ∨ Fits (split (js "/") pattern) (split (js "/") topic) := by
  simp [topicMatches, levelsMatch_iff]

/-- Without `#`, a pattern fits the topics that have as many levels, each of them its own or any.
Kind: P -/
theorem fits_iff_forall₂ {ps t : List JsString} (h : ∀ p ∈ ps, p ≠ js "#") :
    Fits ps t ↔ List.Forall₂ (fun p x => p = js "+" ∨ p = x) ps t := by
  constructor
  · intro hfits
    induction hfits with
    | nil => exact .nil
    | rest t => exact absurd rfl (h _ (by simp))
    | any x _ ih => exact .cons (Or.inl rfl) (ih fun p hp => h p (List.mem_cons_of_mem _ hp))
    | same _ _ ih => exact .cons (Or.inr rfl) (ih fun p hp => h p (List.mem_cons_of_mem _ hp))
  · intro hall
    induction hall with
    | nil => exact .nil
    | @cons p x ps t hpx _ ih =>
        have hrest := ih fun q hq => h q (List.mem_cons_of_mem _ hq)
        rcases hpx with rfl | rfl
        · exact .any x hrest
        · exact .same (h p (by simp)) hrest

/-- With `#` at the end, it fits the topics that have at least as many levels, of which the first do.
Kind: P -/
theorem fits_append_hash {ps t : List JsString} (h : ∀ p ∈ ps, p ≠ js "#") :
    Fits (ps ++ [js "#"]) t ↔
      ∃ front back, t = front ++ back ∧ List.Forall₂ (fun p x => p = js "+" ∨ p = x) ps front := by
  induction ps generalizing t with
  | nil => exact ⟨fun _ => ⟨[], t, rfl, .nil⟩, fun _ => .rest t⟩
  | cons p ps ih =>
      have hps : ∀ q ∈ ps, q ≠ js "#" := fun q hq => h q (List.mem_cons_of_mem _ hq)
      have hp : p ≠ js "#" := h p (by simp)
      constructor
      · intro hfits
        rw [List.cons_append] at hfits
        generalize hwhole : p :: (ps ++ [js "#"]) = whole at hfits
        rcases hfits with _ | t | ⟨x, hrest⟩ | ⟨hx, hrest⟩
        · exact absurd hwhole (by simp)
        · exact absurd (List.cons.inj hwhole).1 hp
        · obtain ⟨rfl, rfl⟩ := List.cons.inj hwhole
          obtain ⟨front, back, rfl, hall⟩ := (ih hps).mp hrest
          exact ⟨x :: front, back, rfl, .cons (Or.inl rfl) hall⟩
        · obtain ⟨rfl, rfl⟩ := List.cons.inj hwhole
          obtain ⟨front, back, rfl, hall⟩ := (ih hps).mp hrest
          exact ⟨p :: front, back, rfl, .cons (Or.inr rfl) hall⟩
      · rintro ⟨front, back, rfl, hall⟩
        rcases hall with _ | ⟨hpx, hall⟩
        have hrest := (ih hps).mpr ⟨_, back, rfl, hall⟩
        rcases hpx with rfl | rfl
        · exact .any _ hrest
        · exact .same hp hrest

end TyoMq.Broker
