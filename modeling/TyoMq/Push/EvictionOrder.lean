import TyoMq.Push.Representation

/-!
# Push registrations: which endpoint of an identity is evicted

Past `maxPerIdentity` a registration evicts the first endpoint of the list of its identity. A list is in
the order in which its endpoints came in, and a repeat refreshes `added_at` where the endpoint stands.

* What is pushed out of a list (`pushedOut_eq`): nothing, or the first endpoint of a full list when a
  new device comes.
* **Oldest first** (`takesOldest_iff`): over a run the endpoints evicted are the oldest exactly when the
  device that has been in a full list longest is never registered after another one of it.
* A device that keeps registering is evicted while one that registered only once stays
  (`not_takesOldest_rotation`).
-/

namespace TyoMq.Push.RegistryCall

open TyoMq.Lib RealmMaps

variable {τ : Type*} [DecidableEq τ] [Sqlite.Texts τ]

/-- The list of the identity when the registration comes to it.
Kind: D -/
def held (b : Bounds) (s : Broker τ) (realm identity : τ) (now : ℤ) : List (Endpoint τ) :=
  ((s.registry.realms realm).sweepExpired b now).list identity

/-- The endpoints that a registration pushes out of the list of its identity.
Kind: D -/
def pushedOut (b : Bounds) (s : Broker τ) (realm identity : τ) (ep : Registration τ) (now : ℤ) :
    List (Endpoint τ) :=
  (registerInList b (held b s realm identity now) ep now).2.1

/-- The endpoints that the call evicts from a list are no younger than those that stay in it.
Kind: D -/
def TakesOldest (b : Bounds) (s : Broker τ) : RegistryCall τ → Prop
  | register realm identity ep now =>
      ∀ out ∈ pushedOut b s realm identity ep now,
        ∀ e ∈ (step b s (register realm identity ep now)).registry.list realm identity,
          out.added_at ≤ e.added_at
  | unregister _ | prune _ | markOk _ _ | sweep _ _ => True

/-- Does the call bring a new device to a full list?
Kind: D -/
def Overflows (b : Bounds) (s : Broker τ) (realm identity : τ) (ep : Registration τ) (now : ℤ) : Prop :=
  (held b s realm identity now).length = b.maxPerIdentity ∧
    ∀ e ∈ held b s realm identity now, isAt ep.transport ep.token e = false

/-- If the call brings a new device to a full list, then the device that has been in the list longest
was not registered later than any of the others. `l` are the calls so far.
Kind: D -/
def FirstIsIdlest (b : Bounds) (l : List (RegistryCall τ)) (s : Broker τ) : RegistryCall τ → Prop
  | register realm identity ep now =>
      Overflows b s realm identity ep now →
        ∀ first ∈ (held b s realm identity now).head?, ∀ e ∈ held b s realm identity now,
          NoLater (latest (registersPlace (first.place realm identity)) l)
            (latest (registersPlace (e.place realm identity)) l)
  | unregister _ | prune _ | markOk _ _ | sweep _ _ => True

section Steps

variable {b : Bounds} {s : Broker τ} {l : List (RegistryCall τ)} {realm identity : τ} {ep : Registration τ}
  {now : ℤ}

omit [Sqlite.Texts τ] in
/-- What is pushed out of a list that is not too long: nothing, or the first endpoint.
Kind: L -/
theorem pushedOut_eq (hlen : (held b s realm identity now).length ≤ b.maxPerIdentity) :
    (pushedOut b s realm identity ep now = [] ∧ ¬ Overflows b s realm identity ep now) ∨
      ∃ first rest, held b s realm identity now = first :: rest ∧
        pushedOut b s realm identity ep now = [first] ∧ Overflows b s realm identity ep now ∧
        (registerInList b (held b s realm identity now) ep now).1 = rest ++ [create ep now] := by
  unfold pushedOut Overflows
  generalize held b s realm identity now = m at hlen ⊢
  unfold registerInList
  rcases hfind : m.find? (isAt ep.transport ep.token) with _ | e
  · have hnone : ∀ e ∈ m, isAt ep.transport ep.token e = false := fun e he =>
      Bool.eq_false_iff.mpr (List.find?_eq_none.mp hfind e he)
    have hlength : (m ++ [create ep now]).length = m.length + 1 := List.length_append
    by_cases hfull : m.length = b.maxPerIdentity
    · have hexcess : (m ++ [create ep now]).length - b.maxPerIdentity = 1 := by omega
      cases m with
      | nil =>
          have hpos := maxPerIdentity_pos b
          rw [← hfull] at hpos
          exact absurd hpos (lt_irrefl 0)
      | cons first rest =>
          refine Or.inr ⟨first, rest, rfl, ?_, ⟨hfull, hnone⟩, ?_⟩
          · dsimp only
            rw [hexcess]
            rfl
          · dsimp only
            rw [hexcess]
            rfl
    · have hexcess : (m ++ [create ep now]).length - b.maxPerIdentity = 0 := by omega
      refine Or.inl ⟨?_, fun h => hfull h.1⟩
      dsimp only
      rw [hexcess, List.take_zero]
  · refine Or.inl ⟨rfl, fun h => ?_⟩
    have hat := List.find?_some hfind
    exact Bool.false_ne_true ((h.2 e (List.mem_of_find?_eq_some hfind)).symm.trans hat)

/-- The list of the identity after its registration.
Kind: L -/
theorem Remembers.list_register (h : Remembers b l s) (hle : s.clock ≤ now) :
    (step b s (.register realm identity ep now)).registry.list realm identity =
      (registerInList b (held b s realm identity now) ep now).1 := by
  obtain ⟨p, hp, heq, -, -⟩ :=
    RealmMaps.register_without (h.kept realm) (h.ordered realm) hle identity ep
  have hrealm : (step b s (.register realm identity ep now)).registry.realms realm =
      ((s.registry.realms realm).register b identity ep now).1 := Registry.setRealm_self ..
  rw [Registry.list, hrealm, heq, list_without, hp, if_neg Bool.false_ne_true, entering, list_enter,
    if_pos rfl]
  rfl

omit [Sqlite.Texts τ] in
/-- An endpoint that a registration comes to is as old as the last registration of its place.
Kind: L -/
theorem Remembers.latest_of_held (h : Remembers b l s) {e : Endpoint τ}
    (he : e ∈ held b s realm identity now) :
    latest (registersPlace (e.place realm identity)) l = some e.added_at :=
  h.added realm identity e ((list_sweepExpired_sublist _ _ _ _).subset he)

/-- One call evicts the oldest exactly when the first of a full list is the idlest.
Kind: P -/
theorem Remembers.takesOldest_step_iff (h : Remembers b l s) {c : RegistryCall τ} (hin : InOrder s c) :
    TakesOldest b s c ↔ FirstIsIdlest b l s c := by
  cases c with
  | unregister | prune | markOk | sweep => exact Iff.rfl
  | register realm identity ep now =>
      have hlen : (held b s realm identity now).length ≤ b.maxPerIdentity :=
        ((h.kept realm).sweep now).capped identity
      rw [TakesOldest, FirstIsIdlest, h.list_register hin]
      rcases @pushedOut_eq _ _ _ _ _ _ ep _ hlen with ⟨hnil, hno⟩ | ⟨first, rest, hheld, hout, hover, hin'⟩
      · rw [hnil]
        exact ⟨fun _ hover => absurd hover hno, fun _ out hout => absurd hout List.not_mem_nil⟩
      · have hage : ∀ e ∈ held b s realm identity now,
            latest (registersPlace (e.place realm identity)) l = some e.added_at :=
          fun e he => h.latest_of_held he
        have hmem : first ∈ held b s realm identity now := hheld ▸ List.mem_cons_self
        have hfirst : first.added_at ≤ now :=
          (((h.ordered realm).sweep now).aged identity first hmem).trans hin
        rw [hout, hin', hheld]
        rw [hheld] at hage
        constructor
        · intro hold _ f hf e he
          obtain rfl : first = f := Option.some.inj hf
          refine ⟨_, _, hage _ List.mem_cons_self, hage e he, ?_⟩
          rcases List.mem_cons.mp he with rfl | he
          · exact le_refl _
          · exact hold _ (List.mem_singleton_self _) e (List.mem_append_left _ he)
        · intro hidle out ho e he
          obtain rfl := List.mem_singleton.mp ho
          rcases List.mem_append.mp he with he | he
          · obtain ⟨t, t', ht, ht', hle⟩ := hidle hover _ rfl e (List.mem_cons_of_mem _ he)
            rw [hage _ List.mem_cons_self, Option.some.injEq] at ht
            rw [hage e (List.mem_cons_of_mem _ he), Option.some.injEq] at ht'
            omega
          · rw [List.mem_singleton.mp he]
            exact hfirst

end Steps

/-- **Oldest first.** Over a run the endpoints that are evicted from the list of their identity are the
oldest of it exactly when, of every full list that a new device comes to, the device that has been in it
longest was not registered later than any other.
Kind: P -/
theorem takesOldest_iff (b : Bounds) (t₀ : ℤ) {l : List (RegistryCall τ)}
    (hrun : EachStep (step b) InOrder (start t₀) l) :
    (∀ (l₁ l₂ : List (RegistryCall τ)) (c : RegistryCall τ), l = l₁ ++ c :: l₂ →
        TakesOldest b (after b t₀ l₁) c) ↔
      ∀ (l₁ l₂ : List (RegistryCall τ)) (c : RegistryCall τ), l = l₁ ++ c :: l₂ →
        FirstIsIdlest b l₁ (after b t₀ l₁) c := by
  refine forall₃_congr fun l₁ l₂ c => forall_congr' fun hl => ?_
  obtain ⟨hrun₁, hin, -⟩ := eachStep_append.mp (hl ▸ hrun)
  exact (remembers_after hrun₁).takesOldest_step_iff hin

/-- A device registers at 1 and again at 3, and another one at 2.
Kind: D -/
def rotation : List (RegistryCall JsString) :=
  [.register (js "chat") (js "bob") ⟨js "fcm", js "live", none, none, none⟩ 1,
    .register (js "chat") (js "bob") ⟨js "fcm", js "old", none, none, none⟩ 2,
    .register (js "chat") (js "bob") ⟨js "fcm", js "live", none, none, none⟩ 3]

/-- Then a third one comes.
Kind: D -/
def newcomer : RegistryCall JsString :=
  .register (js "chat") (js "bob") ⟨js "fcm", js "new", none, none, none⟩ 4

/-- Two endpoints for an identity.
Kind: D -/
def pairBounds : Bounds := ⟨2, 0, 0⟩

/-- Two devices register, and a third one comes.
Kind: D -/
def arrivals : List (RegistryCall JsString) :=
  [.register (js "chat") (js "bob") ⟨js "fcm", js "live", none, none, none⟩ 1,
    .register (js "chat") (js "bob") ⟨js "fcm", js "old", none, none, none⟩ 2, newcomer]

/-- The first device is pushed out by the third, and no call evicts any but the oldest.
Kind: C -/
theorem takesOldest_iff_arrivals :
    pushedOut pairBounds (after pairBounds 1 (arrivals.take 2)) (js "chat") (js "bob")
        ⟨js "fcm", js "new", none, none, none⟩ 4 = [⟨js "fcm", js "live", none, none, none, 1, none⟩] ∧
      ∀ (l₁ l₂ : List (RegistryCall JsString)) (c : RegistryCall JsString), arrivals = l₁ ++ c :: l₂ →
        TakesOldest pairBounds (after pairBounds 1 l₁) c := by
  refine ⟨by decide, (takesOldest_iff pairBounds 1 (by decide)).mpr fun l₁ l₂ c hl => ?_⟩
  have hbefore : l₁ = arrivals.take l₁.length := by rw [hl, List.take_left']; rfl
  have hcall : arrivals[l₁.length]? = some c := by rw [hl, List.getElem?_append_right le_rfl]; simp
  rw [hbefore]
  generalize l₁.length = n at hcall
  match n with
  | 0 | 1 =>
      obtain rfl := Option.some.inj hcall
      exact fun hover => absurd hover.1 (by decide)
  | 2 =>
      obtain rfl := Option.some.inj hcall
      intro _ first hfirst e he
      have hheld : held pairBounds (after pairBounds 1 (arrivals.take 2)) (js "chat") (js "bob") 4 =
          [⟨js "fcm", js "live", none, none, none, 1, none⟩,
            ⟨js "fcm", js "old", none, none, none, 2, none⟩] := by decide
      rw [hheld] at hfirst he
      obtain rfl := Option.some.inj hfirst
      rcases List.mem_cons.mp he with rfl | he
      · exact ⟨1, 1, by decide, by decide, le_rfl⟩
      · obtain rfl := List.mem_singleton.mp he
        exact ⟨1, 2, by decide, by decide, by decide⟩
  | n + 3 => cases hcall

/-- The endpoint registered at 3 is evicted, and the one registered at 2 stays.
Kind: P -/
theorem not_takesOldest_rotation :
    EachStep (step pairBounds) InOrder (start 1) (rotation ++ [newcomer]) ∧
      ¬ TakesOldest pairBounds (after pairBounds 1 rotation) newcomer := by
  refine ⟨by decide, fun h => ?_⟩
  have hle := h ⟨js "fcm", js "live", none, none, none, 3, none⟩ (by decide)
    ⟨js "fcm", js "old", none, none, none, 2, none⟩ (by decide)
  exact absurd hle (by decide)

end TyoMq.Push.RegistryCall
