import TyoMq.Broker.Routing

/-!
# Consumer groups

The members of a group take turns, over any messages that are produced and whatever becomes of the
directory in between.

* `turns_generateMessage`: a message takes at most one turn of a group.
* `chosen_eq`: while a group has the same candidates, those chosen are the candidates in turn.
* `chosen_perm`: so that a round of turns serves each of them once.
-/

namespace TyoMq.Broker

open Lib

/-- A message with the directory at the time.
Kind: D -/
structure Round where
  /-- The message. -/
  message : Produced
  /-- Its realm. -/
  own : RealmEntry
  /-- The realm of everybody. -/
  all : Option RealmEntry

/-- No realm has a line break in its name.
Kind: D -/
def Round.Named (r : Round) : Prop := unit '\n' ∉ r.own.1 ∧ ∀ a ∈ r.all, unit '\n' ∉ a.1

instance (r : Round) : Decidable r.Named :=
  inferInstanceAs (Decidable (_ ∧ ∀ a ∈ r.all, unit '\n' ∉ a.1))

/-- The turns after some messages.
Kind: D -/
def turnsAfter (P : Protocol) (turns : Turns) (rounds : List Round) : Turns :=
  rounds.foldl (fun turns r => (generateMessage P r.message r.own r.all turns).1) turns

/-- What a member is known by, whatever becomes of it.
Kind: D -/
def Dispatch.who (d : Dispatch) : Name × Name := (d.eventStr, d.key)

/-- The candidates of a group for a message.
Kind: D -/
def Round.candidates (P : Protocol) (r : Round) (realm : JsString) (group : Name) : List (Name × Name) :=
  (groupOf P r.message r.own r.all realm group).candidates.map Dispatch.who

/-- Is it the turn of a member of the group in this round?
Kind: D -/
def Round.takes (P : Protocol) (r : Round) (turns : Turns) (realm : JsString) (group : Name) : Bool :=
  (generateMessage P r.message r.own r.all turns).1 realm group ≠ turns realm group

/-- The members whose turn it is, in each round in which it is the turn of one.
Kind: D -/
def chosen (P : Protocol) (realm : JsString) (group : Name) : Turns → List Round → List (Option (Name × Name))
  | _, [] => []
  | turns, r :: rounds =>
      let rest := chosen P realm group (generateMessage P r.message r.own r.all turns).1 rounds
      if r.takes P turns realm group then
        ((groupOf P r.message r.own r.all realm group).target turns).map Dispatch.who :: rest
      else rest

/-- The group has these candidates in each round in which it is the turn of one of them.
Kind: D -/
def Same (P : Protocol) (realm : JsString) (group : Name) (l : List (Name × Name)) : Turns → List Round → Prop
  | _, [] => True
  | turns, r :: rounds =>
      (r.takes P turns realm group = true → r.candidates P realm group = l) ∧
        Same P realm group l (generateMessage P r.message r.own r.all turns).1 rounds

/-- A message takes at most one turn of a group, and of one that it is for.
Kind: L -/
theorem turns_generateMessage {P : Protocol} {r : Round} (hr : r.Named) (turns : Turns) (realm : JsString)
    (group : Name) :
    (generateMessage P r.message r.own r.all turns).1 realm group = turns realm group ∨
      (generateMessage P r.message r.own r.all turns).1 realm group = turns realm group + 1 ∧
        (groupOf P r.message r.own r.all realm group).members ≠ [] := by
  rcases generateMessage_spec hr.1 hr.2 turns with ⟨-, hsame, -⟩ | ⟨buckets, -, hbuckets, -, hserved⟩
  · exact Or.inl (by rw [hsame])
  · refine (hserved.taken realm group).imp_right fun ⟨hone, hin⟩ => ⟨hone, ?_⟩
    obtain ⟨b, hb, hwho⟩ := List.mem_map.mp hin
    obtain ⟨rfl, rfl⟩ := Prod.mk.inj hwho
    obtain ⟨heq, hne⟩ := hbuckets b hb
    rwa [heq] at hne

/-- A turn, seen from what the members are known by.
Kind: L -/
theorem map_target {P : Protocol} {r : Round} {turns : Turns} {realm : JsString} {group : Name} :
    ((groupOf P r.message r.own r.all realm group).target turns).map Dispatch.who =
      turn (r.candidates P realm group) (turns realm group) := by
  rw [Bucket.target, turn, turn, Round.candidates, List.length_map, List.getElem?_map]
  rfl

/-- **The members take turns**: while a group has the same candidates whenever one of them is served, the
ones served are these candidates in turn, whatever other messages and groups there are.
Kind: L -/
theorem chosen_eq {P : Protocol} {realm : JsString} {group : Name} {l : List (Name × Name)} {turns : Turns}
    {rounds : List Round} (hnamed : ∀ r ∈ rounds, r.Named) (h : Same P realm group l turns rounds) :
    chosen P realm group turns rounds =
        (List.range (chosen P realm group turns rounds).length).map
          (fun i => turn l (turns realm group + i)) ∧
      turnsAfter P turns rounds realm group =
        turns realm group + (chosen P realm group turns rounds).length := by
  induction rounds generalizing turns with
  | nil => exact ⟨rfl, rfl⟩
  | cons r rounds ih =>
      obtain ⟨hsame, hrest⟩ := h
      obtain ⟨hchosen, hafter⟩ := ih (fun r' hr' => hnamed r' (List.mem_cons_of_mem _ hr')) hrest
      rw [turnsAfter, List.foldl_cons, ← turnsAfter]
      by_cases htakes : r.takes P turns realm group = true
      · have hone : (generateMessage P r.message r.own r.all turns).1 realm group = turns realm group + 1 := by
          rcases turns_generateMessage (hnamed r (by simp)) turns realm group with hkeep | ⟨hone, -⟩
          · exact absurd hkeep (by simpa [Round.takes] using htakes)
          · exact hone
        rw [hone] at hchosen hafter
        simp only [chosen, htakes, if_true, List.length_cons]
        refine ⟨?_, by rw [hafter]; omega⟩
        rw [map_target, hsame htakes, List.range_succ_eq_map, List.map_cons, List.map_map, hchosen]
        simp only [List.length_map, List.length_range, Nat.add_zero]
        refine congrArg _ (List.map_congr_left fun i _ => ?_)
        simp only [Function.comp_apply, Nat.succ_eq_add_one]
        rw [Nat.add_right_comm, Nat.add_assoc]
      · have hkeep : (generateMessage P r.message r.own r.all turns).1 realm group = turns realm group := by
          simpa [Round.takes] using htakes
        rw [hkeep] at hchosen hafter
        simp only [chosen, htakes, Bool.false_eq_true, if_false]
        exact ⟨hchosen, hafter⟩

/-- **A round of turns is fair**: over any messages in which a group has the same candidates whenever one
of them is served, and is served as often as it has candidates, each of them is served once.
Kind: P -/
theorem chosen_perm {P : Protocol} {realm : JsString} {group : Name} {l : List (Name × Name)}
    {turns : Turns} {rounds : List Round} (hnamed : ∀ r ∈ rounds, r.Named)
    (h : Same P realm group l turns rounds) (hlen : (chosen P realm group turns rounds).length = l.length) :
    (chosen P realm group turns rounds).Perm (l.map some) := by
  rw [(chosen_eq hnamed h).1, hlen]
  exact perm_turns l _

/-- A realm with a group of two consumers that have subscribed to an event.
Kind: D -/
def exampleGroup : Realm :=
  (Realm.empty.subscribeMessage exampleProtocol (exampleName (js "p-e")) (exampleName (js "p"))
      (exampleName (js "c")) none (js "s") ⟨[], [], false, false, none⟩ (some (exampleName (js "g"))) none)
    |>.subscribeMessage exampleProtocol (exampleName (js "p-e")) (exampleName (js "p"))
      (exampleName (js "d")) none (js "t") ⟨[], [], false, false, none⟩ (some (exampleName (js "g"))) none

/-- A message for the group.
Kind: D -/
def exampleRound : Round :=
  ⟨⟨js "e", js "e", exampleName (js "p"), false, false⟩, (js "default", exampleGroup), none⟩

theorem chosen_perm_exampleRound :
    let l : List (Name × Name) := [(⟨js "p-e", by decide⟩, ⟨js "c", by decide⟩),
      (⟨js "p-e", by decide⟩, ⟨js "d", by decide⟩)]
    (chosen exampleProtocol (js "default") ⟨js "g", by decide⟩ (fun _ _ => 1)
      [exampleRound, exampleRound]).Perm (l.map some) := by
  intro l
  have hsame : exampleRound.candidates exampleProtocol (js "default") ⟨js "g", by decide⟩ = l := by
    decide +kernel
  exact chosen_perm (by decide +kernel) ⟨fun _ => hsame, fun _ => hsame, trivial⟩ (by decide +kernel)

end TyoMq.Broker
