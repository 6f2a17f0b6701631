import Mathlib.Data.List.Induction
import TyoMq.Chat.Tickets

/-!
# Runs of the ticket store: one-shot and exact

`lib/chat-ticket-store.js`. A run issues and presents tickets in any order, at times that do not go
back. Beside the store it keeps the tickets that were issued and the presentations that were
accepted.

* **Law of a run** (`Accounted`, kept by each call: `Accounted.swept`, `Accounted.filed`,
  `Accounted.redeemed`): the stored tickets are the issued ones that were not redeemed, up to those
  a sweep has found expired.
* **One-shot and exact** (`redeems_exactly`): a presentation is accepted exactly when its ticket was
  issued for it, is within its lifetime and was not accepted before; a refused one changes no later
  answer; and the store holds at most `maxTickets`.
-/

namespace TyoMq.Chat

open TyoMq.Lib

variable {δ : Type} [DecidableEq δ]

/-! ### Runs -/

/-- A call of one of the two methods. For `issue`, `bytes` are those that are drawn if it comes to
that.
Kind: D -/
inductive Event
  | issue (r : Request) (bytes : Fin 32 → UInt8)
  | verify (p : Presentation)

/-- The time of a call.
Kind: D -/
def Event.now : Event → ℚ
  | .issue r _ => r.now
  | .verify p => p.now

/-- A ticket that was issued, with the request it was issued on.
Kind: D -/
structure Grant where
  /-- The request. -/
  request : Request
  /-- The ticket. -/
  ticket : JsString

/-- Is this the ticket that is presented, for the operation it was issued for, and when that is a
download for the same file?
Kind: D -/
def Grant.Covers (g : Grant) (p : Presentation) : Prop :=
  p.ticket = some g.ticket ∧ p.op = g.request.op ∧ (p.op = some .download → p.ref = g.request.ref)

/-- The store with the past of a run.
Kind: D -/
structure Ledger (δ : Type) where
  /-- The store. -/
  store : ChatTicketStore δ
  /-- The tickets issued, oldest first. -/
  issued : List Grant
  /-- The presentations accepted, oldest first. -/
  redeemed : List Presentation

namespace Ledger

/-- One call.
Kind: D -/
def step (hashPublishToken : JsString → δ) (l : Ledger δ) : Event → Ledger δ
  | .issue r bytes =>
      match l.store.issue hashPublishToken r bytes with
      | (store, .error _) => { l with store := store }
      | (store, .ok raw) => { l with store := store, issued := l.issued ++ [⟨r, raw⟩] }
  | .verify p =>
      match l.store.verify hashPublishToken p with
      | (store, false) => { l with store := store }
      | (store, true) => { l with store := store, redeemed := l.redeemed ++ [p] }

/-- A run of a new store.
Kind: D -/
def run (hashPublishToken : JsString → δ) (opts : Options) (events : List Event) : Ledger δ :=
  runFrom (step hashPublishToken) ⟨ChatTicketStore.new opts, [], []⟩ events

/-- The answer to a presentation.
Kind: D -/
def answer (hashPublishToken : JsString → δ) (l : Ledger δ) (p : Presentation) : Bool :=
  (l.store.verify hashPublishToken p).2

/-- The tickets issued.
Kind: D -/
def tickets (l : Ledger δ) : List JsString := l.issued.map Grant.ticket

/-- The tickets redeemed, as they were presented.
Kind: D -/
def spent (l : Ledger δ) : List (Option JsString) := l.redeemed.map Presentation.ticket

end Ledger

/-- The strings a run hashes: the tickets it issues and those presented to it.
Kind: D -/
def hashed (hashPublishToken : JsString → δ) (opts : Options) (events : List Event) :
    Set JsString :=
  {t | t ∈ (Ledger.run hashPublishToken opts events).tickets ∨
    ∃ p, Event.verify p ∈ events ∧ p.ticket = some t}

/-! ### The law of a run -/

/-- The entry is the one of the ticket.
Kind: D -/
def Grant.Filed (ttlMs : ℚ) (g : Grant) (entry : Entry) : Prop :=
  g.request.op = some entry.op ∧ (entry.op = .download → g.request.ref = Arg.ofRef entry.ref) ∧
    entry.exp = g.request.now + ttlMs

/-- The stored tickets are the issued ones that were not redeemed, up to those whose lifetime was
over at the time of some call.
Kind: D -/
structure Accounted (hashPublishToken : JsString → δ) (ttlMs : ℚ) (events : List Event)
    (m : JsMap δ Entry) (issued : List Grant) (redeemed : List Presentation) : Prop where
  /-- What is stored was issued and not redeemed. -/
  stored : ∀ k entry, m.get k = some entry → ∃ g ∈ issued,
    hashPublishToken g.ticket = k ∧ g.Filed ttlMs entry ∧
      some g.ticket ∉ redeemed.map Presentation.ticket
  /-- What was issued and not redeemed is stored until it expires. -/
  kept : ∀ g ∈ issued, some g.ticket ∉ redeemed.map Presentation.ticket →
    (∃ entry, m.get (hashPublishToken g.ticket) = some entry ∧ g.Filed ttlMs entry) ∨
      ∃ e ∈ events, g.request.now + ttlMs < e.now
  /-- What was redeemed was issued. -/
  minted : ∀ t ∈ redeemed.map Presentation.ticket, ∃ g ∈ issued, t = some g.ticket
  /-- No ticket was redeemed twice. -/
  once : (redeemed.map Presentation.ticket).Nodup
  /-- No ticket is the empty string. -/
  named : ∀ g ∈ issued, g.ticket ≠ []

namespace Accounted

variable {hashPublishToken : JsString → δ} {ttlMs : ℚ} {events : List Event} {m m' : JsMap δ Entry}
  {issued : List Grant} {redeemed : List Presentation} {e : Event}

/-- A sweep at the time of a call keeps the law.
Kind: L -/
theorem swept (h : Accounted hashPublishToken ttlMs events m issued redeemed)
    (hm : ChatTicketStore.Swept e.now m m') :
    Accounted hashPublishToken ttlMs (events ++ [e]) m' issued redeemed where
  stored k entry hk := h.stored k entry (hm.get_of_get hk)
  kept g hg hspent := by
    obtain ⟨entry, hget, hfiled⟩ | ⟨e', he', hexp⟩ := h.kept g hg hspent
    · obtain hget' | hexp := hm.get_or_expired hget
      · exact Or.inl ⟨entry, hget', hfiled⟩
      · exact Or.inr ⟨e, by simp, hfiled.2.2 ▸ hexp⟩
    · exact Or.inr ⟨e', List.mem_append_left _ he', hexp⟩
  minted := h.minted
  once := h.once
  named := h.named

/-- Filing the entry of a new ticket keeps the law.
Kind: L -/
theorem filed (h : Accounted hashPublishToken ttlMs events m issued redeemed) {g : Grant}
    {entry : Entry} (hentry : g.Filed ttlMs entry) (hne : g.ticket ≠ [])
    (hspent : some g.ticket ∉ redeemed.map Presentation.ticket)
    (hhash : ∀ g' ∈ issued, hashPublishToken g'.ticket ≠ hashPublishToken g.ticket) :
    Accounted hashPublishToken ttlMs events (m.set (hashPublishToken g.ticket) entry)
      (issued ++ [g]) redeemed where
  stored k entry' hk := by
    rw [JsMap.get_set] at hk
    split_ifs at hk with hkey
    · cases hk
      exact ⟨g, by simp, hkey.symm, hentry, hspent⟩
    · obtain ⟨g', hg', hrest⟩ := h.stored k entry' hk
      exact ⟨g', List.mem_append_left _ hg', hrest⟩
  kept g' hg' hspent' := by
    obtain hg' | hg' := List.mem_append.mp hg'
    · rw [JsMap.get_set_of_ne _ (hhash g' hg')]
      exact h.kept g' hg' hspent'
    · cases List.mem_singleton.mp hg'
      exact Or.inl ⟨entry, JsMap.get_set_self .., hentry⟩
  minted t ht := by
    obtain ⟨g', hg', rfl⟩ := h.minted t ht
    exact ⟨g', List.mem_append_left _ hg', rfl⟩
  once := h.once
  named g' hg' := by
    obtain hg' | hg' := List.mem_append.mp hg'
    · exact h.named g' hg'
    · cases List.mem_singleton.mp hg'
      exact hne

/-- Deleting the entry of the ticket that is redeemed keeps the law.
Kind: L -/
theorem redeem (h : Accounted hashPublishToken ttlMs events m issued redeemed) {p : Presentation}
    {ticket : JsString} (hticket : p.ticket = some ticket)
    (hmint : ∃ g ∈ issued, g.ticket = ticket)
    (hspent : some ticket ∉ redeemed.map Presentation.ticket)
    (hhash : ∀ g ∈ issued, hashPublishToken g.ticket = hashPublishToken ticket → g.ticket = ticket) :
    Accounted hashPublishToken ttlMs events (m.delete (hashPublishToken ticket)) issued
      (redeemed ++ [p]) where
  stored k entry hk := by
    have hkey : k ≠ hashPublishToken ticket := by
      rintro rfl
      rw [JsMap.get_delete_self] at hk
      cases hk
    rw [JsMap.get_delete_of_ne _ hkey] at hk
    obtain ⟨g, hg, hgk, hfiled, hfree⟩ := h.stored k entry hk
    refine ⟨g, hg, hgk, hfiled, ?_⟩
    rw [List.map_append, List.map_singleton, hticket, List.mem_append, List.mem_singleton]
    rintro (hin | heq)
    · exact hfree hin
    · cases heq
      exact hkey hgk.symm
  kept g hg hfree := by
    rw [List.map_append, List.map_singleton, hticket, List.mem_append, List.mem_singleton,
      not_or] at hfree
    have hkey : hashPublishToken g.ticket ≠ hashPublishToken ticket :=
      fun heq => hfree.2 (congrArg some (hhash g hg heq))
    rw [JsMap.get_delete_of_ne _ hkey]
    exact h.kept g hg hfree.1
  minted t ht := by
    rw [List.map_append, List.map_singleton, hticket, List.mem_append, List.mem_singleton] at ht
    obtain ht | rfl := ht
    · exact h.minted t ht
    · obtain ⟨g, hg, rfl⟩ := hmint
      exact ⟨g, hg, rfl⟩
  once := by
    rw [List.map_append, List.map_singleton, hticket]
    exact h.once.append (List.nodup_singleton _) (by simpa using hspent)
  named := h.named

end Accounted

namespace Ledger

variable (hashPublishToken : JsString → δ) (opts : Options)

/-! ### One call of a run -/

theorem run_append (events : List Event) (e : Event) :
    run hashPublishToken opts (events ++ [e]) =
      step hashPublishToken (run hashPublishToken opts events) e :=
  runFrom_append _ _ _ _

/-- A call issues the next tickets after those before it.
Kind: L -/
theorem issued_step (l : Ledger δ) (e : Event) :
    l.issued <+: (step hashPublishToken l e).issued := by
  cases e with
  | issue r bytes =>
      unfold step
      dsimp only
      split
      · exact List.prefix_rfl
      · exact List.prefix_append _ _
  | verify p =>
      unfold step
      dsimp only
      split <;> exact List.prefix_rfl

/-- The tickets of a part of a run come first among those of the run.
Kind: L -/
theorem issued_run (before after : List Event) :
    (run hashPublishToken opts before).issued <+:
      (run hashPublishToken opts (before ++ after)).issued := by
  induction after using List.reverseRecOn with
  | nil => simpa only [List.append_nil] using List.prefix_rfl
  | append_singleton after e ih =>
      rw [← List.append_assoc, run_append]
      exact ih.trans (issued_step hashPublishToken _ e)

variable {hashPublishToken opts}

theorem tickets_nodup_of_append {before after : List Event}
    (h : (run hashPublishToken opts (before ++ after)).tickets.Nodup) :
    (run hashPublishToken opts before).tickets.Nodup :=
  h.sublist ((issued_run hashPublishToken opts before after).sublist.map _)

theorem hashed_subset_append {before after : List Event} :
    hashed hashPublishToken opts before ⊆ hashed hashPublishToken opts (before ++ after) := by
  rintro t (ht | ⟨p, hp, hpt⟩)
  · exact Or.inl (((issued_run hashPublishToken opts before after).map _).subset ht)
  · exact Or.inr ⟨p, List.mem_append_left _ hp, hpt⟩

/-! ### Whole runs -/

/-- The settings of the store do not change, and it is never over its bound.
Kind: D -/
structure Bounded (opts : Options) (l : Ledger δ) : Prop where
  /-- The lifetime of a ticket is the one of the options. -/
  ttlMs : l.store.ttlMs = (ChatTicketStore.new opts : ChatTicketStore δ).ttlMs
  /-- So is the bound. -/
  maxTickets : l.store.maxTickets = (ChatTicketStore.new opts : ChatTicketStore δ).maxTickets
  /-- The bound holds. -/
  size_le : l.store.tickets.size ≤ l.store.maxTickets

/-- A call keeps the store within its bound.
Kind: L -/
theorem Bounded.step {l : Ledger δ} (h : Bounded opts l) (e : Event) :
    Bounded opts (l.step hashPublishToken e) := by
  cases e with
  | issue r bytes =>
      obtain ⟨s', m, ⟨httl, hmax, hswept⟩, ⟨e, heq, hm⟩ | ⟨entry, heq, hm, hroom, -⟩⟩ :=
        l.store.issue_cases hashPublishToken r bytes
      · simp only [Ledger.step, heq]
        refine ⟨httl.trans h.ttlMs, hmax.trans h.maxTickets, ?_⟩
        rw [hm, hmax]
        exact hswept.size_le.trans h.size_le
      · simp only [Ledger.step, heq]
        refine ⟨httl.trans h.ttlMs, hmax.trans h.maxTickets, ?_⟩
        rw [hm, hmax]
        exact (JsMap.size_set_le _ _ _).trans hroom
  | verify p =>
      obtain ⟨heq, -⟩ | ⟨ticket, entry, -, -, -, -, -, -, heq⟩ :=
        l.store.verify_cases hashPublishToken p
      · simp only [Ledger.step, heq]
        exact ⟨h.ttlMs, h.maxTickets, (JsMap.size_deleteWhere_le _ _).trans h.size_le⟩
      · simp only [Ledger.step, heq]
        refine ⟨h.ttlMs, h.maxTickets, (JsMap.size_delete_le _ _).trans ?_⟩
        exact (JsMap.size_deleteWhere_le _ _).trans h.size_le

theorem bounded_run (events : List Event) : Bounded opts (run hashPublishToken opts events) :=
  invariant_run (P := fun _ _ => True) (fun _ e h _ => h.step e)
    ⟨rfl, rfl, Nat.zero_le _⟩ (eachStep_of_forall fun _ _ _ => trivial)

/-- Issuing a ticket keeps the law, when it is a fresh one.
Kind: L -/
theorem accounted_issue {events : List Event} {l : Ledger δ} {ttlMs : ℚ} {r : Request}
    {bytes : Fin 32 → UInt8}
    (h : Accounted hashPublishToken ttlMs events l.store.tickets l.issued l.redeemed)
    (httl : l.store.ttlMs = ttlMs)
    (hfresh : (l.step hashPublishToken (.issue r bytes)).tickets.Nodup)
    (hhash : Set.InjOn hashPublishToken
      {t | t ∈ (l.step hashPublishToken (.issue r bytes)).tickets}) :
    Accounted hashPublishToken ttlMs (events ++ [.issue r bytes])
      (l.step hashPublishToken (.issue r bytes)).store.tickets
      (l.step hashPublishToken (.issue r bytes)).issued
      (l.step hashPublishToken (.issue r bytes)).redeemed := by
  obtain ⟨s', m, ⟨-, -, hswept⟩, ⟨e, heq, hm⟩ | ⟨entry, heq, hm, -, hop, href, hexp⟩⟩ :=
    l.store.issue_cases hashPublishToken r bytes
  · simp only [step, heq, hm]
    exact h.swept (e := .issue r bytes) hswept
  · simp only [step, heq, hm, tickets, List.map_append, List.map_singleton] at hfresh hhash ⊢
    have hnew : ∀ g ∈ l.issued, g.ticket ≠ generatePublishToken bytes := by
      intro g hg heq
      refine List.disjoint_of_nodup_append hfresh (List.mem_map_of_mem hg) ?_
      exact List.mem_singleton.mpr heq
    refine (h.swept (e := .issue r bytes) hswept).filed (g := ⟨r, generatePublishToken bytes⟩)
      ⟨hop, href, httl ▸ hexp⟩ (generatePublishToken_ne_nil bytes) ?_ ?_
    · intro hin
      obtain ⟨g, hg, heq⟩ := h.minted _ hin
      exact hnew g hg (Option.some.inj heq).symm
    · intro g hg heq
      refine hnew g hg (hhash ?_ ?_ heq)
      · exact List.mem_append_left _ (List.mem_map_of_mem hg)
      · exact List.mem_append_right _ (List.mem_singleton_self _)

/-- A presentation keeps the law, when its hash is that of its own ticket only.
Kind: L -/
theorem accounted_verify {events : List Event} {l : Ledger δ} {ttlMs : ℚ} {p : Presentation}
    (h : Accounted hashPublishToken ttlMs events l.store.tickets l.issued l.redeemed)
    (hhash : ∀ g ∈ l.issued, ∀ t, p.ticket = some t →
      hashPublishToken g.ticket = hashPublishToken t → g.ticket = t) :
    Accounted hashPublishToken ttlMs (events ++ [.verify p])
      (l.step hashPublishToken (.verify p)).store.tickets
      (l.step hashPublishToken (.verify p)).issued
      (l.step hashPublishToken (.verify p)).redeemed := by
  have hswept : Accounted hashPublishToken ttlMs (events ++ [.verify p])
      (l.store.sweep p.now).tickets l.issued l.redeemed := h.swept (Or.inr rfl)
  obtain ⟨heq, -⟩ | ⟨ticket, entry, hticket, -, hget, -, -, -, heq⟩ :=
    l.store.verify_cases hashPublishToken p
  · simp only [step, heq]
    exact hswept
  · simp only [step, heq]
    obtain ⟨g, hg, hkey, -, hspent⟩ := h.stored _ entry hget
    have hgt : g.ticket = ticket := hhash g hg ticket hticket hkey
    exact hswept.redeem hticket ⟨g, hg, hgt⟩ (hgt ▸ hspent) fun g' hg' => hhash g' hg' ticket hticket

/-- The law holds after every run with distinct tickets and no collision.
Kind: L -/
theorem accounted_run {events : List Event}
    (hfresh : (run hashPublishToken opts events).tickets.Nodup)
    (hhash : Set.InjOn hashPublishToken (hashed hashPublishToken opts events)) :
    Accounted hashPublishToken (ChatTicketStore.new opts : ChatTicketStore δ).ttlMs events
      (run hashPublishToken opts events).store.tickets (run hashPublishToken opts events).issued
      (run hashPublishToken opts events).redeemed := by
  induction events using List.reverseRecOn with
  | nil =>
      refine ⟨?_, ?_, ?_, List.nodup_nil, ?_⟩
      · intro k entry hk
        cases hk
      all_goals simp [run]
  | append_singleton events e ih =>
      have h := ih (tickets_nodup_of_append hfresh) (hhash.mono hashed_subset_append)
      rw [run_append] at hfresh ⊢
      cases e with
      | issue r bytes =>
          refine accounted_issue h (bounded_run events).ttlMs hfresh (hhash.mono ?_)
          intro t ht
          left
          rwa [run_append]
      | verify p =>
          refine accounted_verify h fun g hg t ht heq => hhash ?_ ?_ heq
          · exact hashed_subset_append (Or.inl (List.mem_map_of_mem hg))
          · exact Or.inr ⟨p, by simp, ht⟩

end Ledger

/-! ### One-shot and exact -/

section Exact

variable {hashPublishToken : JsString → δ} {opts : Options}

/-- The answer to a presentation, in a store under the law: accepted exactly when it is one for a
ticket that was issued, is within its lifetime and was not redeemed.
Kind: L -/
theorem Accounted.verify_iff {events : List Event} {ttlMs : ℚ} {s : ChatTicketStore δ}
    {issued : List Grant} {redeemed : List Presentation} {p : Presentation}
    (h : Accounted hashPublishToken ttlMs events s.tickets issued redeemed)
    (hclock : ∀ e ∈ events, e.now ≤ p.now)
    (hhash : ∀ g ∈ issued, ∀ t, p.ticket = some t →
      hashPublishToken g.ticket = hashPublishToken t → g.ticket = t) :
    (s.verify hashPublishToken p).2 = true ↔
      ∃ g ∈ issued, g.Covers p ∧ p.ticket ∉ redeemed.map Presentation.ticket ∧
        p.now ≤ g.request.now + ttlMs := by
  constructor
  · intro htrue
    obtain ⟨heq, -⟩ | ⟨ticket, entry, hticket, -, hget, hlive, hop, href, -⟩ :=
      s.verify_cases hashPublishToken p
    · rw [heq] at htrue
      cases htrue
    · obtain ⟨g, hg, hkey, ⟨hgop, hgref, hgexp⟩, hspent⟩ := h.stored _ entry hget
      have hgt : g.ticket = ticket := hhash g hg ticket hticket hkey
      refine ⟨g, hg, ⟨hticket.trans (congrArg some hgt.symm), hop.symm.trans hgop.symm, ?_⟩, ?_,
        hgexp ▸ hlive⟩
      · intro hd
        rw [← href hd, hgref (Option.some.inj (hop.trans hd))]
      · rw [hticket, ← hgt]
        exact hspent
  · rintro ⟨g, hg, ⟨hticket, hop, href⟩, hspent, hlive⟩
    rw [hticket] at hspent
    obtain ⟨entry, hget, hgop, hgref, hgexp⟩ | ⟨e, he, hexp⟩ := h.kept g hg hspent
    · obtain ⟨-, hno⟩ | ⟨_, _, -, -, -, -, -, -, heq⟩ := s.verify_cases hashPublishToken p
      · obtain ⟨hd, hne⟩ := hno g.ticket entry hticket (h.named g hg) hget (hgexp ▸ hlive)
          (hgop.symm.trans hop.symm)
        have hdown : entry.op = .download := Option.some.inj (hgop.symm.trans (hop.symm.trans hd))
        exact absurd ((hgref hdown).symm.trans (href hd).symm) hne
      · rw [heq]
    · exact absurd (hexp.trans_le (hclock e he)) (not_lt.mpr hlive)

/-- A presentation that is refused changes no later answer.
Kind: L -/
theorem Ledger.answer_after_refused {l : Ledger δ} {p q : Presentation}
    (hfalse : l.answer hashPublishToken p = false) (hnow : p.now ≤ q.now) :
    (l.step hashPublishToken (.verify p)).answer hashPublishToken q =
      l.answer hashPublishToken q := by
  obtain ⟨heq, -⟩ | ⟨_, _, -, -, -, -, -, -, heq⟩ := l.store.verify_cases hashPublishToken p
  · simp only [Ledger.answer, Ledger.step, heq, ChatTicketStore.verify_sweep _ _ hnow]
  · rw [Ledger.answer, heq] at hfalse
    cases hfalse

/-- **One-shot and exact**: over a run at times that do not go back, with distinct tickets and no
collision of their hashes, a lifetime is at most 900 s; no ticket is redeemed twice; the store never
holds more than `maxTickets`; a presentation is accepted exactly when its ticket was issued before for
that operation, and for a download for that file, is within its lifetime and was not redeemed
before; and one that is refused changes the answer to no later one.
Source: `lib/chat-ticket-store.js`, `ChatTicketStore`
Kind: P -/
theorem redeems_exactly (hashPublishToken : JsString → δ) (opts : Options) (events : List Event)
    (hclock : (events.map Event.now).Pairwise (· ≤ ·))
    (hfresh : (Ledger.run hashPublishToken opts events).tickets.Nodup)
    (hhash : Set.InjOn hashPublishToken (hashed hashPublishToken opts events)) :
    (ChatTicketStore.new opts : ChatTicketStore δ).ttlMs ≤ 900 * 1000 ∧
      (Ledger.run hashPublishToken opts events).spent.Nodup ∧
      ∀ before after l, before ++ after = events → l = Ledger.run hashPublishToken opts before →
        l.store.tickets.size ≤ (ChatTicketStore.new opts : ChatTicketStore δ).maxTickets ∧
        ∀ p rest, after = .verify p :: rest →
          (l.answer hashPublishToken p = true ↔
            ∃ g ∈ l.issued, g.Covers p ∧ p.ticket ∉ l.spent ∧
              p.now ≤ g.request.now + (ChatTicketStore.new opts : ChatTicketStore δ).ttlMs) ∧
          (l.answer hashPublishToken p = false → ∀ q : Presentation, p.now ≤ q.now →
            (l.step hashPublishToken (.verify p)).answer hashPublishToken q =
              l.answer hashPublishToken q) := by
  refine ⟨min_le_right _ _, (Ledger.accounted_run hfresh hhash).once, ?_⟩
  rintro before after l rfl rfl
  have hbounded : Ledger.Bounded opts (Ledger.run hashPublishToken opts before) :=
    Ledger.bounded_run before
  have hlaw := Ledger.accounted_run (Ledger.tickets_nodup_of_append hfresh)
    (hhash.mono Ledger.hashed_subset_append)
  refine ⟨hbounded.maxTickets ▸ hbounded.size_le, ?_⟩
  rintro p rest rfl
  refine ⟨hlaw.verify_iff ?_ ?_, fun hfalse q => Ledger.answer_after_refused hfalse⟩
  · intro e he
    rw [List.map_append, List.pairwise_append] at hclock
    exact hclock.2.2 _ (List.mem_map_of_mem he) _ List.mem_cons_self
  · intro g hg t ht heq
    refine hhash ?_ ?_ heq
    · exact Ledger.hashed_subset_append (Or.inl (List.mem_map_of_mem hg))
    · exact Or.inr ⟨p, by simp, ht⟩

end Exact

/-- A download ticket for the file `f`, a presentation of it for the file `g`, one for `f`, and the
same again.
Kind: D -/
def probed : List Event :=
  let ticket := generatePublishToken fun _ => 0
  [.issue ⟨some (js "s"), some .download, .text (js "f"), 0⟩ fun _ => 0,
    .verify ⟨some ticket, some .download, .text (js "g"), 1⟩,
    .verify ⟨some ticket, some .download, .text (js "f"), 2⟩,
    .verify ⟨some ticket, some .download, .text (js "f"), 3⟩]

theorem redeems_exactly_probed :
    let l := Ledger.run (fun t => t) ⟨none, none, none, none⟩ probed
    l.spent.Nodup ∧ l.spent = [some (generatePublishToken fun _ => 0)] := by
  have h := redeems_exactly (fun t => t) ⟨none, none, none, none⟩ probed
    (by norm_num [probed, Event.now]) (by decide +kernel) fun _ _ _ _ heq => heq
  refine ⟨h.2.1, ?_⟩
  decide +kernel

end TyoMq.Chat
