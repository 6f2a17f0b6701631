import TyoMq.Auth.RoundTrip

/-!
# The auth store: syncs that fail

A sync of `lib/auth-store.js` in which something throws: the load that it starts with when there is no
cache, the `BEGIN`, any statement, or the `COMMIT`. A rollback restores the tables.

* Such a sync leaves the tables as they were, and the cache too, unless there was none: then it is the one
  of a load (`trySync_cases`).
* Whatever has failed before, the next sync that goes through makes the tables those of its auth object
  (`trySync_coherent`), where no name or token is one that every object inherits, or ill formed, and no load
  has cut one.
-/

namespace TyoMq.Auth

open TyoMq.Lib AuthStore

variable {J : Type*} {json : Json J}

/-! ### Transactions -/

/-- Where a sync throws.
Source: `lib/auth-store.js`, `sync`
Kind: D -/
inductive Fault
  /-- In the load. -/
  | load
  /-- In `BEGIN IMMEDIATE`. -/
  | begin
  /-- In the statement of this number, if there are so many. -/
  | statement (n : ℕ)
  /-- In `COMMIT`. -/
  | commit
  deriving DecidableEq

/-- The statement that throws, if any does.
Kind: D -/
def Fault.failing : Option Fault → Option ℕ
  | some (.statement n) => some n
  | none | some .load | some .begin | some .commit => none

/-- The tables of a file.
Kind: D -/
abbrev AuthTables := Section → JsMap JsString JsString

/-- A connection to the file.
Kind: D -/
structure Connection where
  /-- What its statements see. -/
  tables : AuthTables
  /-- What a rollback restores, in a transaction. -/
  saved : Option AuthTables

namespace Connection

/-- `BEGIN IMMEDIATE`.
Kind: D -/
def begin (c : Connection) : Connection := { c with saved := some c.tables }

/-- `COMMIT`.
Kind: D -/
def commit (c : Connection) : Connection := { c with saved := none }

/-- `ROLLBACK`.
Kind: D -/
def rollback (c : Connection) : Connection := ⟨c.saved.getD c.tables, none⟩

/-- The statements one after the other, up to the one that throws; `false` when one has.
Source: `lib/auth-store.js`, `sync`
Kind: D -/
def runAll (c : Connection) : Option ℕ → List (Section × Statement) → Connection × Bool
  | _, [] => (c, true)
  | some 0, _ :: _ => (c, false)
  | some (n + 1), e :: l => runAll { c with tables := exec c.tables [e] } (some n) l
  | none, e :: l => runAll { c with tables := exec c.tables [e] } none l

/-- The transaction of a sync; `false` when it throws.
Source: `lib/auth-store.js`, `sync`
Kind: D -/
def transaction (c : Connection) (fault : Option Fault) (l : List (Section × Statement)) :
    Connection × Bool :=
  if fault = some .begin then (c, false)
  else
    let (c, ran) := c.begin.runAll (Fault.failing fault) l
    if ran ∧ fault ≠ some .commit then (c.commit, true) else (c.rollback, false)

/-- Statements leave alone what a rollback restores.
Kind: L -/
theorem saved_runAll (c : Connection) (failing : Option ℕ) (l : List (Section × Statement)) :
    (c.runAll failing l).1.saved = c.saved := by
  induction l generalizing c failing with
  | nil => rfl
  | cons e l ih =>
      match failing with
      | none => exact ih _ none
      | some 0 => rfl
      | some (n + 1) => exact ih _ (some n)

/-- Statements that all go through.
Kind: L -/
theorem tables_runAll (c : Connection) {failing : Option ℕ} {l : List (Section × Statement)}
    (h : (c.runAll failing l).2 = true) : (c.runAll failing l).1.tables = exec c.tables l := by
  induction l generalizing c failing with
  | nil => rfl
  | cons e l ih =>
      match failing with
      | none => exact ih _ h
      | some 0 => exact absurd h (by simp [runAll])
      | some (n + 1) => exact ih _ h

theorem ran_runAll_none (c : Connection) (l : List (Section × Statement)) :
    (c.runAll none l).2 = true := by
  induction l generalizing c with
  | nil => rfl
  | cons e l ih => exact ih _

/-- A transaction goes through, or leaves the tables as they were.
Kind: P -/
theorem transaction_cases (db : AuthTables) (fault : Option Fault) (l : List (Section × Statement)) :
    transaction ⟨db, none⟩ fault l = (⟨exec db l, none⟩, true) ∨
      fault ≠ none ∧ transaction ⟨db, none⟩ fault l = (⟨db, none⟩, false) := by
  unfold transaction
  split_ifs with hbegin
  · exact Or.inr ⟨by simp [hbegin], rfl⟩
  · -- whether all statements go through, and the commit after them
    have hsaved := saved_runAll (begin ⟨db, none⟩) (Fault.failing fault) l
    have htables : ((begin ⟨db, none⟩).runAll (Fault.failing fault) l).2 = true →
        ((begin ⟨db, none⟩).runAll (Fault.failing fault) l).1.tables = exec db l := tables_runAll _
    simp only
    split_ifs with hran
    · left
      rw [commit, htables hran.1]
    · refine Or.inr ⟨?_, by rw [rollback, hsaved]; rfl⟩
      rintro rfl
      exact hran ⟨ran_runAll_none _ l, by simp⟩

end Connection

/-! ### Syncs -/

namespace AuthStore

/-- The store that a sync goes on with: it is loaded when there is no cache.
Source: `lib/auth-store.js`, `sync`
Kind: D -/
def ready (json : Json J) (store : AuthStore) : AuthStore :=
  if store._cache = none then (store.load json).1 else store

/-- A sync that throws at the fault, if it gets there; the number of rows is `none` when it has thrown.
Source: `lib/auth-store.js`, `sync`
Kind: D -/
def trySync (json : Json J) (store : AuthStore) (fault : Option Fault) (auth : AuthObject J) :
    AuthStore × Option ℕ :=
  if store._cache = none ∧ fault = some .load then (store, none)
  else
    let store := store.ready json
    let statements := store.statements json auth
    if statements.length = 0 then (store, some 0)
    else
      match Connection.transaction ⟨store.db, none⟩ fault statements with
      | (c, true) => (⟨c.tables, some (_sections json auth)⟩, some statements.length)
      | (c, false) => ({ store with db := c.tables }, none)

theorem ready_eq (json : Json J) (store : AuthStore) :
    store.ready json = ⟨store.db, some (store.cache json)⟩ := by
  obtain ⟨db, _ | c⟩ := store <;> rfl

/-- **A sync that may throw** either does what a sync does, or leaves everything as it was but for a
missing cache.
Kind: P -/
theorem trySync_cases (json : Json J) (store : AuthStore) (fault : Option Fault) (auth : AuthObject J) :
    store.trySync json fault auth = ((store.sync json auth).1, some (store.sync json auth).2) ∨
      fault ≠ none ∧ (store.trySync json fault auth).2 = none ∧
        ((store.trySync json fault auth).1 = store ∨
          store._cache = none ∧ (store.trySync json fault auth).1 = (store.load json).1) := by
  unfold trySync
  by_cases hload : store._cache = none ∧ fault = some .load
  · rw [if_pos hload]
    exact Or.inr ⟨by simp [hload.2], rfl, Or.inl rfl⟩
  · have hstatements : AuthStore.statements json (store.ready json) auth = store.statements json auth := by
      rw [ready_eq]
      rfl
    have hdb : (store.ready json).db = store.db := by rw [ready_eq]
    simp only [if_neg hload, hstatements, hdb]
    by_cases hnone : (store.statements json auth).length = 0
    · left
      rw [if_pos hnone, sync, if_pos hnone, ready_eq]
    · rw [if_neg hnone]
      rcases Connection.transaction_cases store.db fault (store.statements json auth) with h | ⟨hf, h⟩
      · left
        rw [h, sync, if_neg hnone]
      · rw [h]
        refine Or.inr ⟨hf, rfl, ?_⟩
        by_cases hcache : store._cache = none
        · exact Or.inr ⟨hcache, by rw [ready, if_pos hcache]; rfl⟩
        · exact Or.inl (by rw [ready, if_neg hcache])

end AuthStore

/-! ### Runs -/

/-- What happens to the file, with syncs that may throw.
Kind: D -/
inductive Attempt (J : Type*)
  /-- A store is opened on it. -/
  | «open»
  /-- The store is loaded. -/
  | load
  /-- A sync is tried. -/
  | sync (auth : AuthObject J) (fault : Option Fault)

/-- The store after an attempt.
Kind: D -/
def attempt (json : Json J) (store : AuthStore) : Attempt J → AuthStore
  | .open => store.open
  | .load => (store.load json).1
  | .sync auth fault => (store.trySync json fault auth).1

/-- The store after some attempts on a new file.
Kind: D -/
def attempted (json : Json J) (l : List (Attempt J)) : AuthStore := runFrom (attempt json) AuthStore.init l

/-- Every name and every token is well formed, and none is one that every object inherits.
Kind: D -/
def PlainNames (json : Json J) (auth : AuthObject J) : Prop :=
  WellNamed json auth ∧ ∀ s ∈ sections, ∀ k ∈ keys json auth s, k ∉ objectPrototype

instance (json : Json J) (auth : AuthObject J) : Decidable (PlainNames json auth) :=
  inferInstanceAs (Decidable (_ ∧ ∀ _ ∈ _, _))

/-- When the attempt loads the tables, it cuts no key; and the names of an attempted sync are plain.
Kind: D -/
def Attempt.Plain (json : Json J) (store : AuthStore) : Attempt J → Prop
  | .open => True
  | .load => Uncut store.db
  | .sync auth _ => (store._cache = none → Uncut store.db) ∧ PlainNames json auth

instance (json : Json J) (store : AuthStore) : ∀ e : Attempt J, Decidable (e.Plain json store)
  | .open => isTrue trivial
  | .load => inferInstanceAs (Decidable (Uncut store.db))
  | .sync auth _ =>
      inferInstanceAs (Decidable ((store._cache = none → Uncut store.db) ∧ PlainNames json auth))

/-- What holds of a store after attempts with plain names: it is sound, and no auth object with another
name has got in.
Kind: D -/
def Coherent (json : Json J) (store : AuthStore) : Prop :=
  ∃ earlier, (∀ auth ∈ earlier, PlainNames json auth) ∧ Sound json earlier store

namespace Coherent

variable {store : AuthStore}

theorem «open» (h : Coherent json store) : Coherent json store.open := by
  obtain ⟨earlier, hplain, hsound⟩ := h
  exact ⟨earlier, hplain, hsound.legible, hsound.stale, by simp [AuthStore.open]⟩

/-- A load that cuts no key keeps it: it primes the cache with what is there.
Kind: P -/
theorem load (h : Coherent json store) (huncut : Uncut store.db) :
    Coherent json (store.load json).1 := by
  obtain ⟨earlier, hplain, hsound⟩ := h
  refine ⟨earlier, hplain, hsound.legible, hsound.stale, fun c hc s => ?_⟩
  obtain rfl := Option.some.inj hc
  exact hsound.believed_primed huncut s

/-- A sync keeps it, whether it goes through or throws.
Kind: P -/
theorem trySync (h : Coherent json store) (hloads : store._cache = none → Uncut store.db)
    {auth : AuthObject J} (hauth : PlainNames json auth) (fault : Option Fault) :
    Coherent json (store.trySync json fault auth).1 := by
  rcases trySync_cases json store fault auth with hdone | ⟨-, -, hsame | ⟨hcache, hloaded⟩⟩
  · rw [hdone]
    obtain ⟨earlier, hplain, hsound⟩ := h
    refine ⟨earlier ++ [auth], fun a ha => ?_, hsound.sync hloads hauth.1⟩
    rcases List.mem_append.mp ha with hin | hlast
    · exact hplain a hin
    · rw [List.mem_singleton.mp hlast]
      exact hauth
  · rwa [hsame]
  · rw [hloaded]
    exact h.load (hloads hcache)

/-- Any attempt keeps it.
Kind: P -/
theorem attempt (h : Coherent json store) {e : Attempt J} (he : e.Plain json store) :
    Coherent json (TyoMq.Auth.attempt json store e) := by
  cases e with
  | «open» => exact h.open
  | load => exact h.load he
  | sync auth fault => exact h.trySync he.1 he.2 fault

/-- No row has a name that every object inherits.
Kind: L -/
theorem get_of_mem (h : Coherent json store) (s : Section) {k : JsString} (hk : k ∈ objectPrototype) :
    (store.db s).get k = none := by
  obtain ⟨earlier, hplain, hsound⟩ := h
  rw [← Option.not_isSome_iff_eq_none]
  intro hsome
  obtain ⟨t, hget⟩ := Option.isSome_iff_exists.mp hsome
  obtain ⟨auth, hauth, hkey⟩ := (hsound.stale s k hk (hsound.legible s k t hget).1).mp hsome
  exact (hplain auth hauth).2 s (mem_sections_all s) k hkey hk

/-- The rows after a sync that goes through: those of the auth object.
Kind: P -/
theorem get_sync (h : Coherent json store) (hloads : store._cache = none → Uncut store.db)
    {auth : AuthObject J} (hauth : PlainNames json auth) (s : Section) (k t : JsString) :
    ((store.sync json auth).1.db s).get k = some t ↔
      k ≠ protoName ∧ ∃ j, (k, j) ∈ lastWins (rows json auth s) ∧ json.stableStringify j = t := by
  have hold : (if k ∈ objectPrototype then (store.db s).get k else none) = none := by
    split_ifs with hk
    · exact h.get_of_mem s hk
    · rfl
  obtain ⟨earlier, -, hsound⟩ := h
  rw [hsound.get_sync hloads hauth.1, hold, Option.or_none, get_sections]

end Coherent

theorem coherent_attempted {l : List (Attempt J)}
    (h : EachStep (attempt json) (fun store e => e.Plain json store) AuthStore.init l) :
    Coherent json (attempted json l) := by
  apply invariant_run (I := Coherent json) _ _ h
  · exact fun s e hs he => hs.attempt he
  · exact ⟨[], by simp, Sound.init⟩

/-- **Failed syncs**: after any attempts with plain names, a sync that throws leaves the tables and the
cache as they were, but for a missing cache that has been loaded; and one that goes through makes the
tables those of its auth object.
Kind: P -/
theorem trySync_coherent (json : Json J) (l : List (Attempt J)) (auth : AuthObject J)
    (fault : Option Fault)
    (hl : EachStep (attempt json) (fun store e => e.Plain json store) AuthStore.init
      (l ++ [.sync auth fault])) :
    let store := attempted json l
    let after := store.trySync json fault auth
    (after.2 = none → after.1.db = store.db ∧ (after.1._cache = store._cache ∨
        store._cache = none ∧ after.1 = (store.load json).1)) ∧
      (after.2 ≠ none → ∀ s k t, (after.1.db s).get k = some t ↔
        ∃ j, (k, j) ∈ lastWins (rows json auth s) ∧ json.stableStringify j = t) ∧
      (fault = none → after.2 ≠ none) := by
  intro store after
  obtain ⟨hl, ⟨hloads, hauth⟩, -⟩ := eachStep_append.mp hl
  have hcoherent : Coherent json store := coherent_attempted hl
  have hcases := trySync_cases json store fault auth
  refine ⟨fun hthrown => ?_, fun hdone s k t => ?_, fun hnone hthrown => ?_⟩
  · rcases hcases with hdone | ⟨-, -, hsame | ⟨hcache, hloaded⟩⟩
    · exact absurd hthrown (by simp [after, hdone])
    · exact ⟨congrArg AuthStore.db hsame, Or.inl (congrArg AuthStore._cache hsame)⟩
    · have hdb : after.1.db = (store.load json).1.db := congrArg AuthStore.db hloaded
      exact ⟨hdb, Or.inr ⟨hcache, hloaded⟩⟩
  · rcases hcases with hsync | ⟨-, hthrown, -⟩
    · have hafter : after.1 = (store.sync json auth).1 := congrArg Prod.fst hsync
      rw [hafter, hcoherent.get_sync hloads hauth]
      refine and_iff_right_of_imp ?_
      rintro ⟨j, hmem, -⟩ rfl
      have hkey : protoName ∈ keys json auth s := List.mem_map.mpr ⟨_, mem_of_mem_lastWins hmem, rfl⟩
      exact hauth.2 s (mem_sections_all s) _ hkey (by decide)
    · exact absurd hthrown hdone
  · rcases hcases with hsync | ⟨hfault, -⟩
    · exact absurd hthrown (by simp [after, hsync])
    · exact hfault hnone

/-- A commit fails, and the realm is removed after it.
Kind: P -/
theorem trySync_coherent_after_commit :
    ((attempted emptyObjects [.sync (ofRealms [js "acme"]) (some .commit)]).trySync emptyObjects none
        (ofRealms [])).2 ≠ none ∧
      ∀ s k t, (((attempted emptyObjects [.sync (ofRealms [js "acme"]) (some .commit)]).trySync
          emptyObjects none (ofRealms [])).1.db s).get k = some t ↔
        ∃ j, (k, j) ∈ lastWins (rows emptyObjects (ofRealms []) s) ∧
          emptyObjects.stableStringify j = t := by
  have h := trySync_coherent emptyObjects [.sync (ofRealms [js "acme"]) (some .commit)] (ofRealms [])
    none (by decide +kernel)
  exact ⟨h.2.2 rfl, h.2.1 (h.2.2 rfl)⟩

/-- A first sync that fails has loaded the cache. A realm whose name has a U+0000 in it stays, when it is
loaded and then left out of a sync that goes through; and one whose name is a lone surrogate is stored
under another.
Kind: P -/
theorem not_coherent_attempts :
    ((AuthStore.init.trySync emptyObjects (some .commit) (ofRealms [js "acme"])).2 = none ∧
      (AuthStore.init.trySync emptyObjects (some .commit) (ofRealms [js "acme"])).1._cache ≠
        AuthStore.init._cache) ∧
      ((attempted emptyObjects [.sync (ofRealms [cutRealm]) none, .open]).trySync emptyObjects none
          (ofRealms [])).2 ≠ none ∧
        (((attempted emptyObjects [.sync (ofRealms [cutRealm]) none, .open]).trySync emptyObjects none
          (ofRealms [])).1.db .realms).get cutRealm ≠ none ∧
          ((attempted emptyObjects [.sync (ofRealms [[0xD800]]) none]).db .realms).get [0xD800] =
            none := by
  refine ⟨⟨by decide +kernel, fun hsame => ?_⟩, by decide +kernel, by decide +kernel,
    by decide +kernel⟩
  have hsome := congrArg Option.isSome hsame
  exact absurd hsome (by decide +kernel)

end TyoMq.Auth
