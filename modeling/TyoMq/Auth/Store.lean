import TyoMq.Lib.JsObject
import TyoMq.Lib.Runs
import TyoMq.Lib.Sqlite

/-!
# The auth store

`lib/auth-store.js`: the realms, tokens and management tokens of the server, as rows of three tables
that hold JSON texts. A sync compares the rows it wants with what the store believes is there, and
writes the difference.

* JSON values are those of a codec (`Json`): `JSON.parse` reads what `stableStringify` has written.
* A table lists its rows in the order in which they were first inserted, which is the order of a `SELECT`.
* A load reads a key up to its first U+0000, and believes what it has read; a sync writes keys as they are
  (`LoadsUncut` is the condition under which this does not show).
* The syncs here go through. Those that throw are in `FailedSync`.
-/

namespace TyoMq.Auth

open TyoMq.Lib Sqlite

/-- JSON objects and their texts.
Kind: D -/
structure Json (J : Type*) where
  /-- The canonical text of an object. -/
  stableStringify : J → JsString
  /-- `JSON.parse`, where it does not throw. -/
  parse : JsString → Option J
  /-- Parsing reads the canonical text back. -/
  parse_stableStringify : ∀ j, parse (stableStringify j) = some j
  /-- A JSON text is well formed, and has its control characters escaped. -/
  whole_stableStringify : ∀ j, Whole (stableStringify j)
  /-- The object's `token`, when it is a string. -/
  token : J → Option JsString
  /-- The object's `token_hash`, when it is a string. -/
  token_hash : J → Option JsString

/-- Two objects with the same canonical text are the same.
Kind: L -/
theorem Json.stableStringify_inj {J : Type*} {json : Json J} {j j' : J}
    (h : json.stableStringify j = json.stableStringify j') : j = j' := by
  apply Option.some.inj
  rw [← json.parse_stableStringify j, h, json.parse_stableStringify]

/-- The tables of the store.
Source: `lib/auth-store.js`, `SECTIONS`
Kind: D -/
inductive Section
  | realms
  | tokens
  | management_tokens
  deriving DecidableEq

/-- Source: `lib/auth-store.js`, `SECTIONS`
Kind: D -/
def sections : List Section := [.realms, .tokens, .management_tokens]

/-- The part of the settings that is stored; what is missing is `none`, and so is a falsy entry of a
list.
Kind: D -/
structure AuthObject (J : Type*) where
  /-- The realms and their configs. -/
  realms : Option (JsMap JsString J)
  /-- The tokens. -/
  tokens : Option (List (Option J))
  /-- The management tokens. -/
  management_tokens : Option (List (Option J))
  /-- The management tokens, under their other name. -/
  managementTokens : Option (List (Option J))

/-- What is read back.
Kind: D -/
structure Loaded (J : Type*) where
  /-- The realms and their configs. -/
  realms : JsObject J
  /-- The tokens. -/
  tokens : List J
  /-- The management tokens. -/
  management_tokens : List J

/-- A statement of the transaction.
Kind: D -/
inductive Statement
  /-- `INSERT … ON CONFLICT … DO UPDATE`. -/
  | upsert (key value : JsString)
  /-- `DELETE`. -/
  | delete (key : JsString)

/-- The rows of a table after a statement, whose arguments are bound as UTF-8.
Kind: D -/
def Statement.run (rows : JsMap JsString JsString) : Statement → JsMap JsString JsString
  | .upsert key value => rows.set (Texts.stored key) (Texts.stored value)
  | .delete key => rows.delete (Texts.stored key)

/-- Source: `lib/auth-store.js`, `AuthStore`
Kind: D -/
structure AuthStore where
  /-- The file: the rows of each table. -/
  db : Section → JsMap JsString JsString
  /-- What the store believes is there. -/
  _cache : Option (Section → JsObject JsString)

/-- The statements that bring a table in line.
Source: `lib/auth-store.js`, `sync`
Kind: D -/
def diff (current wanted : JsObject JsString) : List Statement :=
  ((wanted.own.entries.filter fun e => current.lookup e.1 ≠ .own e.2).map fun e =>
      .upsert e.1 e.2) ++
    (current.own.keys.filter fun key => !wanted.has key).map .delete

namespace AuthStore

/-- A store opened on the file.
Kind: D -/
def «open» (store : AuthStore) : AuthStore := { store with _cache := none }

/-- A store opened on a new file.
Kind: D -/
def init : AuthStore := ⟨fun _ => JsMap.empty, none⟩

variable {J : Type*} (json : Json J)

/-- The key of an entry of a token list and the entry, unless it has none.
Source: `lib/auth-store.js`, `keyedTokens`
Kind: D -/
def keyed : Option J → Option (JsString × J)
  | none => none
  | some entry =>
      match (json.token entry).filter (· ≠ []) with
      | some token => some (token, entry)
      | none => ((json.token_hash entry).filter (· ≠ [])).map fun hash => (hash, entry)

/-- What is stored of an auth object in a table, in the order of assignment.
Source: `lib/auth-store.js`, `_sections`
Kind: D -/
def rows (auth : AuthObject J) : Section → List (JsString × J)
  | .realms => (auth.realms.getD JsMap.empty).entries
  | .tokens => (auth.tokens.getD []).filterMap (keyed json)
  | .management_tokens =>
      ((auth.management_tokens.or auth.managementTokens).getD []).filterMap (keyed json)

/-- Source: `lib/auth-store.js`, `_sections`
Kind: D -/
def _sections (auth : AuthObject J) (s : Section) : JsObject JsString :=
  JsObject.empty.assignAll ((rows json auth s).map fun e => (e.1, json.stableStringify e.2))

/-- The rows of a table that can be read, with the keys that are read.
Source: `lib/auth-store.js`, `load`
Kind: D -/
def readable (db : Section → JsMap JsString JsString) (s : Section) : List (JsString × J) :=
  (db s).entries.filterMap fun row =>
    (json.parse (Texts.read row.2)).map fun j => (Texts.read row.1, j)

/-- The cache that a load primes.
Source: `lib/auth-store.js`, `load`
Kind: D -/
def primed (db : Section → JsMap JsString JsString) (s : Section) : JsObject JsString :=
  JsObject.empty.assignAll ((readable json db s).map fun e => (e.1, json.stableStringify e.2))

/-- Source: `lib/auth-store.js`, `load`
Kind: D -/
def load (store : AuthStore) : AuthStore × Loaded J where
  fst := { store with _cache := some (primed json store.db) }
  snd :=
    { realms := JsObject.empty.assignAll (readable json store.db .realms)
      tokens := (readable json store.db .tokens).map Prod.snd
      management_tokens := (readable json store.db .management_tokens).map Prod.snd }

/-- The cache that a sync compares with.
Source: `lib/auth-store.js`, `sync`
Kind: D -/
def cache (store : AuthStore) : Section → JsObject JsString :=
  store._cache.getD (primed json store.db)

/-- The statements of a sync, with their tables.
Source: `lib/auth-store.js`, `sync`
Kind: D -/
def statements (store : AuthStore) (auth : AuthObject J) : List (Section × Statement) :=
  sections.flatMap fun s =>
    (diff (store.cache json s) (_sections json auth s)).map fun statement => (s, statement)

/-- The file after the statements.
Source: `lib/auth-store.js`, `sync`
Kind: D -/
def exec (db : Section → JsMap JsString JsString) (statements : List (Section × Statement)) :
    Section → JsMap JsString JsString :=
  statements.foldl (fun db e => fun s => if s = e.1 then e.2.run (db s) else db s) db

/-- The store after a sync, and how many rows it has changed.
Source: `lib/auth-store.js`, `sync`
Kind: D -/
def sync (store : AuthStore) (auth : AuthObject J) : AuthStore × ℕ :=
  let statements := store.statements json auth
  if statements.length = 0 then ({ store with _cache := some (store.cache json) }, 0)
  else (⟨exec store.db statements, some (_sections json auth)⟩, statements.length)

end AuthStore

/-! ### Steps -/

/-- What happens to the file.
Kind: D -/
inductive Event (J : Type*)
  /-- A store is opened on it. -/
  | «open»
  /-- The store is loaded. -/
  | load
  /-- The store is synced. -/
  | sync (auth : AuthObject J)

/-- The store after an event.
Kind: D -/
def step {J : Type*} (json : Json J) (store : AuthStore) : Event J → AuthStore
  | .open => store.open
  | .load => (store.load json).1
  | .sync auth => (store.sync json auth).1

/-- Does no key of the tables have a U+0000, at which a load would cut it?
Kind: D -/
def Uncut (db : Section → JsMap JsString JsString) : Prop := ∀ s ∈ sections, ∀ k ∈ (db s).keys, 0 ∉ k

instance (db : Section → JsMap JsString JsString) : Decidable (Uncut db) :=
  inferInstanceAs (Decidable (∀ _ ∈ _, _))

/-- When the event loads the tables, it cuts no key. A sync loads them when there is no cache.
Kind: D -/
def LoadsUncut {J : Type*} (store : AuthStore) : Event J → Prop
  | .open => True
  | .load => Uncut store.db
  | .sync _ => store._cache = none → Uncut store.db

instance {J : Type*} (store : AuthStore) : ∀ e : Event J, Decidable (LoadsUncut store e)
  | .open => isTrue trivial
  | .load => inferInstanceAs (Decidable (Uncut store.db))
  | .sync _ => inferInstanceAs (Decidable (store._cache = none → Uncut store.db))

/-- The auth objects that have been synced.
Kind: D -/
def synced {J : Type*} (l : List (Event J)) : List (AuthObject J) :=
  l.filterMap fun e =>
    match e with
    | .sync auth => some auth
    | _ => none

end TyoMq.Auth
