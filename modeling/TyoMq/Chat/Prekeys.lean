import Mathlib.Data.Multiset.Filter
import TyoMq.Lib.JsString
import TyoMq.Lib.RowTable
import TyoMq.Lib.Runs
import TyoMq.Lib.Sqlite

/-!
# The prekey store

`lib/prekey-store.js`: the Signal prekey directory behind the broker's memory, as two tables, one for the
bundles and one for their pools of one-time prekeys. A publish rewrites the pool of its account, and a
take deletes the entry it has handed out.

* What is kept of a text and of a number is what SQLite keeps of it. Ids are integers.
* A table has one row for an id, so that the last entry of a repeated id takes the place of the others.
* The reference is a directory that keeps each pool as it was put (`Expected`). A pool may hold several
  entries under one id, and a take removes one of them. `Mirrored` says that the store shows it.
* `Kept` is the condition on an event under which it does; `PrekeyMirror` proves it exact.
-/

namespace TyoMq.Chat

open TyoMq.Lib Sqlite

variable {τ : Type*}

/-! ### Bundles -/

/-- An entry of `bundle.one_time`; a number that is not finite and a missing key are `none`.
Source: `lib/prekey-store.js`, `PrekeyStore.prototype.putBundle`
Kind: D -/
structure PoolEntry (τ : Type*) where
  /-- `Number(e.id)`. -/
  id : Option ℤ
  /-- The key. -/
  key : Option τ

/-- A bundle given to `putBundle`; a text that is missing is `none`, and so is a falsy entry of the pool. A
number is what `Number()` makes of the field, `NaN` where it is missing.
Source: `lib/prekey-store.js`, `PrekeyStore.prototype.putBundle`
Kind: D -/
structure Bundle (τ : Type*) where
  /-- The identity key. -/
  identity_key : τ
  /-- The registration id. -/
  registration_id : Number
  /-- The device id. -/
  device_id : Number
  /-- The id of the signed prekey. -/
  signed_prekey_id : Number
  /-- The signed prekey. -/
  signed_prekey : Option τ
  /-- Its signature. -/
  signed_prekey_sig : Option τ
  /-- The id of the Kyber prekey. -/
  kyber_prekey_id : Number
  /-- The Kyber prekey. -/
  kyber_prekey : Option τ
  /-- Its signature. -/
  kyber_prekey_sig : Option τ
  /-- When it was published. -/
  updated_at : Option τ
  /-- The pool, unless it is not an array. -/
  one_time : Option (List (Option (PoolEntry τ)))

/-- The key material of a bundle.
Source: `lib/prekey-store.js`, `prekey_bundles`
Kind: D -/
structure Material (τ : Type*) where
  /-- The identity key. -/
  identity_key : τ
  /-- The registration id. -/
  registration_id : Number
  /-- The device id. -/
  device_id : Number
  /-- The id of the signed prekey. -/
  signed_prekey_id : Number
  /-- The signed prekey. -/
  signed_prekey : Option τ
  /-- Its signature. -/
  signed_prekey_sig : Option τ
  /-- The id of the Kyber prekey. -/
  kyber_prekey_id : Number
  /-- The Kyber prekey. -/
  kyber_prekey : Option τ
  /-- Its signature. -/
  kyber_prekey_sig : Option τ
  /-- When it was published. -/
  updated_at : Option τ
  deriving DecidableEq

/-- `n || 0`.
Kind: D -/
def orZero : Number → Number
  | .nan | .negZero => .finite 0
  | .finite value => .finite value
  | .infinite negative => .infinite negative

/-- The key material that `putBundle` writes.
Source: `lib/prekey-store.js`, `PrekeyStore.prototype.putBundle`
Kind: D -/
def Bundle.material (b : Bundle τ) : Material τ where
  identity_key := b.identity_key
  registration_id := orZero b.registration_id
  device_id := orZero b.device_id
  signed_prekey_id := orZero b.signed_prekey_id
  signed_prekey := b.signed_prekey
  signed_prekey_sig := b.signed_prekey_sig
  kyber_prekey_id := orZero b.kyber_prekey_id
  kyber_prekey := b.kyber_prekey
  kyber_prekey_sig := b.kyber_prekey_sig
  updated_at := b.updated_at

/-- The id and the key of an entry, unless it is skipped.
Source: `lib/prekey-store.js`, `PrekeyStore.prototype.putBundle`
Kind: D -/
def PoolEntry.pair (e : PoolEntry τ) : Option (ℤ × τ) :=
  match e.id, e.key with
  | some id, some key => some (id, key)
  | _, _ => none

/-- The entries of the pool that are stored.
Source: `lib/prekey-store.js`, `PrekeyStore.prototype.putBundle`
Kind: D -/
def Bundle.pool (b : Bundle τ) : List (ℤ × τ) :=
  (b.one_time.getD []).filterMap fun e => e.bind PoolEntry.pair

/-! ### Columns -/

section Columns

variable [Texts τ]

/-- What the columns store of key material.
Kind: D -/
def Material.stored (m : Material τ) : Material τ :=
  { m with
    identity_key := Texts.stored m.identity_key
    signed_prekey := Texts.stored m.signed_prekey
    signed_prekey_sig := Texts.stored m.signed_prekey_sig
    kyber_prekey := Texts.stored m.kyber_prekey
    kyber_prekey_sig := Texts.stored m.kyber_prekey_sig
    updated_at := Texts.stored m.updated_at }

/-- Can the numbers be read?
Kind: D -/
def Material.readable (m : Material τ) : Bool :=
  m.registration_id.readable && m.device_id.readable && m.signed_prekey_id.readable &&
    m.kyber_prekey_id.readable

/-- What is read of stored key material, when its numbers can be read.
Kind: D -/
def Material.read (m : Material τ) : Option (Material τ) :=
  if m.readable then
    some
      { m with
        identity_key := Texts.read m.identity_key
        signed_prekey := Texts.read m.signed_prekey
        signed_prekey_sig := Texts.read m.signed_prekey_sig
        kyber_prekey := Texts.read m.kyber_prekey
        kyber_prekey_sig := Texts.read m.kyber_prekey_sig
        updated_at := Texts.read m.updated_at }
  else none

end Columns

/-! ### The tables -/

/-- A row of `prekey_bundles`, whose primary key is the account.
Source: `lib/prekey-store.js`, `prekey_bundles`
Kind: D -/
structure BundleRow (τ : Type*) where
  /-- The realm and the identity. -/
  account : τ × τ
  /-- The key material. -/
  material : Material τ
  deriving DecidableEq

/-- A row of `prekey_one_time`, whose primary key is the account with the id.
Source: `lib/prekey-store.js`, `prekey_one_time`
Kind: D -/
structure OneTimeRow (τ : Type*) where
  /-- The realm and the identity. -/
  account : τ × τ
  /-- The id. -/
  otk_id : ℤ
  /-- The key. -/
  key : τ
  deriving DecidableEq

/-- What is read of a row of `prekey_bundles`.
Source: `lib/prekey-store.js`, `PrekeyStore.prototype.allBundles`
Kind: D -/
def BundleRow.read [Texts τ] (row : BundleRow τ) : Option (BundleRow τ) :=
  row.material.read.map fun m => ⟨Texts.read row.account, m⟩

/-- The id and the key that are read of a row of `prekey_one_time`.
Source: `lib/prekey-store.js`, `PrekeyStore.prototype.allBundles`
Kind: D -/
def OneTimeRow.read [Texts τ] (row : OneTimeRow τ) : Option (ℤ × τ) :=
  if readable row.otk_id then some (row.otk_id, Texts.read row.key) else none

/-- Source: `lib/prekey-store.js`, `PrekeyStore`
Kind: D -/
structure PrekeyStore (τ : Type*) where
  /-- The bundles. -/
  prekey_bundles : RowTable (BundleRow τ)
  /-- The pools. -/
  prekey_one_time : RowTable (OneTimeRow τ)

/-- What `allBundles` returns of an account.
Source: `lib/prekey-store.js`, `PrekeyStore.prototype.allBundles`
Kind: D -/
structure StoredBundle (τ : Type*) where
  /-- The realm and the identity. -/
  account : τ × τ
  /-- The key material. -/
  material : Material τ
  /-- The pool. -/
  one_time : List (ℤ × τ)
  deriving DecidableEq

namespace PrekeyStore

/-- A store opened on a file, whose tables are created unless they are there.
Source: `lib/prekey-store.js`, `PrekeyStore`
Kind: D -/
def «open» (file : Option (PrekeyStore τ)) : PrekeyStore τ := file.getD ⟨RowTable.empty, RowTable.empty⟩

variable [DecidableEq τ] [Texts τ]

/-- `insertOtk`.
Source: `lib/prekey-store.js`, `PrekeyStore.prototype.putBundle`
Kind: D -/
def insertOtk (account : τ × τ) (t : RowTable (OneTimeRow τ)) (e : ℤ × τ) : RowTable (OneTimeRow τ) :=
  t.replaceWhere (fun row => row.account = Texts.stored account ∧ row.otk_id = e.1)
    ⟨Texts.stored account, e.1, Texts.stored e.2⟩

/-- Source: `lib/prekey-store.js`, `PrekeyStore.prototype.putBundle`
Kind: D -/
def putBundle (s : PrekeyStore τ) (account : τ × τ) (bundle : Bundle τ) : PrekeyStore τ where
  prekey_bundles :=
    s.prekey_bundles.replaceWhere (fun row => row.account = Texts.stored account)
      ⟨Texts.stored account, bundle.material.stored⟩
  prekey_one_time :=
    bundle.pool.foldl (insertOtk account)
      (s.prekey_one_time.deleteWhere fun row => row.account = Texts.stored account)

/-- The id is `none` when it is not a number; no row has it then.
Source: `lib/prekey-store.js`, `PrekeyStore.prototype.consumeOneTime`
Kind: D -/
def consumeOneTime (s : PrekeyStore τ) (account : τ × τ) (otkId : Option ℤ) : PrekeyStore τ :=
  { s with
    prekey_one_time :=
      s.prekey_one_time.deleteWhere fun row =>
        row.account = Texts.stored account ∧ some row.otk_id = otkId }

/-- Source: `lib/prekey-store.js`, `PrekeyStore.prototype.delBundle`
Kind: D -/
def delBundle (s : PrekeyStore τ) (account : τ × τ) : PrekeyStore τ where
  prekey_bundles := s.prekey_bundles.deleteWhere fun row => row.account = Texts.stored account
  prekey_one_time := s.prekey_one_time.deleteWhere fun row => row.account = Texts.stored account

/-- The pool of an account, in the order of the ids; `none` when the query throws.
Source: `lib/prekey-store.js`, `PrekeyStore.prototype.allBundles`
Kind: D -/
def poolOf (t : RowTable (OneTimeRow τ)) (account : τ × τ) : Option (List (ℤ × τ)) :=
  (readAll OneTimeRow.read (t.scan.filter fun row => row.account = Texts.stored account)).map
    fun pool => pool.mergeSort fun e e' => e.1 ≤ e'.1

/-- The bundles; `none` when it throws. The pool of a bundle is looked up under the account that has been
read.
Source: `lib/prekey-store.js`, `PrekeyStore.prototype.allBundles`
Kind: D -/
def allBundles (s : PrekeyStore τ) : Option (List (StoredBundle τ)) :=
  (readAll BundleRow.read s.prekey_bundles.scan).bind fun rows =>
    readAll (fun row => (poolOf s.prekey_one_time row.account).map fun pool =>
      ⟨row.account, row.material, pool⟩) rows

end PrekeyStore

/-! ### Runs -/

/-- What happens to the store.
Kind: D -/
inductive PrekeyEvent (τ : Type*)
  /-- A bundle is put. -/
  | put (account : τ × τ) (bundle : Bundle τ)
  /-- A one-time prekey is consumed. -/
  | consume (account : τ × τ) (otkId : Option ℤ)
  /-- A bundle is deleted. -/
  | del (account : τ × τ)
  /-- The store is closed, and opened on the same file. -/
  | reopen

variable [DecidableEq τ]

section Store

variable [Texts τ]

/-- The store after an event.
Kind: D -/
def prekeyStep (s : PrekeyStore τ) : PrekeyEvent τ → PrekeyStore τ
  | .put account bundle => s.putBundle account bundle
  | .consume account otkId => s.consumeOneTime account otkId
  | .del account => s.delBundle account
  | .reopen => PrekeyStore.open (some s)

/-- The store after a run on a new file.
Kind: D -/
def prekeysAfter (l : List (PrekeyEvent τ)) : PrekeyStore τ := runFrom prekeyStep (PrekeyStore.open none) l

end Store

/-! ### The reference -/

/-- What the directory holds of each account.
Kind: D -/
abbrev Directory (τ : Type*) := τ × τ → Option (Material τ × Multiset (ℤ × τ))

/-- The pool loses one entry with the given id, where it has any.
Kind: D -/
inductive Minus : Multiset (ℤ × τ) → Option ℤ → Multiset (ℤ × τ) → Prop
  /-- It has one. -/
  | present {pool : Multiset (ℤ × τ)} {e : ℤ × τ} : e ∈ pool → Minus pool (some e.1) (pool.erase e)
  /-- It has none. -/
  | absent {pool : Multiset (ℤ × τ)} {otkId : Option ℤ} : (∀ e ∈ pool, some e.1 ≠ otkId) →
      Minus pool otkId pool

/-- What an event makes of the directory.
Kind: D -/
inductive Makes : Directory τ → PrekeyEvent τ → Directory τ → Prop
  /-- The bundle is there, whatever was there before. -/
  | put (d : Directory τ) (account : τ × τ) (bundle : Bundle τ) :
      Makes d (.put account bundle)
        (Function.update d account (some (bundle.material, ↑bundle.pool)))
  /-- The pool of the bundle loses an entry. -/
  | consume {d : Directory τ} {account : τ × τ} {otkId : Option ℤ} {m : Material τ}
      {pool pool' : Multiset (ℤ × τ)} : d account = some (m, pool) → Minus pool otkId pool' →
      Makes d (.consume account otkId) (Function.update d account (some (m, pool')))
  /-- There is no bundle. -/
  | unknown {d : Directory τ} {account : τ × τ} {otkId : Option ℤ} : d account = none →
      Makes d (.consume account otkId) d
  /-- The bundle is gone. -/
  | del (d : Directory τ) (account : τ × τ) : Makes d (.del account) (Function.update d account none)
  /-- Nothing changes. -/
  | reopen (d : Directory τ) : Makes d .reopen d

/-- Nothing is taken where there is no bundle.
Kind: L -/
theorem Makes.eq_of_none {d d' : Directory τ} {account : τ × τ} {otkId : Option ℤ}
    (h : Makes d (.consume account otkId) d') (hnone : d account = none) : d' = d := by
  cases h with
  | unknown => rfl
  | consume hsome => exact absurd (hnone.symm.trans hsome) (by simp)

/-- The directory may be this after the events.
Kind: D -/
inductive Expected : List (PrekeyEvent τ) → Directory τ → Prop
  /-- It starts empty. -/
  | nil : Expected [] fun _ => none
  /-- One more event. -/
  | snoc {l : List (PrekeyEvent τ)} {e : PrekeyEvent τ} {d d' : Directory τ} : Expected l d →
      Makes d e d' → Expected (l ++ [e]) d'

/-- The bundles are those of the directory: one for each account that it has, and none for the others.
Kind: D -/
def Shows (bundles : List (StoredBundle τ)) (d : Directory τ) : Prop :=
  ∀ account, match d account with
    | none => bundles.filter (fun b => b.account = account) = []
    | some (m, pool) => ∃ one_time : List (ℤ × τ), ↑one_time = pool ∧
        bundles.filter (fun b => b.account = account) = [⟨account, m, one_time⟩]

section Condition

variable [Texts τ]

/-- The store shows what the directory may be after the events.
Kind: D -/
def Mirrored (l : List (PrekeyEvent τ)) : Prop :=
  ∃ d, Expected l d ∧ ∃ bundles, (prekeysAfter l).allBundles = some bundles ∧ Shows bundles d

/-- Are the texts and numbers of key material stored and read as they are?
Kind: D -/
def Material.Whole (m : Material τ) : Prop := m.stored = m ∧ m.read = some m

/-- Is a pool kept as it is? No id repeats, and every id and key is stored and read as it is.
Kind: D -/
def KeptPool (pool : List (ℤ × τ)) : Prop :=
  (pool.map Prod.fst).Nodup ∧ ∀ e ∈ pool, readable e.1 ∧ Whole e.2

/-- Is what the event does the same in the store? A bundle that is put is kept as it is. A one-time prekey
is not consumed, and a bundle not deleted, for an account that is stored as another one that has it.
Kind: D -/
def Kept (s : PrekeyStore τ) : PrekeyEvent τ → Prop
  | .put account bundle => Whole account ∧ bundle.material.Whole ∧ KeptPool bundle.pool
  | .consume account otkId => Texts.stored account = account ∨
      ∀ row ∈ s.prekey_one_time.scan, ¬(row.account = Texts.stored account ∧ some row.otk_id = otkId)
  | .del account => Texts.stored account = account ∨
      ∀ row ∈ s.prekey_bundles.scan, row.account ≠ Texts.stored account
  | .reopen => True

instance (m : Material τ) : Decidable m.Whole := inferInstanceAs (Decidable (_ ∧ _))

instance (pool : List (ℤ × τ)) : Decidable (KeptPool pool) :=
  inferInstanceAs (Decidable (_ ∧ ∀ _ ∈ _, _))

instance (s : PrekeyStore τ) : ∀ e, Decidable (Kept s e)
  | .put account bundle =>
      inferInstanceAs (Decidable (Whole account ∧ bundle.material.Whole ∧ KeptPool bundle.pool))
  | .consume account otkId =>
      inferInstanceAs (Decidable (Texts.stored account = account ∨ ∀ row ∈ s.prekey_one_time.scan,
        ¬(row.account = Texts.stored account ∧ some row.otk_id = otkId)))
  | .del account =>
      inferInstanceAs (Decidable (Texts.stored account = account ∨
        ∀ row ∈ s.prekey_bundles.scan, row.account ≠ Texts.stored account))
  | .reopen => isTrue trivial

end Condition

end TyoMq.Chat
