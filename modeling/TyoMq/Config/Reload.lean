import TyoMq.Lib.JsonTree
import TyoMq.Lib.ReadCell
import TyoMq.Lib.Runs

/-!
# Settings that follow a file

`lib/settings.js`, a store that watches its file with `merge: false`: watch events, once they have been
debounced, `SIGHUP` and `reload()` each begin a read of their own, and what a read returns replaces the
settings when it ends.

* The file holds texts of valid JSON. A write is atomic and is followed by a watch event, which may serve
  several writes at once.
* When nothing is pending, a read begun since the last write has ended (`Settings.Announced.refreshed`). The
  settings are those of the file unless an older read ends after it, or the copy of what it returns is another
  value, as one with an infinite number is.
* **Convergence** (`Settings.converged_of_inForce`): where neither happens, the settings of a run are those of the
  file whenever nothing is pending. Nothing in the store prevents the first
  (`Settings.not_converged_slowReload`).
* Reads that end in the order in which they were begun do not overtake (`Settings.converged_of_inTurn`).
-/

namespace TyoMq.Config

open TyoMq.Lib

variable {N : Type*} {num : NumberTexts N}

/-! ### The store -/

/-- A text of valid JSON.
Kind: D -/
structure JsonText (num : NumberTexts N) where
  /-- The text. -/
  raw : JsString
  /-- What it says. -/
  value : JsonValue N
  /-- It says so. -/
  parse_raw : JsonValue.parse num.read raw = some value

/-- The text that `JSON.stringify` makes of a value.
Kind: D -/
def JsonText.ofValue (num : Numerals N) (v : JsonValue N) (hv : v.Proper) : JsonText (num : NumberTexts N) :=
  ⟨JsonValue.stringify num v, v, JsonValue.parse_stringify_exact hv⟩

/-- What a watch event says of the file.
Kind: D -/
inductive WatchEvent
  | change
  | rename
  deriving DecidableEq

/-- A store, the file that it watches and what is on its way between them.
Source: `lib/settings.js`, `Settings`
Kind: D -/
structure Settings (num : NumberTexts N) where
  /-- The settings. -/
  data : JsonValue N
  /-- The file, and the reads of it. -/
  file : ReadCell (JsonText num)
  /-- Is the timer set? -/
  timer : Bool
  /-- The watch events that have been raised and not yet handled. -/
  raised : List WatchEvent
  /-- Has a write not been followed by a watch event yet? -/
  owed : Bool

/-- What happens.
Kind: D -/
inductive SettingsEvent (num : NumberTexts N)
  /-- The file is written. -/
  | write (text : JsonText num)
  /-- The system raises a watch event. -/
  | raise (eventType : WatchEvent)
  /-- The store handles the next watch event. -/
  | handle
  /-- The timer fires. -/
  | fire
  /-- `SIGHUP` -/
  | sighup
  /-- `reload()` is called. -/
  | reload
  /-- The read with the one number ends, and returns the content with the other. -/
  | complete (k v : ℕ)

/-- A copy of a value.
Source: `lib/settings.js`, `Settings.prototype._clone`
Kind: D -/
def clone (num : NumberTexts N) (v : JsonValue N) : JsonValue N :=
  match v with
  | .arr _ | .obj _ => (JsonValue.parse num.read (JsonValue.stringify num v)).getD v
  | _ => v

namespace Settings

/-- Begin a read.
Source: `lib/settings.js`, `Settings.prototype._loadFile`
Kind: D -/
def loadFile (s : Settings num) : Settings num := { s with file := s.file.start }

/-- The settings once a read has returned a text.
Source: `lib/settings.js`, `Settings.prototype._loadFile`, with `_mergeMode` false
Kind: D -/
def loaded (num : NumberTexts N) (data : JsonValue N) (raw : JsString) : JsonValue N :=
  match JsonValue.parse num.read raw with
  | none => data
  | some parsed => clone num parsed

/-- `new Settings(initial)`, with `watch(filePath, { merge: false })` called.
Source: `lib/settings.js`, `Settings`, `Settings.prototype.watch`
Kind: D -/
def watch (initial : JsonValue N) (text : JsonText num) : Settings num :=
  loadFile ⟨clone num initial, ⟨text, [], []⟩, false, [], false⟩

/-- The listener of the watcher.
Source: `lib/settings.js`, `Settings.prototype.watch`
Kind: D -/
def onWatchEvent (s : Settings num) (eventType : WatchEvent) : Settings num :=
  if eventType ≠ .change ∧ eventType ≠ .rename then s
  -- `clearTimeout`, `setTimeout`
  else { s with timer := true }

/-- An event happens. What cannot happen changes nothing.
Source: `lib/settings.js`, `Settings.prototype.watch`, `Settings.prototype.reload`
Kind: D -/
def step (s : Settings num) : SettingsEvent num → Settings num
  | .write text => { s with file := s.file.write text, owed := true }
  | .raise eventType => { s with raised := s.raised ++ [eventType], owed := false }
  | .handle =>
      match s.raised with
      | [] => s
      | eventType :: rest => { s with raised := rest }.onWatchEvent eventType
  | .fire => if s.timer then { s with timer := false }.loadFile else s
  | .sighup => s.loadFile
  | .reload => s.loadFile
  | .complete k v =>
      match s.file.complete k v with
      | none => s
      | some (file, text) => { s with file := file, data := loaded num s.data text.raw }

/-- No watch event, timer or read is pending.
Kind: D -/
structure Quiescent (s : Settings num) : Prop where
  /-- Every write has been followed by a watch event. -/
  owed : s.owed = false
  /-- Every watch event has been handled. -/
  raised : s.raised = []
  /-- The timer is not set. -/
  timer : s.timer = false
  /-- Every read has ended. -/
  reads : ∀ r ∈ s.file.reads, r.returned ≠ none

/-- The settings are what the file says.
Kind: D -/
def UpToDate (s : Settings num) : Prop := s.data = s.file.content.value

/-- When nothing is pending, the settings are what the file says.
Kind: D -/
def Converged (s : Settings num) : Prop := s.Quiescent → s.UpToDate

/-- The event is not the end of a read that returns a value of which a copy is another one.
Kind: D -/
def Exact (s : Settings num) : SettingsEvent num → Prop
  | .complete k v => ∀ file text, s.file.complete k v = some (file, text) → text.value.clone num = text.value
  | _ => True

/-- The event is not, once the file has been read since it was last written, the end of a read that returns
anything but what the file says.
Kind: D -/
def InOrder (s : Settings num) : SettingsEvent num → Prop
  | .complete k v => ∀ file text, s.file.complete k v = some (file, text) →
      s.file.Refreshed → text.value = s.file.content.value
  | _ => True

/-- Both.
Kind: D -/
def InForce (s : Settings num) (event : SettingsEvent num) : Prop := s.Exact event ∧ s.InOrder event

/-! ### What a read makes of the settings -/

/-- The copy of a value, where the names of its members are distinct.
Kind: L -/
theorem clone_of_proper {v : JsonValue N} (hv : v.Proper) : clone num v = v.clone num := by
  cases v with
  | arr items => rw [clone, JsonValue.parse_stringify hv, Option.getD_some, JsonValue.clone]
  | obj members => rw [clone, JsonValue.parse_stringify hv, Option.getD_some, JsonValue.clone]
  | _ => rfl

/-- A read replaces the settings by a copy of what its text says.
Kind: P -/
theorem loaded_raw (data : JsonValue N) (text : JsonText num) :
    loaded num data text.raw = text.value.clone num := by
  unfold loaded
  rw [text.parse_raw]
  exact clone_of_proper (JsonValue.proper_of_parse text.parse_raw)

/-! ### What becomes of a write -/

/-- The last write is yet to be announced, or a read has been begun since.
Kind: D -/
def Announced (s : Settings num) : Prop :=
  s.owed = true ∨ s.raised ≠ [] ∨ s.timer = true ∨ ∃ r ∈ s.file.reads, r.since = s.file.version

variable {s : Settings num}

theorem announced_loadFile (s : Settings num) : s.loadFile.Announced :=
  Or.inr (Or.inr (Or.inr ⟨_, List.mem_append_right _ (List.mem_singleton_self _), rfl⟩))

theorem onWatchEvent_eq (s : Settings num) (eventType : WatchEvent) :
    s.onWatchEvent eventType = { s with timer := true } := by
  cases eventType <;> rfl

/-- Every event keeps it.
Kind: P -/
theorem Announced.step (h : s.Announced) (event : SettingsEvent num) : (s.step event).Announced := by
  cases event with
  | write text => exact Or.inl rfl
  | raise eventType => exact Or.inr (Or.inl (List.append_ne_nil_of_right_ne_nil _ (List.cons_ne_nil _ _)))
  | handle =>
      unfold Settings.step
      dsimp only
      split
      · exact h
      · rw [onWatchEvent_eq]
        exact Or.inr (Or.inr (Or.inl rfl))
  | fire =>
      unfold Settings.step
      dsimp only
      split
      · exact announced_loadFile _
      · exact h
  | sighup => exact announced_loadFile s
  | reload => exact announced_loadFile s
  | complete k v =>
      unfold Settings.step
      dsimp only
      split
      · exact h
      · rename_i file text hc
        rcases h with howed | hraised | htimer | ⟨r, hr, hsince⟩
        · exact Or.inl howed
        · exact Or.inr (Or.inl hraised)
        · exact Or.inr (Or.inr (Or.inl htimer))
        · refine Or.inr (Or.inr (Or.inr ?_))
          obtain ⟨j, hj⟩ := List.mem_iff_getElem?.mp hr
          show ∃ r ∈ file.reads, r.since = file.version
          rw [ReadCell.version_of_complete hc, ← hsince]
          by_cases hjk : j = k
          · subst hjk
            obtain ⟨since, hold, hnew⟩ := ReadCell.reads_of_complete_self hc
            rw [hj] at hold
            rw [Option.some.inj hold]
            exact ⟨_, List.mem_of_getElem? hnew, rfl⟩
          · refine ⟨r, ?_, rfl⟩
            exact List.mem_of_getElem? ((ReadCell.reads_of_complete hc hjk).trans hj)

/-- When nothing is pending, the file has been read since it was last written.
Kind: P -/
theorem Announced.refreshed (h : s.Announced) (hq : s.Quiescent) : s.file.Refreshed := by
  rcases h with howed | hraised | htimer | ⟨r, hr, hsince⟩
  · rw [hq.owed] at howed
    exact nomatch howed
  · exact absurd hq.raised hraised
  · rw [hq.timer] at htimer
    exact nomatch htimer
  · exact ⟨r, hr, hsince, hq.reads r hr⟩

/-! ### The settings once the file has been read -/

/-- Once the file has been read since it was last written, the settings are what it says.
Kind: D -/
structure Current (s : Settings num) : Prop where
  /-- The reads were begun under contents that the file has had. -/
  counted : s.file.Counted
  /-- The settings are those of the file. -/
  upToDate : s.file.Refreshed → s.UpToDate

theorem Current.loadFile (h : s.Current) : s.loadFile.Current where
  counted := h.counted.start
  upToDate hread := h.upToDate (ReadCell.refreshed_of_start hread)

section Complete

variable {k v : ℕ} {file : ReadCell (JsonText num)} {text : JsonText num}

theorem step_complete (hc : s.file.complete k v = some (file, text)) :
    s.step (.complete k v) = { s with file := file, data := text.value.clone num } := by
  unfold step
  dsimp only
  rw [hc]
  dsimp only
  rw [loaded_raw]

/-- A read that was begun since the last write returns what the file says.
Kind: L -/
theorem inOrder_of_since (hk : s.file.reads[k]? = some ⟨s.file.version, none⟩) : s.InOrder (.complete k v) :=
  fun _ _ hc _ => congrArg JsonText.value (ReadCell.eq_content_of_complete hc hk)

/-- Until such a read has ended, every read may end.
Kind: L -/
theorem inOrder_of_not_refreshed (h : ¬ s.file.Refreshed) (event : SettingsEvent num) : s.InOrder event := by
  cases event with
  | complete k v => exact fun _ _ _ hread => absurd hread h
  | write | raise | handle | fire | sighup | reload => exact trivial

/-- A read in force that ends keeps the settings current: it was begun since the last write, or else it
returns what the file says when another one was.
Kind: P -/
theorem Current.complete (h : s.Current) (hc : s.file.complete k v = some (file, text))
    (hforce : s.InForce (.complete k v)) : (s.step (.complete k v)).Current := by
  have hcopy := hforce.1 file text hc
  rw [step_complete hc]
  refine ⟨h.counted.complete hc, fun hread => ?_⟩
  have hcontent : text.value = s.file.content.value := by
    rcases ReadCell.refreshed_of_complete hc hread with hbefore | htext
    · exact hforce.2 file text hc hbefore
    · exact congrArg JsonText.value htext
  show text.value.clone num = file.content.value
  rw [hcopy, hcontent, ReadCell.content_of_complete hc]

end Complete

/-- So does every event.
Kind: P -/
theorem Current.step (h : s.Current) {event : SettingsEvent num} (hforce : s.InForce event) :
    (s.step event).Current := by
  cases event with
  | write text => exact ⟨h.counted.write text, fun hread => absurd hread (h.counted.not_refreshed_write text)⟩
  | raise eventType => exact ⟨h.counted, h.upToDate⟩
  | handle =>
      unfold Settings.step
      dsimp only
      split
      · exact h
      · rw [onWatchEvent_eq]
        exact ⟨h.counted, h.upToDate⟩
  | fire =>
      unfold Settings.step
      dsimp only
      split
      · exact Current.loadFile ⟨h.counted, h.upToDate⟩
      · exact h
  | sighup => exact h.loadFile
  | reload => exact h.loadFile
  | complete k v =>
      cases hc : s.file.complete k v with
      | some r => exact h.complete hc hforce
      | none =>
          have hsame : s.step (.complete k v) = s := by
            unfold Settings.step
            dsimp only
            rw [hc]
          rwa [hsame]

/-! ### Runs -/

theorem current_watch (initial : JsonValue N) (text : JsonText num) : (watch initial text).Current := by
  apply Current.loadFile
  exact ⟨fun _ hr => absurd hr List.not_mem_nil, fun ⟨_, hr, _⟩ => absurd hr List.not_mem_nil⟩

/-- **Settings converge where every read is in force**: in every state of a run from `watch` in which nothing is
pending they are those of the file.
Kind: P -/
theorem converged_of_inForce (initial : JsonValue N) (text : JsonText num) {events : List (SettingsEvent num)}
    (h : EachStep step InForce (watch initial text) events) :
    ∀ l₁ l₂, l₁ ++ l₂ = events → (runFrom step (watch initial text) l₁).Converged := by
  rintro l₁ l₂ rfl
  have hrun := invariant_run (I := fun s : Settings num => s.Announced ∧ s.Current)
    (fun s event hs he => ⟨hs.1.step event, hs.2.step he⟩) ⟨announced_loadFile _, current_watch initial text⟩
    (eachStep_append.mp h).1
  exact fun hq => hrun.2.upToDate (hrun.1.refreshed hq)

/-- Settings of the one or the other kind.
Kind: D -/
def enabledText (b : Bool) : JsonText Numerals.nat.toNumberTexts :=
  .ofValue Numerals.nat (.obj [(js "enabled", .bool b)]) ⟨List.nodup_singleton _, trivial, trivial⟩

/-- The text is copied as it is, as every text of natural numbers.
Kind: L -/
theorem clone_nat (v : JsonValue ℕ) : v.clone Numerals.nat.toNumberTexts = v :=
  JsonValue.clone_of_copy_eq (JsonValue.copy_eq_self Numerals.nat v)

/-- A reload is begun, the file is written, and what the watch event brings about begins another read.
Kind: D -/
def slowReload : List (SettingsEvent Numerals.nat.toNumberTexts) :=
  [.complete 0 0, .reload, .write (enabledText true), .raise .change, .handle, .fire]

/-- The file then. Both reads are outstanding.
Kind: D -/
def slowFile : ReadCell (JsonText Numerals.nat.toNumberTexts) :=
  ⟨enabledText false, [enabledText true], [⟨0, some 0⟩, ⟨0, none⟩, ⟨1, none⟩]⟩

theorem runFrom_slowReload : ∃ data, runFrom step (watch (.obj []) (enabledText false)) slowReload =
    ⟨data, slowFile, false, [], false⟩ := ⟨_, rfl⟩

theorem not_refreshed_slowFile : ¬ slowFile.Refreshed := by decide

/-- Both have ended.
Kind: L -/
theorem quiescent_ended (data : JsonValue ℕ) :
    Quiescent ⟨data, { slowFile with reads := [⟨0, some 0⟩, ⟨0, some 0⟩, ⟨1, some 1⟩] }, false, [], false⟩ := by
  refine ⟨rfl, rfl, rfl, ?_⟩
  show ∀ r ∈ [⟨0, some 0⟩, ⟨0, some 0⟩, ⟨1, some 1⟩], CellRead.returned r ≠ none
  decide

/-- The reload ends first, with what the file held when it was begun, and then the other read.
Kind: C -/
theorem converged_of_inForce_slowReload :
    (runFrom step (watch (.obj []) (enabledText false))
      (slowReload ++ [.complete 1 0, .complete 2 1])).UpToDate := by
  obtain ⟨data, hbefore⟩ := runFrom_slowReload
  have hforce : EachStep step InForce (watch (.obj []) (enabledText false))
      (slowReload ++ [.complete 1 0, .complete 2 1]) := by
    refine eachStep_append.mpr ⟨⟨⟨?_, ?_⟩, ?_⟩, ?_⟩
    · exact fun _ _ _ => clone_nat _
    · exact inOrder_of_not_refreshed (by decide) _
    · exact eachStep_of_forall (by simp [Exact, InOrder, InForce])
    · rw [hbefore]
      exact ⟨⟨fun _ _ _ => clone_nat _, inOrder_of_not_refreshed not_refreshed_slowFile _⟩,
        ⟨fun _ _ _ => clone_nat _, inOrder_of_since rfl⟩, trivial⟩
  apply converged_of_inForce (.obj []) (enabledText false) hforce _ [] (List.append_nil _)
  rw [runFrom_append, hbefore]
  exact quiescent_ended _

/-- The reload ends after the other read.
Kind: P -/
theorem not_converged_slowReload :
    ¬ ∀ events : List (SettingsEvent Numerals.nat.toNumberTexts),
      (runFrom step (watch (.obj []) (enabledText false)) events).Converged := by
  intro h
  obtain ⟨data, hbefore⟩ := runFrom_slowReload
  have hconv := h (slowReload ++ [.complete 2 1, .complete 1 0])
  obtain ⟨between, hafter⟩ : ∃ between, runFrom step ⟨data, slowFile, false, [], false⟩
      [.complete 2 1, .complete 1 0] = ⟨loaded Numerals.nat.toNumberTexts between (enabledText false).raw,
        { slowFile with reads := [⟨0, some 0⟩, ⟨0, some 0⟩, ⟨1, some 1⟩] }, false, [], false⟩ := ⟨_, rfl⟩
  rw [runFrom_append, hbefore, hafter, loaded_raw, clone_nat] at hconv
  have hup : (enabledText false).value = (enabledText true).value := hconv (quiescent_ended _)
  simp [enabledText, JsonText.ofValue] at hup

/-! ### Reads that end in turn -/

/-- The event is not the end of a read before which another one has been begun and not ended.
Kind: D -/
def EndsInTurn (s : Settings num) : SettingsEvent num → Prop
  | .complete k _ => ∀ j < k, ∀ r, s.file.reads[j]? = some r → r.returned ≠ none
  | _ => True

theorem inTurn_step (h : s.file.InTurn) {event : SettingsEvent num} (hturn : s.EndsInTurn event) :
    (s.step event).file.InTurn := by
  cases event with
  | write text => exact h.write text
  | raise eventType => exact h
  | handle =>
      unfold Settings.step
      dsimp only
      split
      · exact h
      · rw [onWatchEvent_eq]
        exact h
  | fire =>
      unfold Settings.step
      dsimp only
      split
      · exact h.start
      · exact h
  | sighup => exact h.start
  | reload => exact h.start
  | complete k v =>
      unfold Settings.step
      dsimp only
      split
      · exact h
      · rename_i file text hc
        exact h.complete hc hturn

/-- A read that ends in turn returns what the file says once another read has.
Kind: P -/
theorem inOrder_of_inTurn (h : s.file.InTurn) (event : SettingsEvent num) : s.InOrder event := by
  cases event with
  | complete k v =>
      intro file text hc hread
      obtain ⟨since, hk, -⟩ := ReadCell.reads_of_complete_self hc
      obtain ⟨r, hr, hsince, hended⟩ := hread
      have heq : since = s.file.version :=
        h.since_eq hr (List.mem_of_getElem? hk) hsince hended rfl
      rw [heq] at hk
      exact inOrder_of_since hk file text hc ⟨r, hr, hsince, hended⟩
  | write | raise | handle | fire | sighup | reload => exact trivial

/-- **Reads that end in the order in which they were begun keep the settings up to date**, where the texts are
copied as they are.
Kind: P -/
theorem converged_of_inTurn (initial : JsonValue N) (text : JsonText num)
    {events : List (SettingsEvent num)}
    (hturn : EachStep step (fun s event => s.EndsInTurn event ∧ s.Exact event) (watch initial text) events) :
    (runFrom step (watch initial text) events).Converged := by
  have hfirst : (watch initial text).file.InTurn :=
    ReadCell.InTurn.start ⟨fun _ hr => absurd hr List.not_mem_nil, List.Pairwise.nil⟩
  have hrun := invariant_run
    (I := fun s : Settings num => s.Announced ∧ s.file.InTurn ∧ s.Current)
    (fun s event hs he => ⟨hs.1.step event, inTurn_step hs.2.1 he.1,
      hs.2.2.step ⟨he.2, inOrder_of_inTurn hs.2.1 event⟩⟩)
    ⟨announced_loadFile _, hfirst, current_watch initial text⟩ hturn
  exact fun hq => hrun.2.2.upToDate (hrun.1.refreshed hq)

end Settings

end TyoMq.Config
