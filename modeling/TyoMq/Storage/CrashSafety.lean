import TyoMq.Storage.Commands
import TyoMq.Storage.Doubles
import TyoMq.Storage.RedisFiling

/-!
# Durable messages: giving a message up, interrupted

`deadLetter` of the SQLite and the Redis store, stopped after any of its statements or commands and run
again.

* The message is never in neither place (`RedisStore.Underway.somewhere`).
* Run again, SQLite ends with one dead letter exactly when the id has no U+0000, at which it would be cut
  in the dead letter, and the expiry of the message can be read, without which nothing is given up
  (`SQLiteStore.crashSafe_iff`).
* Redis does exactly when the id is not among the dead letters of another realm
  (`RedisStore.crashSafe_iff`): what is there under the id is overwritten, but both realms list it.
-/

namespace TyoMq.Storage

open TyoMq.Lib

variable {π : Type*}

/-! ### SQLite -/

namespace SQLiteStore

variable {T D : Type} [LinearOrder T] [Zero T] [Clock T D]

/-- The store before and after each statement.
Source: `lib/storage/sqlite.js`, `SQLiteStore.prototype.deadLetter`
Kind: D -/
def deadLetterStates (s : SQLiteStore π T) (now : T) (msgId reason : Text) :
    List (SQLiteStore π T) :=
  match s.found msgId with
  | none => [s, s]
  | some row =>
      match row.read with
      | none => [s, s]
      | some row =>
          let inserted : SQLiteStore π T :=
            { s with
              dlq := s.dlq.replaceWhere (fun d => d.entry.id = row.id) ⟨row, orNull reason, now⟩ }
          [s, s, inserted,
            { inserted with messages := s.messages.deleteWhere fun row => row.id = msgId }]

/-- The last one is what the operation leaves.
Kind: P -/
theorem getLast?_deadLetterStates (s : SQLiteStore π T) (now : T) (msgId reason : Text) :
    (s.deadLetterStates now msgId reason).getLast? = some (s.deadLetter now msgId reason).1 := by
  rw [deadLetterStates, deadLetter, ← found]
  rcases s.found msgId with _ | row
  · rfl
  · dsimp only
    rcases row.read with _ | row
    · rfl
    · rfl

/-- The id has one dead letter and no message.
Kind: D -/
def OnlyDead (s : SQLiteStore π T) (msgId : Text) : Prop :=
  (∃ d, s.dlq.scan.filter (fun d => d.entry.id = msgId) = [d]) ∧
    ∀ e ∈ s.messages.scan, e.id ≠ msgId

/-- Stopped anywhere, the message is still somewhere, and run again, it is given up once.
Kind: D -/
def CrashSafe (s : SQLiteStore π T) (msgId : Text) : Prop :=
  ∀ e ∈ s.messages.scan, e.id = msgId → ∀ now reason, ∀ cut ∈ s.deadLetterStates now msgId reason,
    ((∃ e ∈ cut.messages.scan, e.id = msgId) ∨ ∃ d ∈ cut.dlq.scan, d.entry.id = msgId) ∧
      ∀ now' reason', (cut.deadLetter now' msgId reason').1.OnlyDead msgId

/-- Can the message with the id be given up under its id?
Kind: D -/
def Fileable (s : SQLiteStore π T) (msgId : Text) : Prop :=
  ∀ row ∈ s.found msgId, 0 ∉ msgId ∧ row.readable = true

instance (s : SQLiteStore π T) (msgId : Text) : Decidable (s.Fileable msgId) :=
  inferInstanceAs (Decidable (∀ row ∈ s.found msgId, _))

/-- The dead letters have been read before they were filed.
Kind: D -/
def LettersCut (s : SQLiteStore π T) : Prop := ∀ d ∈ s.dlq.scan, 0 ∉ d.entry.id

variable {s : SQLiteStore π T} {msgId : Text}

omit [LinearOrder T] [Zero T] in
theorem found_ne_none (h : ∃ e ∈ s.messages.scan, e.id = msgId) : ∃ row, s.found msgId = some row := by
  obtain ⟨e, he, hid⟩ := h
  rw [← Option.ne_none_iff_exists', found, ne_eq, List.find?_eq_none]
  exact fun hall => hall e he (decide_eq_true hid)

omit [LinearOrder T] [Zero T] in
theorem id_of_found {row : Entry π T} (h : s.found msgId = some row) : row.id = msgId := by
  simpa using List.find?_some h

/-- A row that is read keeps its id when that has no U+0000.
Kind: L -/
theorem read_of_fileable {row : Entry π T} (hrow : s.found msgId = some row) (h : s.Fileable msgId) :
    row.read = some row.cut ∧ row.cut.id = msgId := by
  obtain ⟨hzero, hreadable⟩ := h row hrow
  refine ⟨if_pos hreadable, ?_⟩
  show Sqlite.cut row.id = msgId
  rw [id_of_found hrow, Sqlite.cut_eq_self_iff.mpr hzero]

/-- Giving up a message that is there leaves one dead letter.
Kind: L -/
theorem onlyDead_deadLetter (now : T) (reason : Text) (h : ∃ e ∈ s.messages.scan, e.id = msgId)
    (hfile : s.Fileable msgId) : (s.deadLetter now msgId reason).1.OnlyDead msgId := by
  obtain ⟨row, hrow⟩ := found_ne_none h
  obtain ⟨hread, hid⟩ := read_of_fileable hrow hfile
  rw [deadLetter, ← found, hrow]
  dsimp only
  rw [hread]
  dsimp only
  refine ⟨⟨⟨row.cut, orNull reason, now⟩, ?_⟩, fun e he => ?_⟩
  · rw [RowTable.scan_replaceWhere, List.filter_append, List.filter_filter, hid]
    have hnone : (s.dlq.scan.filter fun d =>
        decide (d.entry.id = msgId) && !decide (d.entry.id = msgId)) = [] := by
      rw [List.filter_eq_nil_iff]
      simp
    rw [hnone]
    simp [hid]
  · rw [RowTable.scan_deleteWhere] at he
    simpa using (List.mem_filter.mp he).2

/-- A message that has been given up once is not given up again.
Kind: L -/
theorem OnlyDead.deadLetter (h : s.OnlyDead msgId) (now : T) (reason : Text) :
    (s.deadLetter now msgId reason).1.OnlyDead msgId := by
  have hnone : s.found msgId = none := by
    rw [found, List.find?_eq_none]
    exact fun e he hid => h.2 e he (of_decide_eq_true hid)
  rw [SQLiteStore.deadLetter, ← found, hnone]
  exact h

/-- A message that cannot be given up under its id has no dead letter afterwards.
Kind: L -/
theorem not_onlyDead_deadLetter {row : Entry π T} (hrow : s.found msgId = some row)
    (hcut : s.LettersCut) (h : ¬ (0 ∉ msgId ∧ row.readable = true)) (now : T) (reason : Text) :
    ¬ (s.deadLetter now msgId reason).1.OnlyDead msgId := by
  rintro ⟨⟨d, hd⟩, hgone⟩
  have hmem := List.mem_filter.mp (hd ▸ List.mem_singleton_self d)
  have hid : d.entry.id = msgId := of_decide_eq_true hmem.2
  rw [deadLetter, ← found, hrow] at hmem hgone
  dsimp only at hmem hgone
  by_cases hreadable : row.readable = true
  · have hzero : 0 ∈ msgId := by
      by_contra hnot
      exact h ⟨hnot, hreadable⟩
    rw [show row.read = some row.cut from if_pos hreadable, RowTable.scan_replaceWhere,
      List.mem_append, List.mem_singleton] at hmem
    rcases hmem.1 with hold | rfl
    · exact hcut d (List.mem_of_mem_filter hold) (hid ▸ hzero)
    · have hcutid : Sqlite.cut row.id = msgId := hid
      rw [← hcutid] at hzero
      exact Sqlite.zero_not_mem_cut row.id hzero
  · -- nothing has happened
    rw [show row.read = none from if_neg hreadable] at hgone
    exact hgone row (List.mem_of_find?_eq_some hrow) (id_of_found hrow)

/-- **SQLite is crash safe** exactly for the ids under which their messages can be given up.
Kind: P -/
theorem crashSafe_iff (hcut : s.LettersCut) (msgId : Text) : s.CrashSafe msgId ↔ s.Fileable msgId := by
  constructor
  · intro hsafe row hrow
    have hmem := List.mem_of_find?_eq_some hrow
    have hfirst : s ∈ s.deadLetterStates 0 msgId [] := by
      rw [deadLetterStates, hrow]
      dsimp only
      rcases row.read with _ | row
      · exact List.mem_cons_self ..
      · exact List.mem_cons_self ..
    by_contra hnot
    exact not_onlyDead_deadLetter hrow hcut hnot 0 []
      ((hsafe row hmem (id_of_found hrow) 0 [] s hfirst).2 0 [])
  · intro hfile e he hid now reason cut hmem
    have hthere : ∃ e ∈ s.messages.scan, e.id = msgId := ⟨e, he, hid⟩
    obtain ⟨row, hrow⟩ := found_ne_none hthere
    obtain ⟨hread, hrowid⟩ := read_of_fileable hrow hfile
    have hlast := onlyDead_deadLetter now reason hthere hfile
    rw [deadLetter, ← found, hrow] at hlast
    rw [deadLetterStates, hrow] at hmem
    dsimp only at hlast hmem
    rw [hread] at hlast hmem
    simp only [List.mem_cons, List.not_mem_nil, or_false] at hmem
    rcases hmem with rfl | rfl | rfl | rfl
    · exact ⟨Or.inl hthere, fun now' reason' => onlyDead_deadLetter now' reason' hthere hfile⟩
    · exact ⟨Or.inl hthere, fun now' reason' => onlyDead_deadLetter now' reason' hthere hfile⟩
    · exact ⟨Or.inl hthere, fun now' reason' => onlyDead_deadLetter now' reason' hthere hfile⟩
    · refine ⟨Or.inr ?_, fun now' reason' => hlast.deadLetter now' reason'⟩
      obtain ⟨⟨d, hd⟩, -⟩ := hlast
      have hletter := List.mem_filter.mp (hd ▸ List.mem_singleton_self d)
      exact ⟨d, hletter.1, of_decide_eq_true hletter.2⟩

/-- What is filed has been read.
Kind: L -/
theorem LettersCut.step (h : s.LettersCut) (defaultTtl : D) (c : Call π T D) :
    ((store defaultTtl).step s c).LettersCut := by
  obtain ⟨now, op⟩ := c
  cases op with
  | enqueue realm event message generated =>
      show LettersCut (s.enqueue defaultTtl now realm event message generated).1
      rw [enqueue]
      split_ifs <;> exact h
  | deadLetter msgId reason =>
      show LettersCut (s.deadLetter now msgId reason).1
      rw [deadLetter, ← found]
      rcases s.found msgId with _ | row
      · exact h
      · dsimp only
        by_cases hreadable : row.readable = true
        · rw [show row.read = some row.cut from if_pos hreadable]
          intro d hd
          rw [RowTable.scan_replaceWhere, List.mem_append, List.mem_singleton] at hd
          rcases hd with hold | rfl
          · exact h d (List.mem_of_mem_filter hold)
          · exact Sqlite.zero_not_mem_cut row.id
        · rw [show row.read = none from if_neg hreadable]
          exact h
  | discardDlq msgId =>
      intro d hd
      change d ∈ (s.discardDlq msgId).dlq.scan at hd
      rw [discardDlq, RowTable.scan_deleteWhere] at hd
      exact h d (List.mem_of_mem_filter hd)
  | purgeRealm realm =>
      intro d hd
      change d ∈ (s.purgeRealm realm).1.dlq.scan at hd
      rw [purgeRealm, RowTable.scan_deleteWhere] at hd
      exact h d (List.mem_of_mem_filter hd)
  | dequeue | ack | listDlq | countQueued => exact h

theorem lettersCut_run (defaultTtl : D) (calls : List (Call π T D)) :
    ((store defaultTtl).run calls).LettersCut := by
  induction calls using List.reverseRecOn with
  | nil => exact fun d hd => absurd hd List.not_mem_nil
  | append_singleton calls c ih =>
      rw [Store.run_append]
      exact ih.step defaultTtl c

end SQLiteStore

/-! ### Redis -/

namespace RedisStore

variable {db db' : RedisStore π} {T : ℤ} {raw : Written π} {id : Text}

/-- The message can be had from its queue.
Kind: D -/
def InQueue (db : RedisStore π) (now : ℤ) (raw : Written π) (id : Text) : Prop :=
  db.get now (.message id) = some raw ∧ id ∈ db.zrange (indexOf raw.entry)

/-- It is a dead letter of its realm.
Kind: D -/
def InDlq (db : RedisStore π) (raw : Written π) (id : Text) : Prop :=
  (∃ dead, ∀ now, db.get now (.dlqMessage id) = some ⟨raw.entry, some dead⟩) ∧
    id ∈ db.zrange (.dlqIndex raw.entry.realm)

/-- What holds at each command of `deadLetter`, started once or again, for a message that does not expire
meanwhile.
Kind: D -/
def Underway (T : ℤ) (raw : Written π) (id : Text) (db : RedisStore π) : Task π → Prop
  | .deadGet msgId _ =>
      msgId = id ∧ (db.get T (.message id) = some raw ∨
        (∀ now, db.get now (.message id) = none) ∧ InDlq db raw id)
  | .deadSet dlqEntry msgId =>
      msgId = id ∧ dlqEntry.entry = raw.entry ∧ dlqEntry.dead ≠ none ∧
        db.get T (.message id) = some raw
  | .deadAdd realm _ msgId =>
      msgId = id ∧ realm = raw.entry.realm ∧ db.get T (.message id) = some raw ∧
        ∃ dead, ∀ now, db.get now (.dlqMessage id) = some ⟨raw.entry, some dead⟩
  | .ackGet msgId | .ackDel msgId =>
      msgId = id ∧ db.get T (.message id) = some raw ∧ InDlq db raw id
  | .ackRem indexKey msgId =>
      msgId = id ∧ indexKey = indexOf raw.entry ∧ db.get T (.message id) = some raw ∧ InDlq db raw id
  | .done => (∀ now, db.get now (.message id) = none) ∧ InDlq db raw id
  | _ => False

/-- A dead letter is not touched by what happens to other keys.
Kind: L -/
theorem InDlq.of_same (h : InDlq db raw id) (hletter : Redis.SameAt db db' (.dlqMessage id))
    (hindex : Redis.SameAt db db' (.dlqIndex raw.entry.realm)) : InDlq db' raw id := by
  obtain ⟨⟨dead, hdead⟩, hin⟩ := h
  refine ⟨⟨dead, fun now => (hletter.get now).trans (hdead now)⟩, ?_⟩
  rwa [Redis.zrange, hindex.zset]

/-- A dead letter stays one when it is written again.
Kind: L -/
theorem InDlq.set (h : InDlq db raw id) {dlqEntry : Written π} (hentry : dlqEntry.entry = raw.entry)
    (hdead : dlqEntry.dead ≠ none) : InDlq (db.set (.dlqMessage id) dlqEntry) raw id := by
  obtain ⟨-, hin⟩ := h
  obtain ⟨entry, dead⟩ := dlqEntry
  obtain ⟨dead, rfl⟩ := Option.ne_none_iff_exists'.mp hdead
  dsimp only at hentry
  subst hentry
  refine ⟨⟨dead, fun now => Redis.get_set_self⟩, ?_⟩
  rwa [Redis.zrange, Redis.zset_set_of_ne (by simp)]

namespace Underway

variable {task : Task π}

/-- The keys of a message and of its dead letter.
Kind: D -/
def touched (raw : Written π) (id : Text) : List Key :=
  [.message id, indexOf raw.entry, .dlqMessage id, .dlqIndex raw.entry.realm]

/-- A command keeps all this, and touches no other keys.
Kind: P -/
theorem step (h : Underway T raw id db task) {now : ℤ} (hle : now ≤ T) :
    Underway T raw id (task.step now db).1 (task.step now db).2 ∧
      ∀ k ∉ touched raw id, Redis.SameAt db (task.step now db).1 k := by
  cases task with
  | deadGet msgId reason =>
      obtain ⟨rfl, hthere | ⟨hgone, hdlq⟩⟩ := h
      · have hget := Redis.get_mono hle hthere
        simp only [Task.step, hget]
        exact ⟨⟨rfl, rfl, Option.some_ne_none _, hthere⟩, fun k _ => Redis.SameAt.refl db k⟩
      · simp only [Task.step, hgone now]
        exact ⟨⟨hgone, hdlq⟩, fun k _ => Redis.SameAt.refl db k⟩
  | deadSet dlqEntry msgId =>
      obtain ⟨rfl, hentry, hdead, hthere⟩ := h
      obtain ⟨entry, dead⟩ := dlqEntry
      obtain ⟨dead, rfl⟩ := Option.ne_none_iff_exists'.mp hdead
      dsimp only at hentry
      subst hentry
      refine ⟨⟨rfl, rfl, ?_, dead, fun now => Redis.get_set_self⟩, fun k hk => ?_⟩
      · rwa [Task.step, Redis.get_set_of_ne (by simp)]
      · exact Redis.SameAt.set db (fun heq => hk (by simp [touched, heq])) _
  | deadAdd realm score msgId =>
      obtain ⟨rfl, rfl, hthere, dead, hdead⟩ := h
      refine ⟨⟨rfl, hthere, ⟨dead, hdead⟩, Redis.mem_zrange_zadd.mpr (Or.inl ⟨rfl, rfl⟩)⟩,
        fun k hk => ?_⟩
      exact Redis.SameAt.zadd db (fun heq => hk (by simp [touched, heq])) _ _
  | ackGet msgId =>
      obtain ⟨rfl, hthere, hdlq⟩ := h
      have hget := Redis.get_mono hle hthere
      simp only [Task.step, hget]
      exact ⟨⟨rfl, rfl, hthere, hdlq⟩, fun k _ => Redis.SameAt.refl db k⟩
  | ackRem indexKey msgId =>
      obtain ⟨rfl, rfl, hthere, hdlq⟩ := h
      refine ⟨⟨rfl, ?_, hdlq.of_same ?_ ?_⟩, fun k hk => ?_⟩
      · rwa [Task.step, Redis.get_zrem]
      · exact Redis.SameAt.zrem db (by simp [indexOf]) _
      · exact Redis.SameAt.zrem db (by simp [indexOf]) _
      · exact Redis.SameAt.zrem db (fun heq => hk (by simp [touched, heq])) _
  | ackDel msgId =>
      obtain ⟨rfl, hthere, hdlq⟩ := h
      refine ⟨⟨fun now => Redis.get_del_self, hdlq.of_same ?_ ?_⟩, fun k hk => ?_⟩
      · exact Redis.SameAt.del db (by simp)
      · exact Redis.SameAt.del db (by simp)
      · exact Redis.SameAt.del db fun heq => hk (by simp [touched, heq])
  | done => exact ⟨h, fun k _ => Redis.SameAt.refl db k⟩
  | enqueueSet | enqueueExpire | enqueueAdd | discardGet | discardDel | discardRem | count =>
      exact h.elim

/-- A command leaves the message somewhere.
Kind: L -/
theorem somewhere_step (h : Underway T raw id db task) {now : ℤ} (hle : now ≤ T)
    (hsomewhere : InQueue db T raw id ∨ InDlq db raw id) :
    InQueue (task.step now db).1 T raw id ∨ InDlq (task.step now db).1 raw id := by
  have hnext := (h.step hle).1
  cases task with
  | deadGet msgId reason => exact hsomewhere
  | deadSet dlqEntry msgId =>
      obtain ⟨rfl, hentry, hdead, hthere⟩ := h
      rcases hsomewhere with ⟨-, hin⟩ | hdlq
      · have hindex : Redis.SameAt db (db.set (.dlqMessage msgId) dlqEntry) (indexOf raw.entry) :=
          Redis.SameAt.set db (by simp [indexOf]) dlqEntry
        refine Or.inl ⟨hnext.2.2.1, ?_⟩
        rwa [Task.step, Redis.zrange, hindex.zset]
      · exact Or.inr (hdlq.set hentry hdead)
  | deadAdd realm score msgId => exact Or.inr hnext.2.2
  | ackGet msgId =>
      obtain ⟨rfl, hthere, hdlq⟩ := h
      exact Or.inr hdlq
  | ackRem indexKey msgId => exact Or.inr hnext.2.2
  | ackDel msgId => exact Or.inr hnext.2
  | done => exact Or.inr hnext.2
  | enqueueSet | enqueueExpire | enqueueAdd | discardGet | discardDel | discardRem | count =>
      exact h.elim

/-- After any number of commands, the message is somewhere, and no other keys are touched.
Kind: P -/
theorem run (h : Underway T raw id db task) {times : List ℤ} (hle : ∀ now ∈ times, now ≤ T) :
    Underway T raw id (Task.run (db, task) times).1 (Task.run (db, task) times).2 ∧
      (∀ k ∉ touched raw id, Redis.SameAt db (Task.run (db, task) times).1 k) ∧
      (InQueue db T raw id ∨ InDlq db raw id →
        InQueue (Task.run (db, task) times).1 T raw id ∨ InDlq (Task.run (db, task) times).1 raw id) := by
  induction times generalizing db task with
  | nil => exact ⟨h, fun k _ => Redis.SameAt.refl db k, fun hsomewhere => hsomewhere⟩
  | cons now times ih =>
      have hnow := hle now (List.mem_cons_self ..)
      obtain ⟨hnext, hsame⟩ := h.step hnow
      obtain ⟨hlast, hsame', hsomewhere⟩ := ih hnext fun now' h' => hle now' (List.mem_cons_of_mem _ h')
      rw [Task.run_cons]
      refine ⟨hlast, fun k hk => (hsame k hk).trans (hsame' k hk), fun h' => hsomewhere ?_⟩
      exact h.somewhere_step hnow h'

/-- The operation may be started again at any time.
Kind: L -/
theorem restart (h : Underway T raw id db task) (reason : Text) :
    Underway T raw id db (.deadGet id reason) := by
  refine ⟨rfl, ?_⟩
  cases task with
  | deadGet msgId reason => exact h.2
  | deadSet dlqEntry msgId => exact Or.inl h.2.2.2
  | deadAdd realm score msgId => exact Or.inl h.2.2.1
  | ackGet msgId => exact Or.inl h.2.1
  | ackRem indexKey msgId => exact Or.inl h.2.2.1
  | ackDel msgId => exact Or.inl h.2.1
  | done => exact Or.inr h
  | enqueueSet | enqueueExpire | enqueueAdd | discardGet | discardDel | discardRem | count =>
      exact h.elim

end Underway

/-! ### What is left -/

/-- The dead letters that a realm lists under an id.
Kind: D -/
def lettersOf (db : RedisStore π) (now : ℤ) (realm id : Text) : List (DeadLetter π) :=
  (listDlq db now (some realm)).2.filter fun d => d.entry.id = id

/-- One realm lists one dead letter with the id, and no queue has a message with it.
Kind: D -/
def OnlyDead (db : RedisStore π) (now : ℤ) (id : Text) : Prop :=
  (∃ realm d, lettersOf db now realm id = [d] ∧ ∀ r ≠ realm, lettersOf db now r id = []) ∧
    ∀ realm event consumer, ∀ e ∈ (dequeue db now realm event consumer).2, e.id ≠ id

/-- Stopped anywhere, the message is still somewhere, and run again, it is given up once.
Kind: D -/
def CrashSafe (db : RedisStore π) (T : ℤ) (raw : Written π) (id : Text) : Prop :=
  ∀ (reason reason' : Text) (times times' : List ℤ), (∀ now ∈ times ++ times', now ≤ T) →
    6 ≤ times'.length →
      let cut := (Task.run (db, .deadGet id reason) times).1
      let again := Task.run (cut, .deadGet id reason') times'
      (InQueue cut T raw id ∨ InDlq cut raw id) ∧ again.2 = .done ∧ OnlyDead again.1 T id

/-- What is found among distinct keys of which only one has it.
Kind: L -/
theorem filterMap_of_unique {α β : Type*} [BEq α] [LawfulBEq α] {l : List α} (hl : l.Nodup)
    {f : α → Option β} {p : β → Bool} {a : α} {b : β} (ha : f a = some b) (hb : p b = true)
    (hother : ∀ a' ≠ a, ∀ b' ∈ f a', p b' = false) :
    (l.filterMap f).filter p = if a ∈ l then [b] else [] := by
  induction l with
  | nil => rfl
  | cons a' l ih =>
      obtain ⟨ha', hl⟩ := List.nodup_cons.mp hl
      by_cases heq : a' = a
      · subst heq
        rw [List.filterMap_cons_some ha, List.filter_cons_of_pos hb, ih hl, if_neg ha',
          if_pos (List.mem_cons_self ..)]
      · have hmem : a ∈ a' :: l ↔ a ∈ l := by simp [Ne.symm heq]
        simp only [hmem]
        rcases hf : f a' with _ | b'
        · rw [List.filterMap_cons_none hf, ih hl]
        · have hb' := hother a' heq b' hf
          rw [List.filterMap_cons_some hf, List.filter_cons_of_neg (by simp [hb']), ih hl]

/-- A realm lists a dead letter once when it has the id, and otherwise not.
Kind: L -/
theorem lettersOf_eq {entry : Entry π} {dead : Option Text × ℤ} {now : ℤ}
    (hget : db.get now (.dlqMessage id) = some ⟨entry, some dead⟩) (hid : entry.id = id)
    (hother : ∀ id' ≠ id, ∀ raw, db.get now (.dlqMessage id') = some raw → raw.entry.id ≠ id)
    (realm : Text) :
    lettersOf db now realm id =
      if id ∈ db.zrange (.dlqIndex realm) then [⟨entry, dead.1, dead.2⟩] else [] := by
  rw [lettersOf, listDlq]
  simp only [Option.getD_some, List.filterMap_map]
  have hnodup : (db.zrange (.dlqIndex realm)).Nodup := (db.zset _).nodup
  apply filterMap_of_unique hnodup
  · rw [Function.comp_apply, hget]
    rfl
  · exact decide_eq_true hid
  · intro id' hne d hd
    obtain ⟨raw, hraw, hd⟩ := Option.bind_eq_some_iff.mp hd
    obtain ⟨_, -, rfl⟩ := Option.map_eq_some_iff.mp hd
    exact decide_eq_false (hother id' hne raw hraw)

/-- A message that has been given up, in a keyspace that is as it was otherwise.
Kind: L -/
theorem onlyDead_iff (hfiled : Filed T db) (hid : raw.entry.id = id) (hdlq : InDlq db' raw id)
    (hgone : ∀ now, db'.get now (.message id) = none)
    (hsame : ∀ k ∉ Underway.touched raw id, Redis.SameAt db db' k) :
    OnlyDead db' T id ↔ ∀ r ≠ raw.entry.realm, id ∉ db.zrange (.dlqIndex r) := by
  obtain ⟨⟨dead, hdead⟩, hin⟩ := hdlq
  have hletters := lettersOf_eq (hdead T) hid fun id' hne raw' hraw => by
    rw [(hsame (.dlqMessage id') (by simp [Underway.touched, indexOf, hne])).get] at hraw
    rw [(hfiled.letter T id' raw' hraw).1]
    exact hne
  have hindex : ∀ r ≠ raw.entry.realm, db'.zrange (.dlqIndex r) = db.zrange (.dlqIndex r) := by
    intro r hr
    rw [Redis.zrange, (hsame (.dlqIndex r) (by simp [Underway.touched, indexOf, hr])).zset,
      ← Redis.zrange]
  constructor
  · rintro ⟨⟨realm, d, -, hothers⟩, -⟩ r hr hmem
    have hlisted : ∀ r', id ∈ db'.zrange (.dlqIndex r') → r' = realm := by
      intro r' hin'
      by_contra hne
      have := hothers r' hne
      rw [hletters, if_pos hin'] at this
      exact absurd this (by simp)
    rw [← hindex r hr] at hmem
    exact hr ((hlisted r hmem).trans (hlisted _ hin).symm)
  · intro hnone
    refine ⟨⟨raw.entry.realm, ⟨raw.entry, dead.1, dead.2⟩, ?_, fun r hr => ?_⟩, ?_⟩
    · rw [hletters, if_pos hin]
    · rw [hletters, if_neg]
      rw [hindex r hr]
      exact hnone r hr
    · intro realm event consumer e he hide
      rw [dequeue] at he
      obtain ⟨answer, hanswer, hdeliver⟩ := List.mem_filterMap.mp he
      obtain ⟨id', -, rfl⟩ := List.mem_map.mp hanswer
      obtain ⟨hraw, -⟩ := Option.filter_eq_some_iff.mp hdeliver
      obtain ⟨raw', hraw', rfl⟩ := Option.map_eq_some_iff.mp hraw
      by_cases hne : id' = id
      · rw [hne, hgone] at hraw'
        exact absurd hraw' (by simp)
      · rw [(hsame (.message id') (by simp [Underway.touched, indexOf, hne])).get] at hraw'
        exact hne ((hfiled.message T (le_refl T) id' raw' hraw').1.symm.trans hide)

/-- **Redis is crash safe** exactly for ids that are not among the dead letters of another realm.
Kind: P -/
theorem crashSafe_iff (hfiled : Filed T db) (hget : db.get T (.message id) = some raw) :
    CrashSafe db T raw id ↔ ∀ r ≠ raw.entry.realm, id ∉ db.zrange (.dlqIndex r) := by
  obtain ⟨hid, hin⟩ := hfiled.message T (le_refl T) id raw hget
  have hstart : ∀ reason, Underway T raw id db (.deadGet id reason) := fun reason =>
    ⟨rfl, Or.inl hget⟩
  have hagain : ∀ (reason reason' : Text) (times times' : List ℤ),
      (∀ now ∈ times ++ times', now ≤ T) → 6 ≤ times'.length →
      let cut := (Task.run (db, .deadGet id reason) times).1
      let again := Task.run (cut, .deadGet id reason') times'
      (InQueue cut T raw id ∨ InDlq cut raw id) ∧ again.2 = .done ∧
        (OnlyDead again.1 T id ↔ ∀ r ≠ raw.entry.realm, id ∉ db.zrange (.dlqIndex r)) := by
    intro reason reason' times times' hle hlength cut again
    obtain ⟨hcut, hsame, hsomewhere⟩ := (hstart reason).run fun now h =>
      hle now (List.mem_append_left times' h)
    obtain ⟨hdone, hsame', -⟩ := (hcut.restart reason').run fun now h =>
      hle now (List.mem_append_right times h)
    have heq : again.2 = .done := Task.run_eq_done hlength
    rw [show (Task.run (cut, .deadGet id reason') times').2 = .done from heq] at hdone
    refine ⟨hsomewhere (Or.inl ⟨hget, hin⟩), heq, ?_⟩
    exact onlyDead_iff hfiled hid hdone.2 hdone.1 fun k hk => (hsame k hk).trans (hsame' k hk)
  constructor
  · intro hsafe
    have hle : ∀ now ∈ ([] : List ℤ) ++ [T, T, T, T, T, T], now ≤ T := by simp
    exact (hagain [] [] [] _ hle (by simp)).2.2.mp (hsafe [] [] [] _ hle (by simp)).2.2
  · intro hnone reason reason' times times' hle hlength
    obtain ⟨hsomewhere, hdone, honly⟩ := hagain reason reason' times times' hle hlength
    exact ⟨hsomewhere, hdone, honly.mpr hnone⟩

end RedisStore

/-! ### Runs -/

/-- **After any calls, giving a message up is crash safe** on SQLite exactly when it can be filed under its
id, and on Redis exactly when its id is not among the dead letters of another realm.
Kind: P -/
theorem crashSafe_run :
    (∀ (defaultTtl : Double) (calls : List (Call π Instant Double)) (id : Text),
      ((SQLiteStore.store defaultTtl).run calls).CrashSafe id ↔
        ((SQLiteStore.store defaultTtl).run calls).Fileable id) ∧
      ∀ (defaultTtl : Ttl) {calls : List (Call π)}, (calls.map Call.now).Pairwise (· ≤ ·) →
        ∀ {T : ℤ}, (∀ c ∈ calls, c.now ≤ T) → ∀ (id : Text) (raw : Written π),
          ((RedisStore.store defaultTtl).run calls).get T (.message id) = some raw →
            (RedisStore.CrashSafe ((RedisStore.store defaultTtl).run calls) T raw id ↔
              ∀ r ≠ raw.entry.realm,
                id ∉ ((RedisStore.store defaultTtl).run calls).zrange (.dlqIndex r)) := by
  constructor
  · intro defaultTtl calls id
    exact SQLiteStore.crashSafe_iff (SQLiteStore.lettersCut_run defaultTtl calls) id
  · intro defaultTtl calls hchron T hnow id raw hget
    exact RedisStore.crashSafe_iff (RedisStore.filed_run defaultTtl hchron hnow) hget

/-- Two realms use the same id, one after the other.
Kind: D -/
def sameId {T D : Type} (first second third : T) : List (Call ℕ T D) :=
  [⟨first, .enqueue (ascii "one") (ascii "tick") ⟨ascii "a", ascii "w", [], 1, [], none⟩ []⟩,
    ⟨second, .deadLetter (ascii "a") []⟩,
    ⟨third, .enqueue (ascii "two") (ascii "tick") ⟨ascii "a", ascii "w", [], 2, [], none⟩ []⟩]

/-- The second message.
Kind: D -/
def secondMessage : Written ℕ :=
  ⟨queued none 3 (ascii "two") (ascii "tick") ⟨ascii "a", ascii "w", [], 2, [], none⟩ [], none⟩

/-- SQLite gives it up safely, and Redis does not.
Kind: C -/
theorem crashSafe_run_sameId :
    ((SQLiteStore.store .infinity).run
        (sameId (millis 1) (millis 2) (millis 3))).CrashSafe
        (ascii "a") ∧
      ¬ RedisStore.CrashSafe ((RedisStore.store none).run (sameId 1 2 3)) 4 secondMessage (ascii "a") := by
  have hchron : ((sameId 1 2 3 : List (Call ℕ)).map Call.now).Pairwise (· ≤ ·) := by decide
  have hnow : ∀ c ∈ (sameId 1 2 3 : List (Call ℕ)), c.now ≤ 4 := by decide
  obtain ⟨hsqlite, hredis⟩ := crashSafe_run (π := ℕ)
  refine ⟨(hsqlite .infinity _ (ascii "a")).mpr (by decide +kernel), fun hsafe => ?_⟩
  have hnone := (hredis none hchron hnow (ascii "a") secondMessage rfl).mp hsafe (ascii "one") (by decide)
  exact absurd hnone (by decide)

/-- A message whose id has a U+0000.
Kind: D -/
def cutId : List (Call ℕ Instant Double) :=
  [⟨millis 1, .enqueue (ascii "one") (ascii "tick") ⟨[97, 0, 98], ascii "w", [], 1, [], none⟩ []⟩]

/-- Given up, the second message is listed by both realms of Redis, and the one with the U+0000 is not
under its id in SQLite.
Kind: P -/
theorem not_crashSafe_sameId :
    (((RedisStore.store none).run (sameId 1 2 3)).get 4 (.message (ascii "a")) = some secondMessage ∧
      ¬ RedisStore.CrashSafe ((RedisStore.store none).run (sameId 1 2 3)) 4 secondMessage
        (ascii "a")) ∧
    ¬ ((SQLiteStore.store .infinity).run cutId).CrashSafe [97, 0, 98] := by
  refine ⟨⟨rfl, fun hsafe => ?_⟩, fun hsafe => ?_⟩
  · obtain ⟨-, -, ⟨realm, d, -, hothers⟩, -⟩ :=
      hsafe [] [] [] [4, 4, 4, 4, 4, 4] (by decide) (by decide)
    have hlisted : ∀ r, (RedisStore.lettersOf (Task.run ((Task.run
        ((RedisStore.store none).run (sameId 1 2 3), .deadGet (ascii "a") []) []).1,
          .deadGet (ascii "a") []) [4, 4, 4, 4, 4, 4]).1 4 r (ascii "a")).length ≠ 0 → r = realm := by
      intro r hr
      by_contra hne
      exact hr (congrArg List.length (hothers r hne))
    have hone := hlisted (ascii "one") (by decide)
    have htwo := hlisted (ascii "two") (by decide)
    exact absurd (hone.trans htwo.symm) (by decide)
  · rw [SQLiteStore.crashSafe_iff (SQLiteStore.lettersCut_run .infinity cutId)] at hsafe
    revert hsafe
    decide +kernel

end TyoMq.Storage
