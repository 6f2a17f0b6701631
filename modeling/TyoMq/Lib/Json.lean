import TyoMq.Lib.JsMap
import TyoMq.Lib.JsonString

/-!
# JSON texts

`JSON.stringify` and `JSON.parse`. A number is of some type `N` that can be written and read
(`NumberTexts`); an object is the list of its members, in order, with distinct names (`Proper`).

* An infinite number is written as `null`, and a number may be read back as another one with the same text, as
  `-0` is as `0`. What is read back of a value is its copy (`JsonValue.copy`).
* **Parsing what was written copies it** (`JsonValue.parse_stringify`), with the argument about prefixes in
  `parseValue_stringify`: the parser stops where the text of the value ends. A copy is copied as it is
  (`JsonValue.copy_copy`), and so is every value where all numbers are written exactly (`Numerals`,
  `JsonValue.copy_eq_self`).
* What is parsed is proper (`JsonValue.proper_of_parse`).
* The bytes of an object are those of its members (`JsonValue.byteLength_obj`).
-/

namespace TyoMq.Lib

/-! ### Values -/

/-- A JSON value with numbers `N`.
Kind: D -/
inductive JsonValue (N : Type*) where
  | null
  | bool (b : Bool)
  | num (n : N)
  | str (s : JsString)
  | arr (items : List (JsonValue N))
  | obj (members : List (JsString × JsonValue N))

/-- Is the unit one that the text of a number may have?
Kind: D -/
def isNumberUnit (u : UInt16) : Bool :=
  u == unit '-' || u == unit '+' || u == unit '.' || u == unit 'e' || u == unit 'E' ||
    (unit '0' ≤ u && u ≤ unit '9')

/-- How numbers are written and read.
Kind: D -/
structure NumberTexts (N : Type*) where
  /-- `String(n)`, where the number is finite. -/
  text : N → Option JsString
  /-- The number that a text denotes. -/
  read : JsString → Option N
  /-- A text is not empty. -/
  text_ne_nil : ∀ n, text n ≠ some []
  /-- It consists of the units of numbers. -/
  isNumberUnit_of_mem : ∀ n t, text n = some t → ∀ u ∈ t, isNumberUnit u = true
  /-- What is read back has the same text. -/
  read_text : ∀ n t, text n = some t → ∃ m, read t = some m ∧ text m = some t

/-- Numbers of which each is written and read back as it is: finite ones, without `-0`.
Kind: D -/
structure Numerals (N : Type*) extends NumberTexts N where
  /-- Every number has a text. -/
  text_ne_none : ∀ n, text n ≠ none
  /-- Reading undoes writing. -/
  read_eq : ∀ n t, text n = some t → read t = some n

instance (N : Type*) : CoeOut (Numerals N) (NumberTexts N) := ⟨Numerals.toNumberTexts⟩

/-- A number written and read back.
Kind: D -/
def NumberTexts.reread {N : Type*} (num : NumberTexts N) (n : N) : Option N :=
  (num.text n).bind num.read

namespace JsonValue

variable {N : Type*}

/-- `v[name]`, for a name that no kind of value but an object has: `none` for `undefined`.
Kind: D -/
def member (name : JsString) : JsonValue N → Option (JsonValue N)
  | obj members => (members.find? fun e => e.1 = name).map Prod.snd
  | _ => none

/-- The string, if it is one.
Kind: D -/
def text? : JsonValue N → Option JsString
  | str s => some s
  | _ => none

mutual

/-- The names of the members of every object in the value are distinct.
Kind: D -/
def Proper : JsonValue N → Prop
  | null => True
  | bool _ => True
  | num _ => True
  | str _ => True
  | arr items => ItemsProper items
  | obj members => (members.map Prod.fst).Nodup ∧ MembersProper members

/-- So it is in some items.
Kind: D -/
def ItemsProper : List (JsonValue N) → Prop
  | [] => True
  | v :: items => v.Proper ∧ ItemsProper items

/-- So it is in some members.
Kind: D -/
def MembersProper : List (JsString × JsonValue N) → Prop
  | [] => True
  | (_, v) :: members => v.Proper ∧ MembersProper members

end

theorem membersProper_of_forall {members : List (JsString × JsonValue N)}
    (h : ∀ e ∈ members, e.2.Proper) : MembersProper members := by
  induction members with
  | nil => exact trivial
  | cons e members ih =>
      exact ⟨h e List.mem_cons_self, ih fun e' he' => h e' (List.mem_cons_of_mem _ he')⟩

theorem proper_of_mem {members : List (JsString × JsonValue N)} (h : MembersProper members)
    {e : JsString × JsonValue N} (he : e ∈ members) : e.2.Proper := by
  induction members with
  | nil => exact absurd he List.not_mem_nil
  | cons e' members ih =>
      obtain ⟨hfirst, hrest⟩ := h
      rcases List.mem_cons.mp he with rfl | hin
      · exact hfirst
      · exact ih hrest hin

section Write

variable (num : NumberTexts N)

mutual

/-- `JSON.stringify(v)`.
Kind: D -/
def stringify : JsonValue N → JsString
  | null => js "null"
  | bool b => if b then js "true" else js "false"
  | .num n => (num.text n).getD (js "null")
  | str s => quote s
  | arr items => unit '[' :: (itemsText items ++ [unit ']'])
  | obj members => unit '{' :: (membersText members ++ [unit '}'])

/-- Items with commas between them.
Kind: D -/
def itemsText : List (JsonValue N) → JsString
  | [] => []
  | [v] => stringify v
  | v :: w :: items => stringify v ++ unit ',' :: itemsText (w :: items)

/-- Members with commas between them.
Kind: D -/
def membersText : List (JsString × JsonValue N) → JsString
  | [] => []
  | [(k, v)] => quote k ++ unit ':' :: stringify v
  | (k, v) :: e :: members => quote k ++ unit ':' :: (stringify v ++ unit ',' :: membersText (e :: members))

end

mutual

/-- What is read back of a value: `JSON.parse(JSON.stringify(v))`.
Kind: D -/
def copy : JsonValue N → JsonValue N
  | null => null
  | bool b => bool b
  | .num n => ((num.reread n).map .num).getD null
  | str s => str s
  | arr items => arr (copyItems items)
  | obj members => obj (copyMembers members)

/-- So it is for items.
Kind: D -/
def copyItems : List (JsonValue N) → List (JsonValue N)
  | [] => []
  | v :: items => copy v :: copyItems items

/-- So it is for members.
Kind: D -/
def copyMembers : List (JsString × JsonValue N) → List (JsString × JsonValue N)
  | [] => []
  | (k, v) :: members => (k, copy v) :: copyMembers members

end

end Write

/-! ### Parsing -/

/-- Is the unit white space between tokens?
Kind: D -/
def isSpace (u : UInt16) : Bool := u == unit ' ' || u == 9 || u == 10 || u == 13

/-- What comes behind white space.
Kind: D -/
def skipSpace (s : JsString) : JsString := s.dropWhile isSpace

/-- One of the three words, and what comes behind it.
Kind: D -/
def readWord (s : JsString) : Option (JsonValue N × JsString) :=
  if (js "null").isPrefixOf s then some (null, s.drop 4)
  else if (js "true").isPrefixOf s then some (bool true, s.drop 4)
  else if (js "false").isPrefixOf s then some (bool false, s.drop 5)
  else none

section Read

variable (read : JsString → Option N)

/-- A number, and what comes behind it.
Kind: D -/
def readNumber (s : JsString) : Option (JsonValue N × JsString) :=
  let token := s.takeWhile isNumberUnit
  if token = [] then none else (read token).map fun n => (.num n, s.dropWhile isNumberUnit)

mutual

/-- Read a value, and what comes behind it, within some depth.
Kind: D -/
def parseValue : ℕ → JsString → Option (JsonValue N × JsString)
  | 0, _ => none
  | fuel + 1, s =>
      match skipSpace s with
      | [] => none
      | c :: t =>
          if c = quoteMark then (readString t).map fun r => (str r.1, r.2)
          else if c = unit '[' then
            match skipSpace t with
            | [] => none
            | d :: u =>
                if d = unit ']' then some (arr [], u)
                else (parseItems fuel (d :: u)).map fun r => (arr r.1, r.2)
          else if c = unit '{' then
            match skipSpace t with
            | [] => none
            | d :: u =>
                if d = unit '}' then some (obj [], u)
                else
                  (parseMembers fuel (d :: u)).map fun r =>
                    -- of members with one name, the last one counts
                    (obj (r.1.foldl (fun l e => JsMap.setEntries l e.1 e.2) []), r.2)
          else
            match readWord (c :: t) with
            | some r => some r
            | none => readNumber read (c :: t)

/-- Read items up to the bracket.
Kind: D -/
def parseItems : ℕ → JsString → Option (List (JsonValue N) × JsString)
  | 0, _ => none
  | fuel + 1, s =>
      match parseValue fuel s with
      | none => none
      | some (v, r) =>
          match skipSpace r with
          | [] => none
          | c :: t =>
              if c = unit ']' then some ([v], t)
              else if c = unit ',' then (parseItems fuel t).map fun r => (v :: r.1, r.2)
              else none

/-- Read members up to the brace.
Kind: D -/
def parseMembers : ℕ → JsString → Option (List (JsString × JsonValue N) × JsString)
  | 0, _ => none
  | fuel + 1, s =>
      match skipSpace s with
      | [] => none
      | c :: t =>
          if c = quoteMark then
            match readString t with
            | none => none
            | some (k, r) =>
                match skipSpace r with
                | [] => none
                | d :: u =>
                    if d = unit ':' then
                      match parseValue fuel u with
                      | none => none
                      | some (v, r) =>
                          match skipSpace r with
                          | [] => none
                          | e :: w =>
                              if e = unit '}' then some ([(k, v)], w)
                              else if e = unit ',' then
                                (parseMembers fuel w).map fun r => ((k, v) :: r.1, r.2)
                              else none
                    else none
          else none

end

/-- `JSON.parse(s)`, `none` when it throws.
Kind: D -/
def parse (s : JsString) : Option (JsonValue N) :=
  match parseValue read (s.length + 1) s with
  | none => none
  | some (v, r) => if skipSpace r = [] then some v else none

end Read

/-! ### What is parsed -/

section Parsed

variable {read : JsString → Option N}

/-- An object stays proper when a member is set to a proper value.
Kind: L -/
theorem proper_setEntries {members : List (JsString × JsonValue N)} (h : (obj members).Proper)
    (k : JsString) {v : JsonValue N} (hv : v.Proper) : (obj (JsMap.setEntries members k v)).Proper := by
  refine ⟨JsMap.nodup_setEntries h.1 k v, membersProper_of_forall ?_⟩
  intro e he
  unfold JsMap.setEntries at he
  split at he
  · obtain ⟨old, hold, rfl⟩ := List.mem_map.mp he
    split
    · exact hv
    · exact proper_of_mem h.2 hold
  · rcases List.mem_append.mp he with hold | hnew
    · exact proper_of_mem h.2 hold
    · rw [List.mem_singleton.mp hnew]
      exact hv

/-- The members of a text, the last of each name, make a proper object.
Kind: L -/
theorem proper_foldl_setEntries {members before : List (JsString × JsonValue N)}
    (hbefore : (obj before).Proper) (h : MembersProper members) :
    (obj (members.foldl (fun l e => JsMap.setEntries l e.1 e.2) before)).Proper := by
  induction members generalizing before with
  | nil => exact hbefore
  | cons e members ih => exact ih (proper_setEntries hbefore e.1 h.1) h.2

theorem proper_of_readWord {s : JsString} {r : JsonValue N × JsString} (h : readWord s = some r) :
    r.1.Proper := by
  unfold readWord at h
  split_ifs at h <;> cases h <;> exact trivial

theorem proper_of_readNumber {s : JsString} {r : JsonValue N × JsString}
    (h : readNumber read s = some r) : r.1.Proper := by
  unfold readNumber at h
  dsimp only at h
  split_ifs at h
  obtain ⟨n, -, rfl⟩ := Option.map_eq_some_iff.mp h
  exact trivial

/-- A value is proper when its items and its members are.
Kind: L -/
theorem proper_of_parseValue_succ {fuel : ℕ}
    (hitems : ∀ s r, parseItems read fuel s = some r → ItemsProper r.1)
    (hmembers : ∀ s r, parseMembers read fuel s = some r → MembersProper r.1) {s : JsString}
    {r : JsonValue N × JsString} (h : parseValue read (fuel + 1) s = some r) : r.1.Proper := by
  rw [parseValue] at h
  split at h
  · exact nomatch h
  · split_ifs at h
    · obtain ⟨r', -, rfl⟩ := Option.map_eq_some_iff.mp h
      exact trivial
    · split at h
      · exact nomatch h
      · split_ifs at h
        · cases h
          exact trivial
        · obtain ⟨r', hr', rfl⟩ := Option.map_eq_some_iff.mp h
          exact hitems _ _ hr'
    · split at h
      · exact nomatch h
      · split_ifs at h
        · cases h
          exact ⟨List.nodup_nil, trivial⟩
        · obtain ⟨r', hr', rfl⟩ := Option.map_eq_some_iff.mp h
          exact proper_foldl_setEntries ⟨List.nodup_nil, trivial⟩ (hmembers _ _ hr')
    · split at h
      · rename_i hword
        cases h
        exact proper_of_readWord hword
      · exact proper_of_readNumber h

theorem itemsProper_of_parseItems_succ {fuel : ℕ}
    (hvalue : ∀ s r, parseValue read fuel s = some r → r.1.Proper)
    (hitems : ∀ s r, parseItems read fuel s = some r → ItemsProper r.1) {s : JsString}
    {r : List (JsonValue N) × JsString} (h : parseItems read (fuel + 1) s = some r) :
    ItemsProper r.1 := by
  rw [parseItems] at h
  split at h
  · exact nomatch h
  · rename_i v _ hv
    have hfirst : v.Proper := hvalue _ _ hv
    split at h
    · exact nomatch h
    · split_ifs at h
      · cases h
        exact ⟨hfirst, trivial⟩
      · obtain ⟨r', hr', rfl⟩ := Option.map_eq_some_iff.mp h
        exact ⟨hfirst, hitems _ _ hr'⟩

theorem membersProper_of_parseMembers_succ {fuel : ℕ}
    (hvalue : ∀ s r, parseValue read fuel s = some r → r.1.Proper)
    (hmembers : ∀ s r, parseMembers read fuel s = some r → MembersProper r.1) {s : JsString}
    {r : List (JsString × JsonValue N) × JsString} (h : parseMembers read (fuel + 1) s = some r) :
    MembersProper r.1 := by
  rw [parseMembers] at h
  split at h
  · exact nomatch h
  · split_ifs at h
    split at h
    · exact nomatch h
    · split at h
      · exact nomatch h
      · split_ifs at h
        split at h
        · exact nomatch h
        · rename_i v _ hv
          have hfirst : v.Proper := hvalue _ _ hv
          split at h
          · exact nomatch h
          · split_ifs at h
            · cases h
              exact ⟨hfirst, trivial⟩
            · obtain ⟨r', hr', rfl⟩ := Option.map_eq_some_iff.mp h
              exact ⟨hfirst, hmembers _ _ hr'⟩

/-- A parsed value has distinct member names in every object, by induction on the depth.
Kind: P -/
theorem proper_of_parseValue (fuel : ℕ) :
    (∀ s r, parseValue read fuel s = some r → r.1.Proper) ∧
      (∀ s r, parseItems read fuel s = some r → ItemsProper r.1) ∧
      ∀ s r, parseMembers read fuel s = some r → MembersProper r.1 := by
  induction fuel with
  | zero =>
      refine ⟨fun _ _ h => ?_, fun _ _ h => ?_, fun _ _ h => ?_⟩
      · exact absurd h (by simp [parseValue])
      · exact absurd h (by simp [parseItems])
      · exact absurd h (by simp [parseMembers])
  | succ fuel ih =>
      obtain ⟨hvalue, hitems, hmembers⟩ := ih
      refine ⟨fun _ _ h => ?_, fun _ _ h => ?_, fun _ _ h => ?_⟩
      · exact proper_of_parseValue_succ hitems hmembers h
      · exact itemsProper_of_parseItems_succ hvalue hitems h
      · exact membersProper_of_parseMembers_succ hvalue hmembers h

theorem proper_of_parse {s : JsString} {v : JsonValue N} (h : parse read s = some v) : v.Proper := by
  unfold parse at h
  split at h
  · exact nomatch h
  · rename_i hr
    split_ifs at h
    cases h
    exact (proper_of_parseValue _).1 _ _ hr

end Parsed

section RoundTrip

variable {num : NumberTexts N}

/-! ### Copies -/

theorem copyItems_cons (v : JsonValue N) (items : List (JsonValue N)) :
    copyItems num (v :: items) = copy num v :: copyItems num items := by
  rw [copyItems]

theorem copyMembers_cons (e : JsString × JsonValue N) (members : List (JsString × JsonValue N)) :
    copyMembers num (e :: members) = (e.1, copy num e.2) :: copyMembers num members := by
  rw [copyMembers]

theorem copyMembers_eq_map (members : List (JsString × JsonValue N)) :
    copyMembers num members = members.map fun e => (e.1, copy num e.2) := by
  induction members with
  | nil => rw [copyMembers, List.map_nil]
  | cons e members ih => rw [copyMembers_cons, ih, List.map_cons]

@[simp] theorem map_fst_copyMembers (members : List (JsString × JsonValue N)) :
    (copyMembers num members).map Prod.fst = members.map Prod.fst := by
  rw [copyMembers_eq_map, List.map_map]
  rfl

/-- What is read back of a number has the text of the number.
Kind: L -/
theorem copy_num_of_text {n : N} {t : JsString} (h : num.text n = some t) :
    ∃ m, num.read t = some m ∧ num.text m = some t ∧ copy num (.num n) = .num m := by
  obtain ⟨m, hread, htext⟩ := num.read_text n t h
  refine ⟨m, hread, htext, ?_⟩
  rw [copy, NumberTexts.reread, h, Option.bind_some, hread]
  rfl

theorem copy_num_of_infinite {n : N} (h : num.text n = none) : copy num (.num n) = null := by
  rw [copy, NumberTexts.reread, h]
  rfl

mutual

/-- A copy is copied as it is.
Kind: L -/
theorem copy_copy : ∀ v : JsonValue N, copy num (copy num v) = copy num v
  | null => by rw [copy, copy]
  | bool b => by rw [copy, copy]
  | str s => by rw [copy, copy]
  | .num n => by
      cases h : num.text n with
      | none => rw [copy_num_of_infinite h, copy]
      | some t =>
          obtain ⟨m, hread, htext, hcopy⟩ := copy_num_of_text h
          rw [hcopy, copy, NumberTexts.reread, htext, Option.bind_some, hread]
          rfl
  | arr items => by rw [copy, copy, copyItems_copyItems items]
  | obj members => by rw [copy, copy, copyMembers_copyMembers members]

theorem copyItems_copyItems :
    ∀ items : List (JsonValue N), copyItems num (copyItems num items) = copyItems num items
  | [] => by rw [copyItems, copyItems]
  | v :: items => by rw [copyItems, copyItems, copy_copy v, copyItems_copyItems items]

theorem copyMembers_copyMembers : ∀ members : List (JsString × JsonValue N),
    copyMembers num (copyMembers num members) = copyMembers num members
  | [] => by rw [copyMembers, copyMembers]
  | (k, v) :: members => by
      rw [copyMembers, copyMembers, copy_copy v, copyMembers_copyMembers members]

end

mutual

/-- Where numbers are written exactly, a value is its own copy.
Kind: P -/
theorem copy_eq_self (num : Numerals N) : ∀ v : JsonValue N, copy num v = v
  | null => by rw [copy]
  | bool b => by rw [copy]
  | str s => by rw [copy]
  | .num n => by
      obtain ⟨t, ht⟩ := Option.ne_none_iff_exists'.mp (num.text_ne_none n)
      rw [copy, NumberTexts.reread, ht, Option.bind_some, num.read_eq n t ht]
      rfl
  | arr items => by rw [copy, copyItems_eq_self num items]
  | obj members => by rw [copy, copyMembers_eq_self num members]

theorem copyItems_eq_self (num : Numerals N) : ∀ items : List (JsonValue N), copyItems num items = items
  | [] => by rw [copyItems]
  | v :: items => by rw [copyItems, copy_eq_self num v, copyItems_eq_self num items]

theorem copyMembers_eq_self (num : Numerals N) :
    ∀ members : List (JsString × JsonValue N), copyMembers num members = members
  | [] => by rw [copyMembers]
  | (k, v) :: members => by rw [copyMembers, copy_eq_self num v, copyMembers_eq_self num members]

end

/-! ### Reading what was written -/

/-- A text does not go on with the units of a number.
Kind: D -/
def Stops (s : JsString) : Prop := ∀ u ∈ s.head?, isNumberUnit u = false

theorem skipSpace_cons {u : UInt16} (h : isSpace u = false) (s : JsString) :
    skipSpace (u :: s) = u :: s := by
  unfold skipSpace
  rw [List.dropWhile_cons_of_neg]
  rw [h]
  exact Bool.false_ne_true

/-- A number is read up to where its text stops.
Kind: L -/
theorem readNumber_text {n m : N} {t : JsString} (ht : num.text n = some t) (hread : num.read t = some m)
    {rest : JsString} (hrest : Stops rest) : readNumber num.read (t ++ rest) = some (.num m, rest) := by
  have hall := num.isNumberUnit_of_mem n t ht
  have hne : t ≠ [] := by
    rintro rfl
    exact num.text_ne_nil n ht
  have htake : (t ++ rest).takeWhile isNumberUnit = t := by
    rw [List.takeWhile_append_of_pos hall]
    cases rest with
    | nil => exact List.append_nil _
    | cons u rest =>
        have hu := hrest u rfl
        rw [List.takeWhile_cons_of_neg (by rw [hu]; exact Bool.false_ne_true), List.append_nil]
  have hdrop : (t ++ rest).dropWhile isNumberUnit = rest := by
    rw [List.dropWhile_append_of_pos hall]
    cases rest with
    | nil => rfl
    | cons u rest =>
        have hu := hrest u rfl
        exact List.dropWhile_cons_of_neg (by rw [hu]; exact Bool.false_ne_true)
  unfold readNumber
  simp only [htake, hdrop, if_neg hne, hread, Option.map_some]

/-- The units of numbers are ASCII.
Kind: L -/
theorem isLow_of_isNumberUnit {u : UInt16} (h : isNumberUnit u = true) : isLow u = false := by
  simp only [isNumberUnit, Bool.or_eq_true, Bool.and_eq_true, beq_iff_eq, decide_eq_true_eq,
    UInt16.le_iff_toNat_le] at h
  rcases h with (((((rfl | rfl) | rfl) | rfl) | rfl) | ⟨-, hle⟩)
  · rfl
  · rfl
  · rfl
  · rfl
  · rfl
  · have hnine : (unit '9').toNat = 57 := rfl
    rw [← Bool.not_eq_true, isLow_iff]
    omega

/-- The first unit of a value's text is not white space, nor does it close anything.
Kind: L -/
theorem stringify_cons (v : JsonValue N) :
    ∃ c t, stringify num v = c :: t ∧ isSpace c = false ∧ c ≠ unit ']' ∧ c ≠ unit '}' ∧
      isLow c = false := by
  cases v with
  | null => exact ⟨unit 'n', _, rfl, rfl, by decide, by decide, rfl⟩
  | bool b => cases b <;> exact ⟨_, _, rfl, rfl, by decide, by decide, rfl⟩
  | str s => exact ⟨quoteMark, _, rfl, rfl, by decide, by decide, rfl⟩
  | arr items => exact ⟨unit '[', _, rfl, rfl, by decide, by decide, rfl⟩
  | obj members => exact ⟨unit '{', _, rfl, rfl, by decide, by decide, rfl⟩
  | num n =>
      rw [stringify]
      cases htext : num.text n with
      | none => exact ⟨unit 'n', _, rfl, rfl, by decide, by decide, rfl⟩
      | some text =>
      have hne : text ≠ [] := by
        rintro rfl
        exact num.text_ne_nil n htext
      obtain ⟨c, t, rfl⟩ := List.exists_cons_of_ne_nil hne
      have hc : isNumberUnit c = true := num.isNumberUnit_of_mem n _ htext c List.mem_cons_self
      have hne : ∀ u, isNumberUnit u = false → c ≠ u := fun u hu he => by
        rw [he, hu] at hc
        exact Bool.noConfusion hc
      refine ⟨c, t, rfl, ?_, hne _ rfl, hne _ rfl, isLow_of_isNumberUnit hc⟩
      simp only [isSpace, beq_eq_false_iff_ne.mpr (hne (unit ' ') rfl),
        beq_eq_false_iff_ne.mpr (hne 9 rfl),
        beq_eq_false_iff_ne.mpr (hne 10 rfl),
        beq_eq_false_iff_ne.mpr (hne 13 rfl), Bool.or_self]

theorem itemsText_cons (v : JsonValue N) (items : List (JsonValue N)) :
    ∃ c t, itemsText num (v :: items) = c :: t ∧ isSpace c = false ∧ c ≠ unit ']' := by
  obtain ⟨c, t, ht, hspace, hend, -⟩ := @stringify_cons N num v
  cases items with
  | nil => exact ⟨c, t, ht, hspace, hend⟩
  | cons w items =>
      refine ⟨c, t ++ unit ',' :: itemsText num (w :: items), ?_, hspace, hend⟩
      rw [itemsText, ht, List.cons_append]

theorem membersText_cons (e : JsString × JsonValue N) (members : List (JsString × JsonValue N)) :
    ∃ t, membersText num (e :: members) = quoteMark :: t := by
  obtain ⟨k, v⟩ := e
  cases members with
  | nil => exact ⟨_, rfl⟩
  | cons w members => exact ⟨_, rfl⟩

/-- Members with distinct names are put together as they are.
Kind: L -/
theorem foldl_setEntries {ν : Type*} (members before : List (JsString × ν))
    (h : ((before ++ members).map Prod.fst).Nodup) :
    members.foldl (fun l e => JsMap.setEntries l e.1 e.2) before = before ++ members := by
  induction members generalizing before with
  | nil => exact (List.append_nil _).symm
  | cons e members ih =>
      have hnew : e.1 ∉ before.map Prod.fst := by
        rw [List.map_append, List.map_cons] at h
        exact fun hm => (List.nodup_append.mp h).2.2 _ hm _ List.mem_cons_self rfl
      have hset : JsMap.setEntries before e.1 e.2 = before ++ [e] := if_neg hnew
      rw [List.foldl_cons, hset, ih _ (by rwa [List.append_assoc, List.singleton_append]),
        List.append_assoc, List.singleton_append]

theorem stops_cons {u : UInt16} (h : isNumberUnit u = false) (s : JsString) : Stops (u :: s) :=
  fun _ hu => Option.mem_some.mp hu ▸ h

theorem stops_nil : Stops [] := fun _ hu => absurd hu (Option.not_mem_none _)

/-- The text of a number is no word.
Kind: L -/
theorem readWord_eq_none {u : UInt16} (h : isNumberUnit u = true) (s : JsString) :
    readWord (N := N) (u :: s) = none := by
  have hne : ∀ c, isNumberUnit c = false → (c == u) = false := fun c hc =>
    beq_eq_false_iff_ne.mpr fun he => by
      rw [he, h] at hc
      exact Bool.noConfusion hc
  have hword : ∀ c t, isNumberUnit c = false → (c :: t).isPrefixOf (u :: s) = false := fun c t hc => by
    rw [List.isPrefixOf_cons_cons, hne c hc, Bool.false_and]
  have hnull : (js "null").isPrefixOf (u :: s) = false := hword (unit 'n') _ (by decide)
  have htrue : (js "true").isPrefixOf (u :: s) = false := hword (unit 't') _ (by decide)
  have hfalse : (js "false").isPrefixOf (u :: s) = false := hword (unit 'f') _ (by decide)
  unfold readWord
  simp only [hnull, htrue, hfalse, Bool.false_eq_true, if_false]

/-- The parser reads what is neither a string nor an array nor an object as a word or a number.
Kind: L -/
theorem parseValue_scalar {c : UInt16} (hspace : isSpace c = false) (hquote : c ≠ quoteMark)
    (harr : c ≠ unit '[') (hobj : c ≠ unit '{') (fuel : ℕ) (t : JsString) :
    parseValue num.read (fuel + 1) (c :: t) =
      match readWord (c :: t) with
      | some r => some r
      | none => readNumber num.read (c :: t) := by
  rw [parseValue, skipSpace_cons hspace]
  dsimp only
  rw [if_neg hquote, if_neg harr, if_neg hobj]

/-- An array that is not empty is read by reading its items.
Kind: L -/
theorem parseValue_arr {d : UInt16} (hspace : isSpace d = false) (hend : d ≠ unit ']') (fuel : ℕ)
    (u : JsString) :
    parseValue num.read (fuel + 1) (unit '[' :: d :: u) =
      (parseItems num.read fuel (d :: u)).map fun r => (arr r.1, r.2) := by
  rw [parseValue, skipSpace_cons rfl]
  dsimp only
  rw [if_neg (by decide), if_pos rfl, skipSpace_cons hspace]
  exact if_neg hend

/-- An object that is not empty is read by reading its members.
Kind: L -/
theorem parseValue_obj {d : UInt16} (hspace : isSpace d = false) (hend : d ≠ unit '}') (fuel : ℕ)
    (u : JsString) :
    parseValue num.read (fuel + 1) (unit '{' :: d :: u) =
      (parseMembers num.read fuel (d :: u)).map fun r =>
        (obj (r.1.foldl (fun l e => JsMap.setEntries l e.1 e.2) []), r.2) := by
  rw [parseValue, skipSpace_cons rfl]
  dsimp only
  rw [if_neg (by decide), if_neg (by decide), if_pos rfl, skipSpace_cons hspace]
  exact if_neg hend

/-- The value of a member is read behind its name.
Kind: L -/
theorem parseMembers_quote (k s : JsString) (fuel : ℕ) :
    parseMembers num.read (fuel + 1) (quote k ++ unit ':' :: s) =
      match parseValue num.read fuel s with
      | none => none
      | some (v, r) =>
          match skipSpace r with
          | [] => none
          | e :: w =>
              if e = unit '}' then some ([(k, v)], w)
              else if e = unit ',' then (parseMembers num.read fuel w).map fun r => ((k, v) :: r.1, r.2)
              else none := by
  rw [parseMembers, quote, List.cons_append, skipSpace_cons rfl]
  dsimp only
  rw [if_pos rfl, List.append_assoc, List.singleton_append, readString_escaped]
  dsimp only
  rw [skipSpace_cons rfl]
  exact if_pos rfl

/-- The word `null` is read as the value.
Kind: L -/
theorem parseValue_null (fuel : ℕ) (rest : JsString) :
    parseValue num.read (fuel + 1) (js "null" ++ rest) = some (null, rest) := by
  apply parseValue_scalar (c := unit 'n') <;> decide

/-- The text of a number is read as its copy, and that of an infinite one as `null`.
Kind: L -/
theorem parseValue_num (n : N) (fuel : ℕ) {rest : JsString} (hrest : Stops rest) :
    parseValue num.read (fuel + 1) (stringify num (.num n) ++ rest) = some (copy num (.num n), rest) := by
  cases htext : num.text n with
  | none =>
      rw [copy_num_of_infinite htext, stringify, htext, Option.getD_none]
      exact parseValue_null fuel rest
  | some text =>
      obtain ⟨m, hm, -, hcopy⟩ := copy_num_of_text htext
      have hread := readNumber_text htext hm hrest
      obtain ⟨c, t, ht, hspace, -⟩ := @stringify_cons N num (.num n)
      rw [hcopy]
      rw [stringify, htext, Option.getD_some] at ht ⊢
      have hc : isNumberUnit c = true := num.isNumberUnit_of_mem n text htext c (ht ▸ List.mem_cons_self)
      have hne : ∀ u, isNumberUnit u = false → c ≠ u := fun u hu he => by
        rw [he, hu] at hc
        exact Bool.noConfusion hc
      rw [ht, List.cons_append] at hread ⊢
      rw [parseValue_scalar hspace (hne _ rfl) (hne _ rfl) (hne _ rfl), readWord_eq_none hc]
      exact hread

mutual

/-- The parser reads the text of a value and stops behind it.
Kind: P -/
theorem parseValue_stringify :
    ∀ v : JsonValue N, v.Proper → ∀ fuel rest, (stringify num v).length ≤ fuel → Stops rest →
      parseValue num.read fuel (stringify num v ++ rest) = some (copy num v, rest)
  | v, _, 0, rest, hfuel, _ => by
      obtain ⟨c, t, ht, -⟩ := @stringify_cons N num v
      rw [ht] at hfuel
      exact absurd hfuel (Nat.not_succ_le_zero _)
  | null, _, fuel + 1, rest, _, _ => parseValue_null fuel rest
  | bool true, _, fuel + 1, rest, _, _ => by
      rw [copy]
      apply parseValue_scalar (c := unit 't') <;> decide
  | bool false, _, fuel + 1, rest, _, _ => by
      rw [copy]
      apply parseValue_scalar (c := unit 'f') <;> decide
  | .num n, _, fuel + 1, rest, _, hrest => parseValue_num n fuel hrest
  | str s, _, fuel + 1, rest, _, _ => by
      have hread := readString_escaped s rest
      rw [stringify, quote, parseValue, List.cons_append, skipSpace_cons rfl]
      dsimp only
      rw [if_pos rfl, List.append_assoc, List.singleton_append, hread, Option.map_some, copy]
  | arr [], _, fuel + 1, rest, _, _ => by
      rw [stringify, itemsText, parseValue, List.cons_append, skipSpace_cons rfl]
      dsimp only [List.nil_append, List.singleton_append]
      rw [if_neg (by decide), if_pos rfl, skipSpace_cons rfl, copy, copyItems]
      exact if_pos rfl
  | arr (v :: items), hv, fuel + 1, rest, hfuel, _ => by
      obtain ⟨d, u, hd, hspace, hend⟩ := @itemsText_cons N num v items
      rw [stringify, List.length_cons, List.length_append, List.length_singleton] at hfuel
      have hitems := parseItems_itemsText (v :: items) hv (List.cons_ne_nil _ _) fuel rest (by omega)
      rw [stringify, List.cons_append, List.append_assoc, List.singleton_append]
      rw [hd, List.cons_append] at hitems ⊢
      rw [parseValue_arr hspace hend, hitems, Option.map_some, copy]
  | obj [], _, fuel + 1, rest, _, _ => by
      rw [stringify, membersText, parseValue, List.cons_append, skipSpace_cons rfl]
      dsimp only [List.nil_append, List.singleton_append]
      rw [if_neg (by decide), if_neg (by decide), if_pos rfl, skipSpace_cons rfl, copy, copyMembers]
      exact if_pos rfl
  | obj (e :: members), hv, fuel + 1, rest, hfuel, _ => by
      obtain ⟨u, hd⟩ := @membersText_cons N num e members
      rw [stringify, List.length_cons, List.length_append, List.length_singleton] at hfuel
      have hmembers :=
        parseMembers_membersText (e :: members) hv.2 (List.cons_ne_nil _ _) fuel rest (by omega)
      rw [stringify, List.cons_append, List.append_assoc, List.singleton_append]
      rw [hd, List.cons_append] at hmembers ⊢
      rw [parseValue_obj (by decide) (by decide), hmembers, Option.map_some]
      have hnodup : (([] ++ copyMembers num (e :: members)).map Prod.fst).Nodup := by
        rw [List.nil_append, map_fst_copyMembers]
        exact hv.1
      rw [foldl_setEntries _ [] hnodup, List.nil_append, copy]

/-- So it does with items.
Kind: L -/
theorem parseItems_itemsText :
    ∀ items : List (JsonValue N), ItemsProper items → items ≠ [] → ∀ fuel rest,
      (itemsText num items).length + 1 ≤ fuel →
      parseItems num.read fuel (itemsText num items ++ unit ']' :: rest) = some (copyItems num items, rest)
  | [], _, hne, _, _, _ => absurd rfl hne
  | _ :: _, _, _, 0, _, hfuel => absurd hfuel (Nat.not_succ_le_zero _)
  | [v], hv, _, fuel + 1, rest, hfuel => by
      rw [itemsText] at hfuel ⊢
      have hvalue := parseValue_stringify v hv.1 fuel (unit ']' :: rest) (by omega)
        (stops_cons rfl _)
      rw [parseItems, hvalue, copyItems, copyItems]
      dsimp only
      rw [skipSpace_cons rfl]
      exact if_pos rfl
  | v :: w :: items, hv, _, fuel + 1, rest, hfuel => by
      rw [itemsText, List.length_append, List.length_cons] at hfuel
      have hvalue := parseValue_stringify v hv.1 fuel
        (unit ',' :: (itemsText num (w :: items) ++ unit ']' :: rest)) (by omega)
        (stops_cons rfl _)
      have hitems := parseItems_itemsText (w :: items) hv.2 (List.cons_ne_nil _ _) fuel rest (by omega)
      rw [itemsText, List.append_assoc, List.cons_append, parseItems, hvalue]
      dsimp only
      rw [skipSpace_cons rfl]
      dsimp only
      rw [if_neg (by decide), if_pos rfl, hitems, Option.map_some, copyItems_cons v]

/-- So it does with members.
Kind: L -/
theorem parseMembers_membersText :
    ∀ members : List (JsString × JsonValue N), MembersProper members → members ≠ [] → ∀ fuel rest,
      (membersText num members).length + 1 ≤ fuel →
      parseMembers num.read fuel (membersText num members ++ unit '}' :: rest) =
        some (copyMembers num members, rest)
  | [], _, hne, _, _, _ => absurd rfl hne
  | _ :: _, _, _, 0, _, hfuel => absurd hfuel (Nat.not_succ_le_zero _)
  | [(k, v)], hv, _, fuel + 1, rest, hfuel => by
      rw [membersText, List.length_append, List.length_cons] at hfuel
      have hvalue := parseValue_stringify v hv.1 fuel (unit '}' :: rest) (by omega)
        (stops_cons rfl _)
      rw [membersText, List.append_assoc, List.cons_append, parseMembers_quote, hvalue, copyMembers,
        copyMembers]
      dsimp only
      rw [skipSpace_cons rfl]
      exact if_pos rfl
  | (k, v) :: e :: members, hv, _, fuel + 1, rest, hfuel => by
      rw [membersText, List.length_append, List.length_cons, List.length_append,
        List.length_cons] at hfuel
      have hvalue := parseValue_stringify v hv.1 fuel
        (unit ',' :: (membersText num (e :: members) ++ unit '}' :: rest)) (by omega)
        (stops_cons rfl _)
      have hmembers :=
        parseMembers_membersText (e :: members) hv.2 (List.cons_ne_nil _ _) fuel rest (by omega)
      rw [membersText, List.append_assoc, List.cons_append, List.append_assoc, List.cons_append,
        parseMembers_quote, hvalue]
      dsimp only
      rw [skipSpace_cons rfl]
      dsimp only
      rw [if_neg (by decide), if_pos rfl, hmembers, Option.map_some, copyMembers_cons (k, v)]

end

/-- Parsing the text of a value gives its copy.
Kind: P -/
theorem parse_stringify {v : JsonValue N} (hv : v.Proper) :
    parse num.read (stringify num v) = some (copy num v) := by
  have hvalue := @parseValue_stringify N num v hv ((stringify num v).length + 1) []
    (Nat.le_succ _) stops_nil
  rw [List.append_nil] at hvalue
  unfold parse
  rw [hvalue]
  exact if_pos rfl

/-- Where numbers are written exactly, it gives the value.
Kind: P -/
theorem parse_stringify_exact {num : Numerals N} {v : JsonValue N} (hv : v.Proper) :
    parse num.read (stringify num v) = some v := by
  rw [parse_stringify hv, copy_eq_self]

end RoundTrip

/-! ### Sizes -/

section Sizes

variable {num : NumberTexts N}

/-- The bytes of a member, with the colon and the comma or brace behind it.
Kind: D -/
def memberBytes (num : NumberTexts N) (e : JsString × JsonValue N) : ℕ :=
  byteLength (escaped e.1) + byteLength (stringify num e.2) + 4

/-- The bytes of members up to the brace.
Kind: L -/
theorem byteLength_membersText (e : JsString × JsonValue N) (members : List (JsString × JsonValue N)) :
    byteLength (membersText num (e :: members)) + 1 = ((e :: members).map (memberBytes num)).sum := by
  have hone : ∀ k v, byteLength (quote k ++ unit ':' :: stringify num v) + 1 =
      memberBytes num (k, v) := by
    intro k v
    rw [byteLength_append_cons rfl, byteLength_cons (by decide), byteLength_quote]
    dsimp only [memberBytes]
    omega
  induction members generalizing e with
  | nil =>
      rw [membersText, hone, List.map_cons, List.map_nil, List.sum_singleton]
  | cons e' members ih =>
      have hrest := ih e'
      rw [membersText, ← List.cons_append, ← List.append_assoc, byteLength_append_cons rfl,
        byteLength_cons (by decide), List.map_cons, List.sum_cons, ← hrest, ← hone]
      omega

/-- The bytes of an object.
Kind: P -/
theorem byteLength_obj (e : JsString × JsonValue N) (members : List (JsString × JsonValue N)) :
    byteLength (stringify num (obj (e :: members))) = 1 + ((e :: members).map (memberBytes num)).sum := by
  rw [stringify, byteLength_cons (by decide), byteLength_append_cons rfl,
    byteLength_cons (by decide), byteLength_nil, ← byteLength_membersText]
  omega

end Sizes

end JsonValue

/-! ### Natural numbers -/

theorem toRadix_ne_nil (n : ℕ) : toRadix 10 n ≠ [] := by
  intro h
  have hlen := congrArg List.length h
  rw [toRadix, List.length_map, List.length_nil] at hlen
  exact absurd hlen (Nat.ne_of_gt Nat.length_toDigits_pos)

theorem isNumberUnit_of_mem_toRadix (n : ℕ) : ∀ u ∈ toRadix 10 n, isNumberUnit u = true := by
  intro u hu
  have hdigit := digitVal_lt_of_mem_toRadix (by decide) (by decide) hu
  unfold digitVal at hdigit
  split_ifs at hdigit with h₁ h₂ h₃
  · simp only [isNumberUnit, decide_eq_true h₁.1, decide_eq_true h₁.2, Bool.and_self, Bool.or_true]
  · have ha : (unit 'a').toNat = 97 := rfl
    have hle := UInt16.le_iff_toNat_le.mp h₂.1
    omega
  · have hA : (unit 'A').toNat = 65 := rfl
    have hle := UInt16.le_iff_toNat_le.mp h₃.1
    omega
  · omega

/-- The number that a decimal without leading zeros denotes.
Kind: D -/
def readDecimal (s : JsString) : Option ℕ :=
  if toRadix 10 (readDigits 10 s) = s then some (readDigits 10 s) else none

theorem readDecimal_toRadix (n : ℕ) : readDecimal (toRadix 10 n) = some n := by
  unfold readDecimal
  rw [readDigits_toRadix (by decide) (by decide), if_pos rfl]

/-- Natural numbers in decimal.
Kind: D -/
def Numerals.nat : Numerals ℕ where
  text n := some (toRadix 10 n)
  read := readDecimal
  text_ne_nil n h := toRadix_ne_nil n (Option.some.inj h)
  isNumberUnit_of_mem n _ h := Option.some.inj h ▸ isNumberUnit_of_mem_toRadix n
  read_text n _ h := ⟨n, Option.some.inj h ▸ readDecimal_toRadix n, h⟩
  text_ne_none _ := Option.some_ne_none _
  read_eq n _ h := Option.some.inj h ▸ readDecimal_toRadix n

/-- Natural numbers, and the infinite one that is read where a text denotes a number too large.
Kind: D -/
def NumberTexts.natOrInfinite : NumberTexts (Option ℕ) where
  text n := n.map (toRadix 10)
  read s :=
    match readDecimal s with
    | some n => some (some n)
    | none => if s = js "1e400" then some none else none
  text_ne_nil n h := by
    obtain ⟨m, -, hm⟩ := Option.map_eq_some_iff.mp h
    exact toRadix_ne_nil m hm
  isNumberUnit_of_mem n _ h := by
    obtain ⟨m, -, rfl⟩ := Option.map_eq_some_iff.mp h
    exact isNumberUnit_of_mem_toRadix m
  read_text n _ h := by
    obtain ⟨m, rfl, rfl⟩ := Option.map_eq_some_iff.mp h
    exact ⟨some m, by rw [readDecimal_toRadix], rfl⟩

end TyoMq.Lib
