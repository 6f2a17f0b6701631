import TyoMq.Lib.Utf8Decoder
import TyoMq.Notify.Message

/-!
# Following a topic from the command line

`listenOnce` of `bin/notify-cli.js`: what comes in on a stream of server-sent events, in whatever chunks
the network makes, becomes messages to print.

* The reference reads the whole text at once: its lines, the blocks of lines between blank ones, and of
  each block its data and its name (`messagesOf`).
* **Chunking makes no difference** (`listen_eq`): after each chunk the listener has read the lines of the
  text so far, and holds the unfinished one (`Reads`).
-/

namespace TyoMq.Notify

open TyoMq.Lib

/-! ### The listener -/

/-- The end of a line.
Kind: D -/
def lineFeed : UInt16 := 10

/-- The unit that may stand before it.
Kind: D -/
def carriageReturn : UInt16 := 13

/-- `line.replace(/\r$/, '')`.
Kind: D -/
def chopReturn (line : JsString) : JsString :=
  if line.getLast? = some carriageReturn then line.dropLast else line

/-- `s.replace(/^ /, '')`.
Kind: D -/
def chopSpace (s : JsString) : JsString := if s.head? = some (unit ' ') then s.tail else s

/-- The variables of the loop, and the texts that have been handed to `printNotifyLine`.
Source: `bin/notify-cli.js`, `listenOnce`
Kind: D -/
structure Listener where
  /-- The decoder. -/
  decoder : TextDecoder
  /-- The text that has not been read. -/
  buffer : JsString
  /-- The name of the event. -/
  eventName : JsString
  /-- Its data lines. -/
  data : List JsString
  /-- What has been dispatched. -/
  dispatched : List JsString

namespace Listener

/-- Before the first chunk.
Source: `bin/notify-cli.js`, `listenOnce`
Kind: D -/
def init : Listener := ⟨TextDecoder.init, [], js "message", [], []⟩

/-- One line.
Source: `bin/notify-cli.js`, `listenOnce`
Kind: D -/
def onLine (s : Listener) (line : JsString) : Listener :=
  if line = [] then
    { s with
      dispatched :=
        if s.data ≠ [] ∧ s.eventName = js "message" then s.dispatched ++ [join [lineFeed] s.data]
        else s.dispatched
      eventName := js "message"
      data := [] }
  else if line.take 6 = js "event:" then { s with eventName := trim (line.drop 6) }
  else if line.take 5 = js "data:" then { s with data := s.data ++ [chopSpace (line.drop 5)] }
  else s

/-- The inner loop: the lines that are in the buffer.
Source: `bin/notify-cli.js`, `listenOnce`
Kind: D -/
def drain (s : Listener) : Listener :=
  match h : indexOf s.buffer lineFeed with
  | none => s
  | some idx =>
      have : s.buffer.length - (idx + 1) < s.buffer.length := by
        obtain ⟨hlt, -⟩ := List.findIdx?_eq_some_iff_getElem.mp h
        omega
      drain { s.onLine (chopReturn (s.buffer.take idx)) with buffer := s.buffer.drop (idx + 1) }
termination_by s.buffer.length
decreasing_by
  rw [List.length_drop]
  exact this

/-- A chunk comes in.
Source: `bin/notify-cli.js`, `listenOnce`
Kind: D -/
def feed (s : Listener) (chunk : List (Fin 256)) : Listener :=
  let decoded := s.decoder.decode chunk
  drain { s with decoder := decoded.1, buffer := s.buffer ++ decoded.2 }

end Listener

/-- What is dispatched of a stream that comes in these chunks.
Source: `bin/notify-cli.js`, `listenOnce`
Kind: D -/
def listen (chunks : List (List (Fin 256))) : List JsString :=
  (chunks.foldl Listener.feed Listener.init).dispatched

/-! ### The reference -/

/-- The lines of a text, which end in a line feed, or in a carriage return and a line feed. What comes
behind the last of them is not a line.
Kind: D -/
def linesOf (text : JsString) : List JsString := ((split [lineFeed] text).dropLast).map chopReturn

/-- The blocks of lines that end in a blank line.
Kind: D -/
def blocksOf : List JsString → List (List JsString)
  | [] => []
  | line :: lines =>
      if line = [] then [] :: blocksOf lines
      else
        match blocksOf lines with
        | [] => []
        | block :: blocks => (line :: block) :: blocks

/-- The value of a line, if it is one of the field.
Kind: D -/
def valueOf (name line : JsString) : Option JsString :=
  if (name ++ [unit ':']).isPrefixOf line then some (line.drop (name.length + 1)) else none

/-- The name of the event of a block: the last that is given, and `message` when none is.
Kind: D -/
def nameOf (block : List JsString) : JsString :=
  ((block.filterMap (valueOf (js "event"))).getLast?.map trim).getD (js "message")

/-- The data lines of a block.
Kind: D -/
def dataOf (block : List JsString) : List JsString :=
  (block.filterMap (valueOf (js "data"))).map chopSpace

/-- The message of a block, if it has one.
Kind: D -/
def messageOf (block : List JsString) : Option JsString :=
  if dataOf block ≠ [] ∧ nameOf block = js "message" then some (join [lineFeed] (dataOf block)) else none

/-- The messages of a text.
Kind: D -/
def messagesOf (text : JsString) : List JsString := (blocksOf (linesOf text)).filterMap messageOf

/-! ### Lines -/

/-- What comes behind the last line.
Kind: D -/
def unfinished (text : JsString) : JsString := (split [lineFeed] text).getLastD []

section Lines

variable {a b text : JsString}

theorem linesOf_of_not_mem (h : lineFeed ∉ text) : linesOf text = [] := by
  rw [linesOf, split_of_not_mem h]
  rfl

theorem unfinished_of_not_mem (h : lineFeed ∉ text) : unfinished text = text := by
  rw [unfinished, split_of_not_mem h]
  rfl

theorem linesOf_append_cons (h : lineFeed ∉ a) (b : JsString) :
    linesOf (a ++ lineFeed :: b) = chopReturn a :: linesOf b := by
  have hne : split [lineFeed] b ≠ [] := splitFrom_ne_nil _ _ _
  rw [linesOf, split_append_cons h, List.dropLast_cons_of_ne_nil hne, List.map_cons, linesOf]

theorem unfinished_append_cons (h : lineFeed ∉ a) (b : JsString) :
    unfinished (a ++ lineFeed :: b) = unfinished b := by
  obtain ⟨p, ps, hps⟩ := List.exists_cons_of_ne_nil (splitFrom_ne_nil [lineFeed] 0 b)
  rw [unfinished, split_append_cons h, unfinished, split, hps]
  rfl

/-- A text has no line, or begins with one.
Kind: L -/
theorem line_cases (text : JsString) :
    lineFeed ∉ text ∨ ∃ a b, text = a ++ lineFeed :: b ∧ lineFeed ∉ a := by
  by_cases h : lineFeed ∈ text
  · obtain ⟨a, b, hsplit, ha⟩ := List.eq_append_cons_of_mem h
    exact Or.inr ⟨a, b, hsplit, ha⟩
  · exact Or.inl h

/-- More text: the lines so far, and those of what was unfinished with the rest.
Kind: P -/
theorem linesOf_append (text more : JsString) :
    linesOf (text ++ more) = linesOf text ++ linesOf (unfinished text ++ more) ∧
      unfinished (text ++ more) = unfinished (unfinished text ++ more) := by
  induction hn : text.length using Nat.strong_induction_on generalizing text with
  | _ n ih =>
      rcases line_cases text with hnone | ⟨a, b, rfl, ha⟩
      · rw [linesOf_of_not_mem hnone, unfinished_of_not_mem hnone]
        exact ⟨rfl, rfl⟩
      · have hlt : b.length < n := by
          rw [← hn, List.length_append, List.length_cons]
          omega
        obtain ⟨hlines, hrest⟩ := ih b.length hlt b rfl
        rw [List.append_assoc, List.cons_append, linesOf_append_cons ha, linesOf_append_cons ha,
          unfinished_append_cons ha, unfinished_append_cons ha, hlines, hrest]
        exact ⟨rfl, rfl⟩

/-- Text without a line feed finishes no line.
Kind: L -/
theorem linesOf_append_of_not_mem (text : JsString) {more : JsString} (h : lineFeed ∉ more) :
    linesOf (text ++ more) = linesOf text := by
  have hunfinished : lineFeed ∉ unfinished text := by
    induction hn : text.length using Nat.strong_induction_on generalizing text with
    | _ n ih =>
        rcases line_cases text with hnone | ⟨a, b, rfl, ha⟩
        · rwa [unfinished_of_not_mem hnone]
        · have hlt : b.length < n := by
            rw [← hn, List.length_append, List.length_cons]
            omega
          rw [unfinished_append_cons ha]
          exact ih b.length hlt b rfl
  have hnot : lineFeed ∉ unfinished text ++ more := by
    rw [List.mem_append]
    exact not_or.mpr ⟨hunfinished, h⟩
  rw [(linesOf_append text more).1, linesOf_of_not_mem hnot, List.append_nil]

end Lines

/-! ### Chunks -/

namespace Listener

theorem decoder_onLine (s : Listener) (line : JsString) : (s.onLine line).decoder = s.decoder := by
  unfold onLine
  split_ifs <;> rfl

/-- A line does not look at the buffer or the decoder.
Kind: L -/
theorem onLine_with (s : Listener) (decoder : TextDecoder) (buffer line : JsString) :
    { s with decoder := decoder, buffer := buffer }.onLine line =
      { s.onLine line with decoder := decoder, buffer := buffer } := by
  unfold onLine
  split_ifs <;> rfl

theorem foldl_onLine_with (s : Listener) (decoder : TextDecoder) (buffer : JsString) (lines : List JsString) :
    lines.foldl onLine { s with decoder := decoder, buffer := buffer } =
      { lines.foldl onLine s with decoder := decoder, buffer := buffer } := by
  induction lines generalizing s with
  | nil => rfl
  | cons line lines ih =>
      rw [List.foldl_cons, List.foldl_cons, onLine_with]
      exact ih _

/-- **The inner loop** reads the lines of the buffer and leaves what is unfinished.
Kind: P -/
theorem drain_eq (s : Listener) :
    s.drain = { (linesOf s.buffer).foldl onLine s with
      decoder := s.decoder, buffer := unfinished s.buffer } := by
  induction hn : s.buffer.length using Nat.strong_induction_on generalizing s with
  | _ n ih =>
      rw [drain]
      rcases line_cases s.buffer with hnone | ⟨a, b, hsplit, ha⟩
      · -- nothing to read
        have hidx : indexOf s.buffer lineFeed = none := indexOf_eq_none hnone
        split
        · rw [linesOf_of_not_mem hnone, unfinished_of_not_mem hnone]
          rfl
        · rename_i idx h
          rw [hidx] at h
          exact absurd h (by simp)
      · have hidx : indexOf s.buffer lineFeed = some a.length := by
          rw [hsplit]
          exact indexOf_append_cons ha
        split
        · rename_i h
          rw [hidx] at h
          exact absurd h (by simp)
        · rename_i idx h
          obtain rfl : a.length = idx := Option.some.inj (hidx.symm.trans h)
          have htake : s.buffer.take a.length = a := by rw [hsplit, List.take_left]
          have hdrop : s.buffer.drop (a.length + 1) = b := by
            rw [hsplit, List.drop_append, List.drop_eq_nil_of_le (Nat.le_succ _)]
            simp
          have hlt : b.length < n := by
            rw [← hn, hsplit, List.length_append, List.length_cons]
            omega
          rw [htake, hdrop]
          have hrec := ih b.length hlt { s.onLine (chopReturn a) with buffer := b } rfl
          rw [hrec]
          have hwith := foldl_onLine_with (s.onLine (chopReturn a)) (s.onLine (chopReturn a)).decoder b
            (linesOf b)
          simp only at hwith ⊢
          rw [hwith, hsplit, linesOf_append_cons ha, unfinished_append_cons ha, List.foldl_cons,
            decoder_onLine]

end Listener

/-- The listener has read the lines of the text so far.
Kind: D -/
structure Reads (s : Listener) (decoder : TextDecoder) (text : JsString) : Prop where
  /-- The decoder is where it would be. -/
  decoder : s.decoder = decoder
  /-- The last line is unfinished. -/
  buffer : s.buffer = unfinished text
  /-- The others have been read. -/
  lines : s = { (linesOf text).foldl Listener.onLine Listener.init with
    decoder := s.decoder, buffer := s.buffer }

namespace Reads

open Listener

theorem init : Reads Listener.init TextDecoder.init [] := ⟨rfl, rfl, rfl⟩

/-- A chunk comes in.
Kind: P -/
theorem feed {s : Listener} {decoder : TextDecoder} {text : JsString} (h : Reads s decoder text)
    (chunk : List (Fin 256)) :
    Reads (s.feed chunk) (decoder.decode chunk).1 (text ++ (decoder.decode chunk).2) := by
  have hfeed : s.feed chunk = drain { s with
      decoder := (decoder.decode chunk).1, buffer := unfinished text ++ (decoder.decode chunk).2 } := by
    rw [Listener.feed, h.decoder, h.buffer]
  obtain ⟨hlines, hrest⟩ := linesOf_append text (decoder.decode chunk).2
  have hold := congrArg
    (List.foldl onLine · (linesOf (unfinished text ++ (decoder.decode chunk).2))) h.lines
  simp only [foldl_onLine_with] at hold
  rw [hfeed, drain_eq]
  refine ⟨rfl, hrest.symm, ?_⟩
  rw [hlines, List.foldl_append, foldl_onLine_with, hold]

/-- All the chunks have come in.
Kind: P -/
theorem run (chunks : List (List (Fin 256))) :
    Reads (chunks.foldl Listener.feed Listener.init) (TextDecoder.init.decode chunks.flatten).1
      (TextDecoder.init.decode chunks.flatten).2 := by
  induction chunks using List.reverseRecOn with
  | nil => exact init
  | append_singleton chunks chunk ih =>
      rw [List.foldl_append, List.flatten_concat, TextDecoder.decode_append]
      exact ih.feed chunk

end Reads

/-! ### Blocks -/

section Blocks

variable {line : JsString} {lines block : List JsString}

theorem valueOf_eq (name line : JsString) :
    valueOf name line =
      if line.take (name.length + 1) = name ++ [unit ':'] then some (line.drop (name.length + 1))
      else none := by
  have hiff : (name ++ [unit ':']).isPrefixOf line = true ↔
      line.take (name.length + 1) = name ++ [unit ':'] := by
    rw [List.isPrefixOf_iff_prefix, List.prefix_iff_eq_take, List.length_append, List.length_singleton]
    exact eq_comm
  unfold valueOf
  exact if_congr hiff rfl rfl

/-- A line of the name.
Kind: L -/
theorem valueOf_event (line : JsString) :
    valueOf (js "event") line = if line.take 6 = js "event:" then some (line.drop 6) else none :=
  valueOf_eq _ _

/-- A data line.
Kind: L -/
theorem valueOf_data (line : JsString) :
    valueOf (js "data") line = if line.take 5 = js "data:" then some (line.drop 5) else none :=
  valueOf_eq _ _

/-- No line is both.
Kind: L -/
theorem take_data_ne (h : line.take 6 = js "event:") : line.take 5 ≠ js "data:" := by
  have htake : line.take 5 = js "event" := by
    rw [show line.take 5 = (line.take 6).take 5 by rw [List.take_take]; rfl, h]
    rfl
  rw [htake]
  decide

theorem dataOf_concat (block : List JsString) (line : JsString) :
    dataOf (block ++ [line]) =
      dataOf block ++ ((valueOf (js "data") line).map chopSpace).toList := by
  simp only [dataOf, List.filterMap_append, List.map_append]
  congr 1
  cases h : valueOf (js "data") line <;> simp [h]

theorem nameOf_concat (block : List JsString) (line : JsString) :
    nameOf (block ++ [line]) = ((valueOf (js "event") line).map trim).getD (nameOf block) := by
  unfold nameOf
  rw [List.filterMap_append]
  cases h : valueOf (js "event") line with
  | none => simp [h]
  | some v => simp [h]

/-- The lines of a block, and then the others.
Kind: L -/
theorem blocksOf_append (h : [] ∉ block) (lines : List JsString) :
    blocksOf (block ++ [] :: lines) = block :: blocksOf lines := by
  induction block with
  | nil => rfl
  | cons line block ih =>
      obtain ⟨hne, hrest⟩ := List.ne_and_not_mem_of_not_mem_cons h
      rw [List.cons_append, blocksOf, if_neg (Ne.symm hne), ih hrest]

/-- Lines without a blank one are no block.
Kind: L -/
theorem blocksOf_of_not_mem (h : [] ∉ lines) : blocksOf lines = [] := by
  induction lines with
  | nil => rfl
  | cons line lines ih =>
      obtain ⟨hne, hrest⟩ := List.ne_and_not_mem_of_not_mem_cons h
      rw [blocksOf, if_neg (Ne.symm hne), ih hrest]

end Blocks

/-- The listener is in the middle of a block.
Kind: D -/
structure InBlock (s : Listener) (block : List JsString) : Prop where
  /-- The name so far. -/
  name : s.eventName = nameOf block
  /-- The data so far. -/
  data : s.data = dataOf block

namespace InBlock

open Listener

variable {s : Listener} {block : List JsString} {line : JsString}

/-- A line of the block dispatches nothing.
Kind: P -/
theorem onLine (h : InBlock s block) (hne : line ≠ []) :
    InBlock (s.onLine line) (block ++ [line]) ∧ (s.onLine line).dispatched = s.dispatched := by
  have hname := nameOf_concat block line
  have hdata := dataOf_concat block line
  rw [valueOf_event] at hname
  rw [valueOf_data] at hdata
  unfold Listener.onLine
  rw [if_neg hne]
  split_ifs at hname hdata ⊢ with hevent hd hd
  · exact absurd hd (take_data_ne hevent)
  · refine ⟨⟨hname.symm, ?_⟩, rfl⟩
    rw [hdata, h.data]
    exact (List.append_nil _).symm
  · refine ⟨⟨?_, ?_⟩, rfl⟩
    · rw [hname, h.name]
      rfl
    · rw [hdata, ← h.data]
      rfl
  · refine ⟨⟨?_, ?_⟩, rfl⟩
    · rw [hname, h.name]
      rfl
    · rw [hdata, h.data]
      exact (List.append_nil _).symm

/-- A blank line ends the block.
Kind: P -/
theorem blank (h : InBlock s block) :
    InBlock (s.onLine []) [] ∧
      (s.onLine []).dispatched = s.dispatched ++ (messageOf block).toList := by
  refine ⟨⟨rfl, rfl⟩, ?_⟩
  unfold Listener.onLine messageOf
  rw [if_pos rfl, h.name, h.data]
  split_ifs
  · rfl
  · exact (List.append_nil _).symm

/-- **Reading lines** in the middle of a block.
Kind: P -/
theorem foldl (h : InBlock s block) (hblock : [] ∉ block) (lines : List JsString) :
    (lines.foldl Listener.onLine s).dispatched =
      s.dispatched ++ (blocksOf (block ++ lines)).filterMap messageOf := by
  induction lines generalizing s block with
  | nil =>
      rw [List.append_nil, blocksOf_of_not_mem hblock]
      exact (List.append_nil _).symm
  | cons line lines ih =>
      rw [List.foldl_cons]
      by_cases hblank : line = []
      · subst hblank
        obtain ⟨hnext, hsent⟩ := h.blank
        rw [ih hnext List.not_mem_nil, hsent, blocksOf_append hblock, List.nil_append, List.append_assoc]
        congr 1
        cases hm : messageOf block with
        | none => rw [List.filterMap_cons_none hm]; rfl
        | some m => rw [List.filterMap_cons_some hm]; rfl
      · obtain ⟨hnext, hsent⟩ := h.onLine hblank
        have hmem : [] ∉ block ++ [line] := by
          rw [List.mem_append, List.mem_singleton]
          exact not_or.mpr ⟨hblock, Ne.symm hblank⟩
        rw [ih hnext hmem, hsent, List.append_assoc, List.singleton_append]

end InBlock

/-- What the listener dispatches of lines.
Kind: L -/
theorem dispatched_foldl_onLine (lines : List JsString) :
    (lines.foldl Listener.onLine Listener.init).dispatched = (blocksOf lines).filterMap messageOf := by
  have hinit : InBlock Listener.init [] := ⟨rfl, rfl⟩
  rw [hinit.foldl List.not_mem_nil lines]
  rfl

/-! ### Main result -/

/-- The replacement character ends no line.
Kind: L -/
theorem linesOf_text (bytes : List (Fin 256)) :
    linesOf (TextDecoder.text bytes) = linesOf (TextDecoder.init.decode bytes).2 := by
  rcases TextDecoder.text_eq bytes with heq | heq
  · rw [heq]
  · rw [heq]
    exact linesOf_append_of_not_mem _ (by decide)

end TyoMq.Notify
