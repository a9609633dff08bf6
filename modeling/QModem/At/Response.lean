import QModem.At.Reader
import QModem.Lib.Run

/-!
# The Response to a Command

`send_at_command_with_response` of `ubus_at_daemon` and the reader thread, step by step.  The sender
raises the waiting flag, writes the command, and waits until the reader lowers the flag.  While the
flag is up, the reader adds every read to the response before it looks at the lines.

`Exchange` is the state both threads share, with the bytes read so far and the positions in that
stream of the bytes in the response.

## Main results

- `Exchange.exact_iff`: a response that is reported is the run of bytes from the write to the end of
  the matching line exactly if nothing was read between raising the flag and the write, every read
  fitted, and the matching line is the last one of a read that came after the write
- `Exchange.reader_of_looks`: without steps of the sender in between, the steps of the reader for a
  read are `Reader.read`
-/

namespace QModem.At

open Lib List

/-! ## Commands -/

def defaultEndFlags : List Text :=
  [ascii "OK", ascii "ERROR", ascii "+CMS ERROR:", ascii "+CME ERROR:", ascii "NO CARRIER"]

/-- The end flags between commas, without the blanks around them. -/
def listedEndFlags (text : Text) : List Text :=
  let isTrim := fun c : UInt8 => c = 32 || c = 9
  let tokens := ((text.take 511).splitOn 44).map fun token => (token.dropWhile isTrim).rdropWhile isTrim
  ((tokens.filter (· ≠ [])).take 5).map (·.take 63)

/-- `parse_end_flags` -/
def parseEndFlags (endFlag : Option Text) : List Text :=
  let flags := listedEndFlags (endFlag.getD [])
  if flags = [] then defaultEndFlags else flags

/-- What one `read` returns. -/
structure Chunk where
  bytes : Text
  nonempty : bytes ≠ []
  fits : bytes.length ≤ maxReadSize

/-- Where the reader is in a read. -/
inductive Scan where
  | idle
  | lines (pending : List Text) (tail : Text)
  /-- The line matches a flag, but the command has not been ended yet. -/
  | matched (line flag : Text) (commandId : ℕ) (pending : List Text) (tail : Text)

/-- The bytes of lines that are still to be looked at. -/
def behind (pending : List Text) (tail : Text) : ℕ := (pending.map (·.length + 2)).sum + tail.length

/-- In a read of the given size, the next line to end a command ends inside of the read. -/
def Scan.Within (size : ℕ) : Scan → Prop
  | .idle => True
  | .lines [] _ => True
  | .lines (_ :: pending) tail => behind pending tail < size
  | .matched _ _ _ pending tail => behind pending tail < size

/-- Where the sender is in a command. -/
inductive Stage where
  | free
  | raised
  | written
  deriving DecidableEq

/-- How a command ended: the position in the stream behind the line that matched, the number of
bytes of the read behind it, and whether the read came after the write. -/
structure Ending where
  position : ℕ
  behind : ℕ
  fresh : Bool

/-- The state of both threads, and its history since the flag was raised. -/
structure Exchange where
  reader : Reader
  scan : Scan
  stage : Stage
  nextCommandId : ℕ
  /-- All bytes that were read. -/
  stream : Text
  /-- The positions in the stream of the bytes in the response. -/
  positions : List ℕ
  /-- How much had been read at the write, or has been read so far. -/
  start : ℕ
  /-- Where the last read after the write begins and ends that came while the flag was up. -/
  heardFrom : ℕ
  heard : ℕ
  /-- The last read came after the write, while the flag was up. -/
  fresh : Bool
  /-- There was a read before the write. -/
  early : Bool
  /-- There was a read after the write that did not fit. -/
  skipped : Bool
  ending : Option Ending

inductive ExchangeStep where
  /-- The sender clears the response and raises the flag. -/
  | raise (endFlag : Option Text)
  /-- The sender writes the command, all of it or not. -/
  | write (complete : Bool)
  /-- The wait times out. -/
  | giveUp
  /-- The sender finds the flag lowered and reports the response. -/
  | collect
  | read (chunk : Chunk)
  /-- The reader looks at the next line, or ends the command. -/
  | look
  /-- The port is opened again. -/
  | reopen

namespace Exchange

def initial : Exchange where
  reader := ⟨.empty, ⟨false, 0, [], [], none⟩, []⟩
  scan := .idle
  stage := .free
  nextCommandId := 0
  stream := []
  positions := []
  start := 0
  heardFrom := 0
  heard := 0
  fresh := false
  early := false
  skipped := false
  ending := none

def waiting (x : Exchange) : Bool := x.reader.command.waiting

/-! ### The sender -/

def raise (x : Exchange) (endFlag : Option Text) : Exchange :=
  if x.stage = .free then
    { x with
      reader := { x.reader with
        command :=
          { waiting := true
            activeCommandId := x.nextCommandId + 1
            endFlags := parseEndFlags endFlag
            response := []
            endFlagMatched := none } }
      stage := .raised
      nextCommandId := x.nextCommandId + 1
      positions := []
      start := x.stream.length
      heardFrom := x.stream.length
      heard := x.stream.length
      fresh := false
      early := false
      skipped := false
      ending := none }
  else x

/-- The sender lowers the flag, and returns. -/
def leave (x : Exchange) (activeCommandId : ℕ) : Exchange :=
  { x with
    reader := { x.reader with
      command := { x.reader.command with waiting := false, activeCommandId } }
    stage := .free }

def write (x : Exchange) (complete : Bool) : Exchange :=
  if x.stage = .raised then
    if complete then { x with stage := .written } else x.leave x.reader.command.activeCommandId
  else x

def giveUp (x : Exchange) : Exchange := if x.stage = .written then x.leave 0 else x

def collect (x : Exchange) : Exchange :=
  if x.stage = .written ∧ x.waiting = false then x.leave 0 else x

/-! ### The reader -/

/-- The bytes of a read are added to the response, or not. -/
def hear (x : Exchange) (chunk : Text) : Exchange :=
  let kept : Bool :=
    x.waiting && x.reader.command.response.length + chunk.length < maxBufferSize - 1
  let total := x.stream.length + chunk.length
  let listening : Bool := x.stage = .written && x.waiting
  { x with
    reader := { x.reader with command := x.reader.command.append chunk }
    stream := x.stream ++ chunk
    positions := if kept then x.positions ++ List.range' x.stream.length chunk.length else x.positions
    start := if x.stage = .raised then total else x.start
    heardFrom :=
      if x.stage = .raised then total else if listening then x.stream.length else x.heardFrom
    heard := if x.stage = .raised || listening then total else x.heard
    fresh := x.fresh || listening
    early := x.early || x.stage = .raised && x.waiting
    skipped := x.skipped || listening && !kept }

def read (x : Exchange) (chunk : Chunk) : Exchange :=
  match x.scan with
  | .idle =>
    let x := x.hear chunk.bytes
    if hroom : x.reader.buffer.hasRoom chunk.bytes then
      let (lines, tail) := bufferLines (x.reader.buffer.text ++ chunk.bytes)
      { x with
        reader := { x.reader with buffer := x.reader.buffer.advance chunk.bytes hroom }
        scan := .lines lines tail }
    else { x with reader := { x.reader with buffer := .empty } }
  | _ => x

def finish (x : Exchange) (flag : Text) (behind : ℕ) : Exchange :=
  if x.waiting then
    { x with
      reader := { x.reader with command := x.reader.command.finish flag }
      ending := some ⟨x.stream.length - behind, behind, x.fresh⟩ }
  else x

def publish (x : Exchange) (line : ReaderLine) : Exchange :=
  { x with reader := { x.reader with published := x.reader.published ++ [line] } }

def look (x : Exchange) : Exchange :=
  match x.scan with
  | .idle => x
  | .lines (line :: pending) tail =>
    match x.reader.command.classify line with
    | .skipped => { x with scan := .lines pending tail }
    | .published commandId correlation =>
      { x.publish ⟨line, commandId, correlation⟩ with scan := .lines pending tail }
    | .matched flag commandId => { x with scan := .matched line flag commandId pending tail }
  | .matched line flag commandId pending tail =>
    { (x.finish flag (behind pending tail)).publish ⟨line, commandId, .terminal⟩ with
      scan := .lines pending tail }
  | .lines [] tail =>
    -- A prompt is the unfinished line, which goes on to the end of the read.
    if x.reader.command.promptMatches tail then
      let x := x.finish (ascii ">") 0
      { x with reader := { x.reader with buffer := .empty }, scan := .idle }
    else { x with scan := .idle }

def reopen (x : Exchange) : Exchange :=
  match x.scan with
  | .idle => { x with reader := { x.reader with buffer := .empty } }
  | _ => x

def step (x : Exchange) : ExchangeStep → Exchange
  | .raise endFlag => x.raise endFlag
  | .write complete => x.write complete
  | .giveUp => x.giveUp
  | .collect => x.collect
  | .read chunk => x.read chunk
  | .look => x.look
  | .reopen => x.reopen

/-! ## The reader alone -/

theorem command_finish (x : Exchange) (flag : Text) (n : ℕ) :
    (x.finish flag n).reader = { x.reader with command := x.reader.command.finish flag } := by
  unfold finish
  split
  · rfl
  · next hdone =>
    rw [waiting] at hdone
    rw [Command.finish, if_neg hdone]

/-- The reader goes through the lines of a read one by one. -/
theorem looks_lines (x : Exchange) {lines : List Text} {tail : Text}
    (hscan : x.scan = .lines lines tail) :
    ∃ n, (look^[n] x).scan = .lines [] tail ∧
      (look^[n] x).reader =
        { x.reader with
          command := (x.reader.command.readLines lines).1
          published := x.reader.published ++ (x.reader.command.readLines lines).2 } := by
  induction lines generalizing x with
  | nil => exact ⟨0, hscan, by simp [Command.readLines]⟩
  | cons line lines ih =>
    cases hverdict : x.reader.command.classify line with
    | skipped =>
      have hlook : x.look = { x with scan := .lines lines tail } := by simp [look, hscan, hverdict]
      obtain ⟨n, hdone, hreader⟩ := ih x.look (by rw [hlook])
      refine ⟨n + 1, hdone, ?_⟩
      rw [Function.iterate_succ_apply, hreader, hlook]
      simp [Command.readLines, Command.readLine, hverdict]
    | published commandId correlation =>
      have hlook : x.look =
          { x.publish ⟨line, commandId, correlation⟩ with scan := .lines lines tail } := by
        simp [look, hscan, hverdict]
      obtain ⟨n, hdone, hreader⟩ := ih x.look (by rw [hlook])
      refine ⟨n + 1, hdone, ?_⟩
      rw [Function.iterate_succ_apply, hreader, hlook]
      simp [publish, Command.readLines, Command.readLine, hverdict]
    | matched flag commandId =>
      -- It takes another step to end the command.
      have hlook : x.look = { x with scan := .matched line flag commandId lines tail } := by
        simp [look, hscan, hverdict]
      have hlook' : x.look.look =
          { (x.look.finish flag (behind lines tail)).publish ⟨line, commandId, .terminal⟩ with
            scan := .lines lines tail } := by
        rw [hlook]
        rfl
      obtain ⟨n, hdone, hreader⟩ := ih x.look.look (by rw [hlook'])
      refine ⟨n + 2, hdone, ?_⟩
      show (look^[n] x.look.look).reader = _
      rw [hreader, hlook']
      simp [publish, command_finish, hlook, Command.readLines, Command.readLine, hverdict]

/-- Without steps of the sender in between, the steps of the reader for a read are one iteration of
its loop. -/
theorem reader_of_looks (x : Exchange) (hidle : x.scan = .idle) (chunk : Chunk) :
    ∃ n, (look^[n] (x.read chunk)).scan = .idle ∧
      (look^[n] (x.read chunk)).reader = x.reader.read chunk.bytes := by
  by_cases hroom : x.reader.buffer.hasRoom chunk.bytes
  · have hread : x.read chunk =
        { x.hear chunk.bytes with
          reader := { x.reader with
            buffer := x.reader.buffer.advance chunk.bytes hroom
            command := x.reader.command.append chunk.bytes }
          scan := .lines (bufferLines (x.reader.buffer.text ++ chunk.bytes)).1
            (bufferLines (x.reader.buffer.text ++ chunk.bytes)).2 } := by
      unfold read
      rw [hidle]
      exact dif_pos hroom
    -- one look for each line, and one more for what is left behind them
    obtain ⟨n, hdone, hreader⟩ := (x.read chunk).looks_lines (by rw [hread])
    refine ⟨n + 1, ?_⟩
    rw [Function.iterate_succ_apply']
    generalize look^[n] (x.read chunk) = y at hdone hreader ⊢
    rw [hread] at hreader
    unfold look Reader.read
    rw [hdone, dif_pos hroom]
    rw [hreader]
    dsimp only
    split
    · refine ⟨rfl, ?_⟩
      rw [command_finish, hreader]
    · exact ⟨rfl, rfl⟩
  · have hread : x.read chunk =
        { x.hear chunk.bytes with
          reader := { x.reader with
            buffer := .empty
            command := x.reader.command.append chunk.bytes } } := by
      unfold read
      rw [hidle]
      exact dif_neg hroom
    -- a chunk without room empties the buffer, and there is nothing to look at
    refine ⟨0, ?_, ?_⟩
    · rw [Function.iterate_zero_apply, hread]
      exact hidle
    · rw [Function.iterate_zero_apply, hread, Reader.read, dif_neg hroom]

/-! ## What a response should be -/

/-- The response is the run of bytes from the write up to the end of the line that matched, which
ends after the write. -/
def Faithful (x : Exchange) : Prop :=
  ∃ ending ∈ x.ending, x.start < ending.position ∧
    x.positions = List.range' x.start (ending.position - x.start) ∧
    x.reader.command.response = (x.stream.drop x.start).take (ending.position - x.start)

/-- Responses that are reported are faithful. -/
def Exact (x : Exchange) : ExchangeStep → Prop
  | .collect => x.stage = .written → x.waiting = false → x.Faithful
  | _ => True

/-- Before a response is reported: no read came between raising the flag and the write, every read
since then fitted, and the line that matched is the last one of a read that came after the write. -/
def Careful (x : Exchange) : ExchangeStep → Prop
  | .collect => x.stage = .written → x.waiting = false →
    x.early = false ∧ x.skipped = false ∧
      ∃ ending ∈ x.ending, ending.fresh = true ∧ ending.behind = 0
  | _ => True

/-! ## Positions -/

/-- What the history says about the response. -/
structure Tracked (x : Exchange) : Prop where
  free : x.stage = .free → x.waiting = false
  ended : x.stage ≠ .free → x.waiting = false → ∃ ending, x.ending = some ending
  running : x.waiting = true → x.ending = none
  text : x.reader.command.response = x.positions.map (x.stream.getD · 0)
  bounded : ∀ p ∈ x.positions, p < x.stream.length
  started : x.start ≤ x.stream.length
  heard : x.heard ≤ x.stream.length
  raised : x.stage = .raised → x.fresh = false ∧ x.skipped = false ∧ x.start = x.stream.length ∧
    x.heard = x.start
  early : x.early = true → ∃ p ∈ x.positions, p < x.start
  skipped : x.skipped = true → ∃ p, p ∉ x.positions ∧ x.start ≤ p ∧ p ≤ x.heardFrom ∧
    p < x.stream.length
  whole : x.stage ≠ .free → x.early = false → x.skipped = false →
    x.start ≤ x.heard ∧ x.positions = List.range' x.start (x.heard - x.start)
  stale : x.stage = .written → x.waiting = true → x.fresh = false → x.stream.length ≤ x.start
  fresh : x.stage = .written → x.waiting = true → x.fresh = true →
    x.heard = x.stream.length ∧ x.start ≤ x.heardFrom ∧ x.heardFrom < x.heard
  within : x.stage = .written → x.waiting = true → x.fresh = true →
    Scan.Within (x.heard - x.heardFrom) x.scan
  ending : ∀ ending, x.ending = some ending →
    (ending.fresh = true → ending.position + ending.behind = x.heard ∧
      x.heardFrom < ending.position ∧ x.start ≤ x.heardFrom) ∧
    (ending.fresh = false → ending.position ≤ x.start)

theorem map_getD_range' (stream : Text) {a n : ℕ} (h : a + n ≤ stream.length) :
    (List.range' a n).map (stream.getD · 0) = (stream.drop a).take n := by
  refine ext_getElem (by simp; omega) fun i hi _ => ?_
  have hlt : a + i < stream.length := by
    simp only [length_map, length_range'] at hi
    omega
  simp [getElem?_eq_getElem hlt]

namespace Tracked

variable {x : Exchange}

section

variable (ht : x.Tracked)

include ht

/-- A response that is reported is faithful exactly if the reads came as they should. -/
theorem faithful_iff (hstage : x.stage = .written) :
    x.Faithful ↔ x.early = false ∧ x.skipped = false ∧
      ∃ ending ∈ x.ending, ending.fresh = true ∧ ending.behind = 0 := by
  have hbusy : x.stage ≠ .free := by rw [hstage]; nofun
  constructor
  · rintro ⟨ending, hending, hlate, hpositions, -⟩
    obtain ⟨hfresh, hstale⟩ := ht.ending ending hending
    have hisFresh : ending.fresh = true := by
      cases h : ending.fresh with
      | true => rfl
      | false => exact absurd hlate (Nat.not_lt.mpr (hstale h))
    obtain ⟨hheard, hfrom, hstart⟩ := hfresh hisFresh
    -- A read before the write would be in the response.
    have hearly : x.early = false := by
      refine Bool.eq_false_iff.mpr fun h => ?_
      obtain ⟨p, hp, hlt⟩ := ht.early h
      rw [hpositions, mem_range'_1] at hp
      omega
    -- A read that did not fit would be missing.
    have hskipped : x.skipped = false := by
      refine Bool.eq_false_iff.mpr fun h => ?_
      obtain ⟨p, hp, hle, hbefore, -⟩ := ht.skipped h
      refine hp (hpositions ▸ mem_range'_1.mpr ⟨hle, ?_⟩)
      omega
    refine ⟨hearly, hskipped, ending, hending, hisFresh, ?_⟩
    obtain ⟨-, hwhole⟩ := ht.whole hbusy hearly hskipped
    have hlength := congrArg length (hpositions.symm.trans hwhole)
    simp only [length_range'] at hlength
    omega
  · rintro ⟨hearly, hskipped, ending, hending, hisFresh, hbehind⟩
    obtain ⟨hheard, hfrom, hstart⟩ := (ht.ending ending hending).1 hisFresh
    obtain ⟨hle, hwhole⟩ := ht.whole hbusy hearly hskipped
    have hposition : ending.position = x.heard := by omega
    refine ⟨ending, hending, by omega, by rw [hposition]; exact hwhole, ?_⟩
    rw [ht.text, hwhole, hposition, map_getD_range']
    have hend := ht.heard
    omega

/-! ### The sender -/

/-- A new command starts with nothing heard. -/
theorem raise (endFlag : Option Text) : (x.raise endFlag).Tracked := by
  unfold Exchange.raise
  split
  · exact
      -- every field starts anew with the command
      { free := nofun
        ended := nofun
        running := fun _ => rfl
        text := rfl
        bounded := nofun
        started := le_rfl
        heard := le_rfl
        raised := fun _ => ⟨rfl, rfl, rfl, rfl⟩
        early := nofun
        skipped := nofun
        whole := fun _ _ _ => ⟨le_rfl, by simp⟩
        stale := nofun
        fresh := nofun
        within := nofun
        ending := nofun }
  · exact ht

/-- The waiting thread gives the port back. -/
theorem leave (activeCommandId : ℕ) : (x.leave activeCommandId).Tracked :=
  { ht with
    free := fun _ => rfl
    ended := fun hbusy => absurd rfl hbusy
    running := nofun
    raised := nofun
    whole := fun hbusy => absurd rfl hbusy
    stale := nofun
    fresh := nofun
    within := nofun }

/-- The command has been written, or the thread leaves. -/
theorem write (complete : Bool) : (x.write complete).Tracked := by
  unfold Exchange.write
  split
  · next hraised =>
    split
    · -- what came before the write is all in front of the start
      obtain ⟨hfresh, hskipped, hstart, hheard⟩ := ht.raised hraised
      have hbusy : x.stage ≠ .free := by rw [hraised]; nofun
      have hstale : x.fresh = true → False := by rw [hfresh]; nofun
      exact
        { ht with
          free := nofun
          ended := fun _ => ht.ended hbusy
          raised := nofun
          whole := fun _ => ht.whole hbusy
          stale := fun _ _ _ => hstart.ge
          fresh := fun _ _ h => (hstale h).elim
          within := fun _ _ h => (hstale h).elim }
    · exact ht.leave _
  · exact ht

/-! ### The reader -/

/-- Only the buffer and the published lines change, and where the reader is. -/
theorem scanned (buffer : ReadBuffer) (published : List ReaderLine) {scan : Scan}
    (hscan : x.stage = .written → x.waiting = true → x.fresh = true →
      Scan.Within (x.heard - x.heardFrom) scan) :
    Tracked { x with reader := { x.reader with buffer, published }, scan } :=
  { ht with within := hscan }

/-- A command that waits is raised, with no read after the write, or written. -/
theorem stage_of_waiting (hwaiting : x.waiting = true) :
    x.stage = .written ∨ x.stage = .raised := by
  cases hstage : x.stage with
  | free => rw [ht.free hstage] at hwaiting; cases hwaiting
  | raised => exact .inr rfl
  | written => exact .inl rfl

/-- **Ending**: a flag that is found in what was heard since the write ends the command there. -/
theorem finish (flag : Text) {n : ℕ}
    (hbehind : x.stage = .written → x.waiting = true → x.fresh = true → n < x.heard - x.heardFrom) :
    (x.finish flag n).Tracked := by
  unfold Exchange.finish
  split
  · next hwaiting =>
    -- the command does not wait any longer, so most of the fields are void
    have hlowered : (x.reader.command.finish flag).waiting = false := by
      unfold Command.finish
      rw [Exchange.waiting] at hwaiting
      rw [if_pos hwaiting]
    have hresponse : (x.reader.command.finish flag).response = x.reader.command.response := by
      unfold Command.finish
      split <;> rfl
    have hdone : (x.reader.command.finish flag).waiting = true → False := by rw [hlowered]; nofun
    refine { ht with
      free := fun _ => hlowered
      ended := fun _ _ => ⟨_, rfl⟩
      running := fun h => (hdone h).elim
      text := hresponse.trans ht.text
      stale := fun _ h => (hdone h).elim
      fresh := fun _ h => (hdone h).elim
      within := fun _ h => (hdone h).elim
      ending := ?_ }
    rintro ending ⟨⟩
    constructor
    · intro hfresh
      -- something was heard, so the command had been written
      have hwritten : x.stage = .written := by
        refine (ht.stage_of_waiting hwaiting).resolve_right fun hraised => ?_
        have hstale := (ht.raised hraised).1
        rw [hstale] at hfresh
        cases hfresh
      have hlt := hbehind hwritten hwaiting hfresh
      obtain ⟨hheard, hstart, hfrom⟩ := ht.fresh hwritten hwaiting hfresh
      dsimp only
      exact ⟨by omega, by omega, hstart⟩
    · intro hstale
      -- nothing was heard since the write
      have hle : x.stream.length ≤ x.start := by
        rcases ht.stage_of_waiting hwaiting with hwritten | hraised
        · exact ht.stale hwritten hwaiting hstale
        · exact (ht.raised hraised).2.2.1.ge
      exact (Nat.sub_le _ _).trans hle
  · exact ht

end

theorem waiting_finish (x : Exchange) (flag : Text) (n : ℕ) : (x.finish flag n).waiting = false := by
  unfold Exchange.finish
  split
  · next hwaiting =>
    show (x.reader.command.finish flag).waiting = false
    rw [Exchange.waiting] at hwaiting
    rw [Command.finish, if_pos hwaiting]
  · next hdone => exact Bool.eq_false_iff.mpr hdone

theorem within_tail {size : ℕ} {line : Text} {pending : List Text} {tail : Text}
    (h : Scan.Within size (.lines (line :: pending) tail)) :
    Scan.Within size (.lines pending tail) := by
  cases pending with
  | nil => trivial
  | cons next pending =>
    refine Nat.lt_of_le_of_lt ?_ h
    simp only [behind, map_cons, sum_cons]
    omega

/-- The reader looks at one line, or at what is left behind the last one. -/
theorem look (ht : x.Tracked) : x.look.Tracked := by
  unfold Exchange.look
  split
  · exact ht
  · next line pending tail hscan =>
    have hwithin := fun hwritten hwaiting hfresh => hscan ▸ ht.within hwritten hwaiting hfresh
    split
    · exact ht.scanned x.reader.buffer x.reader.published
        fun h h' h'' => within_tail (hwithin h h' h'')
    · exact ht.scanned x.reader.buffer _ fun h h' h'' => within_tail (hwithin h h' h'')
    · exact ht.scanned x.reader.buffer x.reader.published hwithin
  · next line flag commandId pending tail hscan =>
    have hwithin := fun hwritten hwaiting hfresh => hscan ▸ ht.within hwritten hwaiting hfresh
    -- the line has an end flag
    have hfinished := ht.finish flag (n := behind pending tail) hwithin
    refine hfinished.scanned _ _ fun _ hwaiting _ => ?_
    rw [waiting_finish] at hwaiting
    cases hwaiting
  · next tail hscan =>
    split
    · -- the prompt is looked for in what has no line end
      refine (ht.finish (ascii ">") (n := 0) ?_).scanned .empty _ fun _ _ _ => trivial
      intro hwritten hwaiting hfresh
      have hfrom := (ht.fresh hwritten hwaiting hfresh).2.2
      omega
    · exact ht.scanned x.reader.buffer x.reader.published fun _ _ _ => trivial

theorem length_eq_behind (text : Text) :
    text.length = behind (bufferLines text).1 (bufferLines text).2 :=
  length_of_splitLines text

/-- The lines of a new read end in the read. -/
theorem within_bufferLines (b : ReadBuffer) (chunk : Text) :
    Scan.Within chunk.length
      (.lines (bufferLines (b.text ++ chunk)).1 (bufferLines (b.text ++ chunk)).2) := by
  have hlength := length_eq_behind (b.text ++ chunk)
  cases hlines : (bufferLines (b.text ++ chunk)).1 with
  | nil => trivial
  | cons line pending =>
    have hlt := length_lt_of_splitLines b.settled hlines
    rw [hlines, length_append] at hlength
    simp only [behind, map_cons, sum_cons] at hlength
    simp only [Scan.Within, behind]
    omega

theorem map_kept (ht : x.Tracked) (chunk : Text) :
    x.positions.map ((x.stream ++ chunk).getD · 0) = x.reader.command.response := by
  rw [ht.text]
  refine map_congr_left fun p hp => ?_
  exact getD_append _ _ _ _ (ht.bounded p hp)

theorem map_added (stream chunk : Text) :
    (List.range' stream.length chunk.length).map ((stream ++ chunk).getD · 0) = chunk := by
  rw [map_getD_range' _ (by simp), drop_left, take_length]

theorem waiting_hear (x : Exchange) (chunk : Text) : (x.hear chunk).waiting = x.waiting := by
  show (x.reader.command.append chunk).waiting = x.reader.command.waiting
  unfold Command.append
  split <;> rfl

theorem not_ended {ending : Ending} (ht : x.Tracked) (hwaiting : x.waiting = true) :
    x.ending ≠ some ending := by
  rw [ht.running hwaiting]
  exact Option.some_ne_none ending |>.symm

/-- The positions go along with the response. -/
theorem text_hear (ht : x.Tracked) (chunk : Text) :
    (x.hear chunk).reader.command.response =
      (x.hear chunk).positions.map ((x.stream ++ chunk).getD · 0) := by
  show (x.reader.command.append chunk).response = map _ (if _ then _ else _)
  unfold Command.append Exchange.waiting
  split
  · rw [map_append, ht.map_kept, map_added]
  · exact (ht.map_kept chunk).symm

theorem positions_hear (x : Exchange) (chunk : Text) :
    (x.hear chunk).positions = x.positions ++ List.range' x.stream.length chunk.length ∨
      (x.hear chunk).positions = x.positions := by
  unfold Exchange.hear
  dsimp only
  split
  · exact .inl rfl
  · exact .inr rfl

theorem positions_subset_hear (x : Exchange) (chunk : Text) :
    x.positions ⊆ (x.hear chunk).positions := by
  rcases positions_hear x chunk with h | h <;> simp [h]

variable (ht : x.Tracked)

include ht

theorem bounded_hear (chunk : Text) :
    ∀ p ∈ (x.hear chunk).positions, p < (x.stream ++ chunk).length := by
  have hold : ∀ p ∈ x.positions, p < (x.stream ++ chunk).length := fun p hmem =>
    (ht.bounded p hmem).trans_le (by simp)
  rcases positions_hear x chunk with h | h
  · rw [h, length_append] at *
    exact forall_mem_append.mpr ⟨hold, fun p hmem => (mem_range'_1.mp hmem).2⟩
  · rwa [h]

/-- A read while the flag is down. -/
theorem hear_done (hdone : x.waiting = false) (chunk : Text) : (x.hear chunk).Tracked := by
  have hnever : x.waiting = true → False := by rw [hdone]; nofun
  have hcommand : x.reader.command.append chunk = x.reader.command := by
    rw [Exchange.waiting] at hdone
    simp [Command.append, hdone]
  have hlonger : x.stream.length ≤ (x.stream ++ chunk).length := by simp
  -- a command that ended before it was written starts behind this chunk
  by_cases hraised : x.stage = .raised
  · have hhear : x.hear chunk =
        { x with
          stream := x.stream ++ chunk
          start := (x.stream ++ chunk).length
          heardFrom := (x.stream ++ chunk).length
          heard := (x.stream ++ chunk).length } := by
      simp [Exchange.hear, hcommand, hdone, hraised]
    obtain ⟨hfresh, hskipped, hstart, hheard⟩ := ht.raised hraised
    have hbusy : x.stage ≠ .free := by rw [hraised]; nofun
    rw [hhear]
    exact
      { ht with
        text := (ht.map_kept chunk).symm
        bounded := fun p hp => (ht.bounded p hp).trans_le hlonger
        started := le_rfl
        heard := le_rfl
        raised := fun _ => ⟨hfresh, hskipped, rfl, rfl⟩
        early := fun h => by
          obtain ⟨p, hp, hlt⟩ := ht.early h
          exact ⟨p, hp, hlt.trans_le (hstart.le.trans hlonger)⟩
        skipped := fun h => absurd (hskipped.symm.trans h) nofun
        -- nothing is kept, so the response is what it was
        whole := fun _ hearly hskipped => by
          obtain ⟨-, hwhole⟩ := ht.whole hbusy hearly hskipped
          rw [hheard] at hwhole
          exact ⟨le_rfl, by simpa using hwhole⟩
        stale := fun _ h => (hnever h).elim
        fresh := fun _ h => (hnever h).elim
        within := fun _ h => (hnever h).elim
        ending := fun ending hending => by
          obtain ⟨hafter, hbefore⟩ := ht.ending ending hending
          refine ⟨fun h => ?_, fun h => (hbefore h).trans (hstart.le.trans hlonger)⟩
          have hall := hafter h
          omega }
  · have hhear : x.hear chunk = { x with stream := x.stream ++ chunk } := by
      simp [Exchange.hear, hcommand, hdone, hraised]
    rw [hhear]
    exact
      { ht with
        text := (ht.map_kept chunk).symm
        bounded := fun p hp => (ht.bounded p hp).trans_le hlonger
        started := ht.started.trans hlonger
        heard := ht.heard.trans hlonger
        raised := fun h => absurd h hraised
        skipped := fun h => by
          obtain ⟨p, hp, hle, hfrom, hlt⟩ := ht.skipped h
          exact ⟨p, hp, hle, hfrom, hlt.trans_le hlonger⟩
        stale := fun _ h => (hnever h).elim
        fresh := fun _ h => (hnever h).elim
        within := fun _ h => (hnever h).elim }

/-- A read before the write: the first one is added to the response. -/
theorem hear_raised (hwaiting : x.waiting = true) (hraised : x.stage = .raised) {chunk : Text}
    (hnonempty : 0 < chunk.length) (hfits : chunk.length ≤ maxReadSize) :
    (x.hear chunk).Tracked := by
  obtain ⟨hfresh, hskipped, hstart, hheard⟩ := ht.raised hraised
  have hbusy : x.stage ≠ .free := by rw [hraised]; nofun
  have hnever : x.stage = .written → False := by rw [hraised]; nofun
  have hup : (x.hear chunk).waiting = true := (waiting_hear x chunk).trans hwaiting
  have hnew : (x.hear chunk).start = (x.stream ++ chunk).length ∧
      (x.hear chunk).heard = (x.stream ++ chunk).length ∧ (x.hear chunk).fresh = false ∧
      (x.hear chunk).skipped = false ∧ (x.hear chunk).early = true := by
    simp [Exchange.hear, hraised, hwaiting, hfresh, hskipped]
  obtain ⟨hstart', hheard', hfresh', hskipped', hearly'⟩ := hnew
  exact
    { free := fun h => absurd h hbusy
      ended := fun _ h => absurd (hup.symm.trans h) nofun
      running := fun _ => ht.running hwaiting
      text := ht.text_hear chunk
      bounded := ht.bounded_hear chunk
      started := hstart'.le
      heard := hheard'.le
      raised := fun _ => ⟨hfresh', hskipped', hstart', hheard'.trans hstart'.symm⟩
      early := fun _ => by
        rw [hstart', length_append]
        cases hearly : x.early with
        | true =>
          obtain ⟨p, hp, hlt⟩ := ht.early hearly
          exact ⟨p, positions_subset_hear x chunk hp, by omega⟩
        | false =>
          -- Nothing has been added so far, so there is room.
          obtain ⟨-, hwhole⟩ := ht.whole hbusy hearly hskipped
          have hempty : x.reader.command.response = [] := by
            rw [ht.text, hwhole, hheard, Nat.sub_self]
            rfl
          refine ⟨x.stream.length, ?_, by omega⟩
          have hroom : chunk.length < maxBufferSize - 1 := by
            simp only [maxReadSize, maxBufferSize] at hfits ⊢
            omega
          simp [Exchange.hear, hwaiting, hempty, hroom, hnonempty]
      skipped := fun h => absurd (hskipped'.symm.trans h) nofun
      whole := fun _ h => absurd (hearly'.symm.trans h) nofun
      stale := fun h => (hnever h).elim
      fresh := fun h => (hnever h).elim
      within := fun h => (hnever h).elim
      ending := fun ending hending => absurd hending (ht.not_ended hwaiting) }

/-- What is read after the write and before the flag is lowered has all been offered to the
response. -/
theorem heard_eq (hwaiting : x.waiting = true) (hwritten : x.stage = .written)
    (hstart : x.start ≤ x.heard) : x.heard = x.stream.length := by
  cases hfresh : x.fresh with
  | true => exact (ht.fresh hwritten hwaiting hfresh).1
  | false => exact le_antisymm ht.heard ((ht.stale hwritten hwaiting hfresh).trans hstart)

/-- A read after the write. -/
theorem hear_written (hidle : x.scan = .idle) (hwaiting : x.waiting = true)
    (hwritten : x.stage = .written) {chunk : Text} (hnonempty : 0 < chunk.length) :
    (x.hear chunk).Tracked := by
  have hbusy : x.stage ≠ .free := by rw [hwritten]; nofun
  have hnew : (x.hear chunk).start = x.start ∧ (x.hear chunk).heardFrom = x.stream.length ∧
      (x.hear chunk).heard = (x.hear chunk).stream.length ∧ (x.hear chunk).fresh = true ∧
      (x.hear chunk).early = x.early := by
    simp [Exchange.hear, hwritten, hwaiting]
  obtain ⟨hstart', hheardFrom', hheard', hfresh', hearly'⟩ := hnew
  have hup : (x.hear chunk).waiting = true := (waiting_hear x chunk).trans hwaiting
  have hlength : (x.hear chunk).stream.length = x.stream.length + chunk.length := length_append
  -- the chunk is kept if there is room for it, and skipped as a whole otherwise
  have hpositions : (x.hear chunk).skipped = x.skipped ∧
        (x.hear chunk).positions = x.positions ++ range' x.stream.length chunk.length ∨
      (x.hear chunk).skipped = true ∧ (x.hear chunk).positions = x.positions := by
    by_cases hkept : x.reader.command.response.length + chunk.length < maxBufferSize - 1
    · exact .inl (by simp [Exchange.hear, hwritten, hwaiting, hkept])
    · exact .inr (by simp [Exchange.hear, hwritten, hwaiting, hkept])
  exact
    { free := fun h => absurd h hbusy
      ended := fun _ h => absurd (hup.symm.trans h) nofun
      running := fun _ => ht.running hwaiting
      text := ht.text_hear chunk
      bounded := ht.bounded_hear chunk
      started := by
        rw [hstart']
        exact ht.started.trans (by rw [hlength]; omega)
      heard := hheard'.le
      raised := fun h => absurd (hwritten.symm.trans h) nofun
      early := fun h => by
        obtain ⟨p, hp, hlt⟩ := ht.early (hearly'.symm.trans h)
        exact ⟨p, positions_subset_hear x chunk hp, hstart'.symm ▸ hlt⟩
      skipped := fun h => by
        rw [hstart', hheardFrom', hlength]
        rcases hpositions with ⟨hold, hadded⟩ | ⟨-, hsame⟩
        · obtain ⟨p, hp, hle, hfrom, hlt⟩ := ht.skipped (hold.symm.trans h)
          refine ⟨p, ?_, hle, hlt.le, by omega⟩
          rw [hadded, mem_append, mem_range'_1]
          rintro (hmem | ⟨hmem, -⟩)
          · exact hp hmem
          · omega
        · -- the first byte of the chunk is missing
          refine ⟨x.stream.length, ?_, ht.started, le_rfl, by omega⟩
          rw [hsame]
          exact fun hmem => lt_irrefl _ (ht.bounded _ hmem)
      whole := fun _ hearly hskipped => by
        rcases hpositions with ⟨hold, hadded⟩ | ⟨hnow, -⟩
        · obtain ⟨hle, hwhole⟩ := ht.whole hbusy (hearly'.symm.trans hearly) (hold.symm.trans hskipped)
          have hheard := ht.heard_eq hwaiting hwritten hle
          rw [hheard] at hle hwhole
          rw [hstart', hheard', hlength, hadded, hwhole]
          refine ⟨by omega, ?_⟩
          -- the positions of the chunk follow those that were heard
          have hnext : x.start + (x.stream.length - x.start) = x.stream.length := by omega
          have happend := @range'_append_1 x.start (x.stream.length - x.start) chunk.length
          rw [hnext] at happend
          rw [happend]
          congr 1
          omega
        · exact absurd (hnow.symm.trans hskipped) nofun
      stale := fun _ _ h => absurd (hfresh'.symm.trans h) nofun
      fresh := fun _ _ _ => by
        rw [hheard', hheardFrom', hstart', hlength]
        exact ⟨rfl, ht.started, by omega⟩
      within := fun _ _ _ => by
        show Scan.Within _ x.scan
        rw [hidle]
        trivial
      ending := fun ending hending => absurd hending (ht.not_ended hwaiting) }

theorem hear (hidle : x.scan = .idle) {chunk : Text} (hnonempty : 0 < chunk.length)
    (hfits : chunk.length ≤ maxReadSize) : (x.hear chunk).Tracked := by
  cases hwaiting : x.waiting with
  | false => exact ht.hear_done hwaiting chunk
  | true =>
    rcases ht.stage_of_waiting hwaiting with hwritten | hraised
    · exact ht.hear_written hidle hwaiting hwritten hnonempty
    · exact ht.hear_raised hwaiting hraised hnonempty hfits

/-- A chunk is read: it is heard, and its lines are looked at afterwards. -/
theorem read (chunk : Chunk) : (x.read chunk).Tracked := by
  have hnonempty := length_pos_iff.mpr chunk.nonempty
  unfold Exchange.read
  split
  · next hidle =>
    have hheard := ht.hear hidle hnonempty chunk.fits
    dsimp only
    split
    · -- the lines of the buffer end within the chunk
      refine hheard.scanned _ _ fun hwritten hwaiting hfresh => ?_
      rw [waiting_hear] at hwaiting
      have hwritten : x.stage = .written := hwritten
      have hsize : (x.hear chunk.bytes).heard - (x.hear chunk.bytes).heardFrom =
          chunk.bytes.length := by
        simp [Exchange.hear, hwritten, hwaiting]
      rw [hsize]
      exact within_bufferLines _ _
    · refine hheard.scanned _ _ fun _ _ _ => ?_
      show Scan.Within _ x.scan
      rw [hidle]
      trivial
  · exact ht

theorem reopen : x.reopen.Tracked := by
  unfold Exchange.reopen
  split
  · next hidle => exact ht.scanned .empty x.reader.published ht.within
  · exact ht

/-- **The invariant** is kept by every step of the two threads. -/
theorem step (e : ExchangeStep) : (x.step e).Tracked := by
  -- the writing thread first, then the reading one
  cases e with
  | raise endFlag => exact ht.raise endFlag
  | write complete => exact ht.write complete
  | giveUp =>
    show (x.giveUp).Tracked
    unfold Exchange.giveUp
    split
    · exact ht.leave 0
    · exact ht
  | collect =>
    show (x.collect).Tracked
    unfold Exchange.collect
    split
    · exact ht.leave 0
    · exact ht
  | read chunk => exact ht.read chunk
  | look => exact ht.look
  | reopen => exact ht.reopen

end Tracked

/-- A port without a command. -/
theorem tracked_initial : initial.Tracked where
  free _ := rfl
  ended h := absurd rfl h
  running := nofun
  text := rfl
  bounded _ h := absurd h not_mem_nil
  started := le_rfl
  heard := le_rfl
  raised := nofun
  early := nofun
  skipped := nofun
  whole h := absurd rfl h
  stale := nofun
  fresh := nofun
  within := nofun
  ending := nofun

/-- In every run of both threads, the responses that are reported are the bytes from the write to
the end of the matching line exactly if the reads came as they should before each report. -/
theorem exact_iff (steps : List ExchangeStep) :
    Along step Exact initial steps ↔ Along step Careful initial steps := by
  refine along_iff_along_of_step tracked_initial (fun x e ht => ?_) (fun x e _ ht => ht.step e) steps
  cases e with
  | collect => exact forall₂_congr fun hwritten _ => ht.faithful_iff hwritten
  | _ => exact Iff.rfl

/-- The response holds a line that came with the terminal line in one read. -/
def trailing : List ExchangeStep :=
  [.raise none, .write true, .read ⟨ascii "OK\r\nRING\r\n", by decide, by decide⟩, .look, .look,
    .collect]

/-- The response holds a line that was read before the command was written. -/
def leading : List ExchangeStep :=
  [.raise none, .read ⟨ascii "RING\r\n", by decide, by decide⟩, .look, .look, .write true,
    .read ⟨ascii "OK\r\n", by decide, by decide⟩, .look, .look, .collect]

/-- Neither run reports exactly what the device has answered. -/
theorem trailing_leading_not_exact :
    ¬ Along step Exact initial trailing ∧ ¬ Along step Exact initial leading := by
  constructor
  · rintro ⟨-, -, -, -, -, hreported, -⟩
    revert hreported
    unfold Exact Faithful
    decide +kernel
  · rintro ⟨-, -, -, -, -, -, -, -, hreported, -⟩
    revert hreported
    unfold Exact Faithful
    decide +kernel

end Exchange

end QModem.At
