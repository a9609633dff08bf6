import QModem.At.LineQueue
import QModem.Lib.CMemory
import QModem.Lib.Lines

/-!
# The Reader of a Port

`reader_thread_func` of `ubus_at_daemon`.  The reader appends what it reads to a buffer and takes
the lines out of it.  While a command waits for its response, each line may match one of its end
flags and so end the command; all lines but echoes are published, with the command they belong to.

The buffer is a structure: between two reads it fits, and it holds no complete line.

## Main results

- `Reader.readAll_eq`: the reader does what it would do with the lines of the whole stream
- `Reader.chunking_irrelevant`: how the stream is cut into reads makes no difference
-/

namespace QModem.At

open Lib List

/-- `MAX_BUFFER_SIZE` -/
def maxBufferSize : ℕ := 32768

/-- The bytes of one `read`: `temp_buffer` less one. -/
def maxReadSize : ℕ := 1023

/-! ## End flags -/

/-- What `check_end_flags` trims. -/
def isBlank (c : UInt8) : Bool := c = 32 || c = 9 || c = 13 || c = 10

/-- The line as `check_end_flags` looks at it. -/
def trimmed (line : Text) : Text := ((line.take 1023).dropWhile isBlank).rdropWhile isBlank

/-- The line is the flag, or begins with it and goes on after a blank; a flag that ends in a colon
may also end the line. -/
def flagMatches (start flag : Text) : Bool :=
  start = flag ||
    flag ≠ [] && flag.isPrefixOf start &&
      match start.drop flag.length with
      | c :: _ => c = 32 || c = 9
      | [] => flag.getLast? = some 58

/-- `check_end_flags` -/
def checkEndFlags (flags : List Text) (line : Text) : Option Text :=
  flags.find? (flagMatches (trimmed line))

/-! ## Commands -/

/-- The fields of `at_port_instance_t` for the response to a command; `endFlagMatched` is set when
the command has ended. -/
structure Command where
  waiting : Bool
  activeCommandId : ℕ
  endFlags : List Text
  response : Text
  endFlagMatched : Option Text
  deriving DecidableEq

/-- A line as it is published. -/
structure ReaderLine where
  line : Text
  commandId : ℕ
  correlation : Correlation
  deriving DecidableEq

/-- What the reader makes of a line. -/
inductive Verdict where
  | skipped
  | published (commandId : ℕ) (correlation : Correlation)
  | matched (flag : Text) (commandId : ℕ)

def isEcho (line : Text) : Bool := (ascii "AT").isPrefixOf line

/-- A line that is published while a command waits without ending it. -/
def waitingCorrelation (line : Text) : Correlation :=
  if line = ascii "RING" || (ascii "+CLIP:").isPrefixOf line then .ambiguous else .response

namespace Command

/-- The bytes of a read are added to the response, all or none. -/
def append (c : Command) (chunk : Text) : Command :=
  if c.waiting && c.response.length + chunk.length < maxBufferSize - 1 then
    { c with response := c.response ++ chunk }
  else c

def classify (c : Command) (line : Text) : Verdict :=
  if line = [] || isEcho line then .skipped
  else if c.waiting then
    match checkEndFlags c.endFlags line with
    | some flag => .matched flag c.activeCommandId
    | none => .published c.activeCommandId (waitingCorrelation line)
  else .published 0 .idle

def finish (c : Command) (flag : Text) : Command :=
  if c.waiting then { c with waiting := false, endFlagMatched := some flag } else c

def readLine (c : Command) (line : Text) : Command × List ReaderLine :=
  match c.classify line with
  | .skipped => (c, [])
  | .published commandId correlation => (c, [⟨line, commandId, correlation⟩])
  | .matched flag commandId => (c.finish flag, [⟨line, commandId, .terminal⟩])

def readLines (c : Command) : List Text → Command × List ReaderLine
  | [] => (c, [])
  | line :: lines =>
    (((c.readLine line).1.readLines lines).1,
      (c.readLine line).2 ++ ((c.readLine line).1.readLines lines).2)

/-- An unfinished line is the prompt that the command waits for. -/
def promptMatches (c : Command) (tail : Text) : Bool :=
  cString tail ≠ [] && c.waiting && checkEndFlags c.endFlags (cString tail) = some (ascii ">")

end Command

/-! ## The buffer -/

/-- The lines of a buffer, and what follows them. -/
abbrev bufferLines (text : Text) : List Text × Text := splitLines 0 13 10 text

/-- What stays in the buffer after its lines are taken.  Without a line nothing is moved, and bytes
behind a zero byte stay as well. -/
def keep (text : Text) : Text :=
  if (bufferLines text).1 = [] then text else cString (bufferLines text).2

theorem keep_settled (text : Text) : (bufferLines (keep text)).1 = [] := by
  unfold keep
  split
  · assumption
  · have htail := congrArg Prod.fst (@splitLines_tail UInt8 _ 0 13 10 text)
    rw [← takeWhile_append_dropWhile (p := (· ≠ 0)) (l := (bufferLines text).2)] at htail
    exact splitLines_nil_of_append htail

theorem length_keep_le (text : Text) : (keep text).length ≤ text.length := by
  unfold keep
  split
  · exact le_rfl
  · have hsplit := congrArg length (@eq_of_splitLines UInt8 _ 0 13 10 text)
    rw [length_append] at hsplit
    have hstring := (takeWhile_sublist (l := (bufferLines text).2) (p := (· ≠ 0))).length_le
    exact hstring.trans (hsplit ▸ Nat.le_add_left _ _)

/-- `read_buffer` between two reads: it has room for a terminator and no complete line. -/
structure ReadBuffer where
  text : Text
  settled : (bufferLines text).1 = []
  fits : text.length < maxBufferSize

namespace ReadBuffer

def empty : ReadBuffer := ⟨[], rfl, by decide⟩

def hasRoom (b : ReadBuffer) (chunk : Text) : Prop := chunk.length ≤ maxBufferSize - b.text.length - 1

instance (b : ReadBuffer) (chunk : Text) : Decidable (b.hasRoom chunk) :=
  inferInstanceAs (Decidable (_ ≤ _))

/-- The buffer after the lines of a read were taken. -/
def advance (b : ReadBuffer) (chunk : Text) (hroom : b.hasRoom chunk) : ReadBuffer where
  text := keep (b.text ++ chunk)
  settled := keep_settled _
  fits := by
    have hlength := length_keep_le (b.text ++ chunk)
    have hfits := b.fits
    rw [hasRoom] at hroom
    rw [List.length_append] at hlength
    omega

end ReadBuffer

/-! ## The reader -/

structure Reader where
  buffer : ReadBuffer
  command : Command
  published : List ReaderLine

namespace Reader

/-- One iteration of the loop of `reader_thread_func`, for a read of at least one byte. -/
def read (r : Reader) (chunk : Text) : Reader :=
  let command := r.command.append chunk
  if hroom : r.buffer.hasRoom chunk then
    let (lines, tail) := bufferLines (r.buffer.text ++ chunk)
    let (command, published) := command.readLines lines
    -- A prompt has no terminator.
    if command.promptMatches tail then
      { buffer := .empty
        command := command.finish (ascii ">")
        published := r.published ++ published }
    else
      { buffer := r.buffer.advance chunk hroom
        command
        published := r.published ++ published }
  else { r with buffer := .empty, command }

def readAll (r : Reader) (chunks : List Text) : Reader := chunks.foldl read r

end Reader

/-! ## Lines do not depend on the response -/

namespace Command

/-- The parts of a command that decide about lines. -/
def withoutResponse (c : Command) : Command := { c with response := [] }

variable (c : Command) (lines : List Text)

theorem withoutResponse_append (chunk : Text) :
    (c.append chunk).withoutResponse = c.withoutResponse := by
  unfold append
  split
  · rfl
  · rfl

theorem withoutResponse_finish (flag : Text) :
    (c.finish flag).withoutResponse = c.withoutResponse.finish flag := by
  unfold finish withoutResponse
  split
  · rfl
  · rfl

theorem withoutResponse_readLine (line : Text) :
    c.withoutResponse.readLine line = ((c.readLine line).1.withoutResponse, (c.readLine line).2) := by
  have hclassify : c.withoutResponse.classify line = c.classify line := rfl
  unfold readLine
  rw [hclassify]
  cases c.classify line with
  | skipped => rfl
  | published commandId correlation => rfl
  | matched flag commandId => rw [withoutResponse_finish]

theorem withoutResponse_readLines :
    c.withoutResponse.readLines lines =
      ((c.readLines lines).1.withoutResponse, (c.readLines lines).2) := by
  induction lines generalizing c with
  | nil => rfl
  | cons line lines ih =>
    simp only [readLines]
    rw [withoutResponse_readLine, ih]

/-- Commands that differ in their responses only do the same with lines. -/
theorem readLines_congr {c c' : Command} (h : c.withoutResponse = c'.withoutResponse)
    (lines : List Text) :
    (c.readLines lines).1.withoutResponse = (c'.readLines lines).1.withoutResponse ∧
      (c.readLines lines).2 = (c'.readLines lines).2 := by
  have hlines := c.withoutResponse_readLines lines
  rw [h, c'.withoutResponse_readLines lines] at hlines
  exact ⟨(congrArg Prod.fst hlines).symm, (congrArg Prod.snd hlines).symm⟩

theorem readLines_append (lines' : List Text) :
    c.readLines (lines ++ lines') =
      (((c.readLines lines).1.readLines lines').1,
        (c.readLines lines).2 ++ ((c.readLines lines).1.readLines lines').2) := by
  induction lines generalizing c with
  | nil => rfl
  | cons line lines ih => simp only [cons_append, readLines, ih, append_assoc]

theorem endFlags_append (chunk : Text) : (c.append chunk).endFlags = c.endFlags := by
  unfold append
  split
  · rfl
  · rfl

/-- Reading lines leaves the end flags of the command as they are. -/
theorem endFlags_readLines : (c.readLines lines).1.endFlags = c.endFlags := by
  induction lines generalizing c with
  | nil => rfl
  | cons line lines ih =>
    refine (ih _).trans ?_
    unfold readLine finish
    split
    · rfl
    · rfl
    · split
      · rfl
      · rfl

/-- Without the prompt among the end flags no prompt is found. -/
theorem promptMatches_eq_false {c : Command} (h : ascii ">" ∉ c.endFlags) (tail : Text) :
    c.promptMatches tail = false := by
  refine Bool.eq_false_iff.mpr fun hprompt => h ?_
  have hmatched : checkEndFlags c.endFlags (cString tail) = some (ascii ">") := by
    simp only [promptMatches, Bool.and_eq_true, decide_eq_true_eq] at hprompt
    exact hprompt.2
  exact mem_of_find?_eq_some hmatched

end Command

/-! ## Chunks -/

/-- No line of a stream, with its terminator, and not the unfinished one either, is longer than the
buffer less one read. -/
structure ShortLines (stream : Text) : Prop where
  lines : ∀ line ∈ (bufferLines stream).1, line.length + 2 ≤ maxBufferSize - maxReadSize
  tail : (bufferLines stream).2.length ≤ maxBufferSize - maxReadSize

/-- There is always room for the next read. -/
theorem ShortLines.hasRoom {b : ReadBuffer} {chunk rest : Text}
    (h : ShortLines (b.text ++ (chunk ++ rest))) (hread : chunk.length ≤ maxReadSize) :
    b.hasRoom chunk := by
  rw [ReadBuffer.hasRoom]
  cases hlines : (bufferLines (b.text ++ (chunk ++ rest))).1 with
  | nil =>
    have htail := h.tail
    rw [bufferLines, splitLines_eq_of_nil hlines] at htail
    simp only [length_append, maxBufferSize, maxReadSize] at htail ⊢
    omega
  | cons line lines =>
    have hline := h.lines line (by rw [hlines]; exact mem_cons_self)
    have hlt := length_lt_of_splitLines b.settled hlines
    omega

/-- The rest of the stream, with what is left in the buffer. -/
theorem ShortLines.rest {stream more : Text} (h : ShortLines (stream ++ more)) :
    ShortLines ((bufferLines stream).2 ++ more) := by
  have hsplit := @splitLines_append UInt8 _ 0 13 10 stream more
  constructor
  · intro line hline
    refine h.lines line ?_
    rw [bufferLines, hsplit]
    exact mem_append_right _ hline
  · have htail := h.tail
    rwa [bufferLines, hsplit] at htail

theorem keep_eq_tail {text : Text} (hnul : 0 ∉ text) : keep text = (bufferLines text).2 := by
  unfold keep
  split
  · next hlines => rw [bufferLines, splitLines_eq_of_nil hlines]
  · refine cString_eq_self fun b hb hzero => hnul ?_
    exact hzero ▸ mem_of_mem_tail hb

namespace Reader

/-- A read that fits, of a stream without zero bytes, with no prompt to wait for. -/
theorem read_eq {r : Reader} {chunk : Text} (hroom : r.buffer.hasRoom chunk)
    (hnul : 0 ∉ r.buffer.text ++ chunk) (hprompt : ascii ">" ∉ r.command.endFlags) :
    (r.read chunk).buffer.text = (bufferLines (r.buffer.text ++ chunk)).2 ∧
    (r.read chunk).command =
      ((r.command.append chunk).readLines (bufferLines (r.buffer.text ++ chunk)).1).1 ∧
    (r.read chunk).published = r.published ++
      ((r.command.append chunk).readLines (bufferLines (r.buffer.text ++ chunk)).1).2 := by
  -- without the prompt among the end flags, the rest of the buffer is never looked at
  have hflags : ascii ">" ∉
      ((r.command.append chunk).readLines (bufferLines (r.buffer.text ++ chunk)).1).1.endFlags := by
    rw [Command.endFlags_readLines, Command.endFlags_append]
    exact hprompt
  unfold read
  rw [dif_pos hroom]
  dsimp only
  rw [Command.promptMatches_eq_false hflags, if_neg Bool.false_ne_true]
  exact ⟨keep_eq_tail hnul, rfl, rfl⟩

/-- The reader does with a stream what it would do with all its lines at once. -/
theorem readAll_eq (r : Reader) {chunks : List Text} (hreads : ∀ c ∈ chunks, c.length ≤ maxReadSize)
    (hnul : 0 ∉ r.buffer.text ++ chunks.flatten)
    (hshort : ShortLines (r.buffer.text ++ chunks.flatten))
    (hprompt : ascii ">" ∉ r.command.endFlags) :
    (r.readAll chunks).buffer.text = (bufferLines (r.buffer.text ++ chunks.flatten)).2 ∧
    (r.readAll chunks).command.withoutResponse =
      (r.command.readLines (bufferLines (r.buffer.text ++ chunks.flatten)).1).1.withoutResponse ∧
    (r.readAll chunks).published = r.published ++
      (r.command.readLines (bufferLines (r.buffer.text ++ chunks.flatten)).1).2 := by
  induction chunks generalizing r with
  | nil =>
    rw [flatten_nil, append_nil, bufferLines, splitLines_eq_of_nil r.buffer.settled]
    exact ⟨rfl, rfl, (append_nil _).symm⟩
  | cons chunk chunks ih =>
    rw [flatten_cons] at hnul hshort ⊢
    have hroom := hshort.hasRoom (hreads chunk mem_cons_self)
    rw [← append_assoc] at hnul hshort ⊢
    obtain ⟨hbuffer, hcommand, hpublished⟩ := r.read_eq hroom
      (fun hmem => hnul (mem_append_left _ hmem)) hprompt
    have hflags : (r.read chunk).command.endFlags = r.command.endFlags := by
      rw [hcommand, Command.endFlags_readLines, Command.endFlags_append]
    -- The other reads begin with what is left of this one.
    have hrest := ih (r.read chunk) (fun c hc => hreads c (mem_cons_of_mem _ hc))
      (by
        rw [hbuffer]
        intro hmem
        rcases mem_append.mp hmem with hmem | hmem
        · exact hnul (mem_append_left _ (mem_of_mem_tail hmem))
        · exact hnul (mem_append_right _ hmem))
      (by rw [hbuffer]; exact hshort.rest) (hflags ▸ hprompt)
    rw [hbuffer, hcommand, hpublished] at hrest
    obtain ⟨hbuffer', hcommand', hpublished'⟩ := hrest
    have hcongr := Command.readLines_congr (r.command.withoutResponse_append chunk)
      (bufferLines (r.buffer.text ++ chunk ++ chunks.flatten)).1
    rw [← hcongr.1, ← hcongr.2, bufferLines, splitLines_append, Command.readLines_append]
    exact ⟨hbuffer', hcommand', hpublished'.trans (append_assoc _ _ _)⟩

/-- The reader publishes the same lines, and ends the command at the same line, however the stream
is cut into reads. -/
theorem chunking_irrelevant (r : Reader) {chunks chunks' : List Text}
    (hsame : chunks.flatten = chunks'.flatten) (hreads : ∀ c ∈ chunks, c.length ≤ maxReadSize)
    (hreads' : ∀ c ∈ chunks', c.length ≤ maxReadSize)
    (hnul : 0 ∉ r.buffer.text ++ chunks.flatten)
    (hshort : ShortLines (r.buffer.text ++ chunks.flatten))
    (hprompt : ascii ">" ∉ r.command.endFlags) :
    (r.readAll chunks).published = (r.readAll chunks').published ∧
    (r.readAll chunks).command.withoutResponse = (r.readAll chunks').command.withoutResponse ∧
    (r.readAll chunks).buffer.text = (r.readAll chunks').buffer.text := by
  obtain ⟨hbuffer, hcommand, hpublished⟩ := r.readAll_eq hreads hnul hshort hprompt
  rw [hsame] at hbuffer hcommand hpublished hnul hshort
  obtain ⟨hbuffer', hcommand', hpublished'⟩ := r.readAll_eq hreads' hnul hshort hprompt
  exact ⟨hpublished.trans hpublished'.symm, hcommand.trans hcommand'.symm,
    hbuffer.trans hbuffer'.symm⟩

/-- A command that waits for its response. -/
def waitingReader : Reader where
  buffer := .empty
  command := ⟨true, 1, [ascii "OK"], [], none⟩
  published := []

/-- A response that is read at once, or cut inside a line and inside a terminator. -/
theorem chunking_irrelevant_response :
    (waitingReader.readAll [ascii "+CSQ: 20\r\n\r\nOK\r\nRING\r\n"]).published =
      (waitingReader.readAll [ascii "+CS", ascii "Q: 20\r", ascii "\n\r\nOK\r\nRING\r\n"]).published := by
  refine (chunking_irrelevant waitingReader ?_ ?_ ?_ ?_ ⟨?_, ?_⟩ ?_).1
  all_goals decide +kernel

end Reader

end QModem.At
