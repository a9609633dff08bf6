import Mathlib

/-!
# Checked Memory for C Functions

A C function that reads and writes byte buffers either returns, returns a negative error code, or
leaves its buffers.  `CResult` keeps the three apart: an access outside a buffer is never given a
value, so a function that is shown to return has made every access inside its buffers.
-/

namespace QModem.Lib

open List

/-- Why a C function delivers no result. -/
inductive Failure where
  /-- The function returned this error code. -/
  | code (rc : ℤ)
  /-- The function accessed memory outside one of its buffers. -/
  | outOfBounds
  deriving DecidableEq, Repr

/-- Result of a C function that may return an error code or leave its buffers. -/
abbrev CResult (α : Type) := Except Failure α

@[simp] theorem CResult.ok_bind {α β : Type} (a : α) (f : α → CResult β) :
    ((Except.ok a : CResult α) >>= f) = f a := rfl

theorem CResult.map_bind {α β γ : Type} (x : CResult α) (f : α → CResult β) (g : β → γ) :
    (x >>= f).map g = x >>= fun a => (f a).map g := by
  cases x with
  | ok a => rfl
  | error e => rfl

@[simp] theorem CResult.pure_eq {α : Type} (a : α) : (pure a : CResult α) = Except.ok a := rfl

/-! ## Reading -/

/-- `buffer[i]`, when `i` is inside the buffer. -/
def readAt (buffer : List UInt8) (i : ℕ) : CResult UInt8 :=
  match buffer[i]? with
  | some b => .ok b
  | none => .error .outOfBounds

theorem readAt_eq_ok {buffer : List UInt8} {i : ℕ} {b : UInt8} (h : buffer[i]? = some b) :
    readAt buffer i = .ok b := by
  simp [readAt, h]

theorem readAt_of_lt {buffer : List UInt8} {i : ℕ} (h : i < buffer.length) :
    readAt buffer i = .ok buffer[i] :=
  readAt_eq_ok (getElem?_eq_getElem h)

theorem readAt_of_le {buffer : List UInt8} {i : ℕ} (h : buffer.length ≤ i) :
    readAt buffer i = .error .outOfBounds := by
  simp [readAt, getElem?_eq_none h]

@[simp] theorem readAt_cons_zero (b : UInt8) (buffer : List UInt8) :
    readAt (b :: buffer) 0 = .ok b := rfl

@[simp] theorem readAt_cons_succ (b : UInt8) (buffer : List UInt8) (i : ℕ) :
    readAt (b :: buffer) (i + 1) = readAt buffer i := by
  simp [readAt]

theorem readAt_append_right {xs ys : List UInt8} {n i : ℕ} (h : n = xs.length) :
    readAt (xs ++ ys) (n + i) = readAt ys i := by
  subst h
  simp [readAt, getElem?_append_right (Nat.le_add_right xs.length i)]

/-! ## Writing -/

/-- `buffer[i] = b`, when `i` is inside the buffer. -/
def writeAt (buffer : List UInt8) (i : ℤ) (b : UInt8) : CResult (List UInt8) :=
  if 0 ≤ i ∧ i < buffer.length then .ok (buffer.set i.toNat b) else .error .outOfBounds

/-- `memmove(buffer + target, source + start, n)` -/
def memmove (buffer : List UInt8) (target : ℕ) (source : List UInt8) (start n : ℕ) :
    CResult (List UInt8) :=
  if start + n ≤ source.length ∧ target + n ≤ buffer.length then
    .ok (buffer.take target ++ (source.drop start).take n ++ buffer.drop (target + n))
  else .error .outOfBounds

/-- A buffer whose first bytes have been overwritten. -/
def overlay (text buffer : List UInt8) : List UInt8 := text ++ buffer.drop text.length

theorem writeAt_append (xs : List UInt8) (x b : UInt8) (ys : List UInt8) :
    writeAt (xs ++ x :: ys) xs.length b = .ok (xs ++ b :: ys) := by
  simp [writeAt]

/-- Writing behind the bytes written so far adds one to them. -/
theorem writeAt_overlay {text buffer : List UInt8} (h : text.length < buffer.length) (b : UInt8) :
    writeAt (overlay text buffer) text.length b = .ok (overlay (text ++ [b]) buffer) := by
  have hdrop : buffer.drop text.length = buffer[text.length] :: buffer.drop (text.length + 1) :=
    drop_eq_getElem_cons h
  rw [overlay, hdrop, writeAt_append]
  simp [overlay]

/-- Writes bytes behind those written so far into a buffer of `capacity` bytes. -/
def append (capacity : ℕ) (output bytes : List UInt8) : CResult (List UInt8) :=
  if output.length + bytes.length ≤ capacity then .ok (output ++ bytes) else .error .outOfBounds

theorem append_eq_ok {capacity : ℕ} {output bytes : List UInt8}
    (h : output.length + bytes.length ≤ capacity) :
    append capacity output bytes = .ok (output ++ bytes) := if_pos h

/-- The function returns or leaves its buffers. -/
def CResult.NoCode {α : Type} (x : CResult α) : Prop := ∀ rc, x ≠ .error (.code rc)

namespace CResult

variable {α β : Type}

theorem noCode_ok (a : α) : NoCode (.ok a) := by
  intro rc
  simp

theorem noCode_outOfBounds : NoCode (.error .outOfBounds : CResult α) := by
  intro rc
  simp

theorem noCode_readAt (buffer : List UInt8) (i : ℕ) : NoCode (readAt buffer i) := by
  intro rc
  unfold readAt
  split <;> simp

variable {f : α → CResult β}

theorem NoCode.bind {x : CResult α} (hx : NoCode x) (hf : ∀ a, NoCode (f a)) :
    NoCode (x >>= f) := by
  rcases x with (rc | -) | a
  · exact absurd rfl (hx rc)
  · exact noCode_outOfBounds
  · exact hf a

theorem NoCode.mapM (hf : ∀ a, NoCode (f a)) (l : List α) : NoCode (l.mapM f) := by
  induction l with
  | nil => exact noCode_ok []
  | cons a l ih =>
    rw [mapM_cons]
    exact (hf a).bind fun b => ih.bind fun bs => noCode_ok (b :: bs)

/-- Behind a step without an error code, leaving the buffers is all that can happen. -/
theorem NoCode.bind_outOfBounds {x : CResult α} (hx : NoCode x)
    (hf : ∀ a, x = .ok a → f a = .error .outOfBounds) : (x >>= f) = .error .outOfBounds := by
  rcases x with (rc | -) | a
  · exact absurd rfl (hx rc)
  · rfl
  · exact hf a rfl

end CResult

/-! ## Comparing two functions -/

/-- Two results fail alike, or both are there and related. -/
inductive CResult.Rel {α β : Type} (R : α → β → Prop) : CResult α → CResult β → Prop where
  | ok {a : α} {b : β} (h : R a b) : CResult.Rel R (.ok a) (.ok b)
  | error (f : Failure) : CResult.Rel R (.error f) (.error f)

namespace CResult.Rel

variable {α β γ δ : Type} {R : α → β → Prop} {S : γ → δ → Prop}

theorem refl (x : CResult α) : CResult.Rel (· = ·) x x := by
  cases x with
  | ok a => exact .ok rfl
  | error f => exact .error f

variable {x : CResult α} {y : CResult β}

theorem bind {f : α → CResult γ} {g : β → CResult δ} (h : CResult.Rel R x y)
    (hfg : ∀ a b, R a b → CResult.Rel S (f a) (g b)) : CResult.Rel S (x >>= f) (y >>= g) := by
  cases h with
  | ok hab => exact hfg _ _ hab
  | error failure => exact .error failure

/-- Both functions start with the same step. -/
theorem bind_same {f : α → CResult γ} {g : α → CResult δ} (hfg : ∀ a, CResult.Rel S (f a) (g a)) :
    CResult.Rel S (x >>= f) (x >>= g) :=
  (refl x).bind fun a _ hab => hab ▸ hfg a

/-- Only the second function goes on, without failing. -/
theorem bind_right {T : α → δ → Prop} {g : β → δ} (h : CResult.Rel R x y)
    (hg : ∀ a b, R a b → T a (g b)) : CResult.Rel T x (y >>= fun b => .ok (g b)) := by
  cases h with
  | ok hab => exact .ok (hg _ _ hab)
  | error failure => exact .error failure

theorem error_iff (h : CResult.Rel R x y) (f : Failure) : x = .error f ↔ y = .error f := by
  cases h with
  | ok hab => simp
  | error failure => simp

end CResult.Rel

/-! ## Strings -/

/-- The bytes of an ASCII literal. -/
def ascii (literal : String) : List UInt8 := literal.toList.map fun c => UInt8.ofNat c.toNat

/-- The bytes of a buffer before its first zero byte. -/
def cString (buffer : List UInt8) : List UInt8 :=
  buffer.takeWhile (· ≠ 0)

/-- Number of bytes before the first zero byte. -/
def strlen (buffer : List UInt8) : ℕ :=
  (cString buffer).length

/-- `isspace` -/
def isspace (c : UInt8) : Bool := c = 32 || (9 ≤ c && c ≤ 13)

/-- `isdigit` -/
def isdigit (c : UInt8) : Bool := 48 ≤ c && c ≤ 57

/-- `strtol` to base ten with a `long` of 64 bits: the number and the text behind it, unless there
is no digit. -/
def strtol (text : List UInt8) : Option (ℤ × List UInt8) :=
  let start := text.dropWhile isspace
  let negative := start.head? = some 45
  let digits := if negative || start.head? = some 43 then start.tail else start
  let value : ℕ := (digits.takeWhile isdigit).foldl (fun value c => 10 * value + (c.toNat - 48)) 0
  if digits.takeWhile isdigit = [] then none
  else some (max (-2 ^ 63) (min (2 ^ 63 - 1) (if negative then -value else value)),
    digits.dropWhile isdigit)

/-- The value of a digit or of a letter as a digit, and 36 for all other bytes. -/
def digitValue (c : UInt8) : ℕ :=
  if isdigit c then c.toNat - 48
  else if 97 ≤ c && c ≤ 122 then c.toNat - 87
  else if 65 ≤ c && c ≤ 90 then c.toNat - 55
  else 36

/-- `strtoul` with an `unsigned long` of 64 bits: the number and the text behind it, unless there is
no digit. -/
def strtoul (base : ℕ) (text : List UInt8) : Option (ℕ × List UInt8) :=
  let start := text.dropWhile isspace
  let negative := start.head? = some 45
  let digits := if negative || start.head? = some 43 then start.tail else start
  let digits :=
    match digits with
    | 48 :: x :: c :: rest =>
      if base = 16 && (x = 120 || x = 88) && digitValue c < 16 then c :: rest else digits
    | _ => digits
  let number := digits.takeWhile (digitValue · < base)
  let value : ℕ := number.foldl (fun value c => base * value + digitValue c) 0
  if number = [] then none
  else
    some (if 2 ^ 64 ≤ value then 2 ^ 64 - 1
        else if negative then (2 ^ 64 - value) % 2 ^ 64 else value,
      digits.drop number.length)

/-- The conversion `%u` of `sscanf`. -/
def scanUnsigned (text : List UInt8) : Option (ℕ × List UInt8) :=
  (strtoul 10 text).map fun (value, rest) => (value % 2 ^ 32, rest)

/-- `strstr`: the text from the first place on where the other one stands. -/
def strstr (needle : List UInt8) : List UInt8 → Option (List UInt8)
  | [] => if needle = [] then some [] else none
  | c :: text => if needle.isPrefixOf (c :: text) then some (c :: text) else strstr needle text

/-- The tokens that calls of `strtok_r` return. -/
def tokens (delimiters text : List UInt8) : List (List UInt8) :=
  (text.splitOnP (· ∈ delimiters)).filter (· ≠ [])

theorem cString_eq_self {xs : List UInt8} (h : ∀ b ∈ xs, b ≠ 0) : cString xs = xs :=
  takeWhile_eq_self_iff.mpr fun b hb => by simpa using h b hb

/-- A zero byte among the first bytes ends the string there. -/
theorem strlen_append_lt {xs : List UInt8} (h : (0 : UInt8) ∈ xs) (ys : List UInt8) :
    strlen (xs ++ ys) < xs.length := by
  induction xs with
  | nil => simp at h
  | cons x xs ih =>
    by_cases hx : x = 0
    · simp [strlen, cString, hx]
    · have hmem : (0 : UInt8) ∈ xs := by
        rcases mem_cons.mp h with h0 | h0
        · exact absurd h0.symm hx
        · exact h0
      have := ih hmem
      simp only [strlen, cString] at this ⊢
      simpa [hx] using this

end QModem.Lib
