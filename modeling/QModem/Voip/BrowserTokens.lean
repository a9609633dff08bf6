import QModem.Lib.CMemory

/-!
# Tokens for Browser Media

The tokens of `browser_media.c`: a browser that wants the audio of a call gets one over the web
interface and presents it when it connects.

A token is a secret of 16 bytes, written with 22 characters, of which the last one has four bits
that nobody looks at.  The slots keep what the token was issued for.  A slot is emptied when its
token expires, when its place is needed, and by the first attempt with its secret, whether it
succeeds or not.

## Main results

- `Slots.mem_issueToken`: an issue adds one token
- `Slots.consume_accepted`: what a successful attempt has presented
- `Slots.not_mem_consume`: after an attempt its secret is gone
-/

namespace QModem.Voip

open Lib List

abbrev Bytes := List UInt8

/-! ## Texts of tokens -/

def base64url : Bytes :=
  ascii "ABCDEFGHIJKLMNOPQRSTUVWXYZabcdefghijklmnopqrstuvwxyz0123456789-_"

/-- `base64url_value` -/
def base64urlValue (c : UInt8) : Option ℕ := base64url.findIdx? (· = c)

/-- The character for the lowest six bits -/
def base64urlDigit (value : UInt32) : UInt8 := base64url.getD (value &&& 63).toNat 0

/-- The inner loop of `encode_token`: at most two characters for a byte. -/
def emitDigits (accumulator : UInt32) (bits : ℕ) : Bytes × ℕ :=
  if 12 ≤ bits then
    ([base64urlDigit (accumulator >>> UInt32.ofNat (bits - 6)),
      base64urlDigit (accumulator >>> UInt32.ofNat (bits - 12))], bits - 12)
  else if 6 ≤ bits then ([base64urlDigit (accumulator >>> UInt32.ofNat (bits - 6))], bits - 6)
  else ([], bits)

/-- The loop of `encode_token` -/
def encodeLoop : Bytes → UInt32 → ℕ → Bytes
  | [], accumulator, bits =>
    if bits ≠ 0 then [base64urlDigit (accumulator <<< UInt32.ofNat (6 - bits))] else []
  | c :: rest, accumulator, bits =>
    let accumulator := accumulator <<< 8 ||| c.toUInt32
    let (digits, bits) := emitDigits accumulator (bits + 8)
    digits ++ encodeLoop rest accumulator bits

/-- `encode_token` -/
def encodeToken (secret : Bytes) : Bytes := encodeLoop secret 0 0

/-- The loop of `decode_token` -/
def decodeLoop : Bytes → UInt32 → ℕ → Bytes → Option (Bytes × ℕ)
  | [], _, bits, output => some (output, bits)
  | c :: rest, accumulator, bits, output =>
    match base64urlValue c with
    | none => none
    | some value =>
      let accumulator := accumulator <<< 6 ||| UInt32.ofNat value
      let bits := bits + 6
      if 8 ≤ bits then
        if 16 ≤ output.length then none
        else
          decodeLoop rest accumulator (bits - 8)
            (output ++ [(accumulator >>> UInt32.ofNat (bits - 8)).toUInt8])
      else decodeLoop rest accumulator bits output

/-- `decode_token` -/
def decodeToken (text : Bytes) : Option Bytes :=
  if text.length ≠ 22 then none
  else
    match decodeLoop text 0 0 [] with
    | some (output, bits) => if output.length = 16 ∧ bits = 4 then some output else none
    | none => none

/-! ## Slots -/

/-- `struct qmodem_voip_browser_token`, of a slot that is active -/
structure Token where
  secret : Bytes
  sessionId : Bytes
  origin : Bytes
  peerAddress : Option Bytes
  callRevision : ℕ
  expiresAt : ℕ
  deriving DecidableEq

/-- `struct qmodem_voip_browser_tokens`; a slot that is not active is `none`. -/
abbrev Slots := List (Option Token)

def Slots.empty : Slots := List.replicate 32 none

/-- `copy_string` would copy the text. -/
def fits (size : ℕ) (text : Bytes) : Bool := text ≠ [] && text.length < size

namespace Slots

variable (slots : Slots)

/-- `expire_tokens` -/
def expire (now : ℕ) : Slots := slots.map (·.filter fun t => now < t.expiresAt)

def expiry (i : ℕ) : ℕ := ((slots.getD i none).map Token.expiresAt).getD 0

def oldest : ℕ :=
  (List.range slots.length).foldl
    (fun best i => if slots.expiry i < slots.expiry best then i else best) 0

/-- The slot for a new token: a free one, or the one that expires first -/
def place : ℕ := (slots.findIdx? Option.isNone).getD slots.oldest

/-- What a token is asked for -/
structure IssueArgs where
  sessionId : Bytes
  callRevision : ℕ
  origin : Bytes
  peerAddress : Option Bytes
  now : ℕ

def IssueArgs.valid (a : IssueArgs) : Bool :=
  a.callRevision ≠ 0 && fits 65 a.sessionId && fits 193 a.origin &&
    (ascii "https://").isPrefixOf a.origin

def IssueArgs.token (a : IssueArgs) (secret : Bytes) : Token :=
  ⟨secret, a.sessionId, a.origin, a.peerAddress, a.callRevision, a.now + 30⟩

/-- `qmodem_voip_browser_token_issue`.  There is no secret if no random bytes can be read; the slot
is lost then, as it is if the address is too long. -/
def issueToken (a : IssueArgs) (secret : Option Bytes) : Slots × Option Bytes :=
  if !a.valid then (slots, none)
  else
    let slots := slots.expire a.now
    match secret with
    | none => (slots.set slots.place none, none)
    | some secret =>
      if a.peerAddress.all (fits 64) then
        (slots.set slots.place (some (a.token secret)), some (encodeToken secret))
      else (slots.set slots.place none, none)

/-- What is presented with a token -/
structure Attempt where
  token : Bytes
  sessionId : Bytes
  origin : Bytes
  peerAddress : Bytes
  now : ℕ

/-- The token is accepted, if its secret is right. -/
def Token.admits (t : Token) (callRevision : ℕ) (a : Attempt) : Bool :=
  t.callRevision ≤ callRevision && t.sessionId = a.sessionId && t.origin = a.origin &&
    a.peerAddress ≠ [] &&
    (match t.peerAddress with
      | none => fits 64 a.peerAddress
      | some address => address = a.peerAddress)

/-- `qmodem_voip_browser_token_consume` -/
def consume (callRevision : ℕ) (a : Attempt) : Slots × Bool :=
  match decodeToken a.token with
  | none => (slots, false)
  | some secret =>
    let slots := slots.expire a.now
    match slots.findIdx? fun slot => slot.any (·.secret = secret) with
    | none => (slots, false)
    | some i => (slots.set i none, (slots.getD i none).any fun t => Token.admits t callRevision a)

/-! ## What issues and attempts do -/

variable {slots} {now callRevision i k : ℕ} {t : Token} {a : IssueArgs} {attempt : Attempt}
  {secret : Option Bytes}

theorem not_mem_empty : some t ∉ empty := by
  simp [empty]

def Distinct (slots : Slots) : Prop :=
  ∀ (i j : ℕ) (t t' : Token), slots[i]? = some (some t) → slots[j]? = some (some t') →
    t.secret = t'.secret → i = j

theorem distinct_empty : empty.Distinct :=
  fun _ _ _ _ hi => absurd (mem_of_getElem? hi) not_mem_empty

/-- Slots that are kept or emptied all at once -/
theorem Distinct.of_kept {slots' : Slots} (h : slots.Distinct)
    (hkept : slots' = slots ∨ slots' = empty) : slots'.Distinct := by
  obtain rfl | rfl := hkept
  · exact h
  · exact distinct_empty

theorem getElem?_expire (h : (slots.expire now)[i]? = some (some t)) :
    slots[i]? = some (some t) ∧ now < t.expiresAt := by
  unfold expire at h
  rw [getElem?_map] at h
  obtain ⟨slot, hslot, hfilter⟩ := Option.map_eq_some_iff.mp h
  obtain ⟨hslot', hexpires⟩ := Option.filter_eq_some_iff.mp hfilter
  exact ⟨hslot' ▸ hslot, of_decide_eq_true hexpires⟩

theorem getElem?_set_none (h : (slots.set k none)[i]? = some (some t)) :
    slots[i]? = some (some t) ∧ k ≠ i := by
  rw [getElem?_set] at h
  split_ifs at h with hki hlength
  · cases h
  · exact ⟨h, hki⟩

theorem getElem?_set_some {t' : Token} (h : (slots.set k (some t'))[i]? = some (some t)) :
    slots[i]? = some (some t) ∧ k ≠ i ∨ t = t' ∧ k = i := by
  rw [getElem?_set] at h
  split_ifs at h with hki hlength
  · exact .inr ⟨(Option.some.inj (Option.some.inj h)).symm, hki⟩
  · exact .inl ⟨h, hki⟩

/-- What an issue does: nothing, or a place is emptied, or it gets the new token. -/
theorem issueToken_cases (slots : Slots) (a : IssueArgs) (secret : Option Bytes) :
    (slots.issueToken a secret).1 = slots ∨
      (slots.issueToken a secret).1 =
        (slots.expire a.now).set (slots.expire a.now).place none ∨
      ∃ s, secret = some s ∧ slots.issueToken a secret =
        ((slots.expire a.now).set (slots.expire a.now).place (some (a.token s)),
          some (encodeToken s)) := by
  unfold issueToken
  cases secret with
  | none => split <;> simp
  -- with random bytes: refused, given out, or the address is too long
  | some s =>
    split_ifs
    · exact .inl rfl
    · exact .inr (.inr ⟨s, rfl, rfl⟩)
    · exact .inr (.inl rfl)

/-- The token is the one that is issued. -/
structure Issues (slots : Slots) (a : IssueArgs) (secret : Option Bytes) (t : Token) : Prop where
  known : secret = some t.secret
  token : t = a.token t.secret
  text : (slots.issueToken a secret).2 = some (encodeToken t.secret)

/-- A slot after an issue: an old token, or the new one at its place -/
theorem getElem?_issueToken (h : (slots.issueToken a secret).1[i]? = some (some t)) :
    slots[i]? = some (some t) ∨ slots.Issues a secret t ∧ i = (slots.expire a.now).place := by
  obtain hsame | hlost | ⟨s, rfl, hissued⟩ := issueToken_cases slots a secret
  · rw [hsame] at h
    exact .inl h
  · rw [hlost] at h
    exact .inl (getElem?_expire (getElem?_set_none h).1).1
  · rw [hissued] at h
    obtain ⟨hold, -⟩ | ⟨rfl, hplace⟩ := getElem?_set_some h
    · exact .inl (getElem?_expire hold).1
    · exact .inr ⟨⟨rfl, rfl, congrArg Prod.snd hissued⟩, hplace.symm⟩

/-- An issue adds one token. -/
theorem mem_issueToken (h : some t ∈ (slots.issueToken a secret).1) :
    some t ∈ slots ∨ slots.Issues a secret t := by
  obtain ⟨i, hi⟩ := mem_iff_getElem?.mp h
  obtain hold | ⟨hissues, -⟩ := getElem?_issueToken hi
  · exact .inl (mem_of_getElem? hold)
  · exact .inr hissues

/-- A new secret is not that of another token. -/
theorem distinct_issueToken (h : slots.Distinct)
    (hfresh : ∀ t, some t ∈ slots → secret ≠ some t.secret) :
    (slots.issueToken a secret).1.Distinct := by
  intro i j t t' hi hj hsame
  -- two old tokens are distinct, two new ones are at the same place
  obtain hi | ⟨hnew, hplace⟩ := getElem?_issueToken hi
  · obtain hj | ⟨hnew, -⟩ := getElem?_issueToken hj
    · exact h i j t t' hi hj hsame
    · exact absurd (hsame ▸ hnew.known) (hfresh t (mem_of_getElem? hi))
  · obtain hj | ⟨-, hplace'⟩ := getElem?_issueToken hj
    · exact absurd (hsame ▸ hnew.known) (hfresh t' (mem_of_getElem? hj))
    · exact hplace.trans hplace'.symm

theorem getElem?_consume (h : (slots.consume callRevision attempt).1[i]? = some (some t)) :
    slots[i]? = some (some t) := by
  unfold consume at h
  split at h
  · exact h
  · dsimp only at h
    split at h
    · exact (getElem?_expire h).1
    · exact (getElem?_expire (getElem?_set_none h).1).1

/-- The slot that an attempt finds -/
theorem findIdx?_secret {s : Bytes}
    (h : slots.findIdx? (fun slot => slot.any (·.secret = s)) = some i) :
    ∃ t, slots[i]? = some (some t) ∧ t.secret = s := by
  obtain ⟨hlt, hany, -⟩ := findIdx?_eq_some_iff_getElem.mp h
  cases hslot : slots[i] with
  | none => simp [hslot] at hany
  | some t =>
    rw [hslot] at hany
    exact ⟨t, by rw [getElem?_eq_getElem hlt, hslot], of_decide_eq_true hany⟩

/-- **What a successful attempt has presented** -/
theorem consume_accepted (h : (slots.consume callRevision attempt).2 = true) :
    ∃ t, some t ∈ slots ∧ decodeToken attempt.token = some t.secret ∧ attempt.now < t.expiresAt ∧
      t.callRevision ≤ callRevision ∧ attempt.sessionId = t.sessionId ∧ attempt.origin = t.origin := by
  unfold consume at h
  split at h
  · cases h
  · rename_i s hdecode
    dsimp only at h
    split at h
    · cases h
    · rename_i i hfind
      obtain ⟨t, hslot, hsecret⟩ := findIdx?_secret hfind
      -- expired tokens are removed before the search
      obtain ⟨hold, hexpires⟩ := getElem?_expire hslot
      rw [getD_eq_getElem?_getD, hslot] at h
      simp only [Option.getD_some, Option.any_some, Token.admits, Bool.and_eq_true,
        decide_eq_true_eq] at h
      obtain ⟨⟨⟨⟨hrevision, hsession⟩, horigin⟩, -⟩, -⟩ := h
      exact ⟨t, mem_of_getElem? hold, hsecret ▸ hdecode, hexpires, hrevision, hsession.symm,
        horigin.symm⟩

/-- **After an attempt its secret is gone**, whether it has succeeded or not. -/
theorem not_mem_consume (hdistinct : slots.Distinct)
    (hdecode : decodeToken attempt.token = some t.secret) :
    some t ∉ (slots.consume callRevision attempt).1 := by
  intro h
  obtain ⟨j, hj⟩ := mem_iff_getElem?.mp h
  unfold consume at hj
  rw [hdecode] at hj
  dsimp only at hj
  split at hj
  · -- the slot is one with this secret
    rename_i hnone
    have := findIdx?_eq_none_iff.mp hnone _ (mem_of_getElem? hj)
    simp at this
  · -- it is another slot than the one that was emptied
    rename_i i hfind
    obtain ⟨t', hslot, hsecret⟩ := findIdx?_secret hfind
    obtain ⟨hold, hne⟩ := getElem?_set_none hj
    exact hne (hdistinct i j t' t (getElem?_expire hslot).1 (getElem?_expire hold).1 hsecret)

end Slots

end QModem.Voip
