import QModem.Lib.CMemory
import QModem.Sip.Md5

/-!
# Digest Credentials of the SIP Gateway

The checks on a user name and a password, the HA1 made from them, and the file that keeps it:
`sip_gateway.c` of `qmodem_sipd`.  Text is the bytes of a C string before its final zero.

## Main results

- `readCredentials_credentialsFile`: what was written is what is read
- `storedHa1_iff`: which credentials are stored with the hash other SIP software computes
-/

namespace QModem.Sip

open Lib List

abbrev Text := List UInt8

/-! ## Checks -/

/-- `QMODEM_VOIP_SIP_REALM` -/
def realm : Text := ascii "qmodem-voip"

/-- `QMODEM_VOIP_SIP_USERNAME_SIZE` -/
def usernameSize : ℕ := 64

/-- `isalnum` in the C locale -/
def isalnum (b : UInt8) : Bool :=
  (0x30 ≤ b && b ≤ 0x39) || (0x41 ≤ b && b ≤ 0x5a) || (0x61 ≤ b && b ≤ 0x7a)

/-- A letter, a digit, `.`, `_` or `-`. -/
def usernameByte (b : UInt8) : Bool := isalnum b || b = 0x2e || b = 0x5f || b = 0x2d

/-- `valid_username` -/
def validUsername (value : Text) : Bool :=
  value.length ≠ 0 && value.length < usernameSize && value.all usernameByte

/-- `qmodem_voip_sip_validate_credentials` -/
def validateCredentials (username password : Text) : Bool :=
  validUsername username && 8 ≤ password.length && password.length ≤ 127 &&
    password.all fun b => 0x21 ≤ b && b ≤ 0x7e

/-! ## The hash -/

/-- `username:realm:password` -/
def ha1Source (username password : Text) : Text :=
  username ++ ascii ":" ++ realm ++ ascii ":" ++ password

/-- The size of `source`; `sizeof` counts the zero byte of the realm. -/
def sourceSize : ℕ := usernameSize + 1 + (realm.length + 1) + 1 + 128

/-- `hex` -/
def hex : Text := ascii "0123456789abcdef"

/-- `make_ha1`; `snprintf` keeps one byte of `source` for the final zero. -/
def makeHa1 (username password : Text) : Text :=
  let source := (ha1Source username password).take (sourceSize - 1)
  (md5 source).flatMap fun byte : UInt8 =>
    [hex.getD (byte >>> 4).toNat 0, hex.getD (byte &&& 0x0f).toNat 0]

/-! ## The file -/

/-- The text `qmodem_voip_sip_write_credentials` gives the file. -/
def credentialsFile (username ha1 : Text) : Text :=
  ascii "username=" ++ username ++ ascii "\nha1=" ++ ha1 ++ ascii "\n"

/-- `qmodem_voip_sip_write_credentials` where no file operation fails: the contents of the file at
`path` afterwards. -/
def writeCredentials (path username password : Text) : Option Text :=
  if !validateCredentials username password || 256 ≤ path.length + 12 then none
  else some (credentialsFile username (makeHa1 username password))

/-- The lines that calls of `fgets` with a buffer of `size` bytes return, `current` being the bytes
of the line under way. -/
def fgetsLines (size : ℕ) : Text → Text → List Text
  | [], current => if current = [] then [] else [current]
  | b :: stream, current =>
    if b = 0x0a ∨ current.length + 1 = size - 1 then
      (current ++ [b]) :: fgetsLines size stream []
    else fgetsLines size stream (current ++ [b])

/-- The line before its first `=`, and what follows up to the end of the line. -/
def splitLine (line : Text) : Option (Text × Text) :=
  match (cString line).dropWhile (· ≠ 0x3d) with
  | [] => none
  | _ :: value =>
    some ((cString line).takeWhile (· ≠ 0x3d), value.takeWhile fun b => b ≠ 0x0d && b ≠ 0x0a)

/-- What has been read of a file. -/
structure Fields where
  username : Option Text := none
  ha1 : Option Text := none

/-- One pass of the loop of `qmodem_voip_sip_read_credentials`. -/
def readLine (fields : Fields) (line : Text) : Option Fields :=
  match splitLine line with
  | none => none
  | some (key, value) =>
    if key = ascii "username" ∧ fields.username = none ∧ validUsername value then
      some { fields with username := some value }
    else if key = ascii "ha1" ∧ fields.ha1 = none ∧ value.length = 32 ∧
        (value.takeWhile (hex.contains ·)).length = 32 then
      some { fields with ha1 := some value }
    else none

structure Credentials where
  username : Text
  ha1 : Text
  deriving DecidableEq, Repr

/-- `qmodem_voip_sip_read_credentials` of a file that only its owner can access. -/
def readCredentials (contents : Text) : Option Credentials :=
  match (fgetsLines 128 contents []).foldlM readLine {} with
  | some { username := some username, ha1 := some ha1 } => some { username, ha1 }
  | _ => none

/-! ## What is written is what is read -/

variable {b : UInt8} {username : Text}

theorem usernameByte_text (h : usernameByte b = true) : b ≠ 0 ∧ b ≠ 0x0a ∧ b ≠ 0x0d := by
  refine ⟨?_, ?_, ?_⟩ <;> rintro rfl <;> exact absurd h (by decide)

theorem hex_text (h : b ∈ hex) : b ≠ 0 ∧ b ≠ 0x0a ∧ b ≠ 0x0d := by
  refine ⟨?_, ?_, ?_⟩ <;> rintro rfl <;> exact absurd h (by decide)

/-- A line that fits into the buffer is returned whole. -/
theorem fgetsLines_line {size : ℕ} {line : Text} (hline : ∀ b ∈ line, b ≠ 0x0a) (stream : Text)
    (current : Text) (hfit : current.length + line.length + 2 ≤ size) :
    fgetsLines size (line ++ 0x0a :: stream) current =
      (current ++ line ++ [0x0a]) :: fgetsLines size stream [] := by
  induction line generalizing current with
  | nil => simp [fgetsLines]
  | cons b line ih =>
    obtain ⟨hb, hline⟩ := forall_mem_cons.mp hline
    simp only [length_cons] at hfit
    have hroom : ¬ current.length + 1 = size - 1 := by omega
    rw [cons_append, fgetsLines, if_neg (by simp [hb, hroom]), ih hline]
    · simp
    · simp; omega

/-- A line of the file is split into its key and its value again. -/
theorem splitLine_eq {key value : Text} (hkey : ∀ b ∈ key, b ≠ 0 ∧ b ≠ 0x3d)
    (hvalue : ∀ b ∈ value, b ≠ 0 ∧ b ≠ 0x0a ∧ b ≠ 0x0d) :
    splitLine (key ++ 0x3d :: (value ++ [0x0a])) = some (key, value) := by
  have htext : cString (key ++ 0x3d :: (value ++ [0x0a])) = key ++ 0x3d :: (value ++ [0x0a]) := by
    refine cString_eq_self fun b hb => ?_
    simp only [mem_append, mem_cons, not_mem_nil, or_false] at hb
    rcases hb with hb | rfl | hb | rfl
    · exact (hkey b hb).1
    · decide
    · exact (hvalue b hb).1
    · decide
  -- `strchr` stops at the sign, `strcspn` at the line break
  have hstop : ∀ b ∈ key, decide (b ≠ 0x3d) = true := fun b hb => by simpa using (hkey b hb).2
  have hend : ∀ b ∈ value, (decide (b ≠ 0x0d) && decide (b ≠ 0x0a)) = true := fun b hb => by
    simpa using ⟨(hvalue b hb).2.2, (hvalue b hb).2.1⟩
  rw [splitLine, htext, dropWhile_append_of_pos hstop, takeWhile_append_of_pos hstop]
  simp only [dropWhile_cons, takeWhile_cons, ne_eq, not_true_eq_false, decide_false,
    Bool.false_eq_true, if_false, append_nil]
  rw [takeWhile_append_of_pos hend]
  simp

theorem validUsername_text (h : validUsername username = true) :
    ∀ b ∈ username, b ≠ 0 ∧ b ≠ 0x0a ∧ b ≠ 0x0d := by
  simp only [validUsername, Bool.and_eq_true, all_eq_true] at h
  exact fun b hb => usernameByte_text (h.2 b hb)

theorem validUsername_length (h : validUsername username = true) : username.length < 64 := by
  simp only [validUsername, Bool.and_eq_true, decide_eq_true_eq] at h
  exact h.1.2

/-- The two lines of the file. -/
theorem fgetsLines_credentialsFile {ha1 : Text} (husername : validUsername username = true)
    (hlength : ha1.length = 32) (hha1 : ∀ b ∈ ha1, b ∈ hex) :
    fgetsLines 128 (credentialsFile username ha1) [] =
      [ascii "username" ++ 0x3d :: (username ++ [0x0a]), ascii "ha1" ++ 0x3d :: (ha1 ++ [0x0a])] := by
  have hshort := validUsername_length husername
  have hfile : credentialsFile username ha1 =
      (ascii "username=" ++ username) ++ 0x0a :: ((ascii "ha1=" ++ ha1) ++ 0x0a :: []) := by
    have hbreak : ascii "\nha1=" = 0x0a :: ascii "ha1=" := by decide
    have hlast : ascii "\n" = [0x0a] := by decide
    rw [credentialsFile, hbreak, hlast]
    simp
  -- both lines fit into the buffer of 128 bytes and hold no other break
  have hfirst : ∀ b ∈ ascii "username=" ++ username, b ≠ 0x0a :=
    forall_mem_append.mpr ⟨by decide +kernel, fun b hb => (validUsername_text husername b hb).2.1⟩
  have hsecond : ∀ b ∈ ascii "ha1=" ++ ha1, b ≠ 0x0a :=
    forall_mem_append.mpr ⟨by decide +kernel, fun b hb => (hex_text (hha1 b hb)).2.1⟩
  have husernameLength : (ascii "username=").length = 9 := by decide
  have hha1Length : (ascii "ha1=").length = 4 := by decide
  rw [hfile, fgetsLines_line hfirst _ _ (by simp [husernameLength]; omega),
    fgetsLines_line hsecond _ _ (by simp [hha1Length, hlength])]
  have husernameKey : ascii "username=" = ascii "username" ++ [0x3d] := by decide
  have hha1Key : ascii "ha1=" = ascii "ha1" ++ [0x3d] := by decide
  rw [husernameKey, hha1Key]
  simp [fgetsLines]

/-- **What is written is read back.** -/
theorem readCredentials_credentialsFile {ha1 : Text} (husername : validUsername username = true)
    (hlength : ha1.length = 32) (hha1 : ∀ b ∈ ha1, b ∈ hex) :
    readCredentials (credentialsFile username ha1) = some ⟨username, ha1⟩ := by
  have hspan : (ha1.takeWhile (hex.contains ·)).length = 32 := by
    rw [takeWhile_eq_self_iff.mpr fun b hb => by simpa using hha1 b hb, hlength]
  -- one line after the other; both values pass the checks of the reader
  have hfirst : readLine {} (ascii "username" ++ 0x3d :: (username ++ [0x0a])) =
      some { username := some username } := by
    rw [readLine, splitLine_eq (by decide +kernel) (validUsername_text husername)]
    simp [husername]
  have hsecond : readLine { username := some username } (ascii "ha1" ++ 0x3d :: (ha1 ++ [0x0a])) =
      some { username := some username, ha1 := some ha1 } := by
    rw [readLine, splitLine_eq (by decide +kernel) fun b hb => hex_text (hha1 b hb)]
    simp only [hlength, hspan]
    simp
  rw [readCredentials, fgetsLines_credentialsFile husername hlength hha1]
  simp [hfirst, hsecond]

/-! ## Which credentials get the right hash -/

/-- Two lower-case hexadecimal digits for each byte. -/
def lowerHex (bytes : List UInt8) : Text :=
  bytes.flatMap fun byte =>
    [byte.toNat / 16, byte.toNat % 16].map fun n => UInt8.ofNat (Nat.digitChar n).toNat

def digestHa1 (username password : Text) : Text :=
  lowerHex (Md5.digest (username ++ ascii ":" ++ realm ++ ascii ":" ++ password))

theorem hex_digitChar : ∀ n < 16, hex.getD n 0 = UInt8.ofNat (Nat.digitChar n).toNat := by
  decide

/-- The table gives the two hexadecimal digits of the byte. -/
theorem hexPair_eq (byte : UInt8) :
    [hex.getD (byte >>> 4).toNat 0, hex.getD (byte &&& 0x0f).toNat 0] =
      [byte.toNat / 16, byte.toNat % 16].map fun n => UInt8.ofNat (Nat.digitChar n).toNat := by
  have hbyte : byte.toNat < 256 := byte.toNat_lt
  have hhigh : (byte >>> 4).toNat = byte.toNat / 16 := by
    simp [UInt8.toNat_shiftRight, Nat.shiftRight_eq_div_pow]
  have hlow : (byte &&& 0x0f).toNat = byte.toNat % 16 := by
    exact Nat.and_two_pow_sub_one_eq_mod byte.toNat 4
  rw [hhigh, hlow, hex_digitChar _ (by omega), hex_digitChar _ (Nat.mod_lt _ (by decide))]
  rfl

variable {password : Text}

/-- `source` is large enough for every name and password that passes the checks. -/
theorem ha1Source_take (h : validateCredentials username password = true) :
    (ha1Source username password).take (sourceSize - 1) = ha1Source username password := by
  simp only [validateCredentials, Bool.and_eq_true, decide_eq_true_eq] at h
  have husername := validUsername_length h.1.1.1
  have hrealm : realm.length = 11 := by decide
  have hcolon : (ascii ":").length = 1 := by decide
  apply take_of_length_le
  simp only [ha1Source, sourceSize, usernameSize, length_append, hrealm, hcolon]
  omega

theorem makeHa1_eq (h : validateCredentials username password = true) :
    makeHa1 username password = lowerHex (md5 (ha1Source username password)) := by
  rw [makeHa1, ha1Source_take h, lowerHex]
  exact flatMap_congr fun byte _ => hexPair_eq byte

/-- Only characters of the table are written. -/
theorem hexPair_mem (byte : UInt8) :
    ∀ b ∈ [hex.getD (byte >>> 4).toNat 0, hex.getD (byte &&& 0x0f).toNat 0], b ∈ hex := by
  have hdigit : ∀ n < 16, hex.getD n 0 ∈ hex := by decide
  intro b hb
  simp only [mem_cons, not_mem_nil, or_false] at hb
  rcases hb with rfl | rfl
  · refine hdigit _ ?_
    have := byte.toNat_lt
    simp [UInt8.toNat_shiftRight, Nat.shiftRight_eq_div_pow]
    omega
  · refine hdigit _ ?_
    exact Nat.lt_succ_of_le Nat.and_le_right

theorem makeHa1_mem_hex : ∀ b ∈ makeHa1 username password, b ∈ hex := by
  intro b hb
  obtain ⟨byte, -, hpair⟩ := mem_flatMap.mp hb
  exact hexPair_mem byte b hpair

theorem length_makeHa1 (username password : Text) : (makeHa1 username password).length = 32 := by
  have hdigest (input : Text) : (md5 input).length = 16 := by simp [md5, outputBytes]
  simp [makeHa1, length_flatMap, hdigest]

/-- The two digits give the byte back. -/
theorem hexDigits_injective {a : UInt8}
    (h : [a.toNat / 16, a.toNat % 16].map (fun n => UInt8.ofNat (Nat.digitChar n).toNat) =
      [b.toNat / 16, b.toNat % 16].map fun n => UInt8.ofNat (Nat.digitChar n).toNat) : a = b := by
  have hinj : ∀ m < 16, ∀ n < 16, UInt8.ofNat (Nat.digitChar m).toNat =
      UInt8.ofNat (Nat.digitChar n).toNat → m = n := by decide +kernel
  have ha := a.toNat_lt
  have hb := b.toNat_lt
  simp only [map_cons, map_nil, cons.injEq, and_true] at h
  have hhigh := hinj _ (by omega) _ (by omega) h.1
  have hlow := hinj _ (by omega) _ (by omega) h.2
  exact UInt8.toNat_inj.mp (by omega)

/-- Two digests with the same text are the same. -/
theorem lowerHex_injective : Function.Injective lowerHex := by
  intro xs
  induction xs with
  | nil =>
    intro ys h
    cases ys with
    | nil => rfl
    | cons y ys => simp [lowerHex] at h
  | cons x xs ih =>
    intro ys h
    cases ys with
    | nil => simp [lowerHex] at h
    | cons y ys =>
      -- two characters of the text for each byte
      obtain ⟨hpair, hrest⟩ := append_inj h (by simp)
      rw [hexDigits_injective hpair, ih hrest]

/-- The credentials the gateway reads after they were written. -/
theorem readCredentials_writeCredentials {path password : Text} (hpath : path.length + 12 < 256)
    (h : validateCredentials username password = true) :
    (writeCredentials path username password).bind readCredentials =
      some ⟨username, makeHa1 username password⟩ := by
  have husername : validUsername username = true := by
    simp only [validateCredentials, Bool.and_eq_true] at h
    exact h.1.1.1
  rw [writeCredentials, if_neg (by simp [h]; omega), Option.bind_some,
    readCredentials_credentialsFile husername (length_makeHa1 _ _) makeHa1_mem_hex]

theorem length_ha1Source (username password : Text) :
    (ha1Source username password).length = username.length + password.length + 13 := by
  have hrealm : realm.length = 11 := by decide
  have hcolon : (ascii ":").length = 1 := by decide
  simp only [ha1Source, length_append, hrealm, hcolon]
  omega

/-- The digest of an input, and with it the stored HA1, is right exactly when the length fits into
the last block or the complete blocks before it leave a chaining value of zero. -/
theorem storedHa1_iff (input path username password : Text) (hpath : path.length + 12 < 256)
    (h : validateCredentials username password = true) :
    (md5 input = Md5.digest input ↔ input.length % 64 < 56 ∨ Md5.chaining input = 0) ∧
    ((writeCredentials path username password).bind readCredentials =
        some ⟨username, digestHa1 username password⟩ ↔
      (username.length + password.length + 13) % 64 < 56 ∨
        Md5.chaining (ha1Source username password) = 0) := by
  refine ⟨md5_eq_digest_iff, ?_⟩
  have hdigest : digestHa1 username password =
      lowerHex (Md5.digest (ha1Source username password)) := rfl
  rw [readCredentials_writeCredentials hpath h, Option.some_inj, Credentials.mk.injEq, makeHa1_eq h,
    hdigest, lowerHex_injective.eq_iff, md5_eq_digest_iff, length_ha1Source]
  simp

/-- With a short password the stored hash is the right one. -/
theorem storedHa1_short :
    md5 (ascii "abc") = Md5.digest (ascii "abc") ∧
    (writeCredentials (ascii "/etc/qmodem/sip") (ascii "admin") (ascii "password")).bind
        readCredentials =
      some ⟨ascii "admin", digestHa1 (ascii "admin") (ascii "password")⟩ := by
  have h := storedHa1_iff (ascii "abc") (ascii "/etc/qmodem/sip") (ascii "admin") (ascii "password")
    (by decide +kernel) (by decide +kernel)
  exact ⟨h.1.mpr (.inl (by decide +kernel)), h.2.mpr (.inl (by decide +kernel))⟩

/-- A password of 38 characters for the user `admin`. -/
def longPassword : Text := ascii "correct-horse-battery-staple-with-salt"

/-- The 56 bytes that are hashed leave no room for the length in their block. -/
theorem longPassword_not_storedHa1 :
    validateCredentials (ascii "admin") longPassword = true ∧
      makeHa1 (ascii "admin") longPassword = ascii "a8728fbcdae14d91e1929519a96f8033" ∧
      digestHa1 (ascii "admin") longPassword = ascii "60b946c4d221909fb5c50df95d03f6e0" := by
  have h : validateCredentials (ascii "admin") longPassword = true := by decide +kernel
  refine ⟨h, ?_, by decide +kernel⟩
  decide +kernel

end QModem.Sip
