import QModem.Sms.Numbers
import QModem.Smsd.ManagedSend

/-!
# The Contact of a Reply

A reply may be filed under the contact of the conversation it belongs to, which is the number as it
arrived: often the national one, while the reply goes to the number with its country code.
`send_method` therefore compares the contact with the end of the number.

The comparison does not look at what is left in front of the contact.  It accepts every ending of an
international number, so a reply can be filed under a conversation with somebody else.

## Main results

- `contactFits_iff`: which contacts are accepted
- `replyContact_iff`: an accepted contact belongs to the number exactly when it is as long as the
  number, or shorter by two to four characters
- `singleDigit_contact`: a reply to `+491711234567` that is filed under the contact `7`
-/

namespace QModem.Smsd

open Lib Sms List

/-- The contact is the number itself, or a national number that a country code makes to it. -/
def BelongsTo (number contact : Text) : Prop :=
  contact = number ∨
    contact.head? ≠ some plusSign ∧ ∃ code, IsCountryCode code ∧
      number = plusSign :: code ++ contact

/-- **The comparison**: the number itself, or any proper ending of an international number. -/
theorem contactFits_iff {number contact : Text} :
    contactFits number contact = true ↔
      contact = number ∨
        contact.head? ≠ some plusSign ∧ ∃ digits, number = plusSign :: digits ++ contact := by
  simp only [contactFits, Bool.or_eq_true, decide_eq_true_eq, Bool.and_eq_true]
  constructor
  · rintro (h | ⟨⟨⟨hplus, hnational⟩, hlength⟩, hend⟩)
    · exact .inl h.symm
    · refine .inr ⟨hnational, ?_⟩
      obtain ⟨rest, rfl⟩ := head?_eq_some_iff.mp hplus
      refine ⟨rest.take (rest.length - contact.length), ?_⟩
      rw [length_cons] at hlength hend
      rw [Nat.succ_sub (by omega), drop_succ_cons] at hend
      -- the number is cut where its end has the length of the contact
      conv_lhs => rw [← take_append_drop (rest.length - contact.length) rest, hend]
      rfl
  · rintro (rfl | ⟨hnational, digits, rfl⟩)
    · exact .inl rfl
    · refine .inr ⟨⟨⟨rfl, hnational⟩, ?_⟩, ?_⟩
      · simp only [cons_append, length_cons, length_append]
        omega
      · rw [length_append, Nat.add_sub_cancel, drop_left]

/-- The number and the contact of an accepted call. -/
theorem prepareSend_number {call : SendCall} {p : PreparedSend} (h : prepareSend call = .ok p) :
    IsPhoneNumber p.number ∧
      ∀ contact, p.contact = some contact → contactFits p.number contact = true := by
  unfold prepareSend at h
  split at h
  swap
  · cases h
  split at h
  · cases h
  -- the checks on the mode, the id and the database leave number and contact alone
  split at h
  · cases h
  split at h
  · cases h
  split at h
  · cases h
  split at h
  · cases h
  rename_i number hnumber
  dsimp only at h
  split at h
  · cases h
  rename_i hcheck
  split at h
  swap
  · cases h
  obtain rfl := Except.ok.inj h
  refine ⟨(smsResolveNumber_eq_some.mp hnumber).2.2.1, ?_⟩
  intro contact hcontact
  obtain ⟨text, htext, hnormalized⟩ : ∃ text, call.args.conversationContact = some text ∧
      smsNormalizeNumber text 22 = some contact := by
    simpa [Option.bind_eq_some_iff] using hcontact
  obtain ⟨normalized, hnormalized', hfits⟩ :=
    contact_check.mp (Bool.eq_false_iff.mpr hcheck) text htext
  rw [hnormalized] at hnormalized'
  rwa [← Option.some.inj hnormalized'] at hfits

/-- **The contact of a reply**: a contact that `send_method` accepts belongs to the number exactly
when the text in front of it is empty, or has the length of a `+` and a country code. -/
theorem replyContact_iff {call : SendCall} {p : PreparedSend} {contact : Text}
    (h : prepareSend call = .ok p) (hcontact : p.contact = some contact) :
    BelongsTo p.number contact ↔
      p.number.length = contact.length ∨
        contact.length + 2 ≤ p.number.length ∧ p.number.length ≤ contact.length + 4 := by
  obtain ⟨hnumber, hfits⟩ := prepareSend_number h
  constructor
  · rintro (hsame | ⟨-, code, hcode, happend⟩)
    · rw [hsame]
      exact .inl rfl
    · have hpos := length_pos_iff.mpr hcode.nonempty
      have hle := hcode.length_le
      rw [happend]
      simp only [cons_append, length_cons, length_append]
      omega
  · intro hlength
    rcases contactFits_iff.mp (hfits contact hcontact) with hsame | ⟨hnational, digits, happend⟩
    · exact .inl hsame
    refine .inr ⟨hnational, digits, ?_, happend⟩
    rw [happend] at hlength
    simp only [cons_append, length_cons, length_append] at hlength
    -- the digits in front of the contact are digits of an international number
    generalize p.number = number at hnumber happend
    cases hnumber with
    | national hall _ _ =>
      rw [happend] at hall
      exact absurd rfl (isDigit_ne_plusSign (hall plusSign (by simp)))
    | @international rest hall _ _ hfirst =>
      rw [cons_append, cons.injEq] at happend
      have hne : digits ≠ [] := length_pos_iff.mp (by omega)
      refine ⟨fun c hc => hall c ?_, hne, by omega, ?_⟩
      · rw [happend.2]
        exact mem_append_left _ hc
      · rwa [happend.2, head?_append_of_ne_nil _ hne] at hfirst

/-- A reply to a number, filed under a contact. -/
def replyTo (recipient contact : Text) : SendCall where
  managed := false
  args :=
    { modem := some (ascii "m1")
      recipient := some recipient
      content := some (ascii "Hi")
      conversationContact := some contact }
  settings := some ⟨false, []⟩
  prepared := true
  reference := 1
  now := 0
  faults := {}
  modem := fun _ _ => ⟨true, []⟩

theorem validId_m1 : validId (ascii "m1") = true := by decide

/-- What a reply to `+491711234567` is prepared as. -/
def preparedReply (contact : Text) : PreparedSend where
  modemId := ⟨ascii "m1", validId_m1⟩
  direct := false
  requestId := []
  recipient := ascii "+491711234567"
  content := ascii "Hi"
  number := ascii "+491711234567"
  contact := some contact
  pdus := [[0x00, 0x11, 0x00, 0x0c, 0x91, 0x94, 0x71, 0x11, 0x32, 0x54, 0x76, 0x00, 0x08, 0xb0,
    0x04, 0x00, 0x48, 0x00, 0x69]]

/-- The national number belongs to the number with the country code 49. -/
theorem replyContact_national : BelongsTo (ascii "+491711234567") (ascii "1711234567") :=
  have h : prepareSend (replyTo (ascii "+491711234567") (ascii "1711234567")) =
    .ok (preparedReply (ascii "1711234567")) := by rfl
  (replyContact_iff h rfl).mpr (by decide)

/-- The last digit of the number is accepted as the contact of a conversation. -/
theorem singleDigit_contact :
    ∃ p, prepareSend (replyTo (ascii "+491711234567") (ascii "7")) = .ok p ∧
      p.contact = some (ascii "7") ∧ ¬BelongsTo p.number (ascii "7") := by
  refine ⟨preparedReply (ascii "7"), by rfl, rfl, ?_⟩
  rintro (h | ⟨-, code, hcode, h⟩)
  · exact absurd h (by decide)
  · have hlength := congrArg length h
    have hle := hcode.length_le
    simp only [preparedReply, cons_append, length_cons, length_append] at hlength
    have hnumber : (ascii "+491711234567").length = 13 := by decide
    have hcontact : (ascii "7").length = 1 := by decide
    omega

end QModem.Smsd
