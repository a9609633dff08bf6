import QModem.Sms.Submit

/-!
# The Language of Phone Numbers

Which texts `sms_normalize_number` and `sms_resolve_number` accept, and what they make of them.

The abstract side is `IsPhoneNumber`: a national number is one to twenty digits, an international
one a `+` and one to fifteen digits of which the first is not zero.  The code collects the
characters one by one and judges the collected text at the end; `normalizeLoop_eq_some` is the only
place where the loop is looked at.

## Main results

- `smsNormalizeNumber_eq_some`: normalising removes the separators of a number that fits
- `smsResolveNumber_eq_some`: resolving puts the country code in front of a national number
- `numbers_accepted`: both languages, and that a result is left alone when it is handed in again
-/

namespace QModem.Sms

open List

/-! ## Numbers -/

/-- The text without the characters that are skipped. -/
def withoutSeparators (text : List UInt8) : List UInt8 :=
  text.filter (!isSeparator ·)

/-- One to twenty digits, or `+` and one to fifteen digits that do not start with zero. -/
inductive IsPhoneNumber : List UInt8 → Prop where
  | national {digits : List UInt8} (all_digits : ∀ c ∈ digits, isDigit c) (nonempty : digits ≠ [])
      (length_le : digits.length ≤ 20) : IsPhoneNumber digits
  | international {digits : List UInt8} (all_digits : ∀ c ∈ digits, isDigit c)
      (nonempty : digits ≠ []) (length_le : digits.length ≤ 15)
      (first : digits.head? ≠ some 0x30) : IsPhoneNumber (plusSign :: digits)

/-- A country code: one to three digits that do not start with zero. -/
structure IsCountryCode (code : List UInt8) : Prop where
  all_digits : ∀ c ∈ code, isDigit c
  nonempty : code ≠ []
  length_le : code.length ≤ 3
  first : code.head? ≠ some 0x30

/-- The country code without the `+` it may be written with. -/
def bareCode (countryCode : List UInt8) : List UInt8 :=
  if countryCode.head? = some plusSign then countryCode.tail else countryCode

/-- What a recipient stands for under a country code: an international number itself, and without a
country code any number itself; otherwise the country code with the national number behind it. -/
inductive ResolvesTo (countryCode : List UInt8) : List UInt8 → List UInt8 → Prop where
  | itself {number : List UInt8} (h : number.head? = some plusSign ∨ countryCode = []) :
      ResolvesTo countryCode number number
  | prefixed {number : List UInt8} (hnational : number.head? ≠ some plusSign)
      (hcode : countryCode ≠ []) (code : IsCountryCode (bareCode countryCode)) :
      ResolvesTo countryCode number (plusSign :: bareCode countryCode ++ number)

theorem isDigit_ne_plusSign {c : UInt8} (h : isDigit c) : c ≠ plusSign := by
  rintro rfl
  exact absurd h (by decide)

theorem not_isSeparator_of_isDigit {c : UInt8} (h : isDigit c) : isSeparator c = false := by
  simp only [isDigit, Bool.and_eq_true, decide_eq_true_eq] at h
  -- all separators come before the digits
  have hlow : ∀ s : UInt8, s < 0x30 → c ≠ s := by
    rintro s hs rfl
    exact absurd h.1 (UInt8.not_le.mpr hs)
  simp [isSeparator, hlow 0x20 (by decide), hlow 0x09 (by decide), hlow 0x28 (by decide),
    hlow 0x29 (by decide), hlow 0x2d (by decide)]

theorem withoutSeparators_eq_self {text : List UInt8} (h : ∀ c ∈ text, isSeparator c = false) :
    withoutSeparators text = text :=
  filter_eq_self.mpr fun c hc => by simp [h c hc]

namespace IsPhoneNumber

variable {number : List UInt8}

variable (h : IsPhoneNumber number)

include h

theorem not_isSeparator : ∀ c ∈ number, isSeparator c = false := by
  intro c hc
  cases h with
  | national hall _ _ => exact not_isSeparator_of_isDigit (hall c hc)
  | international hall _ _ _ =>
    rcases mem_cons.mp hc with rfl | hc
    · rfl
    · exact not_isSeparator_of_isDigit (hall c hc)

theorem withoutSeparators_eq : withoutSeparators number = number :=
  withoutSeparators_eq_self h.not_isSeparator

/-- Every number fits the buffer of `sms_resolve_number`. -/
theorem length_le : number.length ≤ 20 := by
  cases h with
  | national _ _ hlength => exact hlength
  | international _ _ hlength _ =>
    rw [length_cons]
    omega

/-- Without its `+` a number consists of digits. -/
theorem bareCode_isDigit : ∀ c ∈ bareCode number, isDigit c := by
  unfold bareCode
  split
  · cases h with
    | national hall _ _ => exact fun c hc => hall c (mem_of_mem_tail hc)
    | international hall _ _ _ => exact hall
  · cases h with
    | national hall _ _ => exact hall
    | international _ _ _ _ => contradiction

end IsPhoneNumber

theorem length_bareCode_le (number : List UInt8) : (bareCode number).length ≤ number.length := by
  unfold bareCode
  split
  · simp
  · exact le_rfl

/-! ## Normalising -/

/-- Digits, with a `+` allowed in front when nothing has been collected yet. -/
def wellPlaced (atStart : Bool) : List UInt8 → Bool
  | [] => true
  | c :: rest => (isDigit c || (c = plusSign && atStart)) && rest.all isDigit

variable {capacity : ℕ} {input out : List UInt8}

/-- **The loop**: it collects what is not a separator, as long as the characters stand in a place
where they may stand and the buffer has room. -/
theorem normalizeLoop_eq_some {output result : List UInt8} :
    normalizeLoop capacity input output = some result ↔
      result = output ++ withoutSeparators input ∧
        wellPlaced (output = []) (withoutSeparators input) = true ∧
        (withoutSeparators input = [] ∨ result.length < capacity) := by
  induction input generalizing output with
  | nil => simp [normalizeLoop, withoutSeparators, wellPlaced, eq_comm]
  | cons c input ih =>
    rw [normalizeLoop]
    by_cases hsep : isSeparator c
    · have hskip : withoutSeparators (c :: input) = withoutSeparators input := by
        simp [withoutSeparators, hsep]
      rw [if_pos hsep, ih, hskip]
    have hkeep : withoutSeparators (c :: input) = c :: withoutSeparators input := by
      simp [withoutSeparators, hsep]
    rw [if_neg hsep, hkeep]
    by_cases hplace : isDigit c || (c = plusSign && output = [])
    swap
    · -- the character may not stand here
      rw [if_pos (by simpa [imp_iff_not_or] using hplace)]
      simp only [wellPlaced, hplace, Bool.false_and]
      simp
    rw [if_neg (by simpa [or_iff_not_imp_left] using hplace)]
    by_cases hroom : output.length + 1 ≥ capacity
    · -- and the buffer is full
      rw [if_pos hroom]
      constructor
      · intro h
        cases h
      · rintro ⟨rfl, -, h⟩
        simp at h
        omega
    rw [if_neg hroom, ih]
    -- behind the first character only digits are well placed
    have hrest : wellPlaced (decide (output ++ [c] = [])) (withoutSeparators input) =
        (withoutSeparators input).all isDigit := by
      cases withoutSeparators input <;> simp [wellPlaced]
    rw [hrest]
    simp only [wellPlaced, hplace, Bool.true_and, append_assoc, singleton_append,
      cons_ne_nil, false_or]
    constructor
    · rintro ⟨rfl, hall, hlength⟩
      refine ⟨rfl, hall, ?_⟩
      rcases hlength with hnil | hlength
      · rw [hnil, length_append, length_singleton]
        omega
      · exact hlength
    · rintro ⟨rfl, hall, hlength⟩
      exact ⟨rfl, hall, .inr hlength⟩

/-- The check behind the loop and the placement of the characters say that it is a number. -/
theorem isPhoneNumber_iff {text : List UInt8} :
    IsPhoneNumber text ↔ wellPlaced true text = true ∧ isNumber text = true := by
  constructor
  · intro h
    cases h with
    | @national digits hall hne hlength =>
      obtain ⟨c, rest, rfl⟩ := exists_cons_of_ne_nil hne
      have hc := hall c (by simp)
      have hrest : rest.all isDigit = true := all_eq_true.mpr fun d hd => hall d (by simp [hd])
      exact ⟨by simp [wellPlaced, hc, hrest],
        by simpa [isNumber, isDigit_ne_plusSign hc] using hlength⟩
    | @international digits hall hne hlength hfirst =>
      have hpos : 0 < digits.length := length_pos_iff.mpr hne
      have hall' : digits.all isDigit = true := all_eq_true.mpr hall
      refine ⟨by simp [wellPlaced, hall'], ?_⟩
      simp only [isNumber, if_true, length_cons, Bool.and_eq_true, decide_eq_true_eq]
      exact ⟨⟨by omega, by omega⟩, hfirst⟩
  · rintro ⟨hplace, hnumber⟩
    cases text with
    | nil => cases hnumber
    | cons c rest =>
      simp only [wellPlaced, Bool.and_true, Bool.and_eq_true, Bool.or_eq_true, decide_eq_true_eq,
        all_eq_true] at hplace
      obtain ⟨hc, hrest⟩ := hplace
      -- the sign decides which of the two forms it is
      by_cases hplus : c = plusSign
      · subst hplus
        simp only [isNumber, if_true, length_cons, Bool.and_eq_true, decide_eq_true_eq] at hnumber
        exact .international hrest (length_pos_iff.mp (by omega)) (by omega) hnumber.2
      · have hdigit : isDigit c := hc.resolve_right hplus
        exact .national (forall_mem_cons.mpr ⟨hdigit, hrest⟩) (by simp)
          (by simpa [isNumber, hplus] using hnumber)

/-- **Normalising**: a text is accepted exactly if it is a number once its separators are removed,
and the number fits; then that number is the result. -/
theorem smsNormalizeNumber_eq_some :
    smsNormalizeNumber input capacity = some out ↔
      out = withoutSeparators input ∧ IsPhoneNumber out ∧ out.length < capacity := by
  unfold smsNormalizeNumber
  constructor
  · intro h
    split at h
    · cases h
    split at h
    swap
    · cases h
    rename_i collected hloop
    -- the loop removes the separators; what it has collected is then checked
    obtain ⟨hcollected, hplace, hroom⟩ := normalizeLoop_eq_some.mp hloop
    split at h
    swap
    · cases h
    rename_i hnumber
    obtain rfl := Option.some.inj h
    refine ⟨hcollected, isPhoneNumber_iff.mpr ⟨by rw [hcollected]; exact hplace, hnumber⟩, ?_⟩
    refine hroom.resolve_left fun hnil => ?_
    rw [hcollected, hnil] at hnumber
    cases hnumber
  · rintro ⟨rfl, hform, hroom⟩
    obtain ⟨hplace, hnumber⟩ := isPhoneNumber_iff.mp hform
    have hpos : 0 < (withoutSeparators input).length := by
      apply length_pos_iff.mpr
      intro hnil
      rw [hnil] at hnumber
      cases hnumber
    have hloop : normalizeLoop capacity input [] = some (withoutSeparators input) :=
      normalizeLoop_eq_some.mpr ⟨rfl, hplace, .inr hroom⟩
    rw [if_neg (by omega), hloop]
    simp only [hnumber, if_true]

/-- A number that fits is left alone. -/
theorem smsNormalizeNumber_self {number : List UInt8} (h : IsPhoneNumber number)
    (hroom : number.length < capacity) : smsNormalizeNumber number capacity = some number :=
  smsNormalizeNumber_eq_some.mpr ⟨h.withoutSeparators_eq.symm, h, hroom⟩

/-! ## Resolving -/

/-- The four conditions of the source are those of a country code. -/
theorem isCountryCode_iff {code : List UInt8} :
    IsCountryCode code ↔ ¬(code.length < 1 ∨ 3 < code.length ∨ code.head? = some 0x30 ∨
      (!code.all isDigit) = true) := by
  constructor
  · rintro ⟨hall, hne, hlength, hfirst⟩
    have hpos := length_pos_iff.mpr hne
    have hall' : code.all isDigit = true := all_eq_true.mpr hall
    -- each of the four is excluded by one part
    rintro (h | h | h | h)
    · omega
    · omega
    · exact hfirst h
    · rw [hall'] at h
      cases h
  · intro h
    simp only [not_or, Bool.not_eq_true, Bool.not_eq_false', all_eq_true] at h
    obtain ⟨hne, hlength, hfirst, hall⟩ := h
    exact ⟨hall, length_pos_iff.mp (by omega), by omega, hfirst⟩

theorem smsResolveNumber_eq (input countryCode : List UInt8) (capacity : ℕ) :
    smsResolveNumber input countryCode capacity =
      (smsNormalizeNumber input 22).bind fun number =>
        if number.head? = some plusSign ∨ countryCode = [] then smsNormalizeNumber number capacity
        else if (bareCode countryCode).length < 1 ∨ 3 < (bareCode countryCode).length ∨
            (bareCode countryCode).head? = some 0x30 ∨ !(bareCode countryCode).all isDigit then none
        else
          smsNormalizeNumber ((plusSign :: bareCode countryCode ++ number).take 25) capacity :=
  rfl

/-- **Resolving**: a text is accepted exactly if it is a number once its separators are removed, the
country code has the right form where it is needed, and the outcome is a number that fits. -/
theorem smsResolveNumber_eq_some {countryCode : List UInt8} :
    smsResolveNumber input countryCode capacity = some out ↔
      IsPhoneNumber (withoutSeparators input) ∧
        ResolvesTo countryCode (withoutSeparators input) out ∧
        IsPhoneNumber out ∧ out.length < capacity := by
  rw [smsResolveNumber_eq, Option.bind_eq_some_iff]
  constructor
  · rintro ⟨number, hnumber, h⟩
    obtain ⟨rfl, hform, -⟩ := smsNormalizeNumber_eq_some.mp hnumber
    refine ⟨hform, ?_⟩
    split at h
    · rename_i hself
      obtain ⟨hout, hout_form, hroom⟩ := smsNormalizeNumber_eq_some.mp h
      rw [hform.withoutSeparators_eq] at hout
      subst hout
      exact ⟨.itself hself, hform, hroom⟩
    · rename_i hself
      rw [not_or] at hself
      split at h
      · cases h
      rename_i hcode
      have code : IsCountryCode (bareCode countryCode) := isCountryCode_iff.mpr hcode
      -- `combined` has room for the longest code and the longest national number
      have htake : (plusSign :: bareCode countryCode ++ withoutSeparators input).take 25 =
          plusSign :: bareCode countryCode ++ withoutSeparators input := by
        apply take_of_length_le
        have := code.length_le
        have := hform.length_le
        simp only [cons_append, length_cons, length_append]
        omega
      rw [htake] at h
      obtain ⟨hout, hout_form, hroom⟩ := smsNormalizeNumber_eq_some.mp h
      have hclean : withoutSeparators
          (plusSign :: bareCode countryCode ++ withoutSeparators input) =
          plusSign :: bareCode countryCode ++ withoutSeparators input := by
        apply withoutSeparators_eq_self
        refine forall_mem_cons.mpr ⟨rfl, forall_mem_append.mpr ⟨?_, hform.not_isSeparator⟩⟩
        exact fun c hc => not_isSeparator_of_isDigit (code.all_digits c hc)
      rw [hclean] at hout
      subst hout
      exact ⟨.prefixed hself.1 hself.2 code, hout_form, hroom⟩
  · rintro ⟨hform, hresolves, hout, hroom⟩
    have hshort := hform.length_le
    refine ⟨withoutSeparators input, smsNormalizeNumber_eq_some.mpr ⟨rfl, hform, by omega⟩, ?_⟩
    cases hresolves with
    | itself hself =>
      rw [if_pos hself]
      exact smsNormalizeNumber_self hform hroom
    | prefixed hnational hcode code =>
      have hlength := code.length_le
      have hvalid := isCountryCode_iff.mp code
      rw [if_neg (by simp [hnational, hcode]), if_neg hvalid, take_of_length_le (by
        simp only [cons_append, length_cons, length_append]
        omega)]
      exact smsNormalizeNumber_self hout hroom

/-- What resolving makes of a number is not changed by resolving it again. -/
theorem ResolvesTo.again {countryCode number : List UInt8} (h : ResolvesTo countryCode number out) :
    ResolvesTo countryCode out out := by
  cases h with
  | itself h => exact .itself h
  | prefixed _ _ _ => exact .itself (.inl rfl)

/-- **Accepted numbers**: for every text, country code and buffer, `sms_normalize_number` and
`sms_resolve_number` accept exactly the numbers that fit; the result has no separators, and
normalising it, or resolving it again with the same country code, gives it back. -/
theorem numbers_accepted (input countryCode : List UInt8) (capacity : ℕ) :
    (∀ out, smsNormalizeNumber input capacity = some out ↔
      out = withoutSeparators input ∧ IsPhoneNumber out ∧ out.length < capacity) ∧
    (∀ out, smsResolveNumber input countryCode capacity = some out ↔
      IsPhoneNumber (withoutSeparators input) ∧
        ResolvesTo countryCode (withoutSeparators input) out ∧
        IsPhoneNumber out ∧ out.length < capacity) ∧
    (∀ out, smsNormalizeNumber input capacity = some out →
      (∀ c ∈ out, isSeparator c = false) ∧ smsNormalizeNumber out capacity = some out) ∧
    (∀ out, smsResolveNumber input countryCode capacity = some out →
      (∀ c ∈ out, isSeparator c = false) ∧ smsNormalizeNumber out capacity = some out ∧
        smsResolveNumber out countryCode capacity = some out) := by
  refine ⟨fun out => smsNormalizeNumber_eq_some, fun out => smsResolveNumber_eq_some, ?_, ?_⟩
  · intro out h
    obtain ⟨-, hform, hroom⟩ := smsNormalizeNumber_eq_some.mp h
    exact ⟨hform.not_isSeparator, smsNormalizeNumber_self hform hroom⟩
  · intro out h
    obtain ⟨-, hresolves, hform, hroom⟩ := smsResolveNumber_eq_some.mp h
    refine ⟨hform.not_isSeparator, smsNormalizeNumber_self hform hroom, ?_⟩
    -- an international number stays as it is
    apply smsResolveNumber_eq_some.mpr
    rw [hform.withoutSeparators_eq]
    exact ⟨hform, hresolves.again, hform, hroom⟩

end QModem.Sms
