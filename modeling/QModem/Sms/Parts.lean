import QModem.Sms.Numbers
import QModem.Sms.Ucs2RoundTrip

/-!
# Cutting a Text into Parts

Which texts `pdu_encode_ucs2_parts` accepts, and what it makes of them.

The abstract side knows characters only: a text is cut into pieces of whole characters, each short
enough for a part.  The code works on UTF-16 units and looks one unit back at every cut; it goes
over the text twice, once to count the parts and once to write them.

## Main results

- `utf8CodePoint_eq_some`: only well-formed UTF-8 is read
- `partTake_boundary`: a cut never stands inside a surrogate pair
- `countParts_le`: no cut into pieces of whole characters needs fewer parts
- `ucs2Parts_accepted`: which texts are accepted, and the parts of an accepted text
-/

namespace QModem.Sms

open Lib List

/-! ## Only well-formed text is read -/

@[simp] theorem byteAt_cons_zero (b : UInt8) (rest : List UInt8) : byteAt (b :: rest) 0 = b.toNat :=
  rfl

@[simp] theorem byteAt_cons_succ (b : UInt8) (rest : List UInt8) (i : ℕ) :
    byteAt (b :: rest) (i + 1) = byteAt rest i := rfl

/-- A byte that is not the terminating zero byte is there. -/
theorem exists_cons_of_byteAt {p : List UInt8} (h : byteAt p 0 ≠ 0) : ∃ b rest, p = b :: rest := by
  cases p with
  | nil => exact absurd rfl h
  | cons b rest => exact ⟨b, rest, rfl⟩

theorem exists_cons_of_isContinuation {p : List UInt8} (h : isContinuation p 0 = true) :
    ∃ b rest, p = b :: rest ∧ 128 ≤ b.toNat ∧ b.toNat < 192 := by
  rw [isContinuation_iff] at h
  obtain ⟨b, rest, rfl⟩ := @exists_cons_of_byteAt p (by omega)
  exact ⟨b, rest, rfl, h⟩

theorem toNat_char_ofNat {v : ℕ} (h : v < 0xd800 ∨ 0xdfff < v ∧ v < 0x110000) :
    (Char.ofNat v).toNat = v := by
  have hvalid : v.isValidChar := h
  simp [Char.ofNat, hvalid]

/-- The byte is the one the encoding of a character has in this place. -/
theorem ofNat_eq_of_toNat {b : UInt8} {n : ℕ} (h : n = b.toNat) : UInt8.ofNat n = b := by
  rw [h, UInt8.ofNat_toNat]

/-- The bytes in front of the text are the encoding of the code point. -/
def Spells (p : List UInt8) (cp bytes : ℕ) : Prop :=
  ∃ c : Char, c.toNat = cp ∧ (String.utf8EncodeChar c).length = bytes ∧
    String.utf8EncodeChar c ++ p.drop bytes = p

theorem spells_append {cp : ℕ} (front rest : List UInt8)
    (hcp : cp < 0xd800 ∨ 0xdfff < cp ∧ cp < 0x110000)
    (h : String.utf8EncodeChar (Char.ofNat cp) = front) :
    Spells (front ++ rest) cp front.length :=
  ⟨Char.ofNat cp, toNat_char_ofNat hcp, by rw [h], by rw [h, drop_left]⟩

/-- **Only well-formed UTF-8 is read**: where the encoder finds a code point, the text starts with
the encoding of that character. -/
theorem utf8CodePoint_eq_some {p : List UInt8} {cp bytes : ℕ} (hp : byteAt p 0 ≠ 0)
    (h : utf8CodePoint p = some (cp, bytes)) : Spells p cp bytes := by
  obtain ⟨b, p, rfl⟩ := exists_cons_of_byteAt hp
  have hval {v : ℕ} (hv : v < 0xd800 ∨ 0xdfff < v ∧ v < 0x110000) : (Char.ofNat v).val.toNat = v :=
    toNat_char_ofNat hv
  rw [utf8CodePoint_eq] at h
  dsimp only at h
  split at h
  · cases h
    refine spells_append [b] p (by omega) ?_
    rw [String.utf8EncodeChar, hval (by omega), if_pos (by omega), byteAt_cons_zero,
      UInt8.ofNat_toNat]
  split at h
  -- two, three or four octets, as the first one says; a spelling that is too long is refused
  next hlead =>
    obtain ⟨b1, p, rfl, hb1⟩ := @exists_cons_of_isContinuation p hlead.2
    split at h
    · cases h
    cases h
    simp only [byteAt_cons_zero, byteAt_cons_succ] at *
    refine spells_append [b, b1] p (by omega) ?_
    rw [String.utf8EncodeChar, hval (by omega), if_neg (by omega), if_pos (by omega),
      ofNat_eq_of_toNat (b := b) (by omega), ofNat_eq_of_toNat (b := b1) (by omega)]
  split at h
  next hlead =>
    obtain ⟨b1, p, rfl, hb1⟩ := @exists_cons_of_isContinuation p hlead.1.2
    obtain ⟨b2, p, rfl, hb2⟩ := @exists_cons_of_isContinuation p hlead.2
    split at h
    · cases h
    cases h
    simp only [byteAt_cons_zero, byteAt_cons_succ] at *
    refine spells_append [b, b1, b2] p (by omega) ?_
    rw [String.utf8EncodeChar, hval (by omega), if_neg (by omega), if_neg (by omega),
      if_pos (by omega), ofNat_eq_of_toNat (b := b) (by omega),
      ofNat_eq_of_toNat (b := b1) (by omega), ofNat_eq_of_toNat (b := b2) (by omega)]
  split at h
  next hlead =>
    obtain ⟨b1, p, rfl, hb1⟩ := @exists_cons_of_isContinuation p hlead.1.1.2
    obtain ⟨b2, p, rfl, hb2⟩ := @exists_cons_of_isContinuation p hlead.1.2
    obtain ⟨b3, p, rfl, hb3⟩ := @exists_cons_of_isContinuation p hlead.2
    split at h
    · cases h
    cases h
    simp only [byteAt_cons_zero, byteAt_cons_succ] at *
    refine spells_append [b, b1, b2, b3] p (by omega) ?_
    rw [String.utf8EncodeChar, hval (by omega), if_neg (by omega), if_neg (by omega),
      if_neg (by omega), ofNat_eq_of_toNat (b := b) (by omega),
      ofNat_eq_of_toNat (b := b1) (by omega), ofNat_eq_of_toNat (b := b2) (by omega),
      ofNat_eq_of_toNat (b := b3) (by omega)]
  · cases h

variable {text : List Char}

/-- A text without zero bytes has no zero character. -/
theorem toNat_ne_zero_of_utf8 (h : (0 : UInt8) ∉ utf8 text) : ∀ c ∈ text, c.toNat ≠ 0 := by
  intro c hc hzero
  apply h
  rw [utf8, mem_flatMap]
  have hval : c.val.toNat = 0 := hzero
  exact ⟨c, hc, by simp [String.utf8EncodeChar, hval]⟩

/-- The loop only comes to the end of a well-formed text. -/
theorem eq_utf8_of_utf8ToUtf16Loop {capacity : ℕ} :
    ∀ {rounds : ℕ} {p : List UInt8} {units out : List ℕ}, (0 : UInt8) ∉ p → p.length ≤ rounds →
      utf8ToUtf16Loop capacity rounds p units = some out → ∃ text, p = utf8 text
  | 0, p, units, out, _, hrounds, _ => ⟨[], List.length_eq_zero_iff.mp (by omega)⟩
  | rounds + 1, p, units, out, hnul, hrounds, h => by
    rw [utf8ToUtf16Loop] at h
    split at h
    · -- the terminating zero byte is the end of the text
      rename_i hend
      refine ⟨[], ?_⟩
      cases p with
      | nil => rfl
      | cons b p =>
        have hb : b = 0 := UInt8.toNat_inj.mp hend
        exact absurd (hb ▸ mem_cons_self) hnul
    rename_i hne
    split at h
    · cases h
    rename_i cp bytes hcp
    obtain ⟨c, -, hbytes, hsplit⟩ := utf8CodePoint_eq_some hne hcp
    split at h
    · cases h
    have hpos : 0 < bytes := by
      rw [← hbytes, String.length_utf8EncodeChar]
      exact c.utf8Size_pos
    have hnul' : (0 : UInt8) ∉ p.drop bytes := fun hmem => hnul (mem_of_mem_drop hmem)
    obtain ⟨text, htext⟩ := eq_utf8_of_utf8ToUtf16Loop hnul' (by rw [length_drop]; omega) h
    refine ⟨c :: text, ?_⟩
    rw [← hsplit, htext]
    rfl

/-- **Conversion to UTF-16**: exactly the well-formed texts whose units fit are converted. -/
theorem utf8ToUtf16_eq_some {content : List UInt8} {capacity : ℕ} {units : List ℕ}
    (hnul : (0 : UInt8) ∉ content) :
    utf8ToUtf16 content capacity = some units ↔
      ∃ text, content = utf8 text ∧ units = utf16 text ∧ (utf16 text).length ≤ capacity := by
  constructor
  · intro h
    obtain ⟨text, rfl⟩ := eq_utf8_of_utf8ToUtf16Loop hnul le_rfl h
    rw [utf8ToUtf16_eq text (toNat_ne_zero_of_utf8 hnul)] at h
    split at h
    · rename_i hfits
      exact ⟨text, rfl, (Option.some.inj h).symm, hfits⟩
    · cases h
  · rintro ⟨text, rfl, rfl, hfits⟩
    rw [utf8ToUtf16_eq text (toNat_ne_zero_of_utf8 hnul), if_pos hfits]

/-! ## Cuts between characters -/

@[simp] theorem utf16_nil : utf16 [] = [] := rfl

@[simp] theorem utf16_cons (c : Char) (text : List Char) :
    utf16 (c :: text) = unitsOf c.toNat ++ utf16 text := rfl

@[simp] theorem utf16_append (pre post : List Char) :
    utf16 (pre ++ post) = utf16 pre ++ utf16 post := by
  simp [utf16]

/-- A character is one unit that is no high surrogate, or a high surrogate and a unit that is none.
-/
theorem unitsOf_cases (c : Char) :
    (∃ u, unitsOf c.toNat = [u] ∧ isHighSurrogate u = false) ∨
      ∃ high low, unitsOf c.toNat = [high, low] ∧ isHighSurrogate high = true ∧
        isHighSurrogate low = false := by
  have hvalid : c.toNat < 0xd800 ∨ (0xdfff < c.toNat ∧ c.toNat < 0x110000) := c.valid
  by_cases hbmp : c.toNat ≤ 0xffff
  · refine .inl ⟨c.toNat, if_pos hbmp, ?_⟩
    simp only [isHighSurrogate, Bool.and_eq_false_iff, decide_eq_false_iff_not]
    omega
  · refine .inr ⟨_, _, unitsOf_supplementary (by omega) (by omega), ?_, ?_⟩
    · simp only [isHighSurrogate, Bool.and_eq_true, decide_eq_true_eq]
      omega
    · simp only [isHighSurrogate, Bool.and_eq_false_iff, decide_eq_false_iff_not]
      omega

/-- A place in the units of a text is between two characters or inside a surrogate pair. -/
theorem utf16_cut (text : List Char) {n : ℕ} (hn : n ≤ (utf16 text).length) :
    (∃ pre post, text = pre ++ post ∧ (utf16 pre).length = n) ∨
      ∃ pre c post high low, text = pre ++ c :: post ∧ (utf16 pre).length + 1 = n ∧
        unitsOf c.toNat = [high, low] ∧ isHighSurrogate high = true ∧
        isHighSurrogate low = false := by
  induction text generalizing n with
  | nil => exact .inl ⟨[], [], rfl, (Nat.le_zero.mp hn).symm⟩
  | cons c text ih =>
    rcases Nat.eq_zero_or_pos n with rfl | hpos
    · exact .inl ⟨[], c :: text, rfl, rfl⟩
    -- either the place is inside the first character, or behind it
    rw [utf16_cons, length_append] at hn
    by_cases hinside : n < (unitsOf c.toNat).length
    · refine .inr ⟨[], c, text, ?_⟩
      rcases unitsOf_cases c with ⟨u, hu, -⟩ | ⟨high, low, hpair, hhigh, hlow⟩
      · rw [hu, length_singleton] at hinside
        omega
      · rw [hpair] at hinside
        simp only [length_cons, length_nil] at hinside
        exact ⟨high, low, rfl, by simp; omega, hpair, hhigh, hlow⟩
    · have hrest := ih (n := n - (unitsOf c.toNat).length) (by omega)
      rcases hrest with ⟨pre, post, rfl, hlen⟩ | ⟨pre, d, post, high, low, rfl, hlen, hpair⟩
      · exact .inl ⟨c :: pre, post, rfl, by rw [utf16_cons, length_append]; omega⟩
      · exact .inr ⟨c :: pre, d, post, high, low, rfl,
          by rw [utf16_cons, length_append]; omega, hpair⟩

/-- **No cut inside a pair**: the units of a part are those of whole characters. -/
theorem partTake_boundary (limit : ℕ) (text : List Char) :
    ∃ pre post, text = pre ++ post ∧ (utf16 pre).length = partTake limit (utf16 text) := by
  have hle : partTake limit (utf16 text) ≤ (utf16 text).length := by
    simp only [partTake]
    split_ifs <;> omega
  rcases utf16_cut text hle with hcut | ⟨pre, c, post, high, low, rfl, hlen, hpair, hhigh, hlow⟩
  · exact hcut
  -- inside a pair: the unit in front of the cut is its first one, so the code has looked back
  exfalso
  have hunits : utf16 (pre ++ c :: post) = utf16 pre ++ high :: low :: utf16 post := by
    rw [utf16_append, utf16_cons, hpair]
    rfl
  rw [hunits] at hlen
  simp only [partTake] at hlen
  generalize htake : (if (utf16 pre ++ high :: low :: utf16 post).length < limit then
    (utf16 pre ++ high :: low :: utf16 post).length else limit) = take at hlen
  have htotal : (utf16 pre ++ high :: low :: utf16 post).length =
      (utf16 pre).length + 2 + (utf16 post).length := by
    simp only [length_append, length_cons]
    omega
  split at hlen
  · -- it looked back at the second unit of the pair, which is no high surrogate
    rename_i hback
    rw [show take - 1 = (utf16 pre).length + 1 by omega,
      getD_append_right _ _ _ _ (by omega)] at hback
    simp [hlow] at hback
  · rename_i hback
    apply hback
    rw [show take - 1 = (utf16 pre).length by omega, getD_append_right _ _ _ _ (by omega)]
    simp [hhigh]
    omega

/-- The parts of a text are the units of pieces of whole characters. -/
theorem chunks_eq_map_utf16 (limit : ℕ) :
    ∀ (n : ℕ) (text : List Char), ∃ (pieces : List (List Char)) (rest : List Char),
      text = pieces.flatten ++ rest ∧
      chunks limit n (utf16 text) = pieces.map utf16
  | 0, text => ⟨[], text, rfl, rfl⟩
  | n + 1, text => by
    obtain ⟨pre, post, rfl, hlen⟩ := partTake_boundary limit text
    obtain ⟨pieces, rest, rfl, hpieces⟩ := chunks_eq_map_utf16 limit n post
    refine ⟨pre :: pieces, rest, by simp, ?_⟩
    rw [chunks, ← hlen, utf16_append, take_left, drop_left, hpieces]
    rfl

theorem flatten_map_utf16 (pieces : List (List Char)) :
    (pieces.map utf16).flatten = utf16 pieces.flatten := by
  induction pieces with
  | nil => rfl
  | cons piece pieces ih =>
    rw [map_cons, flatten_cons, ih, flatten_cons, utf16_append]

/-- Parts that hold all units of a text cut it into pieces of whole characters. -/
theorem exists_pieces {limit n : ℕ} (hflat : (chunks limit n (utf16 text)).flatten = utf16 text) :
    ∃ pieces : List (List Char), pieces.flatten = text ∧
      chunks limit n (utf16 text) = pieces.map utf16 := by
  obtain ⟨pieces, rest, htext, hchunks⟩ := chunks_eq_map_utf16 limit n text
  refine ⟨pieces, ?_, hchunks⟩
  -- all units are in the parts, so nothing is left over
  have hrest : rest = [] := by
    by_contra hne
    have hlen := congrArg length hflat
    rw [hchunks, flatten_map_utf16] at hlen
    conv_rhs at hlen => rw [htext, utf16_append, length_append]
    have := length_pos_iff.mpr (utf16_ne_nil hne)
    omega
  rw [htext, hrest, append_nil]

/-! ## The number of parts -/

/-- The text can be sent in `k` parts: it fits one, or it can be cut into that many pieces of whole
characters, each of which leaves room for the header. -/
def NeedsAtMost (text : List Char) (k : ℕ) : Prop :=
  1 ≤ k ∧ ((utf16 text).length ≤ 70 ∨
    ∃ pieces : List (List Char), pieces.flatten = text ∧ pieces.length ≤ k ∧
      ∀ piece ∈ pieces, (utf16 piece).length ≤ 67)

/-- The units of whole characters do not end with a high surrogate. -/
theorem getLast_utf16 {u : ℕ} (h : (utf16 text).getLast? = some u) : isHighSurrogate u = false := by
  induction text using reverseRecOn with
  | nil => cases h
  | append_singleton text c =>
    rw [utf16_append, utf16_cons, utf16_nil, append_nil] at h
    rcases unitsOf_cases c with ⟨v, hv, hnot⟩ | ⟨high, low, hpair, -, hnot⟩
    · rw [hv, getLast?_append] at h
      obtain rfl := Option.some.inj h
      exact hnot
    · rw [hpair, getLast?_append] at h
      obtain rfl := Option.some.inj h
      exact hnot

/-- The next part reaches at least to the end of the piece that the rest begins in. -/
theorem le_partTake {front rest : List ℕ} (hlen : front.length ≤ 67)
    (hlast : ∀ u, front.getLast? = some u → isHighSurrogate u = false) :
    front.length ≤ partTake 67 (front ++ rest) := by
  simp only [partTake, length_append]
  split_ifs with hshort hback hback
  · simp at hback
  · omega
  · -- the code looks back one unit; it would only give up the last unit of the piece
    simp only [Bool.and_eq_true, decide_eq_true_eq] at hback
    by_contra hlt
    have hfront : front.length = 67 := by omega
    rw [getD_append _ _ _ _ (by omega)] at hback
    have hlast' := hlast (front.getD (67 - 1) 0) (by
      rw [getLast?_eq_getElem?, hfront, getD_eq_getElem?_getD]
      rw [getElem?_eq_getElem (by omega)]
      rfl)
    rw [hlast'] at hback
    exact absurd hback.2 (by simp)
  · omega

/-- **The greedy cut is the best one**: any cut into pieces of whole characters has at least as many
pieces as the code counts, even for what is left of the text somewhere in between. -/
theorem countParts_le (pieces : List (List Char))
    (hlen : ∀ piece ∈ pieces, (utf16 piece).length ≤ 67)
    {rounds : ℕ} {rest : List ℕ} (hrest : rest <:+ utf16 pieces.flatten) :
    countParts rounds rest ≤ pieces.length := by
  induction pieces generalizing rounds rest with
  | nil =>
    have hnil : rest = [] := suffix_nil.mp hrest
    cases rounds <;> simp [countParts, hnil]
  | cons piece pieces ih =>
    have htail : ∀ piece ∈ pieces, (utf16 piece).length ≤ 67 :=
      fun p hp => hlen p (mem_cons_of_mem _ hp)
    rw [flatten_cons, utf16_append] at hrest
    obtain ⟨gone, hgone⟩ := hrest
    rcases append_eq_append_iff.mp hgone with ⟨front, hfront, rfl⟩ | ⟨more, rfl, hmore⟩
    · -- the rest begins inside this piece, and the next part takes all of it
      cases rounds with
      | zero => simp [countParts]
      | succ rounds =>
        rw [countParts]
        split
        · omega
        have hshort : front.length ≤ 67 := by
          have := hlen piece mem_cons_self
          rw [hfront, length_append] at this
          omega
        have htake : front.length ≤ partTake 67 (front ++ utf16 pieces.flatten) := by
          apply le_partTake hshort
          intro u hu
          apply @getLast_utf16 piece
          rw [hfront, getLast?_append, hu]
          rfl
        have hsuffix : (front ++ utf16 pieces.flatten).drop
            (partTake 67 (front ++ utf16 pieces.flatten)) <:+ utf16 pieces.flatten := by
          rw [drop_append, drop_of_length_le htake, nil_append]
          exact drop_suffix _ _
        have hcount := @ih htail rounds _ hsuffix
        rw [length_cons]
        omega
    · have hcount := @ih htail rounds rest ⟨more, hmore.symm⟩
      rw [length_cons]
      omega

def partCount (units : List ℕ) : ℕ :=
  if units.length ≤ 70 then 1 else countParts units.length units

/-- The number of parts is the smallest one that is possible. -/
theorem needsAtMost_iff (text : List Char) (k : ℕ) :
    NeedsAtMost text k ↔ partCount (utf16 text) ≤ k := by
  unfold NeedsAtMost partCount
  split
  · rename_i hshort
    exact ⟨fun h => h.1, fun h => ⟨h, .inl hshort⟩⟩
  rename_i hlong
  have hmany := one_lt_countParts (le_refl (utf16 text).length) (by omega)
  constructor
  · rintro ⟨-, hshort | ⟨pieces, rfl, hlen, hpieces⟩⟩
    · exact absurd hshort hlong
    · exact (countParts_le pieces hpieces (suffix_refl _)).trans hlen
  · intro hle
    refine ⟨by omega, .inr ?_⟩
    -- the parts of the source are a division of the text
    obtain ⟨pieces, htext, hchunks⟩ :=
      exists_pieces (@flatten_chunks_countParts (utf16 text).length (utf16 text) le_rfl)
    refine ⟨pieces, htext, ?_, ?_⟩
    · have := length_chunks 67 (countParts (utf16 text).length (utf16 text)) (utf16 text)
      rw [hchunks, length_map] at this
      omega
    · intro piece hpiece
      apply @length_of_mem_chunks 67 (countParts (utf16 text).length (utf16 text)) (utf16 text)
      rw [hchunks]
      exact mem_map_of_mem hpiece

/-! ## What the parts carry -/

/-- The UTF-16 units that octets spell. -/
def unitsFrom : List UInt8 → List ℕ
  | high :: low :: rest => ((high.toNat <<< 8) ||| low.toNat) :: unitsFrom rest
  | _ => []

/-- The units of a part: the user data behind its header. -/
def payload (pdu : List UInt8) : List ℕ :=
  let ud := submitUserData pdu
  unitsFrom (ud.octets.drop (if ud.udhi then (ud.octets.getD 0 0).toNat + 1 else 0))

theorem unitsFrom_ucs2Octets (units : List ℕ) (h : ∀ u ∈ units, u < 0x10000) :
    unitsFrom (ucs2Octets units) = units := by
  induction units with
  | nil => rfl
  | cons u units ih =>
    have hrest := ih fun v hv => h v (by simp [hv])
    simp only [ucs2Octets, flatMap_cons, cons_append, nil_append] at hrest ⊢
    rw [unitsFrom, unit_of_octets (h u (by simp)), hrest]

/-- What is in a part, as the encoder writes it. -/
structure Carries (pdu : List UInt8) (units : List ℕ) : Prop where
  payload_eq : payload pdu = units
  udl_eq : (submitUserData pdu).udl.toNat = (submitUserData pdu).octets.length
  udl_le : (submitUserData pdu).udl.toNat ≤ 140

/-- A part carries the units it was given, in at most 140 octets. -/
theorem carries_encodePart {number : List UInt8} {international : Bool} {total reference part : ℕ}
    {units : List ℕ} {pdu : List UInt8} (hnumber : number.length < 256)
    (hunits : ∀ u ∈ units, u < 0x10000) (hlen : units.length ≤ partLimit total)
    (h : encodePart number international total reference part units = some pdu) :
    Carries pdu units := by
  have hud := submitUserData_encodePart hnumber h
  have hle := @length_part_le units total part reference hlen
  have hudl : (submitUserData pdu).udl.toNat = (submitUserData pdu).octets.length := by
    rw [hud, toNat_ofNat_of_lt (by omega)]
  refine ⟨?_, hudl, ?_⟩
  · rw [payload, hud]
    by_cases htotal : 1 < total
    · -- the header counts its own octets
      have hsome : (partHeader total reference part).isSome = true := by simp [partHeader, htotal]
      simp only [hsome, headerOctets_many htotal, if_true]
      exact unitsFrom_ucs2Octets units hunits
    · have hsome : (partHeader total reference part).isSome = false := by
        simp [partHeader, htotal]
      simp only [hsome, headerOctets_one htotal, Bool.false_eq_true, if_false, nil_append,
        drop_zero]
      exact unitsFrom_ucs2Octets units hunits
  · rw [hudl, hud]
    exact hle

/-- **The emitting loop**: it writes every part, and the parts carry the units in order. -/
theorem encodeParts_carries {number : List UInt8} {international : Bool} {total reference : ℕ}
    (hdigits : ∀ c ∈ number, isDigit c) (hnumber : number.length ≤ 20) :
    ∀ (n part : ℕ) {rest : List ℕ}, (∀ u ∈ rest, u < 0x10000) →
      ∃ pdus, encodeParts number international total reference n part rest = some pdus ∧
        List.Forall₂ Carries pdus (chunks (partLimit total) n rest)
  | 0, part, rest, _ => ⟨[], rfl, .nil⟩
  | n + 1, part, rest, hunits => by
    -- digits only, so the address can be encoded
    obtain ⟨phone, hphone⟩ : ∃ phone, encodePhoneNumber number (smsMaxPduLength - 5) = some phone :=
      ⟨_, by rw [encodePhoneNumber_eq, if_pos ⟨by rw [smsMaxPduLength]; omega, hdigits⟩]⟩
    obtain ⟨pdus, hpdus, hcarries⟩ := encodeParts_carries hdigits hnumber n (part + 1)
      fun u hu => hunits u (mem_of_mem_drop hu)
    obtain ⟨pdu, hpdu⟩ : ∃ pdu, encodePart number international total reference part
        (rest.take (partTake (partLimit total) rest)) = some pdu := by
      rw [encodePart, hphone]
      exact ⟨_, rfl⟩
    refine ⟨pdu :: pdus, ?_, .cons ?_ hcarries⟩
    · unfold partLimit at hpdu hpdus
      rw [encodeParts, hpdu, hpdus]
      rfl
    · apply carries_encodePart (by omega) (fun u hu => hunits u (mem_of_mem_take hu)) _ hpdu
      exact (length_take_le _ _).trans (partTake_le _ _)

structure PartsOf (text : List Char) (pdus : List (List UInt8)) : Prop where
  /-- The payloads are the UTF-16 of pieces of whole characters that together are the text. -/
  pieces : ∃ pieces : List (List Char), pieces.flatten = text ∧
    pdus.map payload = pieces.map utf16
  payload_le : ∀ pdu ∈ pdus, (payload pdu).length ≤ if pdus.length = 1 then 70 else 67
  udl_eq : ∀ pdu ∈ pdus, (submitUserData pdu).udl.toNat = (submitUserData pdu).octets.length
  udl_le : ∀ pdu ∈ pdus, (submitUserData pdu).udl.toNat ≤ 140
  /-- As many parts are written as have been counted. -/
  length_eq : pdus.length = partCount (utf16 text)

/-- What holds for each part, for all of them. -/
theorem carries_all {pdus : List (List UInt8)} {parts : List (List ℕ)}
    (h : List.Forall₂ Carries pdus parts) :
    pdus.map payload = parts ∧
      ∀ pdu ∈ pdus, (submitUserData pdu).udl.toNat = (submitUserData pdu).octets.length ∧
        (submitUserData pdu).udl.toNat ≤ 140 := by
  induction h with
  | nil => exact ⟨rfl, by simp⟩
  | cons hcarries _ ih =>
    exact ⟨by rw [map_cons, hcarries.payload_eq, ih.1],
      forall_mem_cons.mpr ⟨⟨hcarries.udl_eq, hcarries.udl_le⟩, ih.2⟩⟩

/-- The counted parts hold the whole text, an empty one included. -/
theorem flatten_chunks_partCount (units : List ℕ) :
    (chunks (partLimit (partCount units)) (partCount units) units).flatten = units := by
  by_cases hne : units = []
  · subst hne
    rfl
  · exact (chunks_of_total hne rfl).1

/-- The emitted parts are parts of the text. -/
theorem partsOf_of_carries {pdus : List (List UInt8)}
    (h : List.Forall₂ Carries pdus (chunks (partLimit (partCount (utf16 text)))
      (partCount (utf16 text)) (utf16 text))) : PartsOf text pdus := by
  have hlength : pdus.length = partCount (utf16 text) := h.length_eq.trans (length_chunks _ _ _)
  obtain ⟨hpayload, hudl⟩ := carries_all h
  obtain ⟨pieces, htext, hpieces⟩ := exists_pieces (flatten_chunks_partCount (utf16 text))
  refine ⟨⟨pieces, htext, hpayload.trans hpieces⟩, ?_, fun pdu hpdu => (hudl pdu hpdu).1,
    fun pdu hpdu => (hudl pdu hpdu).2, hlength⟩
  intro pdu hpdu
  rw [hlength]
  apply @length_of_mem_chunks _ (partCount (utf16 text)) (utf16 text)
  have hmem : payload pdu ∈ pdus.map payload := mem_map_of_mem hpdu
  rw [hpayload] at hmem
  exact hmem

/-- What is done for an accepted number and a well-formed text: the parts are written exactly when
the units fit the array and the parts are not too many. -/
theorem pduEncodeUcs2Parts_utf8 {phoneNumber normalized : List UInt8} (maxParts reference : ℕ)
    (hnumber : smsNormalizeNumber phoneNumber 22 = some normalized)
    (hnul : (0 : UInt8) ∉ utf8 text) :
    (maxParts ≤ smsMaxParts ∧ (utf16 text).length ≤ smsMaxParts * 67 ∧ NeedsAtMost text maxParts ∧
        ∃ pdus, pduEncodeUcs2Parts phoneNumber (utf8 text) maxParts reference = some pdus ∧
          PartsOf text pdus) ∨
      (¬(maxParts ≤ smsMaxParts ∧ (utf16 text).length ≤ smsMaxParts * 67 ∧
          NeedsAtMost text maxParts) ∧
        pduEncodeUcs2Parts phoneNumber (utf8 text) maxParts reference = none) := by
  obtain ⟨hnormalized, hform, -⟩ := smsNormalizeNumber_eq_some.mp hnumber
  have hne : phoneNumber ≠ [] := by
    rintro rfl
    rw [hnormalized] at hform
    cases hform with
    | national _ hnonempty _ => exact hnonempty rfl
  rw [pduEncodeUcs2Parts, needsAtMost_iff]
  split
  · -- the caller asks for no parts, or for more than there may be
    rename_i hguard
    simp only [Bool.or_eq_true, decide_eq_true_eq, hne, false_or] at hguard
    refine .inr ⟨?_, rfl⟩
    rintro ⟨hmax, -, hcount⟩
    have hpos : 1 ≤ partCount (utf16 text) := ((needsAtMost_iff text _).mpr le_rfl).1
    omega
  rename_i hguard
  simp only [Bool.or_eq_true, decide_eq_true_eq, not_or] at hguard
  rw [hnumber, utf8ToUtf16_eq text (toNat_ne_zero_of_utf8 hnul)]
  by_cases hfits : (utf16 text).length ≤ smsMaxParts * 67
  swap
  · refine .inr ⟨fun h => hfits h.2.1, ?_⟩
    simp only [if_neg hfits]
  simp only [if_pos hfits]
  by_cases hcount : partCount (utf16 text) ≤ maxParts
  swap
  · refine .inr ⟨fun h => hcount h.2.2, ?_⟩
    unfold partCount at hcount
    rw [if_pos (by omega)]
  · obtain ⟨pdus, hpdus, hcarries⟩ := @encodeParts_carries _ (normalized.head? = some plusSign)
      (partCount (utf16 text)) reference hform.bareCode_isDigit
      ((length_bareCode_le _).trans hform.length_le) (partCount (utf16 text)) 0 _ (utf16_lt text)
    refine .inl ⟨by omega, hfits, hcount, pdus, ?_, partsOf_of_carries hcarries⟩
    unfold partCount at hcount hpdus
    rw [if_neg (by omega)]
    simpa [bareCode] using hpdus

/-- **Cutting a text into parts**: for an accepted number and any content,
`pdu_encode_ucs2_parts` accepts exactly the well-formed texts that fit the unit array and need no
more parts than asked for; and what it writes are the parts of the text. -/
theorem ucs2Parts_accepted {phoneNumber normalized content : List UInt8} (maxParts reference : ℕ)
    (hnumber : smsNormalizeNumber phoneNumber 22 = some normalized)
    (hnul : (0 : UInt8) ∉ content) :
    ((∃ pdus, pduEncodeUcs2Parts phoneNumber content maxParts reference = some pdus) ↔
      maxParts ≤ smsMaxParts ∧ ∃ text, content = utf8 text ∧
        (utf16 text).length ≤ smsMaxParts * 67 ∧ NeedsAtMost text maxParts) ∧
    ∀ text pdus, content = utf8 text →
      pduEncodeUcs2Parts phoneNumber content maxParts reference = some pdus →
        PartsOf text pdus := by
  refine ⟨⟨?_, ?_⟩, ?_⟩
  · rintro ⟨pdus, h⟩
    -- an accepted content was converted, so it is well formed
    obtain ⟨text, rfl⟩ : ∃ text, content = utf8 text := by
      unfold pduEncodeUcs2Parts at h
      split at h
      · cases h
      split at h
      · cases h
      split at h
      · cases h
      rename_i units hunits
      obtain ⟨text, htext, -⟩ := (utf8ToUtf16_eq_some hnul).mp hunits
      exact ⟨text, htext⟩
    rcases pduEncodeUcs2Parts_utf8 maxParts reference hnumber hnul with
      ⟨hmax, hfits, hneeds, -⟩ | ⟨-, hnone⟩
    · exact ⟨hmax, text, rfl, hfits, hneeds⟩
    · rw [hnone] at h
      cases h
  · rintro ⟨hmax, text, rfl, hfits, hneeds⟩
    rcases pduEncodeUcs2Parts_utf8 maxParts reference hnumber hnul with
      ⟨-, -, -, pdus, hpdus, -⟩ | ⟨hnot, -⟩
    · exact ⟨pdus, hpdus⟩
    · exact absurd ⟨hmax, hfits, hneeds⟩ hnot
  · rintro text pdus rfl h
    rcases pduEncodeUcs2Parts_utf8 maxParts reference hnumber hnul with
      ⟨-, -, -, pdus', hpdus', hparts⟩ | ⟨-, hnone⟩
    · rw [hpdus'] at h
      exact Option.some.inj h ▸ hparts
    · rw [hnone] at h
      cases h

/-- The text `A短`, sent to 10086, is accepted as one part. -/
theorem ucs2Parts_accepted_short :
    ∃ pdus, pduEncodeUcs2Parts (ascii "10086") (utf8 ['A', '短']) 1 7 = some pdus := by
  have hnumber : smsNormalizeNumber (ascii "10086") 22 = some (ascii "10086") := by decide
  refine (ucs2Parts_accepted 1 7 hnumber (by decide)).1.mpr ⟨by decide, ['A', '短'], rfl, ?_, ?_, ?_⟩
  · decide
  · decide
  · exact .inl (by decide)

end QModem.Sms
