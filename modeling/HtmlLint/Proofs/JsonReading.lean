import HtmlLint.Json.Reader
import HtmlLint.Proofs.JsonText

/-!
# Reading written forms back

The reader reads every text of the grammar as the value that it stands for. A part of a text is read
with something behind it, and the reader stops there; behind a number stands nothing that makes it
longer. Numbers are read as they are written if they fit a word.

* `Spells.readString`, `readNumber_toDigits` — strings and numbers.
* `ReadsAs` — what the reader does with each part of a text, with one lemma for each written form.
* `Written.read` — the reader is complete for the grammar.
-/

namespace HtmlLint.Json

/-! ## Reading strings -/

theorem IsHexDigit.hexValue? {c : Char} {v : Nat} (h : IsHexDigit c v) :
    Json.hexValue? c = some v := by
  have hle : ∀ a b : Char, a ≤ b ↔ a.toNat ≤ b.toNat := fun _ _ => UInt32.le_iff_toNat_le
  have hdigits : '0'.toNat = 48 ∧ '9'.toNat = 57 := ⟨rfl, rfl⟩
  have hsmall : 'a'.toNat = 97 ∧ 'f'.toNat = 102 := ⟨rfl, rfl⟩
  have hlarge : 'A'.toNat = 65 ∧ 'F'.toNat = 70 := ⟨rfl, rfl⟩
  simp only [Json.hexValue?, Bool.and_eq_true, decide_eq_true_eq, hle, hdigits,
    hsmall, hlarge]
  -- the reader tries the decimal digits first, then the small and last the large letters
  rcases h with ⟨hv, hc⟩ | ⟨hlow, hhigh, hc | hc⟩
  · rw [if_pos (by omega)]
    exact congrArg some (by omega)
  · rw [if_neg (by omega), if_neg (by omega), if_pos (by omega)]
    exact congrArg some (by omega)
  · rw [if_neg (by omega), if_pos (by omega)]
    exact congrArg some (by omega)

theorem IsHexDigit.utf8Size {c : Char} {v : Nat} (h : IsHexDigit c v) : c.utf8Size = 1 := by
  rw [Char.utf8Size_eq_one_iff, UInt32.le_iff_toNat_le]
  have hc : c.toNat ≤ 127 := by
    rcases h with ⟨hv, hc⟩ | ⟨hlow, hhigh, hc | hc⟩ <;> omega
  exact hc

theorem readHex_of_hexCode {digits : List Char} {n : Nat} (h : HexCode digits n) (i : Nat)
    (rest : List Char) : readHex ⟨i, digits ++ rest⟩ = .ok (n, ⟨i + 4, rest⟩) := by
  cases h with
  | mk ha hb hc hd =>
    simp [readHex, Place.skip, ha.utf8Size, hb.utf8Size, hc.utf8Size, hd.utf8Size, ha.hexValue?,
      hb.hexValue?, hc.hexValue?, hd.hexValue?]

theorem shortEscape?_of_mem {e c : Char} (h : (e, c) ∈ shortForms) :
    e ≠ 'u' ∧ shortEscape? e = some c := by
  have hall : ∀ form ∈ shortForms, form.1 ≠ 'u' ∧ shortEscape? form.1 = some form.2 := by decide
  exact hall (e, c) h

/-- A character is no half of a pair. -/
theorem not_isSurrogate (c : Char) :
    isLowSurrogate c.toNat = false ∧ isHighSurrogate c.toNat = false := by
  have hvalid : c.toNat < 0xD800 ∨ 0xDFFF < c.toNat ∧ c.toNat < 0x110000 := c.valid
  simp only [isLowSurrogate, isHighSurrogate, Bool.and_eq_false_iff, decide_eq_false_iff_not]
  omega

/-- Two halves are put together to the character. -/
theorem readLowSurrogate_of_hexCode {second : List Char} {high low : Nat} {c : Char}
    (hlow : low < 0x400) (hsecond : HexCode second (0xDC00 + low))
    (hc : c.toNat = 0x10000 + high * 0x400 + low) (i : Nat) (rest : List Char) :
    readLowSurrogate (0xD800 + high) ⟨i, '\\' :: 'u' :: (second ++ rest)⟩
      = .ok (c, ⟨i + 2 + 4, rest⟩) := by
  have hhex := readHex_of_hexCode hsecond (i + 2) rest
  have hrange : isLowSurrogate (0xDC00 + low) = true := by
    simp only [isLowSurrogate, Bool.and_eq_true, decide_eq_true_eq]
    omega
  have hcode : (0xD800 + high - 0xD800) * 0x400 + (0xDC00 + low - 0xDC00) + 0x10000 = c.toNat := by
    omega
  simp only [readLowSurrogate, Place.skip, List.drop_succ_cons, List.drop_zero, hhex, bind,
    Except.bind, hrange, if_true, hcode, Char.ofNat_toNat]

theorem readEscape_of_escape {e : List Char} {c : Char} (h : Escape e c) (i : Nat)
    (rest : List Char) : ∃ j, readEscape ⟨i, e ++ rest⟩ = .ok (c, ⟨j, rest⟩) := by
  cases h with
  | short hform =>
    rcases shortEscape?_of_mem hform with ⟨hne, hshort⟩
    exact ⟨i + 1, by simp [readEscape, hne, hshort, Place.skip]⟩
  | code hcode =>
    -- the code of a character is no half, so no second one is asked for
    rcases not_isSurrogate c with ⟨hlow, hhigh⟩
    have hhex := readHex_of_hexCode hcode (i + 1) rest
    refine ⟨i + 1 + 4, ?_⟩
    simp [readEscape, readCode, Place.skip, hhex, hlow, hhigh, bind, Except.bind]
  | @pair first second high low _ hhigh hlow hfirst hsecond hc =>
    have hhex := readHex_of_hexCode hfirst (i + 1) ('\\' :: 'u' :: (second ++ rest))
    have hnext := readLowSurrogate_of_hexCode hlow hsecond hc (i + 1 + 4) rest
    have hrange : isLowSurrogate (0xD800 + high) = false
        ∧ isHighSurrogate (0xD800 + high) = true := by
      simp only [isLowSurrogate, isHighSurrogate, Bool.and_eq_false_iff, decide_eq_false_iff_not,
        Bool.and_eq_true, decide_eq_true_eq]
      omega
    refine ⟨i + 1 + 4 + 2 + 4, ?_⟩
    simp [readEscape, readCode, Place.skip, hhex, hnext, hrange, bind, Except.bind]

theorem Spells.length_le {text s : List Char} (h : Spells text s) : s.length ≤ text.length := by
  induction h with
  | nil => exact Nat.le_refl 0
  | plain _ _ _ _ ih => exact Nat.succ_le_succ ih
  | escape he _ ih =>
    simp only [List.length_cons, List.length_append]
    omega

/-- Any spelling of a string is read as the string, up to the closing quote. -/
theorem Spells.readString {text s : List Char} (h : Spells text s) {fuel : Nat}
    (hfuel : s.length < fuel) (i : Nat) (rest : List Char) :
    ∃ j, Json.readString fuel ⟨i, text ++ '"' :: rest⟩ = .ok (s, ⟨j, rest⟩) := by
  -- a character takes one step in whatever form it is written, and the closing quote takes one more
  induction h generalizing fuel i with
  | nil =>
    cases fuel with
    | zero => cases hfuel
    | succ fuel => exact ⟨i + 1, by simp [Json.readString, Place.skip]⟩
  | @plain c text s hcontrol hquote hslash _ ih =>
    cases fuel with
    | zero => cases hfuel
    | succ fuel =>
      rcases ih (Nat.lt_of_succ_lt_succ hfuel) (i + c.utf8Size) with ⟨j, hread⟩
      refine ⟨j, ?_⟩
      simp [Json.readString, hquote, hslash, Nat.not_lt.2 hcontrol, hread, bind, Except.bind]
  | @escape e text s c he _ ih =>
    cases fuel with
    | zero => cases hfuel
    | succ fuel =>
      rcases readEscape_of_escape he (i + 1) (text ++ '"' :: rest) with ⟨k, hescape⟩
      rcases ih (Nat.lt_of_succ_lt_succ hfuel) k with ⟨j, hread⟩
      refine ⟨j, ?_⟩
      simp [Json.readString, Place.skip, hescape, hread, bind, Except.bind]

/-! ## Space -/

theorem Gap.all_isSpace {s : List Char} (h : Gap s) : ∀ c ∈ s, Json.isSpace c = true := by
  have hall : [' ', '\n', '\t', '\r'].all Json.isSpace = true := by decide
  exact fun c hc => List.all_eq_true.1 hall c (h c hc)

theorem Gap.skipSpace {gap : List Char} (h : Gap gap) {c : Char} (hc : Json.isSpace c = false)
    (i : Nat) (rest : List Char) :
    Place.skipSpace ⟨i, gap ++ c :: rest⟩ = ⟨i + gap.length, c :: rest⟩ := by
  have hrun : (gap ++ c :: rest).takeWhile Json.isSpace = gap := by
    rw [List.takeWhile_append_of_pos h.all_isSpace, List.takeWhile_cons_of_neg (by simp [hc]),
      List.append_nil]
  simp [Place.skipSpace, Place.skip, hrun]

theorem Gap.skipSpace_end {gap : List Char} (h : Gap gap) (i : Nat) :
    (Place.skipSpace ⟨i, gap⟩).rest = [] := by
  have hrun : gap.takeWhile Json.isSpace = gap := by
    rw [← List.append_nil gap, List.takeWhile_append_of_pos h.all_isSpace]
    rfl
  simp [Place.skipSpace, Place.skip, hrun]

/-- The text has space, then a character that is none, and from it on at least `count` of them. -/
def Opens (first : Char → Bool) (count : Nat) (text : List Char) : Prop :=
  ∃ gap c more, Gap gap ∧ text = gap ++ c :: more ∧ Json.isSpace c = false ∧ first c = true
    ∧ count ≤ more.length + 1

namespace Opens

variable {first : Char → Bool} {count : Nat} {text : List Char}

theorem of_cons {c : Char} (hc : Json.isSpace c = false) (hfirst : first c = true)
    (more : List Char) : Opens first 1 (c :: more) :=
  ⟨[], c, more, gap_nil, rfl, hc, hfirst, Nat.le_add_left 1 _⟩

theorem gap_append (h : Opens first count text) {before : List Char} (hbefore : Gap before) :
    Opens first count (before ++ text) := by
  rcases h with ⟨gap, c, more, hgap, rfl, hopen⟩
  refine ⟨before ++ gap, c, more, ?_, (List.append_assoc _ _ _).symm, hopen⟩
  exact List.forall_mem_append.2 ⟨hbefore, hgap⟩

theorem append (h : Opens first count text) {extra : Nat} {behind : List Char}
    (hextra : extra ≤ behind.length) : Opens first (count + extra) (text ++ behind) := by
  rcases h with ⟨gap, c, more, hgap, rfl, hc, hfirst, hcount⟩
  refine ⟨gap, c, more ++ behind, hgap, List.append_assoc _ _ _, hc, hfirst, ?_⟩
  rw [List.length_append]
  omega

theorem length_le (h : Opens first count text) : count ≤ text.length := by
  rcases h with ⟨gap, c, more, -, rfl, -, -, hcount⟩
  simp only [List.length_append, List.length_cons]
  omega

theorem skipSpace (h : Opens first count text) (i : Nat) (rest : List Char) :
    ∃ j c more, Place.skipSpace ⟨i, text ++ rest⟩ = ⟨j, c :: more⟩ ∧ first c = true
      ∧ count ≤ (c :: more).length := by
  rcases h with ⟨gap, c, more, hgap, rfl, hc, hfirst, hcount⟩
  refine ⟨i + gap.length, c, more ++ rest, ?_, hfirst, ?_⟩
  · rw [List.append_assoc, List.cons_append]
    exact hgap.skipSpace hc i (more ++ rest)
  · simp only [List.length_cons, List.length_append]
    omega

end Opens

namespace Part

/-- What the first character of a part can be: names start with a quote, and values do not start
with the bracket that closes an array. -/
def opener : Part → Char → Bool
  | .member _ | .members _ => (· == '"')
  | _ => (· != ']')

/-- How many values a part has. -/
def count : Part → Nat
  | .items list => list.length
  | .members list => list.length
  | _ => 1

end Part

/-- A digit is none of the other characters that the reader looks for. -/
theorem ne_of_isDigit {c : Char} (h : c.isDigit = true) (d : Char) (hd : d.isDigit = false) :
    c ≠ d := by
  rintro rfl
  rw [h] at hd
  cases hd

theorem isSpace_of_isDigit {c : Char} (h : c.isDigit = true) : Json.isSpace c = false := by
  simp [Json.isSpace, ne_of_isDigit h]

theorem exists_digit_toDigits (n : Nat) :
    ∃ c more, Nat.toDigits 10 n = c :: more ∧ c.isDigit = true := by
  cases hdigits : Nat.toDigits 10 n with
  | nil => exact absurd hdigits Nat.toDigits_ne_nil
  | cons c more =>
    have hmem : c ∈ Nat.toDigits 10 n := hdigits ▸ List.mem_cons_self
    exact ⟨c, more, rfl, Nat.isDigit_of_mem_toDigits (by decide) (by decide) hmem⟩

theorem Written.opens {admitted : Nat → Prop} {depth : Nat} {part : Part} {text : List Char}
    (h : Written admitted depth part text) : Opens part.opener part.count text := by
  induction h with
  | bool _ b => cases b <;> exact .of_cons rfl rfl _
  | @number _ n _ =>
    rcases exists_digit_toDigits n with ⟨c, more, hdigits, hc⟩
    rw [hdigits]
    exact .of_cons (isSpace_of_isDigit hc) (by simpa [Part.opener] using ne_of_isDigit hc ']' rfl) more
  | spaced hbefore _ _ ih => exact (ih.append (Nat.zero_le _)).gap_append hbefore
  | lastItem _ ih => exact ih
  | @moreItems _ _ more _ items _ _ ih ihmore =>
    have hbehind : items.length ≤ (',' :: more).length := Nat.le_succ_of_le ihmore.length_le
    have hlist := ih.append hbehind
    rwa [Nat.add_comm] at hlist
  | named hbefore => exact ⟨_, '"', _, hbefore, rfl, rfl, rfl, Nat.le_add_left 1 _⟩
  | lastMember _ ih => exact ih
  | @moreMembers _ _ more _ members _ _ ih ihmore =>
    have hbehind : members.length ≤ (',' :: more).length := Nat.le_succ_of_le ihmore.length_le
    have hlist := ih.append hbehind
    rwa [Nat.add_comm] at hlist
  | _ => exact .of_cons rfl rfl _

/-! ## Reading numbers -/

/-- Nothing here makes a number before it longer. -/
def Ends (rest : List Char) : Prop :=
  ∀ c more, rest = c :: more → c.isDigit = false ∧ c ≠ '.' ∧ c ≠ 'e' ∧ c ≠ 'E'

theorem ends_nil : Ends [] := by
  intro c more h
  cases h

theorem ends_cons {c : Char} (hdigit : c.isDigit = false) (hmark : c ∉ ['.', 'e', 'E'])
    (rest : List Char) : Ends (c :: rest) := by
  rintro d more ⟨⟩
  simpa [hdigit] using hmark

theorem Gap.ends_append {gap rest : List Char} (hgap : Gap gap) (hrest : Ends rest) :
    Ends (gap ++ rest) := by
  cases gap with
  | nil => exact hrest
  | cons c gap =>
    have hc := hgap c List.mem_cons_self
    simp only [List.mem_cons, List.not_mem_nil, or_false] at hc
    rcases hc with rfl | rfl | rfl | rfl <;> exact ends_cons rfl (by decide) (gap ++ rest)

theorem takeWhile_toDigits (n : Nat) {rest : List Char} (h : Ends rest) :
    (Nat.toDigits 10 n ++ rest).takeWhile Char.isDigit = Nat.toDigits 10 n := by
  have hdigits : ∀ c ∈ Nat.toDigits 10 n, c.isDigit = true := fun c hc =>
    Nat.isDigit_of_mem_toDigits (by decide) (by decide) hc
  rw [List.takeWhile_append_of_pos hdigits]
  cases rest with
  | nil => simp
  | cons c more => simp [(h c more rfl).1]

/-- Only zero starts with a zero. -/
theorem head_toDigits_ne_zero {n : Nat} (hpos : 0 < n) {c : Char} {more : List Char}
    (hdigits : Nat.toDigits 10 n = c :: more) : c ≠ '0' := by
  induction n using Nat.strongRecOn generalizing more with
  | ind n ih =>
    rw [Nat.toDigits_eq_if (by decide)] at hdigits
    split at hdigits
    next hsmall =>
      have hall : ∀ n < 10, 0 < n → Nat.digitChar n ≠ '0' := by decide
      cases hdigits
      exact hall n hsmall hpos
    next hlarge =>
      -- the first digit is that of the number without its last digit
      rcases exists_digit_toDigits (n / 10) with ⟨d, later, hlead, -⟩
      rw [hlead] at hdigits
      cases hdigits
      exact ih (n / 10) (by omega) (by omega) hlead

theorem le_ofDigitChars (digits : List Char) (kept : Nat) :
    kept ≤ Nat.ofDigitChars 10 digits kept := by
  induction digits generalizing kept with
  | nil => exact Nat.le_of_eq Nat.ofDigitChars_nil.symm
  | cons c digits ih =>
    rw [Nat.ofDigitChars_cons]
    exact Nat.le_trans (by omega) (ih _)

/-- A number that fits a word keeps all its digits. -/
theorem ofWhole_eq {digits : List Char} {kept : Nat}
    (h : Nat.ofDigitChars 10 digits kept ≤ Numeral.maxSignificand) :
    Numeral.ofWhole kept digits = ⟨Nat.ofDigitChars 10 digits kept, 0⟩ := by
  induction digits generalizing kept with
  | nil => rw [Numeral.ofWhole, Nat.ofDigitChars_nil]
  | cons c digits ih =>
    have hmore : kept * 10 + digitValue c = 10 * kept + (c.toNat - '0'.toNat) := by
      rw [Nat.mul_comm, digitValue]
    rw [Nat.ofDigitChars_cons] at h ⊢
    rw [Numeral.ofWhole, hmore, if_pos (Nat.le_trans (le_ofDigitChars digits _) h), ih h]

/-- Rounding adds one unit at most, and numbers of 64 bits are rounded to 11 bits. -/
theorem roundTo53Bits_le {n : Nat} (h : n ≤ Numeral.maxSignificand) :
    Numeral.roundTo53Bits n ≤ n + 2048 := by
  have hlog : n.log2 < 64 := by
    by_cases hzero : n = 0
    · rw [hzero]
      decide
    · exact (Nat.log2_lt hzero).2 (Nat.lt_of_le_pred (by decide) h)
  have hunit : Nat.pow 2 (n.log2 + 1 - 53) ≤ Nat.pow 2 11 :=
    Nat.pow_le_pow_right (by decide) (by omega)
  have hlow := Nat.div_mul_le_self n (Nat.pow 2 (n.log2 + 1 - 53))
  rw [Numeral.roundTo53Bits]
  split
  · rw [Nat.succ_mul]
    exact Nat.add_le_add hlow hunit
  · exact Nat.le_trans hlow (Nat.le_add_right n _)

theorem inRange_of_le {n : Nat} (h : n ≤ Numeral.maxSignificand) :
    Numeral.inRange ⟨n, 0⟩ = true := by
  -- without an exponent only the number itself is rounded
  have hone : Numeral.roundTo53Bits (Nat.pow 10 (Int.toNat 0)) = 1 := by decide
  have hbound : Numeral.maxSignificand + 2048 < Numeral.overflowBound := by decide +kernel
  have hsize : Numeral.roundTo53Bits n * Numeral.roundTo53Bits (Nat.pow 10 (Int.toNat 0))
      < Numeral.overflowBound := by
    rw [hone, Nat.mul_one]
    exact Nat.lt_of_le_of_lt (roundTo53Bits_le h)
      (Nat.lt_of_le_of_lt (Nat.add_le_add_right h 2048) hbound)
  rw [Numeral.inRange]
  split
  · rfl
  · have hsmall : ¬(308 : Int) < 0 := by decide
    exact (if_neg hsmall).trans (decide_eq_true hsize)

/-- Behind the digits of a number there is neither a fraction nor an exponent. -/
theorem readFractionIfAny_of_ends {m : Numeral} (hm : m.inRange = true) {rest : List Char}
    (h : Ends rest) (i : Nat) : readFractionIfAny m ⟨i, rest⟩ = .ok ⟨i, rest⟩ := by
  cases rest with
  | nil => simp [readFractionIfAny, readExponentIfAny, finishNumber, hm]
  | cons c more =>
    rcases h c more rfl with ⟨-, hpoint, hsmall, hlarge⟩
    simp [readFractionIfAny, readExponentIfAny, finishNumber, hm, hpoint, hsmall, hlarge]

theorem readUnsigned_toDigits {n : Nat} (hn : n ≤ Numeral.maxSignificand) {rest : List Char}
    (h : Ends rest) (i : Nat) :
    readUnsigned ⟨i, Nat.toDigits 10 n ++ rest⟩
      = .ok ⟨i + (Nat.toDigits 10 n).length, rest⟩ := by
  rcases exists_digit_toDigits n with ⟨c, more, hdigits, hc⟩
  -- a zero stands alone; any other number is a run of digits that starts with another digit
  by_cases hzero : n = 0
  · have hnone : rest.head?.any Char.isDigit = false := by
      cases rest with
      | nil => rfl
      | cons d later => exact (h d later rfl).1
    have hread := readFractionIfAny_of_ends (m := ⟨0, 0⟩) rfl h (i + 1)
    simp [hzero, Nat.toDigits_zero, readUnsigned, Place.skip, hnone, hread]
  · have hlead := head_toDigits_ne_zero (Nat.pos_of_ne_zero hzero) hdigits
    have hvalue : Numeral.ofWhole 0 (Nat.toDigits 10 n) = ⟨n, 0⟩ := by
      rw [ofWhole_eq (by rwa [Nat.ofDigitChars_ten_toDigits]), Nat.ofDigitChars_ten_toDigits]
    have hread := readFractionIfAny_of_ends (inRange_of_le hn) h (i + (Nat.toDigits 10 n).length)
    have htake := takeWhile_toDigits n h
    rw [hdigits, List.cons_append] at htake ⊢
    simp only [readUnsigned, hlead, hc, if_true, if_false, htake, Place.skip]
    rw [← List.cons_append, ← hdigits, hvalue, List.drop_left]
    exact hread

theorem readNumber_toDigits {n : Nat} (hn : n ≤ Numeral.maxSignificand) {rest : List Char}
    (h : Ends rest) (i : Nat) :
    ∃ j, readNumber ⟨i, Nat.toDigits 10 n ++ rest⟩
      = .ok (.number (Nat.toDigits 10 n), ⟨j, rest⟩) := by
  rcases exists_digit_toDigits n with ⟨c, more, hdigits, hc⟩
  have hsign : (Nat.toDigits 10 n ++ rest).head? ≠ some '-' := by
    rw [hdigits]
    simpa using ne_of_isDigit hc '-' rfl
  refine ⟨i + (Nat.toDigits 10 n).length, ?_⟩
  simp only [readNumber, beq_eq_false_iff_ne.2 hsign, Bool.false_eq_true, if_false,
    readUnsigned_toDigits hn h i, bind, Except.bind, Nat.add_sub_cancel_left, List.take_left]

/-! ## Reading values -/

theorem readValue_scalar {lead : List Char} (hlead : Gap lead) {c : Char}
    (hspace : Json.isSpace c = false) (hbracket : c ≠ '[') (hbrace : c ≠ '\x7b') (depth i : Nat)
    (more : List Char) :
    readValue depth ⟨i, lead ++ c :: more⟩ = readScalar ⟨i + lead.length, c :: more⟩ := by
  have hskip := hlead.skipSpace hspace i more
  cases depth <;> simp [readValue, hskip, hbracket, hbrace]

theorem readValue_bracket {lead : List Char} (hlead : Gap lead) (depth i : Nat)
    (more : List Char) :
    readValue (depth + 1) ⟨i, lead ++ '[' :: more⟩
      = (readArray (readValue depth) ⟨i + lead.length + 1, more⟩).map fun (items, here) =>
          (.array items, here) := by
  have hskip := hlead.skipSpace (c := '[') rfl i more
  simp only [readValue, hskip, Place.skip, List.drop_succ_cons, List.drop_zero]
  cases readArray (readValue depth) ⟨i + lead.length + 1, more⟩ <;> rfl

theorem readValue_brace {lead : List Char} (hlead : Gap lead) (depth i : Nat) (more : List Char) :
    readValue (depth + 1) ⟨i, lead ++ '\x7b' :: more⟩
      = (readObject (readValue depth) ⟨i + lead.length + 1, more⟩).map fun (members, here) =>
          (.object members, here) := by
  have hskip := hlead.skipSpace (c := '\x7b') rfl i more
  simp only [readValue, hskip, Place.skip, List.drop_succ_cons, List.drop_zero]
  cases readObject (readValue depth) ⟨i + lead.length + 1, more⟩ <;> rfl

theorem Place.skipSpace_skipSpace (here : Place) : here.skipSpace.skipSpace = here.skipSpace := by
  have hnone : ∀ s : List Char, (s.drop (s.takeWhile Json.isSpace).length).takeWhile Json.isSpace
      = [] := by
    intro s
    induction s with
    | nil => rfl
    | cons c s ih => cases hc : Json.isSpace c <;> simp [hc, ih]
  simp only [skipSpace, skip, hnone, List.length_nil, List.drop_zero, Nat.add_zero]

/-- Space before a value makes no difference. -/
theorem readValue_skipSpace (depth : Nat) (here : Place) :
    readValue depth here.skipSpace = readValue depth here := by
  cases depth <;> simp [readValue, here.skipSpace_skipSpace]

/-- What the reader does with a text that stands for a part, and something behind it. -/
def ReadsAs (depth : Nat) : Part → List Char → Prop
  | .bare value, text => ∀ (lead : List Char), Gap lead → ∀ i rest, Ends rest →
    ∃ j, readValue depth ⟨i, lead ++ (text ++ rest)⟩ = .ok (value, ⟨j, rest⟩)
  | .value value, text => ∀ i rest, Ends rest →
    ∃ j after, Gap after
      ∧ readValue depth ⟨i, text ++ rest⟩ = .ok (value, ⟨j, after ++ rest⟩)
  | .items items, text => ∀ fuel i rest, items.length ≤ fuel →
    ∃ j, readItems (readValue depth) fuel (Place.skipSpace ⟨i, text ++ ']' :: rest⟩)
      = .ok (items, ⟨j, rest⟩)
  | .member member, text => ∀ i rest, Ends rest →
    ∃ j after, Gap after
      ∧ readMember (readValue depth) (Place.skipSpace ⟨i, text ++ rest⟩)
        = .ok (member, ⟨j, after ++ rest⟩)
  | .members members, text => ∀ fuel i rest, members.length ≤ fuel →
    ∃ j, readMembers (readValue depth) fuel (Place.skipSpace ⟨i, text ++ '\x7d' :: rest⟩)
      = .ok (members, ⟨j, rest⟩)

section steps

variable {readItem : Place → Except Misread (Json × Place)} {here : Place} {i : Nat}
  {after rest : List Char}

/-- A closing bracket ends the items. -/
theorem readItems_last {item : Json}
    (h : readItem here = .ok (item, ⟨i, after ++ ']' :: rest⟩)) (hafter : Gap after)
    (fuel : Nat) :
    readItems readItem (fuel + 1) here = .ok ([item], ⟨i + after.length + 1, rest⟩) := by
  have hspace := hafter.skipSpace (c := ']') rfl i rest
  simp only [readItems, h, bind, Except.bind, hspace, if_true]
  rfl

/-- After a comma and some space, the other items are read. -/
theorem readItems_more {item : Json} {items : List Json} {m fuel : Nat} {c : Char}
    {more : List Char} {there : Place}
    (h : readItem here = .ok (item, ⟨i, after ++ ',' :: rest⟩)) (hafter : Gap after)
    (hrest : Place.skipSpace ⟨i + after.length + 1, rest⟩ = ⟨m, c :: more⟩) (hc : c ≠ ']')
    (hmore : readItems readItem fuel ⟨m, c :: more⟩ = .ok (items, there)) :
    readItems readItem (fuel + 1) here = .ok (item :: items, there) := by
  have hspace := hafter.skipSpace (c := ',') rfl i rest
  simp only [readItems, h, bind, Except.bind, hspace, Place.skip, List.drop_succ_cons,
    List.drop_zero, hrest, hmore, hc, if_true, if_false]
  rfl

/-- A closing brace ends the members. -/
theorem readMembers_last {member : List Char × Json}
    (h : readMember readItem here = .ok (member, ⟨i, after ++ '\x7d' :: rest⟩))
    (hafter : Gap after) (fuel : Nat) :
    readMembers readItem (fuel + 1) here = .ok ([member], ⟨i + after.length + 1, rest⟩) := by
  have hspace := hafter.skipSpace (c := '\x7d') rfl i rest
  simp only [readMembers, h, bind, Except.bind, hspace, if_true]
  rfl

/-- After a comma and some space, the other members are read from their first quote on. -/
theorem readMembers_more {member : List Char × Json} {members : List (List Char × Json)}
    {m fuel : Nat} {more : List Char} {there : Place}
    (h : readMember readItem here = .ok (member, ⟨i, after ++ ',' :: rest⟩)) (hafter : Gap after)
    (hrest : Place.skipSpace ⟨i + after.length + 1, rest⟩ = ⟨m, '"' :: more⟩)
    (hmore : readMembers readItem fuel ⟨m, '"' :: more⟩ = .ok (members, there)) :
    readMembers readItem (fuel + 1) here = .ok (member :: members, there) := by
  have hspace := hafter.skipSpace (c := ',') rfl i rest
  simp only [readMembers, h, bind, Except.bind, hspace, Place.skip, List.drop_succ_cons,
    List.drop_zero, hrest, hmore, if_true]
  rfl

end steps

namespace ReadsAs

variable {depth : Nat} {text : List Char}

theorem null : ReadsAs depth (.bare .null) ['n', 'u', 'l', 'l'] := by
  intro lead hlead i rest _
  refine ⟨i + lead.length + 1 + 1 + 1 + 1, ?_⟩
  rw [List.cons_append, readValue_scalar hlead rfl (by decide) (by decide)]
  simp [readScalar, readScalar.word, readWord, Place.skip, bind, Except.bind]

theorem bool (b : Bool) : ReadsAs depth (.bare (.bool b)) (switchWord b) := by
  intro lead hlead i rest _
  cases b with
  | true =>
    refine ⟨i + lead.length + 1 + 1 + 1 + 1, ?_⟩
    rw [switchWord, List.cons_append, readValue_scalar hlead rfl (by decide) (by decide)]
    simp [readScalar, readScalar.word, readWord, Place.skip, bind, Except.bind]
  | false =>
    refine ⟨i + lead.length + 1 + 1 + 1 + 1 + 1, ?_⟩
    rw [switchWord, List.cons_append, readValue_scalar hlead rfl (by decide) (by decide)]
    simp [readScalar, readScalar.word, readWord, Place.skip, bind, Except.bind]

theorem number {n : Nat} (hn : n ≤ Numeral.maxSignificand) :
    ReadsAs depth (.bare (.number (Nat.toDigits 10 n))) (Nat.toDigits 10 n) := by
  intro lead hlead i rest hrest
  rcases readNumber_toDigits hn hrest (i + lead.length) with ⟨j, hread⟩
  rcases exists_digit_toDigits n with ⟨c, more, hdigits, hc⟩
  refine ⟨j, ?_⟩
  rw [hdigits, List.cons_append] at hread ⊢
  rw [readValue_scalar hlead (isSpace_of_isDigit hc) (ne_of_isDigit hc _ rfl)
    (ne_of_isDigit hc _ rfl)]
  simp [readScalar, ne_of_isDigit hc, hc, hread]

theorem string {s : List Char} (h : Spells text s) :
    ReadsAs depth (.bare (.string s)) ('"' :: (text ++ ['"'])) := by
  intro lead hlead i rest _
  have hfuel : s.length < (text ++ '"' :: rest).length := by
    have hle := h.length_le
    simp only [List.length_cons, List.length_append]
    omega
  rcases h.readString hfuel (i + lead.length + 1) rest with ⟨j, hread⟩
  rw [List.length_append, List.length_cons] at hread
  refine ⟨j, ?_⟩
  rw [List.cons_append, List.append_assoc, List.singleton_append,
    readValue_scalar hlead rfl (by decide) (by decide)]
  simp [readScalar, Place.skip, hread, bind, Except.bind]

theorem noItems {inside : List Char} (h : Gap inside) :
    ReadsAs (depth + 1) (.bare (.array [])) ('[' :: (inside ++ [']'])) := by
  intro lead hlead i rest _
  have hbracket := h.skipSpace (c := ']') rfl (i + lead.length + 1) rest
  refine ⟨i + lead.length + 1 + inside.length + 1, ?_⟩
  rw [List.cons_append, List.append_assoc, List.singleton_append, readValue_bracket hlead,
    readArray, hbracket]
  rfl

theorem array {items : List Json} (h : ReadsAs depth (.items items) text)
    (hopens : Opens (· != ']') items.length text) :
    ReadsAs (depth + 1) (.bare (.array items)) ('[' :: (text ++ [']'])) := by
  intro lead hlead i rest _
  -- as many steps are allowed as characters are left, and each item has at least one
  rcases hopens.skipSpace (i + lead.length + 1) (']' :: rest) with ⟨k, c, more, hskip, hc, hcount⟩
  rcases h (c :: more).length (i + lead.length + 1) rest hcount with ⟨j, hread⟩
  rw [hskip] at hread
  refine ⟨j, ?_⟩
  rw [List.cons_append, List.append_assoc, List.singleton_append, readValue_bracket hlead,
    readArray, hskip]
  simp only [bne_iff_ne.1 hc, if_false, hread]
  rfl

theorem noMembers {inside : List Char} (h : Gap inside) :
    ReadsAs (depth + 1) (.bare (.object [])) ('\x7b' :: (inside ++ ['\x7d'])) := by
  intro lead hlead i rest _
  have hbrace := h.skipSpace (c := '\x7d') rfl (i + lead.length + 1) rest
  refine ⟨i + lead.length + 1 + inside.length + 1, ?_⟩
  rw [List.cons_append, List.append_assoc, List.singleton_append, readValue_brace hlead,
    readObject, hbrace]
  rfl

theorem object {members : List (List Char × Json)} (h : ReadsAs depth (.members members) text)
    (hopens : Opens (· == '"') members.length text) :
    ReadsAs (depth + 1) (.bare (.object members)) ('\x7b' :: (text ++ ['\x7d'])) := by
  intro lead hlead i rest _
  -- the reader counts its steps as in an array, and it asks for a quote before it starts
  rcases hopens.skipSpace (i + lead.length + 1) ('\x7d' :: rest) with
    ⟨k, c, more, hskip, hc, hcount⟩
  rcases h (c :: more).length (i + lead.length + 1) rest hcount with ⟨j, hread⟩
  obtain rfl : c = '"' := beq_iff_eq.1 hc
  rw [hskip] at hread
  refine ⟨j, ?_⟩
  rw [List.cons_append, List.append_assoc, List.singleton_append, readValue_brace hlead,
    readObject, hskip]
  simp only [if_true, hread]
  rfl

theorem spaced {before after : List Char} {value : Json} (hbefore : Gap before)
    (h : ReadsAs depth (.bare value) text) (hafter : Gap after) :
    ReadsAs depth (.value value) (before ++ (text ++ after)) := by
  intro i rest hrest
  -- the space behind the value is left to what is read next
  rcases h before hbefore i (after ++ rest) (hafter.ends_append hrest) with ⟨j, hread⟩
  refine ⟨j, after, hafter, ?_⟩
  rw [List.append_assoc, List.append_assoc]
  exact hread

theorem lastItem {item : Json} (h : ReadsAs depth (.value item) text) :
    ReadsAs depth (.items [item]) text := by
  intro fuel i rest hfuel
  cases fuel with
  | zero => cases hfuel
  | succ fuel =>
    rcases h i (']' :: rest) (ends_cons rfl (by decide) rest) with ⟨j, after, hafter, hread⟩
    rw [← readValue_skipSpace] at hread
    exact ⟨_, readItems_last hread hafter fuel⟩

theorem moreItems {more : List Char} {item : Json} {items : List Json}
    (h : ReadsAs depth (.value item) text) (hmore : ReadsAs depth (.items items) more)
    (hopens : Opens (· != ']') items.length more) :
    ReadsAs depth (.items (item :: items)) (text ++ ',' :: more) := by
  intro fuel i rest hfuel
  cases fuel with
  | zero => cases hfuel
  | succ fuel =>
    rw [List.append_assoc, List.cons_append]
    rcases h i (',' :: (more ++ ']' :: rest)) (ends_cons rfl (by decide) _) with
      ⟨k, after, hafter, hread⟩
    rw [← readValue_skipSpace] at hread
    -- behind a comma the reader must not find the closing bracket at once
    rcases hmore fuel (k + after.length + 1) rest (Nat.le_of_succ_le_succ hfuel) with ⟨j, hlater⟩
    rcases hopens.skipSpace (k + after.length + 1) (']' :: rest) with ⟨m, c, tail, hskip, hc, -⟩
    rw [hskip] at hlater
    exact ⟨j, readItems_more hread hafter hskip (bne_iff_ne.1 hc) hlater⟩

theorem named {before name behind s : List Char} {value : Json} (hbefore : Gap before)
    (hname : Spells name s) (hbehind : Gap behind) (h : ReadsAs depth (.value value) text) :
    ReadsAs depth (.member (s, value))
      (before ++ '"' :: (name ++ '"' :: (behind ++ ':' :: text))) := by
  intro i rest hrest
  have hfuel : s.length < ('"' :: (name ++ '"' :: (behind ++ ':' :: (text ++ rest)))).length := by
    have hle := hname.length_le
    simp only [List.length_cons, List.length_append]
    omega
  have hquote := hbefore.skipSpace (c := '"') rfl i
    (name ++ '"' :: (behind ++ ':' :: (text ++ rest)))
  rcases hname.readString hfuel (i + before.length + 1) (behind ++ ':' :: (text ++ rest)) with
    ⟨k, hread⟩
  have hcolon := hbehind.skipSpace (c := ':') rfl k (text ++ rest)
  rcases h (k + behind.length + 1) rest hrest with ⟨j, after, hafter, hvalue⟩
  refine ⟨j, after, hafter, ?_⟩
  simp only [List.append_assoc, List.cons_append]
  rw [hquote]
  simp only [readMember, Place.skip, List.drop_succ_cons, List.drop_zero, hread, bind,
    Except.bind, hcolon, if_true]
  rw [hvalue]

theorem lastMember {member : List Char × Json} (h : ReadsAs depth (.member member) text) :
    ReadsAs depth (.members [member]) text := by
  intro fuel i rest hfuel
  cases fuel with
  | zero => cases hfuel
  | succ fuel =>
    rcases h i ('\x7d' :: rest) (ends_cons rfl (by decide) rest) with ⟨j, after, hafter, hread⟩
    exact ⟨_, readMembers_last hread hafter fuel⟩

theorem moreMembers {more : List Char} {member : List Char × Json}
    {members : List (List Char × Json)} (h : ReadsAs depth (.member member) text)
    (hmore : ReadsAs depth (.members members) more)
    (hopens : Opens (· == '"') members.length more) :
    ReadsAs depth (.members (member :: members)) (text ++ ',' :: more) := by
  intro fuel i rest hfuel
  cases fuel with
  | zero => cases hfuel
  | succ fuel =>
    rw [List.append_assoc, List.cons_append]
    rcases h i (',' :: (more ++ '\x7d' :: rest)) (ends_cons rfl (by decide) _) with
      ⟨k, after, hafter, hread⟩
    -- the reader skips the space behind a comma before it asks for the next quote
    rcases hmore fuel (k + after.length + 1) rest (Nat.le_of_succ_le_succ hfuel) with ⟨j, hlater⟩
    rcases hopens.skipSpace (k + after.length + 1) ('\x7d' :: rest) with
      ⟨m, c, tail, hskip, hc, -⟩
    obtain rfl : c = '"' := beq_iff_eq.1 hc
    rw [hskip] at hlater
    exact ⟨j, readMembers_more hread hafter hskip hlater⟩

end ReadsAs

/-- The reader is complete for the grammar, as long as numbers fit a word. -/
theorem Written.readsAs {depth : Nat} {part : Part} {text : List Char}
    (h : Written (· ≤ Numeral.maxSignificand) depth part text) : ReadsAs depth part text := by
  -- a list is also known by how it opens, which the reader looks at before it reads the list
  induction h with
  | null => exact .null
  | bool _ b => exact .bool b
  | number _ hn => exact .number hn
  | string _ hs => exact .string hs
  | noItems _ hinside => exact .noItems hinside
  | array hitems ih => exact .array ih hitems.opens
  | noMembers _ hinside => exact .noMembers hinside
  | object hmembers ih => exact .object ih hmembers.opens
  | spaced hbefore _ hafter ih => exact .spaced hbefore ih hafter
  | lastItem _ ih => exact .lastItem ih
  | moreItems _ hmore ih ihmore => exact .moreItems ih ihmore hmore.opens
  | named hbefore hname hbehind _ ih => exact .named hbefore hname hbehind ih
  | lastMember _ ih => exact .lastMember ih
  | moreMembers _ hmore ih ihmore => exact .moreMembers ih ihmore hmore.opens

/-- However a value is written, it is read as what it is. -/
theorem Written.read {value : Json} {text : List Char}
    (h : Written (· ≤ Numeral.maxSignificand) maxDepth (.value value) text) :
    Json.read text = .ok value := by
  rcases h.readsAs 0 [] ends_nil with ⟨j, after, hafter, hvalue⟩
  rw [List.append_nil, List.append_nil] at hvalue
  simp [Json.read, readWhole, hvalue, hafter.skipSpace_end, bind, Except.bind]

end HtmlLint.Json
