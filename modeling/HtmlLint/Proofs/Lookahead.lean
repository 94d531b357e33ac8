import HtmlLint.Proofs.TextRuns
import Mathlib.Algebra.GroupWithZero.Nat

/-!
# Questions at any word

Offsets in the questions to a scanner are words of 64 bits, and any word may be asked about. Both
questions lead to sums of words, and a sum that is `2 ^ 64` or more stops the program.

* `StartsMarkup` — which bytes open markup.
* `opensMarkupAtWord` — the question where markup opens, asked byte by byte. Each sum is taken only
  after a byte was found in front of it, so it is an offset of the document or its end, and no sum
  overflows (`opensMarkupAtWord_eq`).
* `Scanner.byteAhead_of_overflow` — the byte ahead of the cursor is looked up at a sum that nothing
  guards.

`lookahead_at_any_word` says that the first question is answered right at every word, and the second
one exactly if the sum stays below `2 ^ 64`. Past that it is not answered at all.
-/

namespace HtmlLint

/-! ## Where markup opens -/

/-- The byte is a letter from A to Z, in either case. -/
def isLetterByte (b : UInt8) : Bool :=
  0x41 ≤ b && b ≤ 0x5A || 0x61 ≤ b && b ≤ 0x7A

/-- The bytes start with `<` and then `!`, `?`, a letter, or `/` and a letter. -/
inductive StartsMarkup : List UInt8 → Prop where
  | bang (more : List UInt8) : StartsMarkup (0x3C :: 0x21 :: more)
  | question (more : List UInt8) : StartsMarkup (0x3C :: 0x3F :: more)
  | letter {b : UInt8} (h : isLetterByte b = true) (more : List UInt8) :
      StartsMarkup (0x3C :: b :: more)
  | slash {b : UInt8} (h : isLetterByte b = true) (more : List UInt8) :
      StartsMarkup (0x3C :: 0x2F :: b :: more)

theorem holdsOf_isAlpha : Text.holdsOf Char.isAlpha = isLetterByte := by
  funext b
  have hall : ∀ k : Fin 256,
      Text.holdsOf Char.isAlpha (UInt8.ofFin k) = isLetterByte (UInt8.ofFin k) := by
    decide +kernel
  exact hall b.toFin

theorem holdsOf_mark {c : Char} (h : Text.isAscii c = true) :
    Text.holdsOf (· == c) = (· == UInt8.ofNat c.toNat) := by
  funext b
  by_cases hb : b = UInt8.ofNat c.toNat
  · rw [hb, Text.holdsOf_ofNat h]
    simp
  · have hvalid : b.toNat.isValidChar := .inl (Nat.lt_trans b.toNat_lt (by decide))
    have hbyte : (Char.ofNat b.toNat).toNat = b.toNat := by
      rw [Char.ofNat, dif_pos hvalid]
      rfl
    have hne : Char.ofNat b.toNat ≠ c := by
      rintro rfl
      rw [hbyte, UInt8.ofNat_toNat] at hb
      exact hb rfl
    rw [Text.holdsOf, beq_eq_false_iff_ne.2 hne, beq_eq_false_iff_ne.2 hb, Bool.and_false]

theorem opensMarkupBytes_cons (a b : UInt8) (more : List UInt8) :
    opensMarkupBytes (a :: b :: more)
      = (a == 0x3C && (b == 0x21 || b == 0x3F || b == 0x2F && more.head?.any isLetterByte
        || isLetterByte b)) := by
  have hletter : ∀ n, byteIs (a :: b :: more) n Char.isAlpha
      = (a :: b :: more)[n]?.any isLetterByte := by
    intro n
    rw [byteIs, holdsOf_isAlpha]
  have hmark : ∀ c, Text.isAscii c = true → ∀ n, byteIs (a :: b :: more) n (· == c)
      = (a :: b :: more)[n]?.any (· == UInt8.ofNat c.toNat) := by
    intro c hc n
    rw [byteIs, holdsOf_mark hc]
  rw [opensMarkupBytes, hletter, hletter, hmark '<' rfl, hmark '!' rfl, hmark '?' rfl,
    hmark '/' rfl]
  cases more <;> rfl

/-- The test on bytes accepts just these. -/
theorem opensMarkupBytes_iff (bs : List UInt8) : opensMarkupBytes bs = true ↔ StartsMarkup bs := by
  constructor
  · intro h
    rcases bs with _ | ⟨a, _ | ⟨b, more⟩⟩
    · cases h
    · simp [opensMarkupBytes, byteIs] at h
    · rw [opensMarkupBytes_cons] at h
      simp only [Bool.and_eq_true, Bool.or_eq_true, beq_iff_eq] at h
      obtain ⟨rfl, ((rfl | rfl) | ⟨rfl, hletter⟩) | hletter⟩ := h
      · exact .bang more
      · exact .question more
      · rcases more with _ | ⟨c, more⟩
        · cases hletter
        · exact .slash hletter more
      · exact .letter hletter more
  · intro h
    cases h with
    | bang more => simp [opensMarkupBytes_cons]
    | question more => simp [opensMarkupBytes_cons]
    | letter hletter more => simp [opensMarkupBytes_cons, hletter]
    | slash hletter more => simp [opensMarkupBytes_cons, hletter]

/-! ## Sums of words -/

theorem addWords_of_lt {a b : UInt64} (h : a.toNat + b.toNat < 2 ^ 64) :
    addWords a b = .ok (a + b) ∧ (a + b).toNat = a.toNat + b.toNat := by
  refine ⟨if_pos h, ?_⟩
  rw [UInt64.toNat_add, Nat.mod_eq_of_lt h]

theorem addWords_of_overflow {a b : UInt64} (h : 2 ^ 64 ≤ a.toNat + b.toNat) :
    addWords a b = .error .overflow :=
  if_neg (Nat.not_lt.2 h)

/-! ## Asking byte by byte -/

/-- The byte of a document at a word. -/
def byteAt? (source : List Char) (n : UInt64) : Option UInt8 :=
  (Text.bytes source)[n.toNat]?

/-- Whether markup opens at a word, told by the byte there and those at the next two words. -/
def opensMarkupAtWord (source : List Char) (n : UInt64) : Except Halt Bool :=
  if byteAt? source n = some 0x3C then do
    let next ← addWords n 1
    match byteAt? source next with
    | some b =>
      if b = 0x21 ∨ b = 0x3F then return true
      else if b = 0x2F then
        let later ← addWords n 2
        return (byteAt? source later).any isLetterByte
      else return isLetterByte b
    | none => return false
  else return false

/-- The bytes of a document from a word on. -/
def bytesFrom (source : List Char) (n : UInt64) : List UInt8 :=
  (Text.bytes source).drop n.toNat

theorem head?_bytesFrom (source : List Char) (n : UInt64) :
    (bytesFrom source n).head? = byteAt? source n :=
  List.head?_drop

theorem bytesFrom_of_none {source : List Char} {n : UInt64} (h : byteAt? source n = none) :
    bytesFrom source n = [] :=
  List.drop_eq_nil_of_le (List.getElem?_eq_none_iff.1 h)

theorem toNat_lt_of_some {source : List Char} {n : UInt64} {b : UInt8}
    (h : byteAt? source n = some b) : n.toNat < Text.byteLength source := by
  rw [← Text.length_bytes]
  exact (List.getElem?_eq_some_iff.1 h).1

/-- Behind a byte that was found the next word is the next offset. -/
theorem addWords_one_of_some {source : List Char} (hsize : Text.byteLength source < 2 ^ 64)
    {n : UInt64} {b : UInt8} (h : byteAt? source n = some b) :
    addWords n 1 = .ok (n + 1) ∧ bytesFrom source n = b :: bytesFrom source (n + 1) := by
  have hlt := toNat_lt_of_some h
  have hfits : n.toNat + (1 : UInt64).toNat < 2 ^ 64 := by
    rw [UInt64.toNat_one]
    omega
  rcases addWords_of_lt hfits with ⟨hsum, hnext⟩
  refine ⟨hsum, ?_⟩
  rcases List.getElem?_eq_some_iff.1 h with ⟨hin, rfl⟩
  rw [bytesFrom, bytesFrom, hnext]
  exact List.drop_eq_getElem_cons hin

/-- So is the word after it, if a byte was found there too. -/
theorem addWords_two_of_some {source : List Char} (hsize : Text.byteLength source < 2 ^ 64)
    {n : UInt64} {a b : UInt8} (hfirst : byteAt? source n = some a)
    (hsecond : byteAt? source (n + 1) = some b) : addWords n 2 = .ok (n + 1 + 1) := by
  have hlt := toNat_lt_of_some hfirst
  have hnext := toNat_lt_of_some hsecond
  rw [UInt64.toNat_add, UInt64.toNat_one] at hnext
  have hfits : n.toNat + (2 : UInt64).toNat < 2 ^ 64 := by
    have htwo : (2 : UInt64).toNat = 2 := rfl
    rw [htwo]
    omega
  rw [(addWords_of_lt hfits).1, UInt64.add_assoc]
  rfl

/-- No sum overflows, because a byte is found before each of them. -/
theorem opensMarkupAtWord_eq {source : List Char} (hsize : Text.byteLength source < 2 ^ 64)
    (n : UInt64) : opensMarkupAtWord source n = .ok (opensMarkupBytes (bytesFrom source n)) := by
  rw [opensMarkupAtWord]
  -- where the first byte is not `<`, nothing more is asked
  cases hfirst : byteAt? source n with
  | none =>
    rw [bytesFrom_of_none hfirst]
    rfl
  | some a =>
    rcases addWords_one_of_some hsize hfirst with ⟨hone, hbytes⟩
    simp only [hbytes, hone, bind, Except.bind, pure, Except.pure]
    cases hsecond : byteAt? source (n + 1) with
    | none => simp [bytesFrom_of_none hsecond, opensMarkupBytes, byteIs]
    | some b =>
      have htwo := addWords_two_of_some hsize hfirst hsecond
      rw [(addWords_one_of_some hsize hsecond).2, opensMarkupBytes_cons, head?_bytesFrom]
      simp only [htwo, Option.some.injEq]
      by_cases hopen : a = 0x3C
      · by_cases hslash : b = 0x2F
        · have hletter : isLetterByte 0x2F = false := by decide
          simp [hopen, hslash, hletter]
        · by_cases hmark : b = 0x21 ∨ b = 0x3F
          · rcases hmark with rfl | rfl <;> simp [hopen]
          · rcases not_or.1 hmark with ⟨hbang, hquestion⟩
            simp [hopen, hslash, hbang, hquestion, beq_eq_false_iff_ne.2]
      · simp [hopen, beq_eq_false_iff_ne.2]

/-! ## Looking ahead of the cursor -/

theorem Cursor.StandsIn.offset_le {here : Cursor} {source : List Char} (h : here.StandsIn source) :
    here.offset ≤ Text.byteLength source := by
  rcases h with ⟨passed, hsource, hoffset⟩
  rw [hoffset, hsource, Text.byteLength_append]
  exact Nat.le_add_right _ _

namespace Scanner

theorem source_afterRequests (here : Scanner) (n : Nat) :
    (here.afterRequests n).source = here.source := by
  induction n generalizing here with
  | zero => rfl
  | succ n ih =>
    rw [afterRequests, ih, afterRequest]
    cases hnext : here.cursor.next? with
    | none => rw [next?_of_none hnext]
    | some step => rw [next?_of_some hnext]

/-- The byte ahead is looked up at the sum of two words. -/
theorem byteAhead_of_lt {here : Scanner} {n : UInt64}
    (hsum : here.cursor.offset + n.toNat < 2 ^ 64) :
    here.byteAhead n = .ok (Text.bytes here.source)[here.cursor.offset + n.toNat]? := by
  have hword : here.cursor.offset.toUInt64.toNat = here.cursor.offset :=
    UInt64.toNat_ofNat_of_lt (Nat.lt_of_le_of_lt (Nat.le_add_right _ _) hsum)
  rw [← hword] at hsum ⊢
  rcases addWords_of_lt hsum with ⟨hadd, hoffset⟩
  rw [byteAhead, hadd, ← hoffset]
  rfl

/-- Nothing guards the sum. -/
theorem byteAhead_of_overflow {here : Scanner} (hoffset : here.cursor.offset < 2 ^ 64) {n : UInt64}
    (hsum : 2 ^ 64 ≤ here.cursor.offset + n.toNat) : here.byteAhead n = .error .overflow := by
  have hword : here.cursor.offset.toUInt64.toNat = here.cursor.offset :=
    UInt64.toNat_ofNat_of_lt hoffset
  rw [← hword] at hsum
  rw [byteAhead, addWords_of_overflow hsum]
  rfl

/-- The byte ahead of the cursor is found exactly if the sum does not overflow. -/
theorem byteAhead_eq_ok_iff {here : Scanner} (hoffset : here.cursor.offset < 2 ^ 64) (n : UInt64) :
    here.byteAhead n = .ok (Text.bytes here.source)[here.cursor.offset + n.toNat]?
      ↔ here.cursor.offset + n.toNat < 2 ^ 64 := by
  refine ⟨?_, byteAhead_of_lt⟩
  intro hfound
  by_contra hsum
  rw [byteAhead_of_overflow hoffset (Nat.le_of_not_lt hsum)] at hfound
  cases hfound

end Scanner

/-- Questions to a scanner of a document that fits its words, after any number of requests and at
any word. The byte ahead is the one at the sum of the cursor's offset and the word, or nothing past
the end, exactly if that sum is below `2 ^ 64`; a larger sum stops the program. Markup opens at a
word exactly if the bytes from there on start with markup, so it never does at the end of the
document or past it, and asking byte by byte always gives the same answer. -/
theorem lookahead_at_any_word (source : List Char) (hsize : Text.byteLength source < 2 ^ 64)
    (requests : Nat) (n : UInt64) :
    let here := (Scanner.atStart source).afterRequests requests
    (here.byteAhead n = .ok (Text.bytes source)[here.cursor.offset + n.toNat]?
        ↔ here.cursor.offset + n.toNat < 2 ^ 64)
      ∧ (2 ^ 64 ≤ here.cursor.offset + n.toNat → here.byteAhead n = .error .overflow)
      ∧ (here.opensMarkupAt n = true ↔ StartsMarkup ((Text.bytes source).drop n.toNat))
      ∧ (Text.byteLength source ≤ n.toNat → here.opensMarkupAt n = false)
      ∧ opensMarkupAtWord source n = .ok (here.opensMarkupAt n) := by
  intro here
  have hsource : here.source = source := Scanner.source_afterRequests (.atStart source) requests
  have hin : here.cursor.StandsIn source :=
    Scanner.standsIn_afterRequests (Cursor.atStart_standsIn source) requests
  have hoffset : here.cursor.offset < 2 ^ 64 := Nat.lt_of_le_of_lt hin.offset_le hsize
  have hmarkup : here.opensMarkupAt n = opensMarkupBytes (bytesFrom source n) := by
    rw [here.opensMarkupAt_eq, hsource]
    exact opensAt_eq_bytes source n.toNat
  have hahead := Scanner.byteAhead_eq_ok_iff hoffset n
  rw [hsource] at hahead
  refine ⟨hahead, Scanner.byteAhead_of_overflow hoffset, ?_, ?_, ?_⟩
  · rw [hmarkup]
    exact opensMarkupBytes_iff _
  · intro hend
    have hnone : byteAt? source n = none := by
      rw [byteAt?, List.getElem?_eq_none_iff, Text.length_bytes]
      exact hend
    rw [hmarkup, bytesFrom_of_none hnone]
    rfl
  · rw [hmarkup, opensMarkupAtWord_eq hsize]

/-- After the text of `a<b>`, the byte one ahead is `b`. Markup opens at offset one, and not at the
last word. -/
theorem lookahead_behind_text :
    Text.byteLength "a<b>".toList < 2 ^ 64
      ∧ ((Scanner.atStart "a<b>".toList).afterRequests 1).byteAhead 1 = .ok (some 0x62)
      ∧ ((Scanner.atStart "a<b>".toList).afterRequests 1).opensMarkupAt 1 = true
      ∧ ((Scanner.atStart "a<b>".toList).afterRequests 1).opensMarkupAt (-1) = false := by
  have hsize : Text.byteLength "a<b>".toList < 2 ^ 64 := by decide
  have hoffset : ((Scanner.atStart "a<b>".toList).afterRequests 1).cursor.offset = 1 := by
    decide +kernel
  rcases lookahead_at_any_word "a<b>".toList hsize 1 1 with ⟨hahead, -, hmarkup, -⟩
  rcases lookahead_at_any_word "a<b>".toList hsize 1 (-1) with ⟨-, -, -, hend, -⟩
  refine ⟨hsize, ?_, hmarkup.2 ?_, hend (by decide)⟩
  · rw [hahead.2 (by rw [hoffset]; decide), hoffset]
    rfl
  · exact .letter (b := 0x62) (by decide) [0x3E]

/-- Behind the text of `a<b>` nothing lies `2 ^ 64 - 1` bytes ahead, but asking for it stops the
program. -/
theorem byteAhead_at_last_word :
    (Text.bytes "a<b>".toList)[((Scanner.atStart "a<b>".toList).afterRequests 1).cursor.offset
        + (-1 : UInt64).toNat]? = none
      ∧ ((Scanner.atStart "a<b>".toList).afterRequests 1).byteAhead (-1) = .error .overflow := by
  decide +kernel

end HtmlLint
