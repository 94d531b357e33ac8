import HtmlLint.Proofs.Bytes.Outlines
import HtmlLint.Proofs.Recoding.Tokens
import HtmlLint.Proofs.Standalone

/-!
# Bytes and characters are scanned alike

The scanner of bytes stands at the start of a character whenever it is done with something, though
not on the way. `Place.Faces` says so, and names the text that is left. Each reader of bytes takes a
place that faces what a reader of characters is given to one that faces what the latter leaves, and
the spans between such places can be sliced. So the outlines of a document can be filled in, to its
tokens (`mapM_fill?_outlines`).
-/

namespace HtmlLint

/-! ## Places between characters -/

namespace Place

/-- The place is one of `source`, before the text `s`. -/
structure Faces (here : Place) (source s : List Char) : Prop where
  rest : here.rest = Text.bytes s
  split : ∃ before, source = before ++ s ∧ here.offset = Text.byteLength before

/-- The span is that of `piece`, which stands in the document here. -/
structure Finds (here : Place) (source : List Char) (span : Span) (piece : List Char) : Prop where
  ofText : span = .ofText here.offset piece
  slice : span.slice? source = some piece

theorem forward_forward (here : Place) (m n : Nat) :
    (here.forward m).forward n = here.forward (m + n) := by
  simp [forward, Nat.add_assoc]

namespace Faces

variable {here there : Place} {source s a r : List Char}

theorem atStart (source : List Char) : Faces ⟨0, Text.bytes source⟩ source source :=
  ⟨rfl, [], rfl, rfl⟩

theorem forward (h : here.Faces source s) {n : Nat} (hs : a ++ r = s)
    (hn : n = Text.byteLength a) : (here.forward n).Faces source r := by
  rcases h with ⟨hrest, before, hsource, hoffset⟩
  subst hs
  refine ⟨?_, before ++ a, ?_, ?_⟩
  · rw [Place.forward, hrest, hn, Text.drop_bytes]
  · rw [hsource, List.append_assoc]
  · rw [Place.forward, hoffset, hn, Text.byteLength_append]

/-- Between two places the document can be sliced. -/
theorem finds (h : here.Faces source s) (hthere : there.Faces source r) (hs : a ++ r = s) :
    here.Finds source (here.spanTo there) a := by
  rcases h with ⟨-, before, hsource, hoffset⟩
  rcases hthere with ⟨-, passed, hpassed, hstop⟩
  subst hs
  obtain rfl : before ++ a = passed := by
    rw [hsource, ← List.append_assoc] at hpassed
    exact List.append_cancel_right hpassed
  have hspan : here.spanTo there = .ofText here.offset a := by
    rw [spanTo, hstop, Text.byteLength_append, ← hoffset]
    rfl
  have hcovers : (here.spanTo there).Covers source before a :=
    ⟨⟨r, hsource⟩, by rw [hspan, hoffset]⟩
  exact ⟨hspan, hcovers.slice?_eq⟩

theorem offset_eq (h : here.Faces source s) (hthere : there.Faces source r) (hs : a ++ r = s) :
    there.offset = here.offset + Text.byteLength a :=
  congrArg Span.stop (h.finds hthere hs).ofText

theorem rest_eq_nil_iff (h : here.Faces source s) : here.rest = [] ↔ s = [] := by
  rw [h.rest, Text.bytes_eq_nil_iff]

/-- Bytes are passed as characters are. -/
theorem skip (h : here.Faces source s) {pb : UInt8 → Bool} {p : Char → Bool}
    (hp : Text.Reads pb p) : (here.skip pb).Faces source (s.dropWhile p) := by
  refine h.forward List.takeWhile_append_dropWhile ?_
  rw [h.rest, hp.takeWhile, Text.length_bytes]

/-- Bytes are passed as characters are, also from the second byte of a character on. -/
theorem skip_tail {c : Char} (h : here.Faces source (c :: s)) {pb : UInt8 → Bool}
    {p : Char → Bool} (hp : Text.Reads pb p)
    (hinside : ∀ b, Text.isContinuation b = true → pb b = true) :
    ((here.forward 1).skip pb).Faces source (s.dropWhile p) := by
  have hparts := List.takeWhile_append_dropWhile (p := p) (l := s)
  have htail : ((Text.bytes (c :: s)).tail.takeWhile pb).length + 1
      = Text.byteLength (c :: s.takeWhile p) := by
    rw [Text.byteLength_cons, ← Text.length_bytes, ← hp.takeWhile, Text.bytes_cons,
      ← String.length_utf8EncodeChar c]
    rcases Text.encode_cases c with ⟨-, hbytes⟩ | ⟨-, lead, more, hbytes, -, hmore⟩
    · rw [hbytes, List.singleton_append, List.tail_cons, List.length_singleton, Nat.add_comm]
    · rw [hbytes, List.cons_append, List.tail_cons,
        List.takeWhile_append_of_pos fun b hb => hinside b (hmore b hb), List.length_append,
        List.length_cons]
      omega
  rw [Place.skip, forward_forward]
  refine h.forward (a := c :: s.takeWhile p) (by rw [List.cons_append, hparts]) ?_
  rw [Place.forward, h.rest, List.drop_one, Nat.add_comm, htail]

/-- A search stops at the same place. -/
theorem seek (h : here.Faces source s) {q : List UInt8 → Bool} {p : List Char → Bool}
    (hq : Text.Sees q p) : (here.seek q).Faces source (Text.breakAt p s).2 := by
  refine h.forward (Text.breakAt_append p s) ?_
  rw [h.rest, hq.seek_bytes]

/-- A search stops at the same place, also from the second byte of a character on. -/
theorem seek_tail {c : Char} (h : here.Faces source (c :: s)) {q : List UInt8 → Bool}
    {p : List Char → Bool} (hq : Text.Sees q p) :
    ((here.forward 1).seek q).Faces source (Text.breakAt p s).2 := by
  rw [Place.seek, forward_forward]
  refine h.forward (a := c :: (Text.breakAt p s).1)
    (by rw [List.cons_append, Text.breakAt_append]) ?_
  rw [Place.forward, h.rest, List.drop_one, Nat.add_comm, hq.seek_tail, hq.seek_bytes,
    Text.byteLength_cons]

end Faces

end Place

/-! ## Tests -/

section Tests

open Text

/-- The first byte tells about the first character. -/
theorem map_head?_bytes {p : Char → Bool} (hp : AsciiOnly p) (s : List Char) :
    (bytes s).head?.map (holdsOf p) = s.head?.map p := by
  cases s with
  | nil => rfl
  | cons c s =>
    rcases List.exists_cons_of_ne_nil (String.utf8EncodeChar_ne_nil (c := c)) with ⟨b, bs, hbs⟩
    have hb := hp.reads c b (by rw [hbs]; exact List.mem_cons_self)
    rw [bytes_cons, hbs]
    exact congrArg some hb

theorem byteIs_zero {p : Char → Bool} (hp : AsciiOnly p) (s : List Char) :
    byteIs (bytes s) 0 p = s.head?.any p := by
  have hany := congrArg (Option.any id) (map_head?_bytes hp s)
  rw [Option.any_map, Option.any_map] at hany
  rw [byteIs, ← List.head?_eq_getElem?]
  exact hany

theorem head?_all_bytes {p : Char → Bool} (hp : AsciiOnly p) (s : List Char) :
    (bytes s).head?.all (holdsOf p) = s.head?.all p := by
  have hall := congrArg (Option.all id) (map_head?_bytes hp s)
  rw [Option.all_map, Option.all_map] at hall
  exact hall

theorem byteIs_succ {c : Char} (h : isAscii c = true) (s : List Char) (n : Nat) (p : Char → Bool) :
    byteIs (bytes (c :: s)) (n + 1) p = byteIs (bytes s) n p := by
  rw [byteIs, bytes_cons_ascii h]
  rfl

theorem byteIs_one {p : Char → Bool} (hp : AsciiOnly p) (c : Char) (s : List Char) :
    byteIs (bytes ('<' :: c :: s)) 1 p = p c := by
  rw [byteIs_succ rfl, byteIs_zero hp]
  rfl

theorem byteIs_continuation {b : UInt8} (h : isContinuation b = true) (bs : List UInt8)
    (p : Char → Bool) : byteIs (b :: bs) 0 p = false :=
  holdsOf_continuation h p

theorem asciiOnly_beq {c : Char} (h : isAscii c = true) : AsciiOnly (· == c) := by
  intro d hd
  rwa [beq_iff_eq.1 hd]

theorem asciiOnly_isAlpha : AsciiOnly Char.isAlpha := by
  intro c hc
  rw [isAlpha_iff] at hc
  simp only [UInt32.le_iff_toNat_le, UInt32.reduceToNat] at hc
  rw [isAscii, decide_eq_true_eq, Char.toNat]
  omega

theorem asciiOnly_isSpace : AsciiOnly isSpace := by
  intro c hc
  simp only [isSpace, Bool.or_eq_true, beq_iff_eq] at hc
  rcases hc with (((rfl | rfl) | rfl) | rfl) | rfl <;> rfl

theorem Text.AsciiOnly.or {p q : Char → Bool} (hp : AsciiOnly p) (hq : AsciiOnly q) :
    AsciiOnly fun c => p c || q c := by
  intro c hc
  rcases Bool.or_eq_true_iff.1 hc with h | h
  · exact hp c h
  · exact hq c h

theorem asciiOnly_endsTagName : AsciiOnly endsTagName :=
  (asciiOnly_isSpace.or (asciiOnly_beq rfl)).or (asciiOnly_beq rfl)

theorem asciiOnly_endsAttributeName : AsciiOnly endsAttributeName :=
  asciiOnly_endsTagName.or (asciiOnly_beq rfl)

theorem reads_isUnquotedChar : Reads (!holdsOf (!isUnquotedChar ·) ·) isUnquotedChar := by
  have hends : AsciiOnly (!isUnquotedChar ·) := by
    intro c hc
    refine asciiOnly_isSpace.or (asciiOnly_beq (c := '>') rfl) c ?_
    simpa [isUnquotedChar, imp_iff_not_or] using hc
  intro c b hb
  have hnot := congrArg (!·) (hends.reads c b hb)
  rwa [Bool.not_not] at hnot

/-- After ASCII characters, the characters ahead are the bytes ahead. -/
theorem opensMarkupBytes_bytes (s : List Char) : opensMarkupBytes (bytes s) = opensMarkup s := by
  rw [opensMarkupBytes, byteIs_zero (asciiOnly_beq rfl)]
  rcases s with _ | ⟨c, s⟩
  · rfl
  by_cases hc : c = '<'
  · subst hc
    rcases s with _ | ⟨d, s⟩
    · rfl
    have hslash : (d == '/' && byteIs (bytes ('<' :: d :: s)) 2 Char.isAlpha)
        = (d == '/' && startsWithLetter s) := by
      by_cases hd : d = '/'
      · subst hd
        rw [byteIs_succ rfl, byteIs_succ rfl, byteIs_zero asciiOnly_isAlpha]
        cases s <;> rfl
      · rw [beq_eq_false_iff_ne.2 hd, Bool.false_and, Bool.false_and]
    rw [opensMarkup_bracket, byteIs_one (asciiOnly_beq rfl), byteIs_one (asciiOnly_beq rfl),
      byteIs_one (asciiOnly_beq rfl), byteIs_one asciiOnly_isAlpha, hslash]
    rfl
  · rw [opensMarkup_of_ne hc]
    simp [hc]

theorem sees_opensMarkup : Sees opensMarkupBytes opensMarkup := by
  refine ⟨opensMarkupBytes_bytes, ?_⟩
  intro b bs hb
  have hnone : byteIs (b :: bs) 0 (· == '<') = false := byteIs_continuation hb bs _
  rw [opensMarkupBytes, hnone, Bool.false_and]

theorem sees_atTagBoundary : Sees endsTag atTagBoundary := by
  refine ⟨?_, ?_⟩
  · intro s
    rw [endsTag, atTagBoundary, byteIs_zero (asciiOnly_beq rfl), opensMarkupBytes_bytes]
    cases s <;> rfl
  · intro b bs hb
    have hnone : byteIs (b :: bs) 0 (· == '>') = false := byteIs_continuation hb bs _
    rw [endsTag, hnone, sees_opensMarkup.inside b bs hb]
    rfl

theorem startsWithBytes_bytes {n : List Char} (hn : n.all isAscii = true) (s : List Char) :
    startsWithBytes n (bytes s) = startsWith n s :=
  isPrefixOf_bytes hn s

/-- The bytes tell the form of markup. -/
theorem form?_bytes (s : List Char) : form? (bytes s) = (opening? s).map (·.1) := by
  unfold form?
  rw [opensMarkupBytes_bytes, startsWithBytes_bytes rfl, startsWithBytes_bytes rfl,
    startsWithBytes_bytes rfl, startsWithBytes_bytes rfl, startsWithBytes_bytes rfl,
    startsWithBytes_bytes rfl]
  cases h : opening? s with
  | none =>
    have hnone : opensMarkup s = false := by rw [opensMarkup, h]; rfl
    rw [hnone]
    rfl
  | some found =>
    rcases found with ⟨op, rest⟩
    have hsome : opensMarkup s = true := by rw [opensMarkup, h]; rfl
    rw [hsome]
    rcases opening?_cases h with ⟨t, rfl, hbang⟩ | ⟨rfl, rfl, hmark⟩ | ⟨rfl, rfl, -⟩
      | ⟨rfl, rfl, hletter⟩
    · have hafter : ∀ n, startsWith ('<' :: '!' :: n) ('<' :: '!' :: t) = (after? n t).isSome :=
        fun _ => rfl
      have hop : (Opening.afterBang t).1 = op := congrArg Prod.fst hbang
      simp only [Opening.text, hafter, ← hop, Opening.afterBang]
      cases after? ['-', '-'] t <;> cases after? ['[', 'C', 'D', 'A', 'T', 'A', '['] t <;>
        cases after? ['['] t <;> rfl
    · rcases rest with _ | ⟨c, t⟩
      · cases hmark
      · cases hmark
        rfl
    · rfl
    · rcases rest with _ | ⟨c, t⟩
      · cases hletter
      · have hother : ∀ d n, d.isAlpha = false →
            startsWith ('<' :: d :: n) ('<' :: c :: t) = false := by
          intro d n hd
          have hne : d ≠ c := by
            rintro rfl
            rw [startsWithLetter, hd] at hletter
            cases hletter
          simp [startsWith, after?, hne]
        have hc : c.isAlpha = true := hletter
        simp [Opening.text, byteIs_one asciiOnly_isAlpha, hc, fun n => hother '!' n rfl,
          fun n => hother '?' n rfl, fun n => hother '/' n rfl]

theorem sees_closesElement (element : RawElement) :
    Sees (closesElementBytes element) (closesElement element) := by
  have hname : element.name.all isAscii = true := by cases element <;> rfl
  refine ⟨?_, ?_⟩
  · intro s
    rw [closesElementBytes, closesElement, startsWithBytes_bytes rfl, startsWith]
    cases h : after? Opening.endTag.text s with
    | none => rfl
    | some t =>
      have hdrop : ∀ k, (bytes s).drop (2 + k) = (bytes t).drop k := by
        intro k
        rw [after?_eq_some_iff.1 h, ← List.drop_drop]
        rfl
      have hbytes : (bytes s).drop 2 = bytes t := hdrop 0
      dsimp only
      rw [hdrop, hbytes, sameBytesIgnoringCase_take hname, Option.isSome_some, Bool.true_and]
      cases hsame : sameIgnoringCase (t.take element.name.length) element.name with
      | false => rfl
      | true =>
        have hskip := drop_bytes (t.take element.name.length) (t.drop element.name.length)
        rw [List.take_append_drop, ← length_bytes_of_sameIgnoringCase hsame] at hskip
        rw [hskip, head?_all_bytes asciiOnly_endsTagName]
  · intro b bs hb
    have hopen := (sees_startsWith (c := '<') (n := ['/']) rfl).inside b bs hb
    have hnone : startsWithBytes Opening.endTag.text (b :: bs) = false := hopen
    rw [closesElementBytes, hnone]
    rfl

theorem ofBytes?_bytes (name : List Char) :
    RawElement.ofBytes? (bytes name) = RawElement.ofName? name := by
  rw [RawElement.ofBytes?, RawElement.ofName?, sameBytesIgnoringCase_bytes (by rfl),
    sameBytesIgnoringCase_bytes (by rfl)]

end Tests

/-! ## Attributes -/

section Readers

open Text

variable {here : Place} {source s : List Char}

namespace Place.Faces

theorem ascii {c : Char} (h : here.Faces source (c :: s)) (hc : isAscii c = true) :
    (here.forward 1).Faces source s := by
  have hone : byteLength [c] = 1 := byteLength_of_ascii (by rw [List.all_cons, hc]; rfl)
  exact h.forward (a := [c]) rfl hone.symm

theorem peek (h : here.Faces source s) {p : Char → Bool} (hp : AsciiOnly p) :
    here.peek 0 p = s.head?.any p := by
  rw [Place.peek, h.rest, byteIs_zero hp]

theorem peek_beq (h : here.Faces source s) {c : Char} (hc : isAscii c = true) :
    here.peek 0 (· == c) = true ↔ ∃ t, s = c :: t := by
  rw [h.peek (asciiOnly_beq hc)]
  cases s <;> simp

theorem isEmpty_rest (h : here.Faces source s) : here.rest.isEmpty = s.isEmpty := by
  rw [Bool.eq_iff_iff, List.isEmpty_iff, List.isEmpty_iff, h.rest_eq_nil_iff]

end Place.Faces

theorem Place.Faces.quoted (h : here.Faces source s) {q : Char} (hq : isAscii q = true)
    (quote : Quote) :
    (outlineQuoted q here).item.slice? source = some (readQuoted q quote s).value
      ∧ (outlineQuoted q here).next.Faces source (readQuoted q quote s).rest := by
  have hstop : (here.skip (!holdsOf (· == q) ·)).Faces source (s.dropWhile (· != q)) :=
    h.skip (asciiOnly_beq hq).reads.not
  have hparts := List.takeWhile_append_dropWhile (p := (· != q)) (l := s)
  unfold outlineQuoted readQuoted
  dsimp only
  rw [hstop.isEmpty_rest]
  cases hrest : s.dropWhile (· != q) with
  | nil =>
    have hseek := h.seek sees_atTagBoundary
    exact ⟨(h.finds hseek (breakAt_append _ s)).slice, hseek⟩
  | cons c rest =>
    have hc : c = q := dropWhile_ne_cons hrest
    have hquote := hstop
    rw [hrest, hc] at hquote
    exact ⟨(h.finds hstop hparts).slice, hquote.ascii hq⟩

theorem Place.Faces.value (h : here.Faces source s) :
    (outlineValue here).item.1.slice? source = some (readValue s).value
      ∧ (outlineValue here).item.2 = (readValue s).quote
      ∧ (outlineValue here).next.Faces source (readValue s).rest := by
  unfold outlineValue
  by_cases hdouble : ∃ t, s = '"' :: t
  · rw [if_pos ((h.peek_beq rfl).2 hdouble)]
    rcases hdouble with ⟨t, rfl⟩
    have hquoted := (h.ascii rfl).quoted (q := '"') rfl .double
    exact ⟨hquoted.1, (readQuoted_quote _ _ t).symm, hquoted.2⟩
  rw [if_neg (mt (h.peek_beq rfl).1 hdouble)]
  by_cases hsingle : ∃ t, s = '\x27' :: t
  · rw [if_pos ((h.peek_beq rfl).2 hsingle)]
    rcases hsingle with ⟨t, rfl⟩
    have hquoted := (h.ascii rfl).quoted (q := '\x27') rfl .single
    exact ⟨hquoted.1, (readQuoted_quote _ _ t).symm, hquoted.2⟩
  rw [if_neg (mt (h.peek_beq rfl).1 hsingle)]
  have hstop := h.skip reads_isUnquotedChar
  have hread := Recoding.readValue_unquoted (mt List.head?_eq_some_iff.1 hdouble)
    (mt List.head?_eq_some_iff.1 hsingle)
  rw [hread]
  exact ⟨(h.finds hstop List.takeWhile_append_dropWhile).slice, rfl, hstop⟩

theorem Place.Faces.attribute {c : Char} (h : here.Faces source (c :: s)) :
    (outlineAttribute here).item.fill? source = some (readAttribute here.offset c s).item
      ∧ (outlineAttribute here).next.Faces source (readAttribute here.offset c s).rest := by
  have hname := h.skip_tail asciiOnly_endsAttributeName.reads.not
    fun b hb => by rw [holdsOf_continuation hb]; rfl
  have hnamed := h.finds (a := c :: s.takeWhile (!endsAttributeName ·)) hname
    (congrArg (c :: ·) List.takeWhile_append_dropWhile)
  have hsign := hname.skip asciiOnly_isSpace.reads
  unfold outlineAttribute
  dsimp only
  by_cases hequals : ∃ t, (s.dropWhile (!endsAttributeName ·)).dropWhile isSpace = '=' :: t
  · rw [if_pos ((hsign.peek_beq rfl).2 hequals)]
    rcases hequals with ⟨t, ht⟩
    rw [ht] at hsign
    rcases ((hsign.ascii rfl).skip asciiOnly_isSpace.reads).value with ⟨hvalue, hquote, hnext⟩
    have hwhole := readAttribute_append here.offset c s
    simp only [readAttribute, ht] at hwhole ⊢
    have hraw := h.finds hnext hwhole
    refine ⟨?_, hnext⟩
    rw [← hraw.ofText]
    simp [AttributeOutline.fill?, AttributeOutline.sliceValue?, hnamed.slice, hvalue, hquote,
      hraw.slice]
  · rw [if_neg (mt (hsign.peek_beq rfl).1 hequals),
      Recoding.readAttribute_bare here.offset c (mt List.head?_eq_some_iff.1 hequals)]
    refine ⟨?_, hname⟩
    simp [AttributeOutline.fill?, AttributeOutline.sliceValue?, hnamed.slice, ← hnamed.ofText]

namespace Place.Faces

/-- Where space comes first, passing it starts with one byte. -/
theorem skip_space {c : Char} (h : here.Faces source (c :: s)) (hc : isSpace c = true) :
    here.skip (holdsOf isSpace) = (here.forward 1).skip (holdsOf isSpace) := by
  have hascii := asciiOnly_isSpace c hc
  have hrest : here.rest = UInt8.ofNat c.toNat :: bytes s := by
    rw [h.rest, bytes_cons_ascii hascii]
  have hbyte : holdsOf isSpace (UInt8.ofNat c.toNat) = true := by
    rw [holdsOf_ofNat hascii, hc]
  rw [Place.skip, Place.skip, forward_forward, Place.forward, Place.forward, Place.forward, hrest,
    List.takeWhile_cons_of_pos hbyte, List.length_cons, Nat.add_comm 1]
  rfl

theorem skip_none (h : here.Faces source s) (hs : ∀ c ∈ s.head?, isSpace c = false) :
    here.skip (holdsOf isSpace) = here := by
  have hnone : s.takeWhile isSpace = [] := by
    cases s with
    | nil => rfl
    | cons c s => exact List.takeWhile_cons_of_neg (Bool.eq_false_iff.1 (hs c rfl))
  rw [Place.skip, h.rest, asciiOnly_isSpace.reads.takeWhile, hnone]
  rfl

end Place.Faces

/-- What the first character of a tag's tail decides. -/
theorem Place.Faces.outlineAttributes_cons {c : Char} (h : here.Faces source (c :: s)) :
    outlineAttributes here =
      if opensMarkup (c :: s) then ⟨([], false), here⟩
      else if c = '>' then ⟨([], false), here.forward 1⟩
      else if c = '/' then
        if s.head? = some '>' then ⟨([], true), here.forward 2⟩
        else outlineAttributes ((here.forward 1).skip (holdsOf isSpace))
      else
        let read := outlineAttribute here
        let others := outlineAttributes (read.next.skip (holdsOf isSpace))
        ⟨(read.item :: others.item.1, others.item.2), others.next⟩ := by
  have hmore : here.rest ≠ [] := mt h.rest_eq_nil_iff.1 (List.cons_ne_nil c s)
  have hfirst : ∀ d, isAscii d = true → here.peek 0 (· == d) = (c == d) := by
    intro d hd
    rw [h.peek (asciiOnly_beq hd)]
    rfl
  rw [outlineAttributes, dif_neg hmore, h.rest, opensMarkupBytes_bytes, hfirst _ rfl, hfirst _ rfl]
  simp only [beq_iff_eq]
  by_cases hslash : c = '/'
  · have hsecond : here.peek 1 (· == '>') = true ↔ s.head? = some '>' := by
      subst hslash
      rw [Place.peek, h.rest, byteIs_succ rfl, byteIs_zero (asciiOnly_beq rfl)]
      cases s <;> simp
    simp only [hsecond]
  · simp only [if_neg hslash]

/-- The outlines can be filled in to the attributes of a tag, and the tag ends the same way. -/
structure TailFound (source : List Char) (found : Found (List AttributeOutline × Bool))
    (tail : TagTail) : Prop where
  attributes : found.item.1.mapM (AttributeOutline.fill? source) = some tail.attributes
  selfClosing : found.item.2 = (tail.ending == .selfClosed)
  next : found.next.Faces source tail.rest

theorem Place.Faces.attributes (h : here.Faces source s) :
    TailFound source (outlineAttributes (here.skip (holdsOf isSpace)))
      (readTagTail here.offset s) := by
  generalize hoffset : here.offset = offset
  fun_induction readTagTail offset s generalizing here with
  | case1 offset =>
    rw [h.skip_none (by simp), outlineAttributes, dif_pos (h.rest_eq_nil_iff.2 rfl)]
    exact ⟨rfl, rfl, h⟩
  | case2 offset c s hspace ih =>
    have hnext := h.ascii (asciiOnly_isSpace c hspace)
    have htail := ih hnext (by rw [Place.forward, hoffset])
    rw [h.skip_space hspace]
    exact ⟨htail.attributes, htail.selfClosing, htail.next⟩
  | case3 offset s hspace =>
    rw [h.skip_none (by simpa using hspace), h.outlineAttributes_cons,
      opensMarkup_of_ne (by decide)]
    exact ⟨rfl, rfl, h.ascii rfl⟩
  | case4 offset rest hspace hclose =>
    rw [h.skip_none (by simpa using hspace), h.outlineAttributes_cons,
      opensMarkup_of_ne (by decide)]
    exact ⟨rfl, rfl, h.forward (a := ['/', '>']) rfl rfl⟩
  | case5 offset s hend hspace hclose ih =>
    have hother : s.head? ≠ some '>' := by
      intro hhead
      rcases List.head?_eq_some_iff.1 hhead with ⟨rest, hs⟩
      exact hend rest hs
    have htail := ih (h.ascii rfl) (by rw [Place.forward, hoffset])
    rw [h.skip_none (by simpa using hspace), h.outlineAttributes_cons,
      opensMarkup_of_ne (by decide), if_neg Bool.false_ne_true, if_neg hclose, if_pos rfl,
      if_neg hother]
    exact ⟨htail.attributes, htail.selfClosing, htail.next⟩
  | case6 offset c s hspace hclose hslash hmarkup =>
    rw [h.skip_none (by simpa using hspace), h.outlineAttributes_cons, if_pos hmarkup]
    exact ⟨rfl, rfl, h⟩
  | case7 offset c s hspace hclose hslash hmarkup read =>
    rename_i ih
    rcases h.attribute with ⟨hitem, hnext⟩
    rw [hoffset] at hitem hnext
    have hstop : (outlineAttribute here).next.offset = read.item.span.stop := by
      rw [h.offset_eq hnext (readAttribute_append offset c s), readAttribute_span, hoffset]
      rfl
    have htail := ih hnext hstop
    rw [h.skip_none (by simpa using hspace), h.outlineAttributes_cons, if_neg hmarkup,
      if_neg hclose, if_neg hslash]
    refine ⟨?_, htail.selfClosing, htail.next⟩
    simp [TagTail.afterAttribute, hitem, htail.attributes, read]

/-! ## Tokens -/

theorem Place.Faces.enclosed (h : here.Faces source s) {c : Char} {n : List Char}
    (hn : (c :: n).all isAscii = true) :
    here.Finds source (outlineEnclosed (c :: n) here).item (readEnclosed (c :: n) s).data
      ∧ (outlineEnclosed (c :: n) here).next.Faces source (readEnclosed (c :: n) s).rest := by
  have hstop : (here.seek (startsWithBytes (c :: n))).Faces source
      (breakAt (startsWith (c :: n)) s).2 := h.seek (sees_startsWith hn)
  have hfinds := h.finds hstop (breakAt_append _ s)
  unfold outlineEnclosed readEnclosed
  dsimp only
  rw [hstop.isEmpty_rest]
  cases hafter : after? (c :: n) (breakAt (startsWith (c :: n)) s).2 with
  | some rest =>
    have hsplit := after?_eq_some_iff.1 hafter
    have hmore : (breakAt (startsWith (c :: n)) s).2.isEmpty = false := by rw [hsplit]; rfl
    rw [hmore]
    exact ⟨hfinds, hstop.forward hsplit.symm (length_bytes _)⟩
  | none =>
    -- the search went to the end, for it stops at the closing text only
    have hend : (breakAt (startsWith (c :: n)) s).2 = [] := by
      rcases breakAt_snd (startsWith (c :: n)) s with hnil | hsees
      · exact hnil
      · rw [startsWith, hafter] at hsees
        cases hsees
    rw [hend] at hstop ⊢
    exact ⟨hfinds, hstop⟩

theorem Place.Faces.comment (h : here.Faces source s) :
    here.Finds source (outlineComment here).item (readComment s).data
      ∧ (outlineComment here).next.Faces source (readComment s).rest := by
  unfold outlineComment
  rw [h.rest, startsWithBytes_bytes rfl, startsWithBytes_bytes rfl]
  cases hclose : startsWith ['>'] s with
  | true =>
    rcases startsWith_iff.1 hclose with ⟨rest, rfl⟩
    exact ⟨h.finds h rfl, h.forward (a := ['>']) rfl rfl⟩
  | false =>
    cases hdash : startsWith ['-', '>'] s with
    | true =>
      rcases startsWith_iff.1 hdash with ⟨rest, rfl⟩
      exact ⟨h.finds h rfl, h.forward (a := ['-', '>']) rfl rfl⟩
    | false =>
      rw [Recoding.readComment_of_ne hclose hdash]
      exact h.enclosed rfl

/-- The outline can be filled in to the token that was read, and the same content is pending. -/
structure LexemeFound (source : List Char) (found : Found (OutlineKind × Option RawElement))
    (read : Lexeme) : Prop where
  kind : found.item.1.fill? source = some read.kind
  pending : found.item.2 = read.kind.opens?
  next : found.next.Faces source read.rest

/-- The bytes of what a span covers are those taken from its start. -/
theorem Place.Finds.take_rest {span : Span} {piece : List Char}
    (hspan : here.Finds source span piece) (h : here.Faces source s) (hs : piece <+: s) :
    here.rest.take span.length = bytes piece := by
  rcases hs with ⟨r, rfl⟩
  have hlength : span.length = (bytes piece).length := by
    rw [hspan.ofText, length_bytes]
    simp [Span.length, Span.ofText]
  rw [h.rest, bytes_append, hlength, List.take_left]

theorem outlineCommentKind_fill? {data : List Char} {span : Span}
    (h : span.slice? source = some data) :
    (outlineCommentKind (bytes data) span).fill? source = some (commentKind data) := by
  unfold outlineCommentKind commentKind
  rw [startsWithBytes_bytes rfl, isSuffixOf_bytes rfl]
  split <;> simp [OutlineKind.fill?, h]

theorem startTag_opens? (name : List Char) (attributes : List Attribute) (selfClosing : Bool) :
    (Token.Kind.startTag name attributes selfClosing).opens?
      = if selfClosing then none else RawElement.ofName? name := by
  cases selfClosing <;> rfl

theorem commentKind_opens? (data : List Char) : (commentKind data).opens? = none := by
  unfold commentKind
  split <;> rfl

/-- An end tag is found up to its `>`, or to the markup that cuts it. -/
theorem Place.Faces.endTag (h : here.Faces source (Opening.endTag.text ++ s)) :
    LexemeFound source (outlineMarkup .endTag here) (readEndTag here.offset s) := by
  have hinner := h.forward rfl (length_bytes Opening.endTag.text)
  have hname := hinner.skip asciiOnly_endsTagName.reads.not
  have hnamed := hinner.finds hname List.takeWhile_append_dropWhile
  have hstop := hname.seek sees_atTagBoundary
  have hclose := hstop.peek_beq (c := '>') rfl
  have hkind := congrArg (Option.map Token.Kind.endTag) hnamed.slice
  unfold outlineMarkup
  dsimp only
  rcases readEndTag_cases here.offset s with ⟨hread, hrest⟩ | ⟨hread, hrest⟩
  · rw [hread, if_pos (hclose.2 ⟨_, hrest⟩)]
    rw [hrest] at hstop
    exact ⟨hkind, rfl, hstop.ascii rfl⟩
  · have hopen : ¬ ∃ t, (breakAt atTagBoundary (s.dropWhile (!endsTagName ·))).2 = '>' :: t := by
      rintro ⟨t, ht⟩
      rw [ht, opensMarkup_of_ne (by decide)] at hrest
      rcases hrest with hnil | hmarkup
      · cases hnil
      · cases hmarkup
    rw [hread, if_neg (mt hclose.1 hopen)]
    exact ⟨hkind, rfl, hstop⟩

/-- A start tag is found with its attributes, and the element whose content follows it. -/
theorem Place.Faces.startTag (h : here.Faces source (Opening.startTag.text ++ s)) :
    LexemeFound source (outlineMarkup .startTag here) (readStartTag here.offset s) := by
  have hinner := h.forward rfl (length_bytes Opening.startTag.text)
  have hname := hinner.skip asciiOnly_endsTagName.reads.not
  have hnamed := hinner.finds hname List.takeWhile_append_dropWhile
  have hoffset := hinner.offset_eq hname List.takeWhile_append_dropWhile
  have htail := hname.attributes
  rw [hoffset] at htail
  have hbytes := hnamed.take_rest hinner (List.takeWhile_prefix _)
  unfold outlineMarkup
  dsimp only
  refine ⟨?_, ?_, htail.next⟩
  · simp only [OutlineKind.fill?, hnamed.slice, htail.attributes, htail.selfClosing]
    rfl
  · rw [hbytes, ofBytes?_bytes, htail.selfClosing]
    exact (startTag_opens? _ _ _).symm

/-- Markup that a fixed text closes. -/
theorem Place.Faces.bounded (h : here.Faces source s) (offset : Nat) (op : Opening)
    (kind : Span → OutlineKind) {read : List Char → Token.Kind} {c : Char} {n : List Char}
    (hn : (c :: n).all isAscii = true) (hopens : ∀ data, (read data).opens? = none)
    (hkind : ∀ span, (kind span).fill? source = (span.slice? source).map read) :
    LexemeFound source (outlineMarkup.enclosed here (c :: n) kind)
      (readMarkup.bounded offset op s (c :: n) read) := by
  rcases h.enclosed hn with ⟨hdata, hnext⟩
  refine ⟨?_, (hopens _).symm, hnext⟩
  exact (hkind _).trans (congrArg (Option.map read) hdata.slice)

/-- Markup of every form is found as it is read. -/
theorem Place.Faces.markup (op : Opening) (h : here.Faces source (op.text ++ s)) :
    LexemeFound source (outlineMarkup op here) (readMarkup here.offset op s) := by
  have hinner := h.forward rfl (length_bytes op.text)
  cases op with
  | comment =>
    rcases hinner.comment with ⟨hdata, hnext⟩
    have hbytes := hdata.take_rest hinner ⟨_, readComment_append s⟩
    refine ⟨?_, (commentKind_opens? _).symm, hnext⟩
    unfold outlineMarkup
    dsimp only
    rw [hbytes]
    exact outlineCommentKind_fill? hdata.slice
  | endTag => exact h.endTag
  | startTag => exact h.startTag
  | cdata => exact hinner.bounded _ .cdata (.cdata · none) rfl (fun _ => rfl) fun _ => rfl
  | conditional => exact hinner.bounded _ .conditional .conditional rfl (fun _ => rfl) fun _ => rfl
  | declaration => exact hinner.bounded _ .declaration .declaration rfl (fun _ => rfl) fun _ => rfl
  | instruction => exact hinner.bounded _ .instruction .comment rfl (fun _ => rfl) fun _ => rfl

/-- Text is found although the search for its end may start inside of a character. -/
theorem Place.Faces.text (h : here.Faces source s) (hs : s ≠ []) :
    LexemeFound source (outlineText here) (readText s) := by
  rcases List.exists_cons_of_ne_nil hs with ⟨c, t, rfl⟩
  exact ⟨rfl, rfl, h.seek_tail sees_opensMarkup⟩

theorem Place.Faces.markupOrText (h : here.Faces source s) (hs : s ≠ []) :
    LexemeFound source (outlineToken.markupOrText here) (readToken here.offset s) := by
  unfold outlineToken.markupOrText readToken
  rw [h.rest, form?_bytes]
  cases hopen : opening? s with
  | none => exact h.text hs
  | some found =>
    rcases found with ⟨op, rest⟩
    rw [opening?_append hopen] at h
    exact h.markup op

/-- One token is found as it is read. -/
theorem Place.Faces.token {cursor : Cursor} (h : here.Faces source cursor.rest)
    (hoffset : here.offset = cursor.offset) (hmore : cursor.rest ≠ []) :
    LexemeFound source (outlineToken cursor.pending here) cursor.lexeme := by
  have hplain := h.markupOrText hmore
  rw [hoffset] at hplain
  unfold Cursor.lexeme outlineToken
  cases cursor.pending with
  | none => exact hplain
  | some element =>
    have hstop := h.seek (sees_closesElement element)
    have hwhole := readRawText_append cursor.offset element cursor.rest
    have hcontent := h.finds hstop hwhole
    have hlength := h.offset_eq hstop hwhole
    dsimp only
    by_cases hempty : (readRawText cursor.offset element cursor.rest).raw = []
    · rw [hempty] at hlength
      rw [if_pos hempty, if_neg (by rw [hlength]; exact Nat.lt_irrefl _)]
      exact hplain
    · have hpos := byteLength_pos hempty
      rw [if_neg hempty, if_pos (by omega)]
      exact ⟨congrArg (Option.map (Token.Kind.cdata · (some element))) hcontent.slice, rfl, hstop⟩

/-! ## Documents -/

/-- What is found from a cursor on are its steps. -/
theorem Place.Faces.outlinesFrom {cursor : Cursor} (h : here.Faces source cursor.rest)
    (hoffset : here.offset = cursor.offset) :
    (outlinesFrom cursor.pending here).mapM (Outline.fill? source)
      = some (cursor.steps.map (·.token)) := by
  induction cursor using Cursor.induction generalizing here with
  | finished cursor htaken =>
    have hend := Cursor.rest_of_none htaken
    rw [Cursor.steps_of_none htaken, HtmlLint.outlinesFrom, dif_pos (h.rest_eq_nil_iff.2 hend)]
    rfl
  | step cursor step htaken ih =>
    have hmore : cursor.rest ≠ [] := by
      intro hend
      rw [Cursor.next?, if_pos hend] at htaken
      cases htaken
    obtain rfl : cursor.place cursor.lexeme = step := by
      rw [Cursor.next?_of_ne_nil hmore] at htaken
      exact Option.some.inj htaken
    have hfound := h.token hoffset hmore
    have hraw := h.finds hfound.next cursor.lexeme_append
    have hspan := hraw.ofText
    rw [hoffset] at hspan
    have hothers := ih hfound.next (congrArg Span.stop hspan)
    have hpending : (outlineToken cursor.pending here).item.2
        = (cursor.place cursor.lexeme).next.pending := hfound.pending
    have hitem : Outline.fill? source ⟨(outlineToken cursor.pending here).item.1,
        here.spanTo (outlineToken cursor.pending here).next⟩
          = some (cursor.place cursor.lexeme).token := by
      simp [Outline.fill?, Cursor.place, hfound.kind, hraw.slice, ← hspan]
    rw [Cursor.steps_of_some htaken, HtmlLint.outlinesFrom,
      dif_neg (mt h.rest_eq_nil_iff.1 hmore)]
    dsimp only
    rw [List.mapM_cons, hitem, hpending, hothers]
    rfl

/-- Every slice that the tokens need can be taken, and gives the tokens. -/
theorem mapM_fill?_outlines (source : List Char) :
    (outlines (bytes source)).mapM (Outline.fill? source) = some (scan source) := by
  have hstart : Place.Faces ⟨0, bytes source⟩ source (Cursor.atStart source).rest := .atStart source
  exact hstart.outlinesFrom rfl

end Readers

end HtmlLint
