import HtmlLint.Proofs.Cuts
import HtmlLint.Proofs.Lines
import HtmlLint.Proofs.Recoding.Text

/-!
# Characters and their bytes

In its UTF-8 form a character is one byte below 128, or a lead byte and some bytes that only ever
continue a character. So a byte tells by itself whether a character starts at it and whether it is a
certain ASCII character, and where the bytes of an ASCII text occur, that text occurs.

* `Text.isByteBoundary` — the test for boundaries that looks at one byte.
* `Text.holdsOf` — a property of ASCII characters as a property of bytes.
* `Span.slice?` — slicing that fails off the boundaries.
-/

namespace HtmlLint.Text

/-! ## The bytes of one character -/

/-- The byte goes on with a character that started before it. -/
def isContinuation (b : UInt8) : Bool :=
  0x80 ≤ b && b < 0xC0

/-- The character is a single byte. -/
def isAscii (c : Char) : Bool :=
  c.toNat < 0x80

theorem isContinuation_ofNat (n : Nat) :
    isContinuation (UInt8.ofNat (n % 0x40 + 0x80)) = true := by
  simp only [isContinuation, Bool.and_eq_true, decide_eq_true_eq, UInt8.le_iff_toNat_le,
    UInt8.lt_iff_toNat_lt, UInt8.toNat_ofNat', UInt8.reduceToNat]
  omega

theorem lead_le_ofNat {n : Nat} (hlead : 0xC0 ≤ n) (hbyte : n < 256) : 0xC0 ≤ UInt8.ofNat n := by
  simp only [UInt8.le_iff_toNat_le, UInt8.toNat_ofNat', UInt8.reduceToNat]
  omega

/-- The two forms of a character: a byte below 128, or a lead byte and continuations. -/
theorem encode_cases (c : Char) :
    isAscii c = true ∧ String.utf8EncodeChar c = [UInt8.ofNat c.toNat]
      ∨ isAscii c = false ∧ ∃ lead more, String.utf8EncodeChar c = lead :: more
        ∧ 0xC0 ≤ lead ∧ ∀ b ∈ more, isContinuation b = true := by
  have hsmall : ∀ h : c.toNat ≤ 0x7f, isAscii c = true := fun h => decide_eq_true (by omega)
  have hlarge : ∀ h : ¬ c.toNat ≤ 0x7f, isAscii c = false := fun h => decide_eq_false (by omega)
  fun_cases String.utf8EncodeChar c with
  | case1 v h => exact .inl ⟨hsmall h, rfl⟩
  | _ v h =>
    refine .inr ⟨hlarge h, _, _, rfl, lead_le_ofNat (by omega) (by omega), ?_⟩
    simp only [List.mem_cons, List.not_mem_nil, or_false, forall_eq_or_imp, forall_eq,
      isContinuation_ofNat, and_self]

/-- A property of ASCII characters as a property of bytes. -/
def holdsOf (p : Char → Bool) (b : UInt8) : Bool :=
  b < 0x80 && p (Char.ofNat b.toNat)

theorem holdsOf_ofNat {c : Char} (h : isAscii c = true) (p : Char → Bool) :
    holdsOf p (UInt8.ofNat c.toNat) = p c := by
  have hsmall : c.toNat < 0x80 := of_decide_eq_true h
  have hnat : (UInt8.ofNat c.toNat).toNat = c.toNat := by
    rw [UInt8.toNat_ofNat']
    omega
  have hbyte : UInt8.ofNat c.toNat < 0x80 := by
    rw [UInt8.lt_iff_toNat_lt, hnat]
    exact hsmall
  rw [holdsOf, decide_eq_true hbyte, Bool.true_and, hnat, Char.ofNat_toNat]

/-- The bytes of other characters are no ASCII characters. -/
theorem holdsOf_of_le {b : UInt8} (h : 0x80 ≤ b) (p : Char → Bool) : holdsOf p b = false := by
  rw [holdsOf, decide_eq_false (UInt8.not_lt.2 h), Bool.false_and]

theorem le_of_isContinuation {b : UInt8} (h : isContinuation b = true) : 0x80 ≤ b :=
  of_decide_eq_true (Bool.and_eq_true_iff.1 h).1

theorem holdsOf_continuation {b : UInt8} (h : isContinuation b = true) (p : Char → Bool) :
    holdsOf p b = false :=
  holdsOf_of_le (le_of_isContinuation h) p

theorem not_isContinuation_of_lead {b : UInt8} (h : 0xC0 ≤ b) : isContinuation b = false := by
  rw [isContinuation, decide_eq_false (UInt8.not_lt.2 h), Bool.and_false]

theorem not_isContinuation_ofNat {c : Char} (h : isAscii c = true) :
    isContinuation (UInt8.ofNat c.toNat) = false := by
  rw [Bool.eq_false_iff]
  intro hcontinues
  have hnone := holdsOf_continuation hcontinues fun _ => true
  rw [holdsOf_ofNat h] at hnone
  cases hnone

/-- Every byte of a character tells whether the character has the property. -/
def Reads (pb : UInt8 → Bool) (p : Char → Bool) : Prop :=
  ∀ c, ∀ b ∈ String.utf8EncodeChar c, pb b = p c

theorem Reads.not {pb : UInt8 → Bool} {p : Char → Bool} (h : Reads pb p) :
    Reads (!pb ·) (!p ·) := by
  intro c b hb
  exact congrArg (!·) (h c b hb)

/-- Only ASCII characters have the property. -/
def AsciiOnly (p : Char → Bool) : Prop :=
  ∀ c, p c = true → isAscii c = true

theorem AsciiOnly.reads {p : Char → Bool} (hp : AsciiOnly p) : Reads (holdsOf p) p := by
  intro c
  rcases encode_cases c with ⟨hascii, hbytes⟩ | ⟨hascii, lead, more, hbytes, hlead, hmore⟩
  · rw [hbytes]
    intro b hb
    rw [List.mem_singleton.1 hb, holdsOf_ofNat hascii]
  · have hnone : p c = false := by
      rw [Bool.eq_false_iff]
      intro hc
      rw [hp c hc] at hascii
      cases hascii
    rw [hbytes, hnone]
    intro b hb
    rcases List.mem_cons.1 hb with rfl | hb
    · exact holdsOf_of_le (UInt8.le_trans (by decide) hlead) p
    · exact holdsOf_continuation (hmore b hb) p

/-! ## The bytes of a text -/

@[simp]
theorem bytes_nil : bytes [] = [] := rfl

theorem bytes_cons (c : Char) (s : List Char) :
    bytes (c :: s) = String.utf8EncodeChar c ++ bytes s := rfl

@[simp]
theorem bytes_append (s t : List Char) : bytes (s ++ t) = bytes s ++ bytes t :=
  List.flatMap_append

@[simp]
theorem bytes_eq_nil_iff {s : List Char} : bytes s = [] ↔ s = [] := by
  cases s with
  | nil => simp
  | cons c s => simp [bytes_cons, String.utf8EncodeChar_ne_nil]

/-- After a leading piece come the bytes of what follows it. -/
theorem drop_bytes (s t : List Char) : (bytes (s ++ t)).drop (byteLength s) = bytes t := by
  rw [bytes_append, ← length_bytes, List.drop_left]

/-- A text does not start with a continuation. -/
theorem isContinuation_head {s : List Char} {b : UInt8} (h : (bytes s).head? = some b) :
    isContinuation b = false := by
  cases s with
  | nil => cases h
  | cons c s =>
    rcases encode_cases c with ⟨hascii, hbytes⟩ | ⟨-, lead, more, hbytes, hlead, -⟩
    · rw [bytes_cons, hbytes] at h
      cases h
      exact not_isContinuation_ofNat hascii
    · rw [bytes_cons, hbytes] at h
      cases h
      exact not_isContinuation_of_lead hlead

/-! ## Boundaries -/

/-- The offset is the start, the end, or that of a byte which does not continue a character. -/
def isByteBoundary (bs : List UInt8) (n : Nat) : Bool :=
  n == 0 ||
    match bs[n]? with
    | some b => !isContinuation b
    | none => n == bs.length

/-- Inside of a character every byte is a continuation. -/
theorem isContinuation_inside {c : Char} {n : Nat} (hpos : 0 < n) (hsize : n < c.utf8Size)
    (s : List Char) : ∃ b, (bytes (c :: s))[n]? = some b ∧ isContinuation b = true := by
  rw [← String.length_utf8EncodeChar] at hsize
  rw [bytes_cons, List.getElem?_append_left hsize]
  rcases encode_cases c with ⟨-, hbytes⟩ | ⟨-, lead, more, hbytes, -, hmore⟩
  · rw [hbytes, List.length_singleton] at hsize
    omega
  · rw [hbytes] at hsize ⊢
    cases n with
    | zero => cases hpos
    | succ n =>
      have hn : n < more.length := Nat.lt_of_succ_lt_succ hsize
      exact ⟨more[n], List.getElem?_eq_getElem hn, hmore _ (List.getElem_mem hn)⟩

theorem isContinuation_of_not_isBoundary {s : List Char} {n : Nat} (h : isBoundary s n = false)
    (hn : n ≤ byteLength s) : ∃ b, (bytes s)[n]? = some b ∧ isContinuation b = true := by
  have hwhole := takeBytes_append_dropBytes n s
  have hfits := byteLength_takeBytes_le n s
  have hne : byteLength (takeBytes n s) ≠ n := by simpa [isBoundary, floorBoundary] using h
  cases hdrop : dropBytes n s with
  | nil =>
    rw [hdrop, List.append_nil] at hwhole
    rw [hwhole] at hfits hne
    omega
  | cons c r =>
    -- the first character that does not fit is the one with the offset inside
    have htight := lt_byteLength_of_dropBytes_cons hdrop
    have hbyte : (bytes s)[n]? = (bytes (c :: r))[n - byteLength (takeBytes n s)]? := by
      conv_lhs => rw [← hwhole, hdrop, bytes_append]
      rw [List.getElem?_append_right (by rwa [length_bytes]), length_bytes]
    rw [hbyte]
    exact isContinuation_inside (by omega) (by omega) r

/-- The byte at an offset tells whether it is a boundary. -/
theorem isByteBoundary_bytes (s : List Char) (n : Nat) :
    isByteBoundary (bytes s) n = isBoundary s n := by
  cases h : isBoundary s n with
  | true =>
    rcases isBoundary_iff.1 h with ⟨a, b, rfl, rfl⟩
    have hbyte : (bytes (a ++ b))[byteLength a]? = (bytes b).head? := by
      rw [bytes_append, List.getElem?_append_right (by rw [length_bytes]), length_bytes,
        Nat.sub_self, List.head?_eq_getElem?]
    rw [isByteBoundary, hbyte]
    cases hhead : (bytes b).head? with
    | some first => simp [isContinuation_head hhead]
    | none =>
      rw [List.head?_eq_none_iff, bytes_eq_nil_iff] at hhead
      simp [hhead, length_bytes]
  | false =>
    have hpos : (n == 0) = false := by
      rw [beq_eq_false_iff_ne]
      rintro rfl
      have hstart : isBoundary s 0 = true := isBoundary_iff.2 ⟨[], s, rfl, rfl⟩
      rw [h] at hstart
      cases hstart
    rw [isByteBoundary, hpos, Bool.false_or]
    rcases Nat.lt_or_ge (byteLength s) n with hn | hn
    · have hnone : (bytes s)[n]? = none := by
        rw [List.getElem?_eq_none_iff, length_bytes]
        exact Nat.le_of_lt hn
      simp only [hnone, length_bytes, beq_eq_false_iff_ne]
      omega
    · rcases isContinuation_of_not_isBoundary h hn with ⟨b, hb, hcontinues⟩
      simp [hb, hcontinues]

/-- Goes back from an offset to a boundary, one byte at a time; fails before the start. -/
def floor? (bs : List UInt8) : Nat → Option Nat
  | 0 => if isByteBoundary bs 0 then some 0 else none
  | n + 1 => if isByteBoundary bs (n + 1) then some (n + 1) else floor? bs n

theorem floorBoundary_succ {s : List Char} {n : Nat} (h : isBoundary s (n + 1) = false) :
    floorBoundary s (n + 1) = floorBoundary s n := by
  have hlength := byteLength_takeBytes_le (n + 1) s
  have hne : floorBoundary s (n + 1) ≠ n + 1 := by simpa [isBoundary] using h
  -- what fits into one byte more ends before that byte
  have hfits : byteLength (takeBytes (n + 1) s) ≤ n := by
    rw [floorBoundary] at hne
    omega
  have hsame : takeBytes n s
      = takeBytes (n + 1) s ++ takeBytes (n - byteLength (takeBytes (n + 1) s))
          (dropBytes (n + 1) s) := by
    conv_lhs => rw [← takeBytes_append_dropBytes (n + 1) s]
    exact takeBytes_append hfits _
  have hshort := (takeBytes_isPrefix_takeBytes (Nat.le_add_right n 1) s).length_le
  rw [hsame, List.length_append] at hshort
  have hnone : takeBytes (n - byteLength (takeBytes (n + 1) s)) (dropBytes (n + 1) s) = [] :=
    List.length_eq_zero_iff.1 (by omega)
  rw [hnone, List.append_nil] at hsame
  rw [floorBoundary, floorBoundary, hsame]

/-- Going back byte by byte finds the last boundary that is not after the offset. -/
theorem floor?_bytes (s : List Char) (n : Nat) :
    floor? (bytes s) n = some (floorBoundary s n) := by
  induction n with
  | zero =>
    have hzero := Nat.le_zero.1 (byteLength_takeBytes_le 0 s)
    rw [floorBoundary, hzero]
    rfl
  | succ n ih =>
    rw [floor?, isByteBoundary_bytes]
    cases h : isBoundary s (n + 1) with
    | true =>
      have hsame : floorBoundary s (n + 1) = n + 1 := beq_iff_eq.1 h
      rw [if_pos rfl, hsame]
    | false => rw [if_neg Bool.false_ne_true, ih, floorBoundary_succ h]

/-- An offset after the end counts as the end. -/
theorem floorBoundary_min (s : List Char) (n : Nat) :
    floorBoundary s (min n (byteLength s)) = floorBoundary s n := by
  have hwhole : ∀ k, byteLength s ≤ k → floorBoundary s k = byteLength s := by
    intro k hk
    rw [floorBoundary, takeBytes_of_le hk]
  rcases Nat.le_total n (byteLength s) with h | h
  · rw [Nat.min_eq_left h]
  · rw [Nat.min_eq_right h, hwhole n h, hwhole _ (Nat.le_refl _)]

/-! ## Runs and cuts -/

/-- A run of characters is a run of their bytes. -/
theorem Reads.takeWhile {pb : UInt8 → Bool} {p : Char → Bool} (h : Reads pb p) (s : List Char) :
    (bytes s).takeWhile pb = bytes (s.takeWhile p) := by
  induction s with
  | nil => rfl
  | cons c s ih =>
    cases hc : p c with
    | true =>
      have hall : ∀ b ∈ String.utf8EncodeChar c, pb b = true := by
        intro b hb
        rw [h c b hb, hc]
      rw [bytes_cons, List.takeWhile_append_of_pos hall, ih, List.takeWhile_cons_of_pos hc,
        bytes_cons]
    | false =>
      rcases List.exists_cons_of_ne_nil String.utf8EncodeChar_ne_nil with ⟨b, bs, hbs⟩
      have hfirst : ¬ pb b = true := by
        rw [h c b (by rw [hbs]; exact List.mem_cons_self), hc]
        exact Bool.false_ne_true
      rw [bytes_cons, hbs, List.cons_append, List.takeWhile_cons_of_neg hfirst,
        List.takeWhile_cons_of_neg (by rw [hc]; exact Bool.false_ne_true), bytes_nil]

/-- How many bytes come before the first suffix with a property. -/
def seek (q : List UInt8 → Bool) : List UInt8 → Nat
  | [] => 0
  | b :: bs => if q (b :: bs) then 0 else seek q bs + 1

/-- The bytes of a text tell whether it has the property, and never from inside of a character. -/
structure Sees (q : List UInt8 → Bool) (p : List Char → Bool) : Prop where
  bytes : ∀ s, q (Text.bytes s) = p s
  inside : ∀ b bs, isContinuation b = true → q (b :: bs) = false

namespace Sees

variable {q : List UInt8 → Bool} {p : List Char → Bool}

theorem seek_inside (h : Sees q p) {more : List UInt8}
    (hmore : ∀ b ∈ more, isContinuation b = true) (bs : List UInt8) :
    seek q (more ++ bs) = more.length + seek q bs := by
  induction more with
  | nil => simp
  | cons b more ih =>
    have hb := h.inside b (more ++ bs) (hmore b List.mem_cons_self)
    rw [List.cons_append, seek, hb, if_neg Bool.false_ne_true,
      ih fun d hd => hmore d (List.mem_cons_of_mem b hd), List.length_cons]
    omega

/-- After the first byte of a character the search goes on as if it started behind it. -/
theorem seek_tail (h : Sees q p) (c : Char) (s : List Char) :
    seek q (Text.bytes (c :: s)).tail + 1 = c.utf8Size + seek q (Text.bytes s) := by
  rw [bytes_cons, ← String.length_utf8EncodeChar c]
  rcases encode_cases c with ⟨-, hbytes⟩ | ⟨-, lead, more, hbytes, -, hmore⟩
  · rw [hbytes, List.singleton_append, List.tail_cons, List.length_singleton, Nat.add_comm]
  · rw [hbytes, List.cons_append, List.tail_cons, h.seek_inside hmore, List.length_cons]
    omega

theorem seek_bytes (h : Sees q p) (s : List Char) :
    seek q (Text.bytes s) = byteLength (breakAt p s).1 := by
  induction s with
  | nil => rfl
  | cons c s ih =>
    have hstep : seek q (Text.bytes (c :: s))
        = if p (c :: s) then 0 else seek q (Text.bytes (c :: s)).tail + 1 := by
      rw [← h.bytes (c :: s)]
      cases hbytes : Text.bytes (c :: s) with
      | nil => simp at hbytes
      | cons b bs => rfl
    rw [hstep, breakAt_cons, h.seek_tail, ih]
    split
    · rfl
    · rw [byteLength_cons]

end Sees

/-! ## ASCII texts -/

theorem bytes_cons_ascii {c : Char} (h : isAscii c = true) (s : List Char) :
    bytes (c :: s) = UInt8.ofNat c.toNat :: bytes s := by
  rcases encode_cases c with ⟨-, hbytes⟩ | ⟨hnot, -⟩
  · rw [bytes_cons, hbytes, List.singleton_append]
  · rw [h] at hnot
    cases hnot

/-- The first byte of a text tells whether it starts with a certain ASCII character. -/
theorem cons_prefix_bytes {c : Char} (h : isAscii c = true) (bs : List UInt8) (s : List Char) :
    UInt8.ofNat c.toNat :: bs <+: bytes s ↔ ∃ t, s = c :: t ∧ bs <+: bytes t := by
  constructor
  · intro hprefix
    cases s with
    | nil => simp at hprefix
    | cons d t =>
      rcases encode_cases d with ⟨hascii, hbytes⟩ | ⟨-, lead, more, hbytes, hlead, -⟩
      · rw [bytes_cons_ascii hascii, List.cons_prefix_cons] at hprefix
        rcases hprefix with ⟨hsame, hrest⟩
        have hchar := holdsOf_ofNat hascii (· == c)
        rw [← hsame, holdsOf_ofNat h, beq_self_eq_true] at hchar
        exact ⟨t, by rw [beq_iff_eq.1 hchar.symm], hrest⟩
      · rw [bytes_cons, hbytes, List.cons_append, List.cons_prefix_cons] at hprefix
        have hnone := holdsOf_of_le (UInt8.le_trans (by decide) hlead) fun _ => true
        rw [← hprefix.1, holdsOf_ofNat h] at hnone
        cases hnone
  · rintro ⟨t, rfl, hrest⟩
    rw [bytes_cons_ascii h]
    exact List.cons_prefix_cons.2 ⟨rfl, hrest⟩

theorem bytes_prefix_iff {n : List Char} (hn : n.all isAscii = true) (s : List Char) :
    bytes n <+: bytes s ↔ n <+: s := by
  induction n generalizing s with
  | nil => simp
  | cons c n ih =>
    rw [List.all_cons, Bool.and_eq_true] at hn
    rw [bytes_cons_ascii hn.1, cons_prefix_bytes hn.1]
    constructor
    · rintro ⟨t, rfl, hrest⟩
      exact List.cons_prefix_cons.2 ⟨rfl, (ih hn.2 t).1 hrest⟩
    · rintro ⟨t, rfl⟩
      exact ⟨n ++ t, rfl, (ih hn.2 _).2 (List.prefix_append n t)⟩

theorem byteLength_of_ascii {n : List Char} (hn : n.all isAscii = true) :
    byteLength n = n.length := by
  induction n with
  | nil => rfl
  | cons c n ih =>
    rw [List.all_cons, Bool.and_eq_true] at hn
    rw [← length_bytes, bytes_cons_ascii hn.1, List.length_cons, length_bytes, ih hn.2,
      List.length_cons]

/-- An ASCII text is known by its bytes. -/
theorem eq_of_bytes_eq {n s : List Char} (hn : n.all isAscii = true) (h : bytes s = bytes n) :
    s = n := by
  have hprefix : bytes n <+: bytes s := by
    rw [h]
  rcases (bytes_prefix_iff hn s).1 hprefix with ⟨t, rfl⟩
  rw [bytes_append, List.append_right_eq_self, bytes_eq_nil_iff] at h
  rw [h, List.append_nil]

theorem bytes_suffix_iff {n : List Char} (hn : n.all isAscii = true) (s : List Char) :
    bytes n <:+ bytes s ↔ n <:+ s := by
  constructor
  · rintro ⟨front, hfront⟩
    -- where the bytes of `n` start is a boundary
    have hboundary : isBoundary s front.length = true := by
      have hbyte : (bytes s)[front.length]? = (bytes n).head? := by
        rw [← hfront, List.getElem?_append_right (Nat.le_refl _), Nat.sub_self,
          List.head?_eq_getElem?]
      rw [← isByteBoundary_bytes, isByteBoundary, hbyte]
      cases hhead : (bytes n).head? with
      | some b => simp [isContinuation_head hhead]
      | none =>
        rw [List.head?_eq_none_iff] at hhead
        simp [← hfront, hhead]
    rcases isBoundary_iff.1 hboundary with ⟨a, b, rfl, hlength⟩
    rw [bytes_append] at hfront
    have hparts := List.append_inj hfront (by rw [length_bytes, hlength])
    exact ⟨a, by rw [eq_of_bytes_eq hn hparts.2.symm]⟩
  · rintro ⟨a, rfl⟩
    rw [bytes_append]
    exact List.suffix_append _ _

theorem isPrefixOf_bytes {n : List Char} (hn : n.all isAscii = true) (s : List Char) :
    (bytes n).isPrefixOf (bytes s) = startsWith n s := by
  rw [Bool.eq_iff_iff, List.isPrefixOf_iff_prefix, bytes_prefix_iff hn, startsWith_iff_prefix]

theorem isSuffixOf_bytes {n : List Char} (hn : n.all isAscii = true) (s : List Char) :
    (bytes n).isSuffixOf (bytes s) = n.isSuffixOf s := by
  rw [Bool.eq_iff_iff, List.isSuffixOf_iff_suffix, List.isSuffixOf_iff_suffix,
    bytes_suffix_iff hn]

/-- The bytes of an ASCII text are never found inside of a character. -/
theorem sees_startsWith {c : Char} {n : List Char} (hn : (c :: n).all isAscii = true) :
    Sees (bytes (c :: n)).isPrefixOf (startsWith (c :: n)) := by
  refine ⟨isPrefixOf_bytes hn, ?_⟩
  intro b bs hb
  rw [List.all_cons, Bool.and_eq_true] at hn
  rw [bytes_cons_ascii hn.1, List.isPrefixOf, Bool.and_eq_false_iff, beq_eq_false_iff_ne]
  left
  rintro rfl
  rw [not_isContinuation_ofNat hn.1] at hb
  cases hb

/-! ## Letter case -/

/-- The byte of a letter from A to Z, in lower case. -/
def lowerByte (b : UInt8) : UInt8 :=
  if 0x41 ≤ b ∧ b ≤ 0x5A then b + 0x20 else b

theorem toNat_toLower (c : Char) :
    c.toLower.toNat = if 0x41 ≤ c.toNat ∧ c.toNat ≤ 0x5A then c.toNat + 0x20 else c.toNat := by
  have hval := congrArg UInt32.toNat (val_toLower c)
  simp only [Char.toNat, hval, UInt32.le_iff_toNat_le, UInt32.reduceToNat]
  split
  · simp only [UInt32.toNat_add, UInt32.reduceToNat]
    omega
  · rfl

theorem isAscii_toLower (c : Char) : isAscii c.toLower = isAscii c := by
  rw [isAscii, isAscii, toNat_toLower, decide_eq_decide]
  split <;> omega

theorem toLower_of_not_isAscii {c : Char} (h : isAscii c = false) : c.toLower = c := by
  have hlarge := of_decide_eq_false h
  apply Char.toNat_inj.1
  rw [toNat_toLower, if_neg (by omega)]

theorem lowerByte_ofNat {n : Nat} (h : n < 0x80) :
    lowerByte (UInt8.ofNat n) = UInt8.ofNat (if 0x41 ≤ n ∧ n ≤ 0x5A then n + 0x20 else n) := by
  have hsmall : (UInt8.ofNat n).toNat = n := by
    rw [UInt8.toNat_ofNat']
    omega
  simp only [lowerByte, UInt8.le_iff_toNat_le, hsmall, UInt8.reduceToNat]
  split
  · exact (UInt8.ofNat_add n 0x20).symm
  · rfl

theorem lowerByte_of_le {b : UInt8} (h : 0x80 ≤ b) : lowerByte b = b := by
  rw [UInt8.le_iff_toNat_le] at h
  simp only [lowerByte, UInt8.le_iff_toNat_le, UInt8.reduceToNat] at h ⊢
  rw [if_neg (by omega)]

theorem encode_toLower (c : Char) :
    String.utf8EncodeChar c.toLower = (String.utf8EncodeChar c).map lowerByte := by
  rcases encode_cases c with ⟨hascii, hbytes⟩ | ⟨hascii, lead, more, hbytes, hlead, hmore⟩
  · have hlower := bytes_cons_ascii ((isAscii_toLower c).trans hascii) []
    rw [bytes_cons, bytes_nil, List.append_nil] at hlower
    rw [hlower, hbytes, List.map_singleton, lowerByte_ofNat (of_decide_eq_true hascii),
      toNat_toLower]
  · rw [toLower_of_not_isAscii hascii, hbytes, List.map_cons,
      lowerByte_of_le (UInt8.le_trans (by decide) hlead)]
    have hsame : ∀ b ∈ more, lowerByte b = id b := by
      intro b hb
      exact lowerByte_of_le (le_of_isContinuation (hmore b hb))
    rw [List.map_congr_left hsame, List.map_id]

theorem bytes_lower (s : List Char) : bytes (lower s) = (bytes s).map lowerByte := by
  induction s with
  | nil => rfl
  | cons c s ih =>
    have hcons : lower (c :: s) = c.toLower :: lower s := rfl
    rw [hcons, bytes_cons, bytes_cons, List.map_append, encode_toLower, ih]

theorem length_bytes_lower (s : List Char) : (bytes (lower s)).length = (bytes s).length := by
  rw [bytes_lower, List.length_map]

theorem all_isAscii_lower (s : List Char) : (lower s).all isAscii = s.all isAscii := by
  rw [lower, List.all_map]
  exact congrArg s.all (funext isAscii_toLower)

/-- The bytes differ at most in the case of A to Z. -/
def sameBytesIgnoringCase (a b : List UInt8) : Bool :=
  a.map lowerByte == b.map lowerByte

theorem sameBytesIgnoringCase_bytes {n : List Char} (hn : n.all isAscii = true) (s : List Char) :
    sameBytesIgnoringCase (bytes s) (bytes n) = sameIgnoringCase s n := by
  rw [sameBytesIgnoringCase, sameIgnoringCase, ← bytes_lower, ← bytes_lower, Bool.eq_iff_iff,
    beq_iff_eq, beq_iff_eq]
  constructor
  · exact eq_of_bytes_eq ((all_isAscii_lower n).trans hn)
  · exact congrArg bytes

/-- The bytes of a name tell its letters in any case. -/
theorem sameBytesIgnoringCase_take {n : List Char} (hn : n.all isAscii = true) (s : List Char) :
    sameBytesIgnoringCase ((bytes s).take (bytes n).length) (bytes n)
      = sameIgnoringCase (s.take n.length) n := by
  have hlower : (lower n).all isAscii = true := (all_isAscii_lower n).trans hn
  have htake : lower (s.take n.length) = (lower s).take (lower n).length := by
    rw [lower, lower, lower, List.length_map, List.map_take]
  rw [sameBytesIgnoringCase, sameIgnoringCase, List.map_take, ← bytes_lower, ← bytes_lower,
    ← length_bytes_lower, htake, Bool.eq_iff_iff, beq_iff_eq, beq_iff_eq]
  rw [eq_comm, ← List.prefix_iff_eq_take, bytes_prefix_iff hlower, List.prefix_iff_eq_take, eq_comm]

/-- A name in other letters takes as many bytes. -/
theorem length_bytes_of_sameIgnoringCase {n s : List Char} (h : sameIgnoringCase s n = true) :
    (bytes n).length = byteLength s := by
  have hlower : lower s = lower n := beq_iff_eq.1 h
  rw [← length_bytes, ← length_bytes_lower n, ← hlower, length_bytes_lower]

end HtmlLint.Text

/-! ## Slices -/

namespace HtmlLint.Span

/-- The slice of `source` that the span covers. It fails when the ends are in the wrong order, past
the end, or inside a character. -/
def slice? (span : Span) (source : List Char) : Option (List Char) :=
  if span.start ≤ span.stop && Text.isByteBoundary (Text.bytes source) span.start
      && Text.isByteBoundary (Text.bytes source) span.stop then
    some (span.slice source)
  else none

/-- Slicing does not fail at the place of a text. -/
theorem Covers.slice?_eq {span : Span} {source before raw : List Char}
    (h : span.Covers source before raw) : span.slice? source = some raw := by
  rcases h.boundaries with ⟨hle, hstart, hstop⟩
  rw [slice?, Text.isByteBoundary_bytes, Text.isByteBoundary_bytes, hstart, hstop,
    decide_eq_true hle, h.slice_eq]
  rfl

/-- The ends are in the right order, within the bytes `bs`, and at the start of characters. -/
structure Sliceable (span : Span) (bs : List UInt8) : Prop where
  ordered : span.start ≤ span.stop
  within : span.stop ≤ bs.length
  start : Text.isByteBoundary bs span.start = true
  stop : Text.isByteBoundary bs span.stop = true

/-- Where slicing does not fail, both ends are boundaries within the document. -/
theorem sliceable_of_slice? {span : Span} {source raw : List Char}
    (h : span.slice? source = some raw) : span.Sliceable (Text.bytes source) := by
  unfold slice? at h
  split at h
  · next hsafe =>
    simp only [Bool.and_eq_true, decide_eq_true_eq] at hsafe
    rcases hsafe with ⟨⟨hle, hstart⟩, hstop⟩
    refine ⟨hle, ?_, hstart, hstop⟩
    rw [Text.isByteBoundary_bytes] at hstop
    rcases Text.isBoundary_iff.1 hstop with ⟨a, b, rfl, hlength⟩
    rw [Text.length_bytes, Text.byteLength_append]
    omega
  · cases h

end HtmlLint.Span
