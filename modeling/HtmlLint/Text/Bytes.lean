/-!
# Text measured in bytes

Text is a list of characters. Offsets into it count the bytes of its UTF-8 form, so an offset may
fall inside a character; a *boundary* is an offset that does not. Cutting text at an offset keeps
the characters that fit before it, which is the same as cutting at the last boundary not after it.

The functions here are the only place where characters and bytes meet.
-/

namespace HtmlLint.Text

/-- The number of bytes of the UTF-8 form of `s`. -/
def byteLength (s : List Char) : Nat :=
  s.foldr (fun c n => c.utf8Size + n) 0

/-- The UTF-8 form of `s`. -/
def bytes (s : List Char) : List UInt8 :=
  s.flatMap String.utf8EncodeChar

/-- The longest run of leading characters of `s` that takes at most `n` bytes. -/
def takeBytes : Nat → List Char → List Char
  | _, [] => []
  | n, c :: s => if c.utf8Size ≤ n then c :: takeBytes (n - c.utf8Size) s else []

/-- What `takeBytes n` leaves of `s`. -/
def dropBytes : Nat → List Char → List Char
  | _, [] => []
  | n, c :: s => if c.utf8Size ≤ n then dropBytes (n - c.utf8Size) s else c :: s

/-- The last boundary of `s` that is not after offset `n`. -/
def floorBoundary (s : List Char) (n : Nat) : Nat :=
  byteLength (takeBytes n s)

/-- Offset `n` lies within `s` and not inside a character. -/
def isBoundary (s : List Char) (n : Nat) : Bool :=
  floorBoundary s n == n

/-! ## Lengths -/

@[simp]
theorem byteLength_nil : byteLength [] = 0 := rfl

@[simp]
theorem byteLength_cons (c : Char) (s : List Char) :
    byteLength (c :: s) = c.utf8Size + byteLength s := rfl

@[simp]
theorem byteLength_append (s t : List Char) :
    byteLength (s ++ t) = byteLength s + byteLength t := by
  induction s with
  | nil => simp
  | cons c s ih => simp [ih, Nat.add_assoc]

/-- Every character takes at least one byte. -/
theorem length_le_byteLength (s : List Char) : s.length ≤ byteLength s := by
  induction s with
  | nil => exact Nat.le_refl 0
  | cons c s ih =>
    have := c.utf8Size_pos
    simp only [List.length_cons, byteLength_cons]
    omega

theorem byteLength_pos {s : List Char} (h : s ≠ []) : 0 < byteLength s :=
  Nat.lt_of_lt_of_le (List.length_pos_iff.2 h) (length_le_byteLength s)

/-- `byteLength` counts the bytes of the UTF-8 form. -/
theorem length_bytes (s : List Char) : (bytes s).length = byteLength s := by
  induction s with
  | nil => rfl
  | cons c s ih =>
    rw [bytes, List.flatMap_cons, List.length_append, String.length_utf8EncodeChar,
      byteLength_cons, ← ih, bytes]

/-! ## Cutting -/

/-- Cutting loses nothing. -/
@[simp]
theorem takeBytes_append_dropBytes (n : Nat) (s : List Char) :
    takeBytes n s ++ dropBytes n s = s := by
  induction s generalizing n with
  | nil => rfl
  | cons c s ih =>
    simp only [takeBytes, dropBytes]
    split
    · simp [ih]
    · rfl

/-- The characters kept fit. -/
theorem byteLength_takeBytes_le (n : Nat) (s : List Char) : byteLength (takeBytes n s) ≤ n := by
  induction s generalizing n with
  | nil => exact Nat.zero_le n
  | cons c s ih =>
    simp only [takeBytes]
    split
    · have := ih (n - c.utf8Size)
      simp only [byteLength_cons]
      omega
    · exact Nat.zero_le n

/-- The first character dropped does not fit. -/
theorem lt_byteLength_of_dropBytes_cons {n : Nat} {s r : List Char} {c : Char}
    (h : dropBytes n s = c :: r) : n < byteLength (takeBytes n s) + c.utf8Size := by
  induction s generalizing n with
  | nil => cases h
  | cons d s ih =>
    simp only [takeBytes, dropBytes] at h ⊢
    split at h
    · next fits =>
      have := ih h
      simp only [fits, if_true, byteLength_cons]
      omega
    · next tight =>
      cases h
      simp only [tight, if_false, byteLength_nil]
      omega

/-- At the end of a leading piece, cutting gives that piece. -/
@[simp]
theorem takeBytes_byteLength_append (s t : List Char) :
    takeBytes (byteLength s) (s ++ t) = s := by
  induction s with
  | nil =>
    cases t with
    | nil => rfl
    | cons c t =>
      have := c.utf8Size_pos
      simp only [List.nil_append, byteLength_nil, takeBytes]
      rw [if_neg (by omega)]
  | cons c s ih => simp [takeBytes, ih]

/-- At the end of a leading piece, cutting leaves what follows it. -/
@[simp]
theorem dropBytes_byteLength_append (s t : List Char) :
    dropBytes (byteLength s) (s ++ t) = t := by
  have whole := takeBytes_append_dropBytes (byteLength s) (s ++ t)
  rw [takeBytes_byteLength_append] at whole
  exact List.append_cancel_left whole

/-- The boundaries of `s` are the ends of its leading pieces. -/
theorem isBoundary_iff {s : List Char} {n : Nat} :
    isBoundary s n = true ↔ ∃ a b, s = a ++ b ∧ byteLength a = n := by
  constructor
  · intro h
    exact ⟨takeBytes n s, dropBytes n s, (takeBytes_append_dropBytes n s).symm,
      by simpa [isBoundary, floorBoundary] using h⟩
  · rintro ⟨a, b, rfl, rfl⟩
    simp [isBoundary, floorBoundary]

end HtmlLint.Text
