import HtmlLint.Proofs.Placement
import HtmlLint.Token.Scanner
import Mathlib.Data.List.Chain

/-!
# Tokens tile the document

Asking a scanner for tokens, one request after the other, hands out the document in pieces: no
piece is empty, each starts where the one before it ended, and together they are the document.
After the last piece every further request is answered by nothing.

* `Scanner.request` — the answer to the `n`-th request to a scanner.
* `Cursor.StandsIn` — the invariant of scanning: what the cursor has passed and what is left make
  up the document.
* `Tiles` — what it means for tokens to cover a document from an offset to its end.

Nothing here depends on how a token is read, only on `Cursor.next?_append` and
`Cursor.next?_raw_ne_nil`.
-/

namespace HtmlLint

/-! ## Requests -/

namespace Scanner

/-- The scanner after a request. At the end of the document a request changes nothing. -/
def afterRequest (here : Scanner) : Scanner :=
  match here.next? with
  | none => here
  | some (_, _, there) => there

/-- The answer to a request that comes after `n` others. -/
def request (here : Scanner) : Nat → Option Token
  | 0 => here.next?.map (·.1)
  | n + 1 => here.afterRequest.request n

theorem next?_of_none {here : Scanner} (h : here.cursor.next? = none) : here.next? = none := by
  simp [next?, h]

theorem next?_of_some {here : Scanner} {step : Step} (h : here.cursor.next? = some step) :
    here.next? = some (step.token, step.notices, { here with cursor := step.next }) := by
  simp [next?, h]

/-- Requests are answered by the tokens from the cursor on, and by nothing after the last. -/
theorem request_eq (here : Scanner) (n : Nat) :
    here.request n = (here.cursor.steps.map (·.token))[n]? := by
  rcases here with ⟨source, cursor⟩
  induction cursor using Cursor.induction generalizing n with
  | finished cursor hnone =>
    have hnext : next? ⟨source, cursor⟩ = none := next?_of_none hnone
    have hsteps : cursor.steps = [] := Cursor.steps_of_none hnone
    -- the scanner stays where it is, so every request is the first one again
    have hall : ∀ n, request ⟨source, cursor⟩ n = none := by
      intro n
      induction n with
      | zero => simp [request, hnext]
      | succ n ih => simpa [request, afterRequest, hnext] using ih
    simp [hall, hsteps]
  | step cursor step hsome ih =>
    have hnext : next? ⟨source, cursor⟩ = some (step.token, step.notices, ⟨source, step.next⟩) :=
      next?_of_some hsome
    have hsteps : cursor.steps = step :: step.next.steps := Cursor.steps_of_some hsome
    cases n with
    | zero => simp [request, hnext, hsteps]
    | succ n => simpa [request, afterRequest, hnext, hsteps] using ih n

end Scanner

/-! ## The invariant of scanning -/

namespace Cursor

/-- The cursor is a place of `source`: it has passed some leading piece and the rest is left. -/
def StandsIn (here : Cursor) (source : List Char) : Prop :=
  ∃ passed, source = passed ++ here.rest ∧ here.offset = Text.byteLength passed

theorem atStart_standsIn (source : List Char) : (atStart source).StandsIn source :=
  ⟨[], rfl, rfl⟩

/-- The span of a step's token runs from the cursor over the token's text. -/
theorem next?_span {here : Cursor} {step : Step} (h : here.next? = some step) :
    step.token.span = .ofText here.offset step.token.raw
      ∧ step.next.offset = step.token.span.stop := by
  unfold next? at h
  split at h
  · cases h
  · cases h
    exact ⟨rfl, rfl⟩

/-- A step leads to a place of the same document. -/
theorem StandsIn.next {here : Cursor} {source : List Char} {step : Step}
    (hin : here.StandsIn source) (h : here.next? = some step) : step.next.StandsIn source := by
  rcases hin with ⟨passed, hsource, hoffset⟩
  rcases next?_span h with ⟨hspan, hnext⟩
  refine ⟨passed ++ step.token.raw, ?_, ?_⟩
  · rw [hsource, ← next?_append h, List.append_assoc]
  · simp [hnext, hspan, Span.ofText, hoffset]

/-- The text of a step's token stands in the document where its span says. -/
theorem StandsIn.covers {here : Cursor} {source : List Char} {step : Step}
    (hin : here.StandsIn source) (h : here.next? = some step) :
    ∃ before, step.token.span.Covers source before step.token.raw := by
  rcases hin with ⟨passed, hsource, hoffset⟩
  rcases next?_span h with ⟨hspan, -⟩
  refine ⟨passed, ⟨step.next.rest, ?_⟩, ?_⟩
  · rw [hsource, ← next?_append h]
  · rw [hspan, hoffset]

/-- There is no next token only at the end of the document. -/
theorem rest_of_none {here : Cursor} (h : here.next? = none) : here.rest = [] := by
  by_contra hmore
  simp [next?, hmore] at h

theorem StandsIn.offset_of_none {here : Cursor} {source : List Char}
    (hin : here.StandsIn source) (h : here.next? = none) :
    here.offset = Text.byteLength source := by
  rcases hin with ⟨passed, hsource, hoffset⟩
  simp [hsource, rest_of_none h, hoffset]

/-- The texts of the tokens from the cursor on make up what is left. -/
theorem flatMap_raw_steps (here : Cursor) :
    (here.steps.map (·.token)).flatMap (·.raw) = here.rest := by
  induction here using Cursor.induction with
  | finished here hnone => simp [steps_of_none hnone, rest_of_none hnone]
  | step here step hsome ih =>
    rw [steps_of_some hsome, List.map_cons, List.flatMap_cons, ih]
    exact next?_append hsome

/-- A step takes at least one byte. -/
theorem byteLength_raw_pos {here : Cursor} {step : Step} (h : here.next? = some step) :
    0 < Text.byteLength step.token.raw :=
  Text.byteLength_pos (next?_raw_ne_nil h)

/-- There are at most as many tokens left as bytes. -/
theorem length_steps_le (here : Cursor) : here.steps.length ≤ Text.byteLength here.rest := by
  induction here using Cursor.induction with
  | finished here hnone => simp [steps_of_none hnone]
  | step here step hsome ih =>
    have hpos := byteLength_raw_pos hsome
    rw [steps_of_some hsome, ← next?_append hsome, Text.byteLength_append, List.length_cons]
    omega

/-- The tokens of a document are in order. -/
theorem pairwise_start (here : Cursor) :
    (∀ t ∈ here.steps.map (·.token), here.offset ≤ t.span.start)
      ∧ (here.steps.map (·.token)).Pairwise fun a b => a.span.start < b.span.start := by
  induction here using Cursor.induction with
  | finished here hnone => simp [steps_of_none hnone]
  | step here step hsome ih =>
    rcases next?_span hsome with ⟨hspan, hnext⟩
    have hpos := byteLength_raw_pos hsome
    have hstart : step.token.span.start = here.offset := by rw [hspan]; rfl
    have hstop : here.offset < step.next.offset := by
      rw [hnext, hspan]
      simp only [Span.ofText]
      omega
    rw [steps_of_some hsome, List.map_cons]
    refine ⟨?_, List.pairwise_cons.2 ⟨?_, ih.2⟩⟩
    · intro t ht
      rcases List.mem_cons.1 ht with rfl | ht
      · exact hstart.ge
      · exact hstop.le.trans (ih.1 t ht)
    · intro t ht
      exact hstart.trans_lt (hstop.trans_le (ih.1 t ht))

end Cursor

theorem scan_pairwise_start (document : List Char) :
    (scan document).Pairwise fun a b => a.span.start < b.span.start :=
  (Cursor.pairwise_start (.atStart document)).2

/-- No token of a document is like another one. -/
theorem scan_nodup (document : List Char) : (scan document).Nodup := by
  refine (scan_pairwise_start document).imp ?_
  rintro t u hlt rfl
  exact Nat.lt_irrefl _ hlt

/-! ## Tilings -/

/-- The tokens cover `source` from `offset` to its end, without gaps or overlaps. -/
structure Tiles (source : List Char) (offset : Nat) (tokens : List Token) : Prop where
  /-- No span is empty. -/
  nonempty : ∀ t ∈ tokens, t.span.start < t.span.stop
  /-- The first span starts at the offset. -/
  first : ∀ t ∈ tokens.head?, t.span.start = offset
  /-- Each span starts where the one before it ended. -/
  contiguous : tokens.IsChain fun t u => u.span.start = t.span.stop
  /-- The last span ends with the document. -/
  last : (tokens.getLast?.map (·.span.stop)).getD offset = Text.byteLength source
  /-- The text of each token is the slice that its span names. -/
  slice : ∀ t ∈ tokens, t.raw = t.span.slice source

namespace Tiles

theorem nil (source : List Char) : Tiles source (Text.byteLength source) [] := by
  refine ⟨?_, ?_, .nil, rfl, ?_⟩ <;> simp

theorem cons {source : List Char} {t : Token} {tokens : List Token}
    (hlt : t.span.start < t.span.stop) (hslice : t.raw = t.span.slice source)
    (hrest : Tiles source t.span.stop tokens) : Tiles source t.span.start (t :: tokens) := by
  refine ⟨?_, ?_, ?_, ?_, ?_⟩
  · intro u hu
    rcases List.mem_cons.1 hu with rfl | hu
    · exact hlt
    · exact hrest.nonempty u hu
  · simp
  · exact List.isChain_cons.2 ⟨hrest.first, hrest.contiguous⟩
  · have hlast := hrest.last
    cases tokens with
    | nil => simpa using hlast
    | cons u tokens => simpa [List.getLast?_cons] using hlast
  · intro u hu
    rcases List.mem_cons.1 hu with rfl | hu
    · exact hslice
    · exact hrest.slice u hu

end Tiles

/-- From every place of a document the tokens tile what is left. -/
theorem Cursor.StandsIn.tiles {here : Cursor} {source : List Char} (hin : here.StandsIn source) :
    Tiles source here.offset (here.steps.map (·.token)) := by
  induction here using Cursor.induction with
  | finished here hnone =>
    rw [steps_of_none hnone, hin.offset_of_none hnone]
    exact Tiles.nil source
  | step here step hsome ih =>
    rcases next?_span hsome with ⟨hspan, hnext⟩
    have htail := ih (hin.next hsome)
    have hlt : step.token.span.start < step.token.span.stop := by
      have hpos := byteLength_raw_pos hsome
      simp only [hspan, Span.ofText]
      omega
    have hstart : here.offset = step.token.span.start := by rw [hspan]; rfl
    have hslice : step.token.raw = step.token.span.slice source := by
      rcases hin.covers hsome with ⟨before, hcovers⟩
      exact hcovers.slice_eq.symm
    rw [steps_of_some hsome, hstart]
    rw [hnext] at htail
    exact Tiles.cons hlt hslice htail

/-- Scanning cuts a document into at most as many tokens as it has bytes. The tokens tile the
document, their texts make it up, and a scanner hands them out in order and then nothing more. -/
theorem scan_tiles_document (source : List Char) :
    Tiles source 0 (scan source)
      ∧ (scan source).flatMap (·.raw) = source
      ∧ (scan source).length ≤ Text.byteLength source
      ∧ (∀ n, (Scanner.atStart source).request n = (scan source)[n]?)
      ∧ ∀ n m, n ≤ m → (Scanner.atStart source).request n = none →
          (Scanner.atStart source).request m = none := by
  have hrequest : ∀ n, (Scanner.atStart source).request n = (scan source)[n]? :=
    Scanner.request_eq (.atStart source)
  refine ⟨(Cursor.atStart_standsIn source).tiles, ?_, ?_, hrequest, ?_⟩
  · exact Cursor.flatMap_raw_steps (.atStart source)
  · rw [scan, List.length_map]
    exact Cursor.length_steps_le (.atStart source)
  · intro n m hle hnone
    rw [hrequest, List.getElem?_eq_none_iff] at hnone ⊢
    exact Nat.le_trans hnone hle

/-- A tag with a quote that is never closed takes at most six requests; then nothing comes. -/
theorem request_openQuote_none :
    (Scanner.atStart ['<', 'a', ' ', 'b', '=', '"']).request 6 = none
      ∧ ∀ m, 6 ≤ m → (Scanner.atStart ['<', 'a', ' ', 'b', '=', '"']).request m = none := by
  rcases scan_tiles_document ['<', 'a', ' ', 'b', '=', '"'] with ⟨-, -, hlength, hrequest, hstays⟩
  have hsix : (Scanner.atStart ['<', 'a', ' ', 'b', '=', '"']).request 6 = none := by
    rw [hrequest, List.getElem?_eq_none_iff]
    exact hlength
  exact ⟨hsix, fun m hle => hstays 6 m hle hsix⟩

end HtmlLint
