import EntityQuery.Expr.Basic
import EntityQuery.Filter.ParseError
import Mathlib.Data.List.Basic

/-!
# Where lexemes stand

Every lexeme is a piece of its text, and its span says where in bytes (`Lexeme.Stands`), so the
bytes of the text in the span are those of its characters (`Lexeme.extract_span`). A text token
comes of a quote and what stands before the closing quote (`Lexeme.kindAt_eq_text`). Reading that
makes doubled quotes single, and doubling them again gives back what was read
(`Lexeme.take_textBody`).
-/

namespace EntityQuery

/-! ## Lengths in bytes -/

namespace Text

/-- The bytes of two parts add up. -/
theorem byteLength_append (as bs : List Char) :
    byteLength (as ++ bs) = byteLength as + byteLength bs := by
  induction as with
  | nil => simp [byteLength]
  | cons a as ih =>
    rw [List.cons_append, byteLength, byteLength, ih]
    omega

/-- Characters take at least one byte each. -/
theorem length_le_byteLength (cs : List Char) : cs.length ≤ byteLength cs := by
  induction cs with
  | nil => exact Nat.le_refl 0
  | cons c cs ih =>
    have hpos := c.utf8Size_pos
    rw [List.length_cons, byteLength]
    omega

/-- Characters take as many bytes as there are of them when each takes one. -/
theorem byteLength_eq_length_iff {cs : List Char} :
    byteLength cs = cs.length ↔ ∀ c ∈ cs, c.utf8Size = 1 := by
  induction cs with
  | nil => exact iff_of_true rfl (List.forall_mem_nil _)
  | cons c cs ih =>
    have hpos := c.utf8Size_pos
    have hle := length_le_byteLength cs
    rw [List.forall_mem_cons, ← ih, List.length_cons, byteLength]
    omega

/-- Characters are encoded in as many bytes as they take. -/
theorem size_utf8Encode (cs : List Char) : cs.utf8Encode.size = byteLength cs := by
  induction cs with
  | nil => rfl
  | cons c cs ih =>
    have hc : [c].utf8Encode.size = c.utf8Size := by
      rw [List.utf8Encode_singleton, List.size_toByteArray, String.length_utf8EncodeChar]
    rw [List.utf8Encode_cons, ByteArray.size_append, hc, ih, byteLength]

/-- The bytes of a part of a text are found where the part begins and ends. -/
theorem extract_utf8Encode (before cs after : List Char) :
    (before ++ cs ++ after).utf8Encode.extract (byteLength before)
      (byteLength before + byteLength cs) = cs.utf8Encode := by
  have hstart := size_utf8Encode before
  have hsize := size_utf8Encode (before ++ cs)
  rw [byteLength_append] at hsize
  calc (before ++ cs ++ after).utf8Encode.extract (byteLength before)
        (byteLength before + byteLength cs)
      = ((before ++ cs).utf8Encode ++ after.utf8Encode).extract before.utf8Encode.size
          (before ++ cs).utf8Encode.size := by rw [List.utf8Encode_append, hstart, hsize]
    _ = (before ++ cs).utf8Encode.extract before.utf8Encode.size
          (before ++ cs).utf8Encode.size := ByteArray.extract_append_size_left
    _ = (before.utf8Encode ++ cs.utf8Encode).extract before.utf8Encode.size
          (before.utf8Encode.size + cs.utf8Encode.size) := by
        rw [List.utf8Encode_append, ByteArray.size_append]
    _ = cs.utf8Encode := ByteArray.extract_append_eq_right rfl rfl

end Text

/-! ## Pieces of a text -/

namespace Lexeme

/-- A lexeme is a piece of the characters from an offset on, and its span is where the piece stands.
A token is what the text begins with there. -/
structure Stands (offset : Nat) (cs : List Char) (l : Lexeme) : Prop where
  /-- The piece and where it stands. -/
  piece : ∃ before after, cs = before ++ l.chars ++ after ∧
    l.span.start = offset + Text.byteLength before ∧
    l.span.stop = l.span.start + Text.byteLength l.chars
  /-- The token at its front. -/
  front : ∀ t, l.token? = some t →
    ∃ c rest n, kindAt c rest = (.token t, n) ∧ l.chars = c :: rest.take n

/-- A lexeme that stands in what follows a first part stands in the whole. -/
theorem Stands.prepend {offset : Nat} {first cs : List Char} {l : Lexeme}
    (h : Stands (offset + Text.byteLength first) cs l) : Stands offset (first ++ cs) l := by
  obtain ⟨⟨before, after, rfl, hstart, hstop⟩, hfront⟩ := h
  refine ⟨⟨first ++ before, after, by simp, ?_, hstop⟩, hfront⟩
  rw [hstart, Text.byteLength_append]
  omega

/-- The first piece of a text stands in it. -/
theorem stands_first {offset n : Nat} {c : Char} {cs : List Char} {token? : Option Token}
    (h : ∀ t, token? = some t → kindAt c cs = (.token t, n)) :
    Stands offset (c :: cs)
      ⟨token?, c :: cs.take n, ⟨offset, offset + Text.byteLength (c :: cs.take n)⟩⟩ := by
  refine ⟨⟨[], cs.drop n, by simp, rfl, rfl⟩, ?_⟩
  intro t ht
  exact ⟨c, cs, n, h t ht, rfl⟩

/-- Every lexeme of a text stands in it. -/
theorem stands_of_mem {offset : Nat} {cs : List Char} {l : Lexeme} (h : l ∈ startingAt offset cs) :
    Stands offset cs l := by
  -- The text is cut in two, and what is not the first piece stands in the second part.
  have hcut : ∀ {c : Char} {cs : List Char} {n : Nat}, c :: cs = (c :: cs.take n) ++ cs.drop n := by
    simp
  induction offset, cs using startingAt.induct with
  | case1 offset =>
    rw [startingAt] at h
    cases h
  | case2 offset c cs n chars stop hkind ih =>
    rw [startingAt, hkind] at h
    have hrest := (ih h).prepend
    rwa [← hcut] at hrest
  | case3 offset c cs n chars stop t hkind ih =>
    rw [startingAt, hkind] at h
    rcases List.mem_cons.mp h with rfl | h
    · exact stands_first fun t' ht' => Option.some.inj ht' ▸ hkind
    · have hrest := (ih h).prepend
      rwa [← hcut] at hrest
  | case4 offset c cs n chars stop hkind ih =>
    rw [startingAt, hkind] at h
    rcases List.mem_cons.mp h with rfl | h
    · exact stands_first nofun
    · have hrest := (ih h).prepend
      rwa [← hcut] at hrest

/-- The bytes of a text in the span of a lexeme are those of its characters. -/
theorem extract_span {source : String} {l : Lexeme} (h : l ∈ all source) :
    source.toUTF8.extract l.span.start l.span.stop = (String.ofList l.chars).toUTF8 := by
  obtain ⟨⟨before, after, hcs, hstart, hstop⟩, -⟩ := stands_of_mem h
  rw [Nat.zero_add] at hstart
  have hsource : source = String.ofList (before ++ l.chars ++ after) := by
    rw [← hcs, String.ofList_toList]
  rw [hsource, hstop, hstart]
  exact Text.extract_utf8Encode before l.chars after

/-! ## Text literals -/

/-- A text with its quotes doubled. -/
def doubled (cs : List Char) : List Char := cs.flatMap fun c => if c = '\x27' then [c, c] else [c]

/-- A quote is doubled. -/
theorem doubled_quote (cs : List Char) : doubled (quote :: cs) = quote :: quote :: doubled cs := rfl

/-- Any other character is kept. -/
theorem doubled_cons {c : Char} (h : c ≠ quote) (cs : List Char) :
    doubled (c :: cs) = c :: doubled cs := by
  have hc : ¬c = '\x27' := h
  simp [doubled, hc]

/-- Doubling what was made single gives back what was read, up to the closing quote. -/
theorem take_textBody {cs body : List Char} {n : Nat} (h : textBody cs = some (body, n)) :
    cs.take n = doubled body ++ [quote] := by
  induction cs using textBody.induct generalizing body n with
  | case1 => cases h
  | case2 cs ih =>
    rw [textBody] at h
    obtain ⟨⟨body', n'⟩, hbody, heq⟩ := Option.map_eq_some_iff.mp h
    cases heq
    rw [doubled_quote, List.take_succ_cons, List.take_succ_cons, ih hbody]
    rfl
  | case3 tail hno =>
    rw [textBody] at h
    · cases h
      rfl
    · exact hno
  | case4 c cs hno hne ih =>
    rw [textBody] at h
    · obtain ⟨⟨body', n'⟩, hbody, heq⟩ := Option.map_eq_some_iff.mp h
      cases heq
      rw [doubled_cons hne, List.take_succ_cons, ih hbody]
      rfl
    · exact hno
    · exact hne

/-- No number is a text. -/
theorem number_ne_text {c : Char} {cs : List Char} {v : String} :
    (number c cs).1 ≠ .token (.text v) := by
  intro h
  unfold number whole? at h
  grind

/-- No word is a text. -/
theorem word_ne_text {c : Char} {cs : List Char} {v : String} :
    (word c cs).1 ≠ .token (.text v) := by
  intro h
  unfold word wordToken at h
  grind

/-- Only what begins with a quote is a text token. -/
theorem kindAt_eq_text {c : Char} {cs : List Char} {v : String} {n : Nat}
    (h : kindAt c cs = (.token (.text v), n)) : c = quote ∧ textBody cs = some (v.toList, n) := by
  unfold kindAt at h
  split at h
  next => cases h
  next =>
    split at h
    next hquote =>
      refine ⟨hquote, ?_⟩
      split at h
      next body m hbody =>
        cases h
        rw [hbody, String.toList_ofList]
      next => cases h
    next =>
      split at h
      next => exact absurd (congrArg Prod.fst h) number_ne_text
      next =>
        split at h
        next => exact absurd (congrArg Prod.fst h) word_ne_text
        next =>
          split at h
          next => cases h
          next => cases h

/-- The characters of a text token are its value in quotes, with quotes inside doubled. -/
theorem chars_eq_quotedLiteral {source : String} {l : Lexeme} (h : l ∈ all source) {v : String}
    (hv : l.token? = some (.text v)) : String.ofList l.chars = Expr.quotedLiteral v := by
  obtain ⟨c, rest, n, hkind, hchars⟩ := (stands_of_mem h).front _ hv
  obtain ⟨rfl, hbody⟩ := kindAt_eq_text hkind
  rw [hchars, take_textBody hbody]
  rfl

end Lexeme

end EntityQuery
