import EntityQuery.Proofs.ParserRuns
import EntityQuery.Proofs.Lexemes
import Mathlib.Data.List.TakeWhile

/-!
# Lexing loses no input

A lexer that is asked past all errors comes to an end (`Lexer.Drains`), and what it returned are the
lexemes of the text (`Lexer.drains_iff`). Where they stand is said by `Covers`: a text is cut from
the front into blanks and pieces, and the spans are those of the pieces. Every cut of a text into
lexemes covers it (`Lexeme.covers_startingAt`), and whatever covers a text is in order: the spans
are within it, none of them is empty, and each stops before the next one starts
(`Covers.isWithin`, `Covers.start_lt_stop`, `Covers.ordered`).
-/

namespace EntityQuery

/-! ## Spans within a text -/

/-- A span goes from one character boundary of a text to another one that is not before it. -/
structure Span.IsWithin (source : String) (s : Span) : Prop where
  /-- A character begins where the span starts, or the text ends there. -/
  start : String.Pos.Raw.IsValid source ⟨s.start⟩
  /-- A character begins where the span stops, or the text ends there. -/
  stop : String.Pos.Raw.IsValid source ⟨s.stop⟩
  /-- It does not stop before it starts. -/
  le : s.start ≤ s.stop

/-- A first part of a text ends at a character boundary. -/
theorem Text.isValid_byteLength {source : String} {before after : List Char}
    (h : source.toList = before ++ after) :
    String.Pos.Raw.IsValid source ⟨byteLength before⟩ := by
  refine String.Pos.Raw.isValid_iff_exists_append.mpr
    ⟨String.ofList before, String.ofList after, ?_, ?_⟩
  · rw [← String.ofList_append, ← h, String.ofList_toList]
  · rw [← size_utf8Encode]
    rfl

/-- Characters that are there take bytes. -/
theorem Text.byteLength_pos (c : Char) (cs : List Char) : 0 < byteLength (c :: cs) :=
  Nat.add_pos_left c.utf8Size_pos _

/-! ## Covering a text -/

/-- Characters from an offset on are cut into blanks and pieces, from the front: the pieces have the
spans of a list, and what stands before, between and behind them are blanks. A piece does not begin
with a blank. -/
inductive Covers : Nat → List Char → List Span → Prop
  | blanks {offset : Nat} {spaces : List Char} (h : ∀ c ∈ spaces, Lexeme.isSpace c = true) :
      Covers offset spaces []
  | piece {offset start stop : Nat} {spaces piece rest : List Char} {c : Char} {spans : List Span}
      (h : ∀ c ∈ spaces, Lexeme.isSpace c = true) (hc : Lexeme.isSpace c = false)
      (hstart : start = offset + Text.byteLength spaces)
      (hstop : stop = start + Text.byteLength (c :: piece)) (hrest : Covers stop rest spans) :
      Covers offset (spaces ++ c :: piece ++ rest) (⟨start, stop⟩ :: spans)

namespace Covers

variable {offset : Nat} {cs : List Char} {spans : List Span}

/-- Blanks before a text are among those before its first piece. -/
theorem prepend {spaces : List Char} (hspaces : ∀ c ∈ spaces, Lexeme.isSpace c = true)
    (h : Covers (offset + Text.byteLength spaces) cs spans) :
    Covers offset (spaces ++ cs) spans := by
  cases h with
  | blanks h => exact .blanks (List.forall_mem_append.mpr ⟨hspaces, h⟩)
  | piece h hc hstart hstop hrest =>
    have hall := List.forall_mem_append.mpr ⟨hspaces, h⟩
    rw [← List.append_assoc, ← List.append_assoc]
    refine .piece hall hc ?_ hstop hrest
    rw [hstart, Text.byteLength_append]
    omega

/-- A text that is covered by pieces has at least as many characters. -/
theorem length_le (h : Covers offset cs spans) : spans.length ≤ cs.length := by
  induction h with
  | blanks => exact Nat.zero_le _
  | piece _ _ _ _ _ ih =>
    simp only [List.length_append, List.length_cons]
    omega

/-- No piece starts before the text that is cut. -/
theorem le_start (h : Covers offset cs spans) : ∀ s ∈ spans, offset ≤ s.start := by
  induction h with
  | blanks => exact List.forall_mem_nil _
  | piece _ _ hstart hstop _ ih =>
    refine List.forall_mem_cons.mpr ⟨?_, fun s hs => ?_⟩
    · dsimp only
      omega
    · have hlater := ih s hs
      omega

/-- No piece is empty. -/
theorem start_lt_stop (h : Covers offset cs spans) : ∀ s ∈ spans, s.start < s.stop := by
  induction h with
  | blanks => exact List.forall_mem_nil _
  | @piece _ _ _ _ piece _ c _ _ _ _ hstop _ ih =>
    have hpos := Text.byteLength_pos c piece
    refine List.forall_mem_cons.mpr ⟨?_, ih⟩
    dsimp only
    omega

/-- Each piece stops before all later ones start. -/
theorem ordered (h : Covers offset cs spans) : spans.Pairwise fun s t => s.stop ≤ t.start := by
  induction h with
  | blanks => exact .nil
  | piece _ _ _ _ hrest ih => exact .cons hrest.le_start ih

/-- The pieces of the last part of a text are within the text. -/
theorem isWithin {source : String} {before : List Char} (h : Covers offset cs spans)
    (hsource : source.toList = before ++ cs) (hoffset : offset = Text.byteLength before) :
    ∀ s ∈ spans, s.IsWithin source := by
  induction h generalizing before with
  | blanks => exact List.forall_mem_nil _
  | @piece offset start stop spaces piece rest c spans _ _ hstart hstop _ ih =>
    -- The text is taken apart at the start of the first piece, and at its stop.
    have hatStart : source.toList = (before ++ spaces) ++ (c :: piece ++ rest) := by
      rw [hsource]
      simp
    have hatStop : source.toList = (before ++ spaces ++ c :: piece) ++ rest := by
      rw [hsource]
      simp
    have hstart' : start = Text.byteLength (before ++ spaces) := by
      rw [Text.byteLength_append, hstart, hoffset]
    have hstop' : stop = Text.byteLength (before ++ spaces ++ c :: piece) := by
      rw [Text.byteLength_append, hstop, hstart']
    refine List.forall_mem_cons.mpr ⟨⟨?_, ?_, ?_⟩, ih hatStop hstop'⟩
    · rw [hstart']
      exact Text.isValid_byteLength hatStart
    · rw [hstop']
      exact Text.isValid_byteLength hatStop
    · exact hstop ▸ Nat.le_add_right _ _

end Covers

/-! ## Lexemes -/

namespace Lexeme

/-- No number is blank. -/
theorem number_ne_blank {c : Char} {cs : List Char} : (number c cs).1 ≠ .blank := by
  intro h
  unfold number whole? at h
  grind

/-- No word is blank. -/
theorem word_ne_blank {c : Char} {cs : List Char} : (word c cs).1 ≠ .blank := by
  intro h
  unfold word at h
  grind

/-- What is blank is white space throughout. -/
theorem isSpace_of_blank {c : Char} {cs : List Char} {n : Nat} (h : kindAt c cs = (.blank, n)) :
    ∀ d ∈ c :: cs.take n, isSpace d = true := by
  unfold kindAt at h
  split at h
  next hspace =>
    cases h
    refine List.forall_mem_cons.mpr ⟨hspace, fun d hd => ?_⟩
    rw [← List.prefix_iff_eq_take.mp (List.takeWhile_prefix isSpace)] at hd
    exact List.mem_takeWhile_imp hd
  next =>
    split at h
    next => split at h <;> cases h
    next =>
      split at h
      next => exact absurd (congrArg Prod.fst h) number_ne_blank
      next =>
        split at h
        next => exact absurd (congrArg Prod.fst h) word_ne_blank
        next => split at h <;> cases h

/-- What is not blank does not begin with white space. -/
theorem isSpace_of_not_blank {c : Char} {cs : List Char} {kind : Kind} {n : Nat}
    (h : kindAt c cs = (kind, n)) (hkind : kind ≠ .blank) : isSpace c = false := by
  unfold kindAt at h
  split at h
  next =>
    cases h
    exact absurd rfl hkind
  next hspace => exact Bool.not_eq_true _ ▸ hspace

/-- The lexemes of a text cover it. -/
theorem covers_startingAt (offset : Nat) (cs : List Char) :
    Covers offset cs ((startingAt offset cs).map (·.span)) := by
  have hcut : ∀ {c : Char} {cs : List Char} {n : Nat}, c :: cs = (c :: cs.take n) ++ cs.drop n := by
    simp
  -- A token and what is no token are pieces alike.
  have hpiece : ∀ {offset n : Nat} {c : Char} {cs : List Char} {spans : List Span},
      isSpace c = false → Covers (offset + Text.byteLength (c :: cs.take n)) (cs.drop n) spans →
        Covers offset (c :: cs)
          (⟨offset, offset + Text.byteLength (c :: cs.take n)⟩ :: spans) := by
    intro offset n c cs spans hc hrest
    have hspans := Covers.piece (List.forall_mem_nil _) hc (Nat.add_zero offset).symm rfl hrest
    rwa [List.nil_append, ← hcut] at hspans
  induction offset, cs using startingAt.induct with
  | case1 offset =>
    rw [startingAt]
    exact .blanks (List.forall_mem_nil _)
  | case2 offset c cs n chars stop hkind ih =>
    rw [startingAt, hkind]
    have hspans := ih.prepend (isSpace_of_blank hkind)
    rwa [← hcut] at hspans
  | case3 offset c cs n chars stop t hkind ih =>
    rw [startingAt, hkind]
    exact hpiece (isSpace_of_not_blank hkind (by simp)) ih
  | case4 offset c cs n chars stop hkind ih =>
    rw [startingAt, hkind]
    exact hpiece (isSpace_of_not_blank hkind (by simp)) ih

/-- The lexemes of a text cover all of it. -/
theorem covers_all (source : String) : Covers 0 source.toList ((all source).map (·.span)) :=
  covers_startingAt 0 source.toList

end Lexeme

/-! ## Draining a lexer -/

/-- What a lexer returns: a token or an error. -/
abbrev Lexer.Item := Except ParseError (Located Token)

/-- Where what a lexer returns stands. -/
def Lexer.spanOf : Item → Span
  | .ok t => t.span
  | .error e => e.span

/-- What a lexeme is stands where the lexeme stands. -/
theorem Lexer.spanOf_token (l : Lexeme) : spanOf l.token = l.span := by
  unfold Lexeme.token
  cases l.token? <;> rfl

/-- A lexer that is asked again and again, also after errors, returns some things and then nothing
any more. -/
inductive Lexer.Drains : Lexer → List Item → Prop
  | done {l : Lexer} (h : l.next.1 = none) : Drains l []
  | item {l : Lexer} {item : Item} {items : List Item} (h : l.next.1 = some item)
      (hmore : Drains l.next.2 items) : Drains l (item :: items)

/-- What a lexer returns are the lexemes that it has left, each as a token or an error. -/
theorem Lexer.drains_iff {l : Lexer} {items : List Item} :
    l.Drains items ↔ items = l.rest.map Lexeme.token := by
  constructor
  · intro h
    induction h with
    | @done l h =>
      obtain ⟨source, rest⟩ := l
      cases rest with
      | nil => rfl
      | cons => cases h
    | @item l item items h _ ih =>
      obtain ⟨source, rest⟩ := l
      cases rest with
      | nil => cases h
      | cons first rest =>
        cases h
        exact congrArg _ ih
  · rintro rfl
    obtain ⟨source, rest⟩ := l
    induction rest with
    | nil => exact .done rfl
    | cons first rest ih => exact .item rfl ih

/-! ## Stopping at the first error -/

section

variable {ε α β : Type} {f : α → Except ε β}

/-- All of a list succeeds with the results of its members. -/
theorem mapM_eq_ok_iff {xs : List α} {ys : List β} :
    xs.mapM f = .ok ys ↔ xs.map f = ys.map .ok := by
  induction xs generalizing ys with
  | nil =>
    constructor
    · intro h
      cases h
      rfl
    · intro h
      cases List.map_eq_nil_iff.mp h.symm
      rfl
  | cons x xs ih =>
    rw [List.mapM_cons, except_bind_eq_ok]
    simp only [except_bind_eq_ok]
    constructor
    · rintro ⟨y, hy, ys, hys, hreturn⟩
      cases hreturn
      rw [List.map_cons, List.map_cons, hy, ih.mp hys]
    · intro h
      cases ys with
      | nil => cases h
      | cons y ys =>
        obtain ⟨hy, hys⟩ := List.cons.inj h
        exact ⟨y, hy, ys, ih.mpr hys, rfl⟩

/-- A list fails with the first error among those of its members. -/
theorem mapM_eq_error_iff {xs : List α} {e : ε} :
    xs.mapM f = .error e ↔
      ∃ (ys : List β) (rest : List (Except ε β)), xs.map f = ys.map .ok ++ .error e :: rest := by
  induction xs with
  | nil =>
    constructor
    · intro h
      cases h
    · rintro ⟨ys, rest, h⟩
      cases List.append_eq_nil_iff.mp h.symm |>.2
  | cons x xs ih =>
    rw [List.mapM_cons, except_bind_eq_error]
    simp only [except_bind_eq_error]
    constructor
    · rintro (hx | ⟨y, hy, hxs | ⟨ys, -, hreturn⟩⟩)
      · exact ⟨[], xs.map f, congrArg (· :: _) hx⟩
      · obtain ⟨ys, rest, h⟩ := ih.mp hxs
        exact ⟨y :: ys, rest, by rw [List.map_cons, hy, h]; rfl⟩
      · cases hreturn
    · rintro ⟨ys, rest, h⟩
      cases ys with
      | nil => exact .inl (List.cons.inj h).1
      | cons y ys =>
        obtain ⟨hy, hxs⟩ := List.cons.inj h
        exact .inr ⟨y, hy, .inl (ih.mpr ⟨ys, rest, hxs⟩)⟩

end

/-- A lexer loses nothing of a text. Asked past all errors it comes to an end, after at most as many
tokens and errors as the text has characters, and what it returns is determined. The spans of these
cover the text: before, between and behind them stand blanks and nothing else. None of them is
empty, they are within the text, and each stops before the next one starts. Cutting the text into
tokens succeeds when all of them are tokens, with these, and fails when one of them is an error,
with the first one. -/
theorem Lexer.drains_covering (source : String) :
    ∃ items : List Item, (∀ items', (ofSource source).Drains items' ↔ items' = items) ∧
      items.length ≤ source.length ∧
      Covers 0 source.toList (items.map spanOf) ∧
      (∀ s ∈ items.map spanOf, s.IsWithin source ∧ s.start < s.stop) ∧
      (items.map spanOf).Pairwise (fun s t => s.stop ≤ t.start) ∧
      (∀ tokens, tokenize source = .ok tokens ↔ items = tokens.map .ok) ∧
      ∀ e, tokenize source = .error e ↔
        ∃ (tokens : List (Located Token)) (rest : List Item),
          items = tokens.map .ok ++ .error e :: rest := by
  have hspans : ((Lexeme.all source).map Lexeme.token).map spanOf =
      (Lexeme.all source).map (·.span) := by
    rw [List.map_map]
    exact List.map_congr_left fun l _ => spanOf_token l
  have hcovers := Lexeme.covers_all source
  refine ⟨(Lexeme.all source).map Lexeme.token, fun _ => drains_iff, ?_, ?_, ?_, ?_,
    fun _ => mapM_eq_ok_iff, fun _ => mapM_eq_error_iff⟩
  · have hlength := hcovers.length_le
    rw [List.length_map, String.length_toList] at hlength
    rwa [List.length_map]
  · rw [hspans]
    exact hcovers
  · rw [hspans]
    intro s hs
    exact ⟨hcovers.isWithin (List.nil_append _).symm rfl s hs, hcovers.start_lt_stop s hs⟩
  · rw [hspans]
    exact hcovers.ordered

end EntityQuery
