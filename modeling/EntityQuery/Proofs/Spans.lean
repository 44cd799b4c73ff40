import EntityQuery.Proofs.Coverage

/-!
# Where parsed expressions stand

Spans stand in a `Row` when none of them is empty and each stops before the next one starts. The
lexemes of a text do (`Lexeme.follow_all`). A parser takes some of them off the front and returns
something that stands before those that it leaves, or it fails with an error about a part of the
text (`Parser.Places`); each parser has one lemma of this kind, up to `Parser.operand_places`. Two
pieces in order are merged to one that starts with the first and stops with the second
(`Span.merge_eq`), so every node holds its parts, in order (`Syntax.IsPlaced`).
-/

namespace EntityQuery

/-! ## Rows of spans -/

/-- A span of a text with characters in it. -/
structure Span.IsPiece (source : String) (s : Span) : Prop extends Span.IsWithin source s where
  /-- It is not empty. -/
  start_lt_stop : s.start < s.stop

/-- Spans stand in a row in a text, from one offset up to another: each is a piece, and stops before
the next one starts. -/
inductive Row (source : String) : Nat → List Span → Nat → Prop
  | nil {lo hi : Nat} (h : lo ≤ hi) : Row source lo [] hi
  | cons {lo hi : Nat} {s : Span} {spans : List Span} (hs : s.IsPiece source) (h : lo ≤ s.start)
      (hmore : Row source s.stop spans hi) : Row source lo (s :: spans) hi

namespace Row

variable {source : String} {lo lo' hi hi' : Nat} {spans : List Span} {s : Span}

/-- A row takes room. -/
theorem le (h : Row source lo spans hi) : lo ≤ hi := by
  induction h with
  | nil h => exact h
  | cons hs h _ ih => exact Nat.le_trans h (Nat.le_trans hs.le ih)

/-- A row has more room in a wider place. -/
theorem mono (h : Row source lo spans hi) (hlo : lo' ≤ lo) (hhi : hi ≤ hi') :
    Row source lo' spans hi' := by
  induction h generalizing lo' with
  | nil h => exact .nil (Nat.le_trans hlo (Nat.le_trans h hhi))
  | cons hs h _ ih => exact .cons hs (Nat.le_trans hlo h) (ih (Nat.le_refl _) hhi)

/-- The spans of a row are pieces, all in the place that it takes. -/
theorem bounds (h : Row source lo spans hi) :
    ∀ s ∈ spans, s.IsPiece source ∧ lo ≤ s.start ∧ s.stop ≤ hi := by
  induction h with
  | nil => exact List.forall_mem_nil _
  | cons hs h hmore ih =>
    refine List.forall_mem_cons.mpr ⟨⟨hs, h, hmore.le⟩, fun s hmem => ?_⟩
    obtain ⟨hpiece, hstart, hstop⟩ := ih s hmem
    exact ⟨hpiece, Nat.le_trans h (Nat.le_trans hs.le hstart), hstop⟩

/-- Each span of a row stops before all later ones start. -/
theorem ordered (h : Row source lo spans hi) : spans.Pairwise fun s t => s.stop ≤ t.start := by
  induction h with
  | nil => exact .nil
  | cons _ _ hmore ih => exact .cons (fun t ht => (hmore.bounds t ht).2.1) ih

/-- Pieces in order stand in a row. -/
theorem of_ordered (hpieces : ∀ s ∈ spans, s.IsPiece source ∧ lo ≤ s.start ∧ s.stop ≤ hi)
    (hordered : spans.Pairwise fun s t => s.stop ≤ t.start) (hle : lo ≤ hi) :
    Row source lo spans hi := by
  induction spans generalizing lo with
  | nil => exact .nil hle
  | cons s spans ih =>
    obtain ⟨⟨hs, hstart, hstop⟩, hpieces⟩ := List.forall_mem_cons.mp hpieces
    obtain ⟨hlater, hordered⟩ := List.pairwise_cons.mp hordered
    refine .cons hs hstart (ih (fun t ht => ?_) hordered hstop)
    obtain ⟨hpiece, -, hle⟩ := hpieces t ht
    exact ⟨hpiece, hlater t ht, hle⟩

end Row

/-! ## Lexemes ahead -/

/-- Lexemes stand in a row, from an offset on to the end of the text. -/
def Lexeme.Follow (source : String) (lo : Nat) (ls : List Lexeme) : Prop :=
  Row source lo (ls.map (·.span)) source.utf8ByteSize

/-- No span of a text stops behind its end. -/
theorem Span.IsWithin.stop_le {source : String} {s : Span} (h : s.IsWithin source) :
    s.stop ≤ source.utf8ByteSize :=
  h.stop.le_rawEndPos

/-- The lexemes of a text stand in a row. -/
theorem Lexeme.follow_all (source : String) : Follow source 0 (all source) := by
  have hcovers := covers_all source
  refine .of_ordered (fun s hs => ?_) hcovers.ordered (Nat.zero_le _)
  have hwithin := hcovers.isWithin (List.nil_append _).symm rfl s hs
  exact ⟨⟨hwithin, hcovers.start_lt_stop s hs⟩, Nat.zero_le _, hwithin.stop_le⟩

/-- A piece stands at an offset or behind it, and lexemes follow it. -/
structure Span.Precedes (source : String) (lo : Nat) (s : Span) (rest : List Lexeme) : Prop where
  /-- The piece. -/
  isPiece : s.IsPiece source
  /-- It does not start before the offset. -/
  le_start : lo ≤ s.start
  /-- The lexemes behind it. -/
  follow : Lexeme.Follow source s.stop rest

section

variable {source : String} {lo hi : Nat} {ls rest after : List Lexeme} {l : Lexeme} {a b : Span}

open Lexeme (Follow)

/-- The first lexeme of a row stands before the others. -/
theorem Lexeme.Follow.precedes (h : Follow source lo (l :: after)) :
    l.span.Precedes source lo after := by
  cases h with | cons hs h hmore => exact ⟨hs, h, hmore⟩

/-- Lexemes that follow an offset follow every earlier one. -/
theorem Lexeme.Follow.mono {lo' : Nat} (h : Follow source lo ls) (hlo : lo' ≤ lo) :
    Follow source lo' ls :=
  Row.mono h hlo (Nat.le_refl _)

namespace Span

/-- What is at an offset or behind it is behind every earlier one. -/
theorem Precedes.mono {lo' : Nat} (h : a.Precedes source lo rest) (hlo : lo' ≤ lo) :
    a.Precedes source lo' rest :=
  ⟨h.isPiece, Nat.le_trans hlo h.le_start, h.follow⟩

/-- A piece stands before the lexemes that are left when some that follow it are taken. -/
theorem Precedes.of_follow (h : a.Precedes source lo ls) (hle : a.stop ≤ hi)
    (hrest : Follow source hi rest) : a.Precedes source lo rest :=
  ⟨h.isPiece, h.le_start, hrest.mono hle⟩

/-- Two pieces in order are merged to one that starts with the first and stops with the second. -/
theorem merge_eq (ha : a.IsPiece source) (hb : b.Precedes source a.stop rest) :
    a.merge b = ⟨a.start, b.stop⟩ := by
  have hfirst := ha.start_lt_stop
  have hbetween := hb.le_start
  have hsecond := hb.isPiece.start_lt_stop
  unfold merge
  rw [Nat.min_eq_left (by omega), Nat.max_eq_right (by omega)]

/-- Two pieces in order are merged to one piece. -/
theorem Precedes.merge (ha : a.Precedes source lo ls) (hb : b.Precedes source a.stop rest) :
    (a.merge b).Precedes source lo rest := by
  rw [merge_eq ha.isPiece hb]
  have hfirst := ha.isPiece.start_lt_stop
  have hbetween := hb.le_start
  have hsecond := hb.isPiece.start_lt_stop
  exact ⟨⟨⟨ha.isPiece.start, hb.isPiece.stop, by dsimp only; omega⟩, by dsimp only; omega⟩,
    ha.le_start, hb.follow⟩

/-- Two pieces in order stand in a row in what they are merged to. -/
theorem row_merge (ha : a.IsPiece source) (hb : b.Precedes source a.stop rest) :
    Row source (a.merge b).start [a, b] (a.merge b).stop := by
  rw [merge_eq ha hb]
  exact .cons ha (Nat.le_refl _) (.cons hb.isPiece hb.le_start (.nil (Nat.le_refl _)))

/-- A row behind a piece is merged with it to one piece. -/
theorem precedes_foldl {α : Type} {f : α → Span} {as : List α} (ha : a.Precedes source lo ls)
    (has : Row source a.stop (as.map f) hi) (hrest : Follow source hi rest) :
    (as.foldl (fun span x => span.merge (f x)) a).Precedes source lo rest := by
  induction as generalizing a ls with
  | nil => exact ha.of_follow has.le hrest
  | cons x as ih =>
    cases has with | cons hx hstart hmore =>
    have hnext : (f x).Precedes source a.stop rest :=
      ⟨hx, hstart, hrest.mono hmore.le⟩
    refine ih (ha.merge hnext) ?_
    dsimp only
    rw [merge_eq ha.isPiece hnext]
    exact hmore

end Span

end

/-! ## Nodes -/

namespace Syntax

/-- The spans that an expression has apart from its own: those of its operands, or of the name and
the arguments of a call. -/
def parts : Syntax → List Span
  | binary _ left right _ => [left.span, right.span]
  | unary _ operand _ => [operand.span]
  | path _ _ => []
  | call name args _ => name.span :: args.map span
  | literal _ _ => []

/-- All nodes of an expression, itself first. -/
def nodes : Syntax → List Syntax
  | binary op left right span => binary op left right span :: (left.nodes ++ right.nodes)
  | unary op operand span => unary op operand span :: operand.nodes
  | path segments span => [path segments span]
  | call name args span => call name args span :: nodesOfAll args
  | literal value span => [literal value span]
where
  /-- All nodes of some expressions. -/
  nodesOfAll : List Syntax → List Syntax
    | [] => []
    | e :: es => e.nodes ++ nodesOfAll es

/-- A node stands in a text as its span says: it has characters, and its parts have some of them,
one part behind the other. -/
structure IsPlaced (source : String) (n : Syntax) : Prop where
  /-- The span of the node is one of the text, and not empty. -/
  isPiece : n.span.IsPiece source
  /-- Every part is within the node, and not empty. -/
  parts : ∀ s ∈ n.parts, s.IsPiece source ∧ n.span.start ≤ s.start ∧ s.stop ≤ n.span.stop
  /-- Each part stops before the next one starts. -/
  ordered : n.parts.Pairwise fun s t => s.stop ≤ t.start

/-- All nodes of an expression stand in a text as their spans say. -/
def AllPlaced (source : String) (e : Syntax) : Prop := ∀ n ∈ e.nodes, n.IsPlaced source

variable {source : String}

/-- A node is placed when its parts stand in a row in it. -/
theorem IsPlaced.of_row {n : Syntax} (hpiece : n.span.IsPiece source)
    (hparts : Row source n.span.start n.parts n.span.stop) : n.IsPlaced source :=
  ⟨hpiece, hparts.bounds, hparts.ordered⟩

/-- The nodes of some expressions are those of each. -/
theorem mem_nodesOfAll {n : Syntax} {es : List Syntax} :
    n ∈ nodes.nodesOfAll es ↔ ∃ e ∈ es, n ∈ e.nodes := by
  induction es with
  | nil => simp [nodes.nodesOfAll]
  | cons e es ih =>
    rw [nodes.nodesOfAll, List.mem_append, ih]
    simp

/-- An expression is one of its nodes. -/
theorem mem_nodes_self (e : Syntax) : e ∈ e.nodes := by
  cases e
  all_goals exact List.mem_cons_self

end Syntax

/-- An item of a sort order stands in a text as its span says, with its expression inside. -/
structure OrderItem.IsPlaced (source : String) (item : OrderItem) : Prop where
  /-- The span of the item is one of the text, and not empty. -/
  isPiece : item.span.IsPiece source
  /-- The expression does not start before the item. -/
  le_start : item.span.start ≤ item.expr.span.start
  /-- It does not stop behind the item. -/
  stop_le : item.expr.span.stop ≤ item.span.stop
  /-- All nodes of the expression stand as their spans say. -/
  expr : item.expr.AllPlaced source

/-! ## Parsers -/

/-- A run on a text returns something with a property, or its error is about a part of the text. -/
def Ensures {α : Type} (source : String) (Q : α → Prop) : Except ParseError α → Prop
  | .ok a => Q a
  | .error e => e.span.IsWithin source

namespace Ensures

variable {α β : Type} {source : String} {Q : α → Prop} {R : β → Prop}

/-- A run that goes on after another one ensures what it does on all that the first one returns. -/
theorem bind {x : Except ParseError α} {f : α → Except ParseError β} (hx : Ensures source Q x)
    (hf : ∀ a, Q a → Ensures source R (f a)) : Ensures source R (x >>= f) := by
  cases x with
  | ok a => exact hf a hx
  | error e => exact hx

/-- A run whose result is passed on ensures what is passed on for all that it returns. -/
theorem map {x : Except ParseError α} {f : α → β} (hx : Ensures source Q x)
    (hf : ∀ a, Q a → R (f a)) : Ensures source R (x.map f) := by
  cases x with
  | ok a => exact hf a hx
  | error e => exact hx

/-- What a run returns has the property. -/
theorem ok {x : Except ParseError α} {a : α} (h : Ensures source Q x) (ha : x = .ok a) : Q a := by
  subst ha
  exact h

/-- The error of a run is about a part of the text. -/
theorem error {x : Except ParseError α} {e : ParseError} (h : Ensures source Q x)
    (he : x = .error e) : e.span.IsWithin source := by
  subst he
  exact h

end Ensures

namespace Parser

open Lexeme (Follow)

/-- A parser of lexemes in a row returns something with a property, which stands before the lexemes
that it leaves; its errors are about parts of the text. -/
def Places {α : Type} (source : String) (span : α → Span) (P : α → Prop) (p : Parser α) : Prop :=
  ∀ lo ls, Follow source lo ls →
    Ensures source (fun r => (span r.1).Precedes source lo r.2.1 ∧ P r.1) (p ls)

variable {source : String} {limit lo : Nat} {ls : List Lexeme}

/-! ### Tokens -/

/-- A lexeme is a token where it stands, or an error there. -/
theorem token_ensures {l : Lexeme} (h : l.span.IsWithin source) :
    Ensures source (fun t => t.span = l.span) l.token := by
  unfold Lexeme.token
  split
  next => exact rfl
  next => exact h

/-- The end of a text is a part of it. -/
theorem endError_isWithin : (settingOf source limit).endError.span.IsWithin source :=
  have hend := String.Pos.Raw.isValid_rawEndPos
  ⟨hend, hend, Nat.le_refl _⟩

/-- The next token stands first. -/
theorem next_places :
    Places source Located.span (fun _ => True) (next (settingOf source limit)) := by
  intro lo ls h
  cases ls with
  | nil => exact endError_isWithin
  | cons l rest =>
    have hl := h.precedes
    exact (token_ensures hl.isPiece.toIsWithin).map fun t ht => ⟨ht ▸ hl, trivial⟩

/-- Looking at the next token finds it, or an error where it stands. -/
theorem peek_ensures (h : Follow source lo ls) : Ensures source (fun _ => True) (peek ls) := by
  cases ls with
  | nil => exact trivial
  | cons l rest => exact (token_ensures h.precedes.isPiece.toIsWithin).map fun _ _ => trivial

/-- The closing parenthesis stands first. -/
theorem closing_places :
    Places source Located.span (fun _ => True) (closing (settingOf source limit)) := by
  intro lo ls h
  refine (next_places lo ls h).bind ?_
  rintro ⟨t, rest⟩ ⟨ht, -⟩
  dsimp only
  split
  next => exact ⟨ht, trivial⟩
  next => exact ht.isPiece.toIsWithin

/-- The name of a property stands first. -/
theorem name_places :
    Places source Located.span (fun _ => True) (name (settingOf source limit)) := by
  intro lo ls h
  refine (next_places lo ls h).bind ?_
  rintro ⟨t, rest⟩ ⟨ht, -⟩
  dsimp only
  split
  next => exact ⟨ht, trivial⟩
  next => exact ht.isPiece.toIsWithin

/-! ### Operators between operands -/

/-- Parsers of expressions, all nodes of which stand as their spans say. -/
abbrev PlacesSyntax (source : String) : Parser Syntax → Prop :=
  Places source Syntax.span (Syntax.AllPlaced source)

/-- Two placed expressions are placed with an operator between them. -/
theorem join_allPlaced {left right : Syntax} {op : BinaryOp} {rest : List Lexeme}
    (hleft : left.AllPlaced source) (hright : right.AllPlaced source)
    (hmerged : (left.span.merge right.span).IsPiece source)
    (hnext : right.span.Precedes source left.span.stop rest) :
    (left.join op right).AllPlaced source := by
  have hself := hleft left left.mem_nodes_self
  refine List.forall_mem_cons.mpr ⟨?_, List.forall_mem_append.mpr ⟨hleft, hright⟩⟩
  exact .of_row hmerged (Span.row_merge hself.isPiece hnext)

/-- Going on from a placed left operand gives a placed expression. -/
theorem chainFrom_ensures {operand : Parser Syntax} {op? : Token → Option BinaryOp}
    (hoperand : PlacesSyntax source operand) {left : Syntax}
    (hleft : left.span.Precedes source lo ls) (hplaced : left.AllPlaced source) :
    Ensures source (fun r => r.1.span.Precedes source lo r.2.1 ∧ r.1.AllPlaced source)
      (chainFrom operand op? left ls) := by
  -- An operator and its right operand take some lexemes, so the induction is on those that follow.
  obtain ⟨length, hlength⟩ : ∃ n, ls.length = n := ⟨_, rfl⟩
  induction length using Nat.strongRecOn generalizing left ls with
  | ind length ih =>
    cases ls with
    | nil =>
      rw [chainFrom]
      exact ⟨hleft, hplaced⟩
    | cons l after =>
      rw [chainFrom]
      have hl := hleft.follow.precedes
      refine (token_ensures hl.isPiece.toIsWithin).bind fun t _ => ?_
      split
      next => exact ⟨hleft, hplaced⟩
      next op _ =>
        refine (hoperand _ _ hl.follow).bind ?_
        rintro ⟨right, rest⟩ ⟨hright, hrightPlaced⟩
        have hnext : right.span.Precedes source left.span.stop rest.1 :=
          hright.mono (Nat.le_trans hl.le_start hl.isPiece.le)
        have hjoined : (left.join op right).span.Precedes source lo rest.1 := hleft.merge hnext
        have hshorter : rest.1.length < length := by
          have hrest := rest.2
          rw [← hlength, List.length_cons]
          omega
        exact (ih _ hshorter hjoined
          (join_allPlaced hplaced hrightPlaced hjoined.isPiece hnext) rfl).bind fun _ h => h

/-- Operands with operators between them are placed. -/
theorem chain_places {operand : Parser Syntax} {op? : Token → Option BinaryOp}
    (hoperand : PlacesSyntax source operand) : PlacesSyntax source (chain op? operand) :=
  fun lo ls h => (hoperand lo ls h).bind fun _ hfirst =>
    (chainFrom_ensures hoperand hfirst.1 hfirst.2).bind fun _ h => h

/-- Expressions are placed when operands are. -/
theorem expressionOf_places {operand : Parser Syntax} (hoperand : PlacesSyntax source operand) :
    PlacesSyntax source (expressionOf operand) :=
  chain_places (chain_places (chain_places (chain_places (chain_places hoperand))))

/-! ### Lists -/

/-- Values stand in a row before the lexemes that are left, and have a property. -/
def Settled {α : Type} (source : String) (span : α → Span) (P : α → Prop) (lo : Nat)
    (as : List α) (rest : List Lexeme) : Prop :=
  (∃ hi, Row source lo (as.map span) hi ∧ Follow source hi rest) ∧ ∀ a ∈ as, P a

section

variable {α : Type} {span : α → Span} {P : α → Prop}

/-- No values stand before what is there. -/
theorem Settled.nil (h : Follow source lo ls) : Settled source span P lo [] ls :=
  ⟨⟨lo, .nil (Nat.le_refl _), h⟩, List.forall_mem_nil _⟩

/-- One value stands before others that stand in a row behind it. -/
theorem Settled.cons {a : α} {as : List α} {rest after : List Lexeme} {start : Nat}
    (ha : (span a).Precedes source lo rest) (hP : P a) (hle : (span a).stop ≤ start)
    (has : Settled source span P start as after) : Settled source span P lo (a :: as) after := by
  obtain ⟨⟨hi, hrow, hafter⟩, hall⟩ := has
  exact ⟨⟨hi, .cons ha.isPiece ha.le_start (hrow.mono hle (Nat.le_refl _)), hafter⟩,
    List.forall_mem_cons.mpr ⟨hP, hall⟩⟩

/-- Values with commas between them stand in a row. -/
theorem separated_ensures {p : Parser α} (hp : Places source span P p) (list : Parser (List α))
    (hlist : ∀ ls, list ls = oneOrMore p list ls) (h : Follow source lo ls) :
    Ensures source (fun r => Settled source span P lo r.1 r.2.1) (list ls) := by
  obtain ⟨length, hlength⟩ : ∃ n, ls.length = n := ⟨_, rfl⟩
  induction length using Nat.strongRecOn generalizing lo ls with
  | ind length ih =>
    rw [hlist, oneOrMore]
    refine (hp lo ls h).bind ?_
    rintro ⟨a, rest⟩ ⟨ha, hP⟩
    have hlast := Settled.cons ha hP (Nat.le_refl _) (.nil ha.follow)
    obtain ⟨mid, hmid⟩ := rest
    cases mid with
    | nil => exact hlast
    | cons l after =>
      have hl := ha.follow.precedes
      refine (token_ensures hl.isPiece.toIsWithin).bind fun t _ => ?_
      split
      next =>
        have hshorter : after.length < length := by
          rw [List.length_cons] at hmid
          omega
        refine (ih _ hshorter hl.follow rfl).bind fun _ hmore => ?_
        exact .cons ha hP (Nat.le_trans hl.le_start hl.isPiece.le) hmore
      next => exact hlast

end

/-- What stands between the parentheses of a call stands there in a row. -/
theorem callArguments_ensures {expression : Parser Syntax} (hp : PlacesSyntax source expression)
    (h : Follow source lo ls) :
    Ensures source (fun r => Settled source Syntax.span (Syntax.AllPlaced source) lo r.1 r.2.1)
      (callArguments expression ls) := by
  unfold callArguments
  refine (peek_ensures h).bind fun t _ => ?_
  split
  next => exact .nil h
  next =>
    exact (separated_ensures hp (arguments expression) (arguments_eq expression) h).bind
      fun _ hargs => hargs

/-- The segments of a path stand in a row. -/
theorem segments_ensures (h : Follow source lo ls) :
    Ensures source (fun r => Settled source Located.span (fun _ => True) lo r.1 r.2.1)
      (segments (settingOf source limit) ls) := by
  obtain ⟨length, hlength⟩ : ∃ n, ls.length = n := ⟨_, rfl⟩
  induction length using Nat.strongRecOn generalizing lo ls with
  | ind length ih =>
    cases ls with
    | nil =>
      rw [segments]
      exact .nil h
    | cons l after =>
      rw [segments]
      have hl := h.precedes
      refine (token_ensures hl.isPiece.toIsWithin).bind fun t _ => ?_
      split
      next =>
        refine (name_places _ _ hl.follow).bind ?_
        rintro ⟨segment, rest⟩ ⟨hsegment, -⟩
        have hshorter : rest.1.length < length := by
          have hrest := rest.2
          rw [← hlength, List.length_cons]
          omega
        refine (ih _ hshorter hsegment.follow rfl).bind fun _ hmore => ?_
        exact .cons (hsegment.mono (Nat.le_trans hl.le_start hl.isPiece.le)) trivial
          (Nat.le_refl _) hmore
      next => exact .nil h

/-! ### Operands -/

/-- The parsers of the next level down place what they return. -/
structure Deeper.IsPlacing (source : String) (deeper : Deeper) : Prop where
  /-- Operands are placed. -/
  operand : PlacesSyntax source deeper.operand
  /-- Expressions are placed. -/
  expression : PlacesSyntax source deeper.expression

/-- What follows a name is placed with it: the arguments of a call, or the segments of a path. -/
theorem afterName_ensures {deeper? : Option Deeper} (first : Located String)
    (hdeeper : ∀ deeper, deeper? = some deeper → deeper.IsPlacing source)
    (hfirst : first.span.Precedes source lo ls) :
    Ensures source (fun r => r.1.span.Precedes source lo r.2.1 ∧ r.1.AllPlaced source)
      (afterName (settingOf source limit) deeper? first ls) := by
  unfold afterName
  refine (peek_ensures hfirst.follow).bind fun t? _ => ?_
  split
  next =>
    cases deeper? with
    | none => exact hfirst.isPiece.toIsWithin
    | some deeper =>
      have htail : Follow source first.span.stop ls.tail := by
        cases ls with
        | nil => exact hfirst.follow
        | cons l after =>
          have hl := hfirst.follow.precedes
          exact hl.follow.mono (Nat.le_trans hl.le_start hl.isPiece.le)
      refine (callArguments_ensures (hdeeper deeper rfl).expression htail).bind ?_
      rintro ⟨args, rest⟩ ⟨⟨hi, hrow, hrest⟩, hplaced⟩
      refine (closing_places hi rest hrest).bind ?_
      rintro ⟨close, rest'⟩ ⟨hclose, -⟩
      have hnext := hclose.mono hrow.le
      have hcall := hfirst.merge hnext
      refine ⟨hcall, List.forall_mem_cons.mpr ⟨.of_row hcall.isPiece ?_, fun n hn => ?_⟩⟩
      · -- The name comes first, and the parenthesis stands behind the last argument.
        dsimp only [Syntax.span]
        rw [Span.merge_eq hfirst.isPiece hnext]
        exact .cons hfirst.isPiece (Nat.le_refl _)
          (hrow.mono (Nat.le_refl _) (Nat.le_trans hclose.le_start hclose.isPiece.le))
      · obtain ⟨arg, harg, hn⟩ := Syntax.mem_nodesOfAll.mp hn
        exact hplaced arg harg n hn
  next =>
    refine (segments_ensures hfirst.follow).bind ?_
    rintro ⟨more, rest⟩ ⟨⟨hi, hrow, hrest⟩, -⟩
    have hpath := Span.precedes_foldl hfirst hrow hrest
    exact ⟨hpath, List.forall_mem_singleton.mpr (.of_row hpath.isPiece (.nil hpath.isPiece.le))⟩

/-- An operand is placed, given what is nested in it. -/
theorem operandWith_places {deeper? : Option Deeper}
    (hdeeper : ∀ deeper, deeper? = some deeper → deeper.IsPlacing source) :
    PlacesSyntax source (operandWith (settingOf source limit) deeper?) := by
  intro lo ls h
  refine (next_places lo ls h).bind ?_
  rintro ⟨t, rest⟩ ⟨ht, -⟩
  dsimp only
  split
  next op _ =>
    cases deeper? with
    | none => exact ht.isPiece.toIsWithin
    | some deeper =>
      refine ((hdeeper deeper rfl).operand _ _ ht.follow).bind ?_
      rintro ⟨e, rest'⟩ ⟨he, hplaced⟩
      have hmerged := ht.merge he
      refine ⟨hmerged, List.forall_mem_cons.mpr ⟨.of_row hmerged.isPiece ?_, hplaced⟩⟩
      have hrow := Span.row_merge ht.isPiece he
      cases hrow with | cons _ hstart hmore =>
      exact hmore.mono (Nat.le_trans hstart ht.isPiece.le) (Nat.le_refl _)
  next =>
    split
    next =>
      cases deeper? with
      | none => exact ht.isPiece.toIsWithin
      | some deeper =>
        refine ((hdeeper deeper rfl).expression _ _ ht.follow).bind ?_
        rintro ⟨e, inner⟩ ⟨he, hplaced⟩
        refine (closing_places _ _ he.follow).bind ?_
        rintro ⟨close, rest'⟩ ⟨hclose, -⟩
        -- The parentheses are not part of the node.
        have hnode := he.mono (Nat.le_trans ht.le_start ht.isPiece.le)
        exact ⟨hnode.of_follow (Nat.le_trans hclose.le_start hclose.isPiece.le) hclose.follow,
          hplaced⟩
    next name _ =>
      exact (afterName_ensures ⟨name, t.span⟩ hdeeper ht).bind fun _ h => h
    next =>
      split
      next =>
        exact ⟨ht, List.forall_mem_singleton.mpr (.of_row ht.isPiece (.nil ht.isPiece.le))⟩
      next => exact ht.isPiece.toIsWithin

/-- Operands are placed at every level. -/
theorem operand_places (levels : Nat) :
    PlacesSyntax source (operand (settingOf source limit) levels) := by
  induction levels with
  | zero =>
    intro lo ls h
    rw [operand]
    refine operandWith_places (fun deeper hdeeper => ?_) lo ls h
    cases hdeeper
  | succ levels ih =>
    intro lo ls h
    rw [operand]
    refine operandWith_places (fun deeper hdeeper => ?_) lo ls h
    cases hdeeper
    exact ⟨ih, expressionOf_places ih⟩

/-- Expressions are placed. -/
theorem expression_places : PlacesSyntax source (expression (settingOf source limit)) :=
  expressionOf_places (operand_places limit)

/-! ### Whole texts -/

/-- What follows a complete text is refused where it stands. -/
theorem finish_ensures (h : Follow source lo ls) : Ensures source (fun _ => True) (finish ls) := by
  cases ls with
  | nil => exact trivial
  | cons l after =>
    have hl := h.precedes.isPiece.toIsWithin
    exact (token_ensures hl).bind fun t ht => ht ▸ hl

/-- A direction stands first, if there is one. -/
theorem direction_ensures (h : Follow source lo ls) :
    Ensures source (fun r => (∀ d, r.1 = some d → d.span.Precedes source lo r.2.1) ∧
      (r.1 = none → r.2.1 = ls)) (direction ls) := by
  unfold direction
  cases ls with
  | nil => exact ⟨nofun, fun _ => rfl⟩
  | cons l after =>
    have hl := h.precedes
    refine (token_ensures hl.isPiece.toIsWithin).bind fun t ht => ?_
    split
    next d _ =>
      refine ⟨fun d' hd => ?_, nofun⟩
      cases hd
      exact ht ▸ hl
    next => exact ⟨nofun, fun _ => rfl⟩

/-- Items of a sort order are placed when expressions are. -/
theorem orderItem_places {p : Parser Syntax} (hp : PlacesSyntax source p) :
    Places source OrderItem.span (OrderItem.IsPlaced source) (orderItem p) := by
  intro lo ls h
  refine (hp lo ls h).bind ?_
  rintro ⟨e, rest⟩ ⟨he, hplaced⟩
  refine (direction_ensures he.follow).bind ?_
  rintro ⟨d?, rest'⟩ ⟨hsome, hnone⟩
  cases d? with
  | none =>
    obtain ⟨rest', hrest'⟩ := rest'
    obtain rfl := hnone rfl
    exact ⟨he, he.isPiece, Nat.le_refl _, Nat.le_refl _, hplaced⟩
  | some d =>
    have hd := hsome d rfl
    have hitem := he.merge hd
    refine ⟨hitem, hitem.isPiece, ?_, ?_, hplaced⟩
    all_goals dsimp only
    all_goals rw [Span.merge_eq he.isPiece hd]
    exact Nat.le_trans hd.le_start hd.isPiece.le

end Parser

/-- A filter that is parsed is placed in its text, and an error of parsing is about a part of it. -/
theorem Syntax.parseFilter_ensures (source : String) (limit : Nat) :
    Ensures source (AllPlaced source) (parseFilter source limit) :=
  (Parser.expression_places 0 _ (Lexeme.follow_all source)).bind fun _ h =>
    (Parser.finish_ensures h.1.follow).bind fun _ _ => h.2

/-- The items of a sort order that is parsed stand in a row in its text, and each of them is
placed; an error of parsing is about a part of the text. -/
theorem OrderItem.parseList_ensures (source : String) (limit : Nat) :
    Ensures source (fun items => (∀ item ∈ items, item.IsPlaced source) ∧
      (items.map (·.span)).Pairwise fun s t => s.stop ≤ t.start) (parseList source limit) := by
  have hexpression :
      Parser.PlacesSyntax source (Parser.expression (Parser.settingOf source limit)) :=
    Parser.expression_places
  have hitems := Parser.separated_ensures (Parser.orderItem_places hexpression) _
    (Parser.orderItems_eq _) (Lexeme.follow_all source)
  refine hitems.bind ?_
  rintro r ⟨⟨hi, hrow, hrest⟩, hplaced⟩
  exact (Parser.finish_ensures hrest).bind fun _ _ => ⟨hplaced, hrow.ordered⟩

end EntityQuery
