import EntityQuery.Proofs.Terms
import EntityQuery.Sample.Orders

/-!
# Conditions read back from their texts

The text of a value or of a condition is that of a term (`Scalar.chars_term`,
`Predicate.chars_term`), and a term of plain words is determined by its text. From the term the
value or the condition is read back (`Scalar.ofTerm?_term`, `Predicate.ofTerm?_term`): no two heads
are alike, a name is told from an integer and from a parameter by its first character, and an alias
is what stands before a point. So texts determine what they are texts of
(`Predicate.texts_determine`).
-/

namespace EntityQuery

open Lexeme (isNameStart isNamePart numberOf)

/-! ## Words -/

namespace Text

/-- The characters of names are plain. -/
theorem isPlain_of_isNamePart {c : Char} (h : isNamePart c = true) : Term.isPlain c = true := by
  unfold Term.isPlain
  have hopen : c ≠ '(' := by rintro rfl; cases h
  have hcomma : c ≠ ',' := by rintro rfl; cases h
  have hclose : c ≠ ')' := by rintro rfl; cases h
  simp [hopen, hcomma, hclose]

/-- All characters of a name are characters of names. -/
theorem IsName.forall_isNamePart {cs : List Char} (h : IsName cs) :
    ∀ c ∈ cs, isNamePart c = true := by
  obtain ⟨c, more, rfl, hc, hmore⟩ := h.eq_cons
  exact List.forall_mem_cons.mpr ⟨by rw [isNamePart, hc, Bool.true_or], hmore⟩

/-- A name is a word. -/
theorem IsName.isWord {cs : List Char} (h : IsName cs) : Term.IsWord cs := by
  refine ⟨?_, fun c hc => isPlain_of_isNamePart (h.forall_isNamePart c hc)⟩
  rintro rfl
  exact h

/-- The integer that digits stand for, with a minus sign before them or without one. -/
def integerOf : List Char → Int
  | '-' :: digits => -numberOf digits
  | digits => numberOf digits

/-- The text of an integer is a numeral, with a minus sign before it or without one. -/
theorem exists_numeral (n : Int) :
    ∃ digits, IsNumeral digits ∧
      ((toString n).toList = digits ∧ numberOf digits = n ∨
        (toString n).toList = '-' :: digits ∧ -numberOf digits = n) := by
  refine ⟨Nat.toDigits 10 n.natAbs, isNumeral_toDigits _, ?_⟩
  have hvalue : numberOf (Nat.toDigits 10 n.natAbs) = n.natAbs :=
    Nat.ofDigitChars_ten_toDigits
  rw [Int.toString_eq_repr, Int.repr_eq_if, hvalue]
  split
  next hn =>
    have hsame : n.toNat = n.natAbs := by omega
    left
    rw [Nat.toList_repr, hsame]
    exact ⟨rfl, by omega⟩
  next hn =>
    have hsame : (-n).toNat = n.natAbs := by omega
    right
    rw [String.toList_append, Nat.toList_repr, hsame]
    exact ⟨rfl, by omega⟩

/-- An integer is what its text stands for. -/
theorem integerOf_toString (n : Int) : integerOf (toString n).toList = n := by
  obtain ⟨digits, hdigits, ⟨htext, hvalue⟩ | ⟨htext, hvalue⟩⟩ := exists_numeral n
  · rw [htext, integerOf, hvalue]
    rintro more rfl
    cases hdigits.2 '-' List.mem_cons_self
  · rw [htext, integerOf, hvalue]

/-- The text of an integer is a word that does not begin as a name or with a colon. -/
theorem isWord_integer (n : Int) :
    Term.IsWord (toString n).toList ∧
      ∀ c ∈ (toString n).toList.head?, isNameStart c = false ∧ c ≠ ':' := by
  have hdigit : ∀ c : Char, c.isDigit = true →
      Term.isPlain c = true ∧ isNameStart c = false ∧ c ≠ ':' := by
    intro c hc
    refine ⟨isPlain_of_isNamePart (by rw [isNamePart, hc, Bool.or_true]), ?_, ?_⟩
    · refine Bool.eq_false_iff.mpr fun hstart => ?_
      rw [(Lexeme.isNameStart_distinct hstart).2.2] at hc
      cases hc
    · rintro rfl
      cases hc
  obtain ⟨digits, hdigits, ⟨htext, -⟩ | ⟨htext, -⟩⟩ := exists_numeral n
  · rw [htext]
    exact ⟨⟨hdigits.1, fun c hc => (hdigit c (hdigits.2 c hc)).1⟩,
      fun c hc => (hdigit c (hdigits.2 c (List.mem_of_mem_head? hc))).2⟩
  · rw [htext]
    refine ⟨⟨List.cons_ne_nil _ _, List.forall_mem_cons.mpr
      ⟨rfl, fun c hc => (hdigit c (hdigits.2 c hc)).1⟩⟩, ?_⟩
    intro c hc
    cases hc
    exact ⟨rfl, by decide⟩

end Text

/-- What the arguments of a term are arguments of. -/
inductive Head
  | function (f : Builtin)
  | keyword (k : Keyword)
  | negate
  | like
  | isNull
  | isNotNull

namespace Head

/-- The word of a head. -/
def word : Head → String
  | function f => f.name
  | keyword k => k.spelling
  | negate => "negate"
  | like => "like"
  | isNull => "isNull"
  | isNotNull => "isNotNull"

/-- The head with a word. -/
def ofWord? (w : String) : Option Head :=
  match Builtin.ofName? w, Keyword.ofSpelling? w with
  | some f, _ => some (function f)
  | none, some k => some (keyword k)
  | none, none => [negate, like, isNull, isNotNull].find? (·.word == w)

/-- A head is found under its word, so no two heads have the same one. -/
theorem ofWord?_word (head : Head) : ofWord? head.word = some head := by
  cases head with
  | function f =>
    rw [word, ofWord?, Builtin.ofName?_name]
  | keyword k =>
    have hno : Builtin.ofName? k.spelling = none := by
      cases k with
      | relational op => cases op <;> rfl
      | logical op => cases op <;> rfl
      | not => rfl
      | arithmetic op => cases op <;> rfl
      | direction d => cases d <;> rfl
      | bool b => cases b <;> rfl
      | null => rfl
    rw [word, ofWord?, hno, Keyword.ofSpelling?_spelling]
  | negate => rfl
  | like => rfl
  | isNull => rfl
  | isNotNull => rfl

/-- The words of heads are names. -/
theorem isName_word (head : Head) : Text.IsName head.word.toList := by
  cases head with
  | function f => cases f <;> decide
  | keyword k => exact Lexeme.isName_spelling k
  | negate => decide
  | like => decide
  | isNull => decide
  | isNotNull => decide

end Head

/-! ## Values -/

namespace Scalar

/-- The names in a value: those of columns, of the aliases before them, and of parameters. -/
def names : Scalar → List String
  | column alias? name => alias?.toList ++ [name]
  | parameter name => [name]
  | constant _ => []
  | function _ args => namesOfAll args
  | arithmetic _ left right => left.names ++ right.names
  | negate operand => operand.names
where
  /-- The names in some values. -/
  namesOfAll : List Scalar → List String
    | [] => []
    | x :: xs => x.names ++ namesOfAll xs

/-- All names in a value are spelled as names. -/
def IsNamed (x : Scalar) : Prop := ∀ name ∈ x.names, Text.IsName name.toList

/-- The term that the text of a value is the text of. -/
def term : Scalar → Term
  | column (some aliasName) name => .leaf (aliasName.toList ++ '.' :: name.toList)
  | column none name => .leaf name.toList
  | parameter name => .leaf (':' :: name.toList)
  | constant n => .leaf (toString n.toInt).toList
  | function f args => .node (Head.function f).word.toList (terms args)
  | arithmetic op left right =>
    .node (Head.keyword (.arithmetic op)).word.toList [left.term, right.term]
  | negate operand => .node Head.negate.word.toList [operand.term]
where
  /-- The terms of some values. -/
  terms : List Scalar → List Term
    | [] => []
    | x :: xs => x.term :: terms xs

/-- The text of a value is that of its term. -/
theorem chars_term (x : Scalar) : x.term.chars = x.text.toList := by
  induction x using @Scalar.rec _
    (fun xs => Term.chars.charsOfAll (term.terms xs) = (text.texts xs).map String.toList) with
  | column alias? name =>
    cases alias? with
    | none => rfl
    | some aliasName => simp [term, Term.chars, text]
  | parameter name => simp [term, Term.chars, text]
  | constant n => simp [term, Term.chars, text]
  | function f args ih =>
    simp [term, Term.chars, text, ih, String.toList_intercalate, Head.word]
  | arithmetic op left right ihl ihr =>
    simp [term, Term.chars, Term.chars.charsOfAll, text, ihl, ihr, Head.word, Keyword.spelling,
      List.intercalate]
  | negate operand ih =>
    simp [term, Term.chars, Term.chars.charsOfAll, text, ih, Head.word, List.intercalate]
  | nil => rfl
  | cons x xs ihx ihxs =>
    simp [term.terms, Term.chars.charsOfAll, text.texts, ihx, ihxs]

/-- The words of a value with names are plain. -/
theorem term_isPlain {x : Scalar} (h : x.IsNamed) : x.term.IsPlain := by
  induction x using @Scalar.rec _
    (fun xs => (∀ name ∈ names.namesOfAll xs, Text.IsName name.toList) →
      ∀ t ∈ term.terms xs, t.IsPlain) with
  | column alias? name =>
    cases alias? with
    | none => exact .leaf (h name List.mem_cons_self).isWord
    | some aliasName =>
      obtain ⟨halias, hname⟩ := List.forall_mem_cons.mp h
      have hname := List.forall_mem_singleton.mp hname
      refine .leaf ⟨List.append_ne_nil_of_left_ne_nil halias.isWord.1 _, ?_⟩
      exact List.forall_mem_append.mpr
        ⟨halias.isWord.2, List.forall_mem_cons.mpr ⟨rfl, hname.isWord.2⟩⟩
  | parameter name =>
    exact .leaf ⟨nofun, List.forall_mem_cons.mpr ⟨rfl, (h name List.mem_cons_self).isWord.2⟩⟩
  | constant n => exact .leaf (Text.isWord_integer n.toInt).1
  | function f args ih => exact .node (Head.isName_word _).isWord (ih h)
  | arithmetic op left right ihl ihr =>
    obtain ⟨hleft, hright⟩ := List.forall_mem_append.mp h
    exact .node (Head.isName_word _).isWord
      (List.forall_mem_cons.mpr ⟨ihl hleft, List.forall_mem_singleton.mpr (ihr hright)⟩)
  | negate operand ih =>
    exact .node (Head.isName_word _).isWord (List.forall_mem_singleton.mpr (ih h))
  | nil =>
    rename_i ht
    cases ht
  | cons x xs ihx ihxs =>
    rename_i h t ht
    obtain ⟨hx, hxs⟩ := List.forall_mem_append.mp h
    exact List.forall_mem_cons.mpr ⟨ihx hx, ihxs hxs⟩ t ht

/-- The value that a word is, by its first character: a colon, or a letter, or else a sign or a
digit. A point in a word that begins with a letter stands behind an alias. -/
def ofWord? : List Char → Option Scalar
  | [] => none
  | c :: more =>
    if c = ':' then some (.parameter (String.ofList more))
    else if isNameStart c then
      let first := (c :: more).takeWhile (· != '.')
      match (c :: more).drop first.length with
      | [] => some (.column none (String.ofList first))
      | _ :: name => some (.column (some (String.ofList first)) (String.ofList name))
    else some (.constant (Int64.ofInt (Text.integerOf (c :: more))))

/-- The value that a term is. -/
def ofTerm? : Term → Option Scalar
  | .leaf word => ofWord? word
  | .node head args =>
    match Head.ofWord? (String.ofList head), ofTerms? args with
    | some (.function f), some args => some (.function f args)
    | some (.keyword (.arithmetic op)), some [left, right] => some (.arithmetic op left right)
    | some .negate, some [operand] => some (.negate operand)
    | _, _ => none
where
  /-- The values that some terms are. -/
  ofTerms? : List Term → Option (List Scalar)
    | [] => some []
    | t :: ts =>
      match ofTerm? t, ofTerms? ts with
      | some x, some xs => some (x :: xs)
      | _, _ => none

/-- A name begins neither with a colon nor with a digit, and has no point in it. -/
theorem ofWord?_append {cs : List Char} (h : Text.IsName cs) (rest : List Char)
    (hrest : ∀ c ∈ rest.head?, (c != '.') = false) :
    ofWord? (cs ++ rest) =
      match rest with
      | [] => some (.column none (String.ofList cs))
      | _ :: name => some (.column (some (String.ofList cs)) (String.ofList name)) := by
  have hfirst : (cs ++ rest).takeWhile (· != '.') = cs := by
    refine Lexeme.takeWhile_append (fun c hc => ?_) hrest
    have hpart := h.forall_isNamePart c hc
    simp only [bne_iff_ne, ne_eq]
    rintro rfl
    cases hpart
  have hrest : (cs ++ rest).drop cs.length = rest := List.drop_left
  obtain ⟨c, more, rfl, hc, -⟩ := h.eq_cons
  have hcolon : c ≠ ':' := by
    rintro rfl
    cases hc
  rw [List.cons_append] at hfirst hrest ⊢
  rw [ofWord?, if_neg hcolon, if_pos hc]
  dsimp only
  rw [hfirst, hrest]
  cases rest <;> rfl

/-- The text of an integer is that integer. -/
theorem ofWord?_integer (n : Int64) : ofWord? (toString n.toInt).toList = some (.constant n) := by
  obtain ⟨hword, hhead⟩ := Text.isWord_integer n.toInt
  have hvalue := Text.integerOf_toString n.toInt
  obtain ⟨c, more, hcons⟩ := List.exists_cons_of_ne_nil hword.1
  rw [hcons] at hhead hvalue ⊢
  obtain ⟨hstart, hcolon⟩ := hhead c rfl
  rw [ofWord?, if_neg hcolon, hstart, hvalue, Int64.ofInt_toInt]
  rfl

/-- A value with names is read back from its term. -/
theorem ofTerm?_term {x : Scalar} (h : x.IsNamed) : ofTerm? x.term = some x := by
  induction x using @Scalar.rec _
    (fun xs => (∀ name ∈ names.namesOfAll xs, Text.IsName name.toList) →
      ofTerm?.ofTerms? (term.terms xs) = some xs) with
  | column alias? name =>
    cases alias? with
    | none =>
      have hword := ofWord?_append (h name List.mem_cons_self) [] nofun
      simpa [term, ofTerm?] using hword
    | some aliasName =>
      have hword := ofWord?_append (h aliasName List.mem_cons_self) ('.' :: name.toList)
        (fun c hc => Option.some.inj hc ▸ rfl)
      simpa [term, ofTerm?] using hword
  | parameter name => simp [term, ofTerm?, ofWord?]
  | constant n => exact ofWord?_integer n
  | function f args ih =>
    rw [term, ofTerm?, String.ofList_toList, Head.ofWord?_word, ih h]
  | arithmetic op left right ihl ihr =>
    obtain ⟨hleft, hright⟩ := List.forall_mem_append.mp h
    rw [term, ofTerm?, String.ofList_toList, Head.ofWord?_word]
    simp [ofTerm?.ofTerms?, ihl hleft, ihr hright]
  | negate operand ih =>
    rw [term, ofTerm?, String.ofList_toList, Head.ofWord?_word]
    simp [ofTerm?.ofTerms?, ih h]
  | nil => rfl
  | cons x xs ihx ihxs =>
    rename_i h
    obtain ⟨hx, hxs⟩ := List.forall_mem_append.mp h
    rw [term.terms, ofTerm?.ofTerms?, ihx hx, ihxs hxs]

end Scalar

/-! ## Conditions -/

namespace Predicate

/-- The names in a condition: those of columns, of the aliases before them, and of parameters. -/
def names : Predicate → List String
  | const _ => []
  | and left right | or left right => left.names ++ right.names
  | not operand => operand.names
  | compare _ left right => left.names ++ right.names
  | like value pattern => value.names ++ pattern.names
  | isNull operand | isNotNull operand => operand.names

/-- All names in a condition are spelled as names. -/
def IsNamed (p : Predicate) : Prop := ∀ name ∈ p.names, Text.IsName name.toList

/-- The term that the text of a condition is the text of. -/
def term : Predicate → Term
  | const b => .leaf (Keyword.bool b).spelling.toList
  | and left right =>
    .node (Head.keyword (.logical .and)).word.toList [left.term, right.term]
  | or left right =>
    .node (Head.keyword (.logical .or)).word.toList [left.term, right.term]
  | not operand => .node (Head.keyword .not).word.toList [operand.term]
  | compare op left right =>
    .node (Head.keyword (.relational op)).word.toList [left.term, right.term]
  | like value pattern => .node Head.like.word.toList [value.term, pattern.term]
  | isNull operand => .node Head.isNull.word.toList [operand.term]
  | isNotNull operand => .node Head.isNotNull.word.toList [operand.term]

/-- The text of a condition is that of its term. -/
theorem chars_term (p : Predicate) : p.term.chars = p.text.toList := by
  induction p with
  | const b => cases b <;> rfl
  | and left right ihl ihr | or left right ihl ihr =>
    simp [term, Term.chars, Term.chars.charsOfAll, text, ihl, ihr, Head.word, Keyword.spelling,
      LogicalOp.keyword, List.intercalate]
  | not operand ih =>
    simp [term, Term.chars, Term.chars.charsOfAll, text, ih, Head.word, Keyword.spelling,
      List.intercalate]
  | compare op left right =>
    simp [term, Term.chars, Term.chars.charsOfAll, text, Scalar.chars_term, Head.word,
      Keyword.spelling, List.intercalate]
  | like value pattern | isNull operand | isNotNull operand =>
    simp [term, Term.chars, Term.chars.charsOfAll, text, Scalar.chars_term, Head.word,
      List.intercalate]

/-- The words of a condition with names are plain. -/
theorem term_isPlain {p : Predicate} (h : p.IsNamed) : p.term.IsPlain := by
  -- A head with two arguments, and one with one.
  have htwo : ∀ {head : Head} {t u : Term}, t.IsPlain → u.IsPlain →
      (Term.node head.word.toList [t, u]).IsPlain := fun ht hu =>
    .node (Head.isName_word _).isWord
      (List.forall_mem_cons.mpr ⟨ht, List.forall_mem_singleton.mpr hu⟩)
  have hone : ∀ {head : Head} {t : Term}, t.IsPlain →
      (Term.node head.word.toList [t]).IsPlain := fun ht =>
    .node (Head.isName_word _).isWord (List.forall_mem_singleton.mpr ht)
  induction p with
  | const b => exact .leaf (Lexeme.isName_spelling _).isWord
  | and left right ihl ihr | or left right ihl ihr =>
    obtain ⟨hleft, hright⟩ := List.forall_mem_append.mp h
    exact htwo (ihl hleft) (ihr hright)
  | not operand ih => exact hone (ih h)
  | compare op left right | like left right =>
    obtain ⟨hleft, hright⟩ := List.forall_mem_append.mp h
    exact htwo (Scalar.term_isPlain hleft) (Scalar.term_isPlain hright)
  | isNull operand | isNotNull operand => exact hone (Scalar.term_isPlain h)

/-- The condition that a term is. -/
def ofTerm? : Term → Option Predicate
  | .leaf word =>
    match Keyword.ofSpelling? (String.ofList word) with
    | some (.bool b) => some (.const b)
    | _ => none
  | .node head args =>
    match Head.ofWord? (String.ofList head), conditions args, Scalar.ofTerm?.ofTerms? args with
    | some (.keyword (.logical .and)), [some left, some right], _ => some (.and left right)
    | some (.keyword (.logical .or)), [some left, some right], _ => some (.or left right)
    | some (.keyword .not), [some operand], _ => some (.not operand)
    | some (.keyword (.relational op)), _, some [left, right] => some (.compare op left right)
    | some .like, _, some [value, pattern] => some (.like value pattern)
    | some .isNull, _, some [operand] => some (.isNull operand)
    | some .isNotNull, _, some [operand] => some (.isNotNull operand)
    | _, _, _ => none
where
  /-- The conditions that some terms are. -/
  conditions : List Term → List (Option Predicate)
    | [] => []
    | t :: ts => ofTerm? t :: conditions ts

/-- A condition with names is read back from its term. -/
theorem ofTerm?_term {p : Predicate} (h : p.IsNamed) : ofTerm? p.term = some p := by
  induction p with
  | const b => rw [term, ofTerm?, String.ofList_toList, Keyword.ofSpelling?_spelling]
  | and left right ihl ihr | or left right ihl ihr =>
    obtain ⟨hleft, hright⟩ := List.forall_mem_append.mp h
    rw [term, ofTerm?, String.ofList_toList, Head.ofWord?_word]
    simp [ofTerm?.conditions, ihl hleft, ihr hright]
  | not operand ih =>
    rw [term, ofTerm?, String.ofList_toList, Head.ofWord?_word]
    simp [ofTerm?.conditions, ih h]
  | compare op left right | like left right =>
    obtain ⟨hleft, hright⟩ := List.forall_mem_append.mp h
    rw [term, ofTerm?, String.ofList_toList, Head.ofWord?_word]
    simp [Scalar.ofTerm?.ofTerms?, Scalar.ofTerm?_term hleft, Scalar.ofTerm?_term hright]
  | isNull operand | isNotNull operand =>
    rw [term, ofTerm?, String.ofList_toList, Head.ofWord?_word]
    simp [Scalar.ofTerm?.ofTerms?, Scalar.ofTerm?_term h]

/-- Texts determine what they are texts of. Two values of which all columns, aliases and parameters
are spelled as names have different texts unless they are the same value, and so do two
conditions. -/
theorem texts_determine :
    (∀ x y : Scalar, (∀ name ∈ x.names, Text.IsName name.toList) →
      (∀ name ∈ y.names, Text.IsName name.toList) → x.text = y.text → x = y) ∧
    ∀ p q : Predicate, (∀ name ∈ p.names, Text.IsName name.toList) →
      (∀ name ∈ q.names, Text.IsName name.toList) → p.text = q.text → p = q := by
  refine ⟨fun x y hx hy htext => ?_, fun p q hp hq htext => ?_⟩
  · have hterm : x.term = y.term :=
      Term.eq_of_chars_eq (Scalar.term_isPlain hx) (Scalar.term_isPlain hy)
        (by rw [Scalar.chars_term, Scalar.chars_term, htext])
    exact Option.some.inj <|
      calc some x = Scalar.ofTerm? x.term := (Scalar.ofTerm?_term hx).symm
        _ = Scalar.ofTerm? y.term := congrArg _ hterm
        _ = some y := Scalar.ofTerm?_term hy
  · have hterm : p.term = q.term :=
      Term.eq_of_chars_eq (term_isPlain hp) (term_isPlain hq)
        (by rw [chars_term, chars_term, htext])
    exact Option.some.inj <|
      calc some p = ofTerm? p.term := (ofTerm?_term hp).symm
        _ = ofTerm? q.term := congrArg _ hterm
        _ = some q := ofTerm?_term hq

end Predicate

/-! ## Texts of the shop -/

namespace Shop

/-- The condition that a lookup by the name is compiled to. -/
def lookupPredicate : Predicate :=
  .and
    (.compare .eq
      (.function .substring [.column none "name", .constant 0,
        .arithmetic .add (.parameter "p1") (.constant 1)])
      (.parameter "p0"))
    (.compare .ge (.column (some "orders_alias") "placed") (.parameter "p2"))

/-- The condition of a lookup and a value to sort by are determined by their texts. -/
theorem lookup_text_determines :
    (∃ f, customers.compileFilter (lookup "Ann" "2024-05-01" 3) = .ok f ∧
      f.predicate.text =
        "and(eq(substring(name, 0, add(:p1, 1)), :p0), ge(orders_alias.placed, :p2))" ∧
      f.predicate = lookupPredicate) ∧
    ∃ key t, customers.sortKey ⟨.unary .negate namePart, .ascending⟩ .start = .ok key t ∧
      key.scalar.text = "negate(substring(name, :p0))" ∧
      key.scalar = .negate (.function .substring [.column none "name", .parameter "p0"]) := by
  obtain ⟨hscalars, hpredicates⟩ := Predicate.texts_determine
  refine ⟨?_, ?_⟩
  · have hcompiled : ((customers.compileFilter (lookup "Ann" "2024-05-01" 3)).toOption.any fun f =>
        f.predicate.names.all (fun name => decide (Text.IsName name.toList)) &&
          f.predicate.text ==
            "and(eq(substring(name, 0, add(:p1, 1)), :p0), ge(orders_alias.placed, :p2))") =
        true := by decide +kernel
    cases hrun : customers.compileFilter (lookup "Ann" "2024-05-01" 3) with
    | error err =>
      rw [hrun] at hcompiled
      cases hcompiled
    | ok f =>
      rw [hrun] at hcompiled
      obtain ⟨hnames, htext⟩ := Bool.and_eq_true_iff.mp hcompiled
      have htext := beq_iff_eq.mp htext
      refine ⟨f, rfl, htext, hpredicates _ _ (fun name hname => ?_) (by decide) (htext.trans ?_)⟩
      · exact of_decide_eq_true (List.all_eq_true.mp hnames name hname)
      · decide +kernel
  · have hcompiled : ((outcome (customers.sortKey ⟨.unary .negate namePart, .ascending⟩
        .start)).toOption.any fun key =>
          key.scalar.names.all (fun name => decide (Text.IsName name.toList)) &&
            key.scalar.text == "negate(substring(name, :p0))") = true := by decide +kernel
    cases hrun : customers.sortKey ⟨.unary .negate namePart, .ascending⟩ .start with
    | error err t =>
      rw [hrun] at hcompiled
      cases hcompiled
    | ok key t =>
      rw [hrun] at hcompiled
      obtain ⟨hnames, htext⟩ := Bool.and_eq_true_iff.mp hcompiled
      have htext := beq_iff_eq.mp htext
      refine ⟨key, t, rfl, htext, hscalars _ _ (fun name hname => ?_) (by decide) (htext.trans ?_)⟩
      · exact of_decide_eq_true (List.all_eq_true.mp hnames name hname)
      · decide +kernel

end Shop

end EntityQuery
