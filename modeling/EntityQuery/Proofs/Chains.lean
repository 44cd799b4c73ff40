import EntityQuery.Proofs.FilterTexts
import EntityQuery.Proofs.UniqueReading

/-!
# Comparisons side by side

A typed expression is printed with parentheses around its logical and arithmetic operations and with
none around its comparisons. What the text is read as is given by the comparisons that stand side by
side in it: a `Chain` is an operand with comparisons and further operands behind it, and
`Expr.chain` builds the chain of an expression from those of its parts. A prefix operator takes the
first operand of a chain only, and an arithmetic operator the last operand before it and the first
one behind it. The text is read as tokens that derive with the tree of the chain
(`Expr.exists_lexes`).
-/

namespace EntityQuery

/-! ## Chains -/

/-- Operands with comparisons between them. -/
inductive Chain
  | operand (e : Tree)
  /-- One more comparison, with the operand behind it. -/
  | compare (c : Chain) (op : RelationalOp) (e : Tree)

namespace Chain

/-- The tree of a chain: comparisons group to the left. -/
def tree : Chain → Tree
  | operand e => e
  | compare c op e => .binary (.relational op) c.tree e

/-- A prefix operator before a chain belongs to the first operand. -/
def unary (op : UnaryOp) : Chain → Chain
  | operand e => operand (.unary op e)
  | compare c op' e => compare (c.unary op) op' e

/-- Two chains with a comparison between them. -/
def relational (op : RelationalOp) (c : Chain) : Chain → Chain
  | operand e => compare c op e
  | compare d op' e => compare (relational op c d) op' e

/-- An arithmetic operator behind a chain belongs to the last operand. -/
def arithmeticLast (op : ArithmeticOp) (c : Chain) (right : Tree) : Chain :=
  match c with
  | operand e => operand (.binary (.arithmetic op) e right)
  | compare c op' e => compare c op' (.binary (.arithmetic op) e right)

/-- Two chains with an arithmetic operator between them, which takes the operands beside it. -/
def arithmetic (op : ArithmeticOp) (c : Chain) : Chain → Chain
  | operand e => c.arithmeticLast op e
  | compare d op' e => compare (arithmetic op c d) op' e

/-- Tokens are those of the operands of a chain, which derive from a category, with the comparisons
between them. -/
inductive DerivesAt (k : Category) : List Token → Chain → Prop
  | operand {ts : List Token} {e : Tree} {n : Nat} (h : Derives k ts e n) :
      DerivesAt k ts (.operand e)
  | compare {ts us : List Token} {c : Chain} {op : RelationalOp} {e : Tree} {n : Nat}
      (h : DerivesAt k ts c) (he : Derives k us e n) :
      DerivesAt k (ts ++ (BinaryOp.relational op).token :: us) (.compare c op e)

namespace DerivesAt

variable {k : Category} {ts us : List Token} {c d : Chain}

/-- A prefix operator before the tokens of a chain goes to its first operand. -/
theorem unary (op : UnaryOp) (h : DerivesAt .prefixed ts c) :
    DerivesAt .prefixed (op.token :: ts) (c.unary op) := by
  induction h with
  | operand h => exact .operand h.unary
  | compare _ he ih => exact ih.compare he

/-- The tokens of two chains with a comparison between them are those of both. -/
theorem relational (op : RelationalOp) (h : DerivesAt k ts c) (h' : DerivesAt k us d) :
    DerivesAt k (ts ++ (BinaryOp.relational op).token :: us) (c.relational op d) := by
  induction h' with
  | operand he => exact h.compare he
  | compare _ he ih =>
    rw [← List.cons_append, ← List.append_assoc]
    exact ih.compare he

/-- What needs no operators between operands is also an operand of comparisons. -/
theorem additive (h : DerivesAt .prefixed ts c) : DerivesAt (.operations .additive) ts c := by
  induction h with
  | operand h => exact .operand (h.operations .additive)
  | compare _ he ih => exact ih.compare (he.operations .additive)

/-- An arithmetic operation is an operand of comparisons. -/
theorem operation (op : ArithmeticOp) {e e' : Tree} {m n : Nat} (h : Derives .prefixed ts e m)
    (h' : Derives .prefixed us e' n) :
    ∃ n, Derives (.operations .additive) (ts ++ (BinaryOp.arithmetic op).token :: us)
      (.binary (.arithmetic op) e e') n := by
  have hleft := h.operations (BinaryOp.arithmetic op).level
  cases op with
  | add | sub => exact ⟨_, .operation hleft (h'.operations .multiplicative)⟩
  | mul | div | mod => exact ⟨_, .operand (.operation hleft h')⟩

/-- An arithmetic operator behind the tokens of a chain takes the last operand. -/
theorem arithmeticLast (op : ArithmeticOp) {e : Tree} {n : Nat} (h : DerivesAt .prefixed ts c)
    (he : Derives .prefixed us e n) :
    DerivesAt (.operations .additive) (ts ++ (BinaryOp.arithmetic op).token :: us)
      (c.arithmeticLast op e) := by
  cases h with
  | operand h =>
    obtain ⟨n, hoperation⟩ := operation op h he
    exact .operand hoperation
  | compare h hlast =>
    obtain ⟨n, hoperation⟩ := operation op hlast he
    rw [List.append_assoc, List.cons_append]
    exact h.additive.compare hoperation

/-- The tokens of two chains with an arithmetic operator between them are those of both. -/
theorem arithmetic (op : ArithmeticOp) (h : DerivesAt .prefixed ts c)
    (h' : DerivesAt .prefixed us d) :
    DerivesAt (.operations .additive) (ts ++ (BinaryOp.arithmetic op).token :: us)
      (c.arithmetic op d) := by
  induction h' with
  | operand he => exact h.arithmeticLast op he
  | compare _ he ih =>
    rw [← List.cons_append, ← List.append_assoc]
    exact ih.compare (he.operations .additive)

/-- The tokens of a chain are comparisons with its tree. -/
theorem exists_derives (h : DerivesAt (.operations .additive) ts c) :
    ∃ n, Derives (.operations .relational) ts c.tree n := by
  induction h with
  | operand h => exact ⟨_, .operand h⟩
  | @compare _ _ _ op _ _ _ he ih =>
    obtain ⟨n, hleft⟩ := ih
    have hleft : Derives (.operations (BinaryOp.relational op).level) _ _ n := hleft
    exact ⟨_, .operation hleft he⟩

/-- The tokens of a chain are an expression with its tree. -/
theorem exists_expression (h : DerivesAt (.operations .additive) ts c) :
    ∃ n, Derives .expression ts c.tree n := by
  obtain ⟨n, hrelational⟩ := h.exists_derives
  have hand : Derives (.operations .and) ts c.tree n := .operand hrelational
  exact ⟨n, .operand hand⟩

/-- The tokens of two chains with a connective between them are an expression with the trees of
both. -/
theorem logical (op : LogicalOp) (h : DerivesAt .prefixed ts c) (h' : DerivesAt .prefixed us d) :
    ∃ n, Derives .expression (ts ++ (BinaryOp.logical op).token :: us)
      (.binary (.logical op) c.tree d.tree) n := by
  obtain ⟨m, hleft⟩ := h.additive.exists_derives
  obtain ⟨n, hright⟩ := h'.additive.exists_derives
  have hand : Derives (.operations (BinaryOp.logical .and).level) ts c.tree m := .operand hleft
  cases op with
  | and => exact ⟨_, .operand (.operation hand hright)⟩
  | or =>
    have hor : Derives (.operations (BinaryOp.logical .or).level) ts c.tree m := .operand hand
    have hand' : Derives (.operations .and) us d.tree n := .operand hright
    exact ⟨_, .operation hor hand'⟩

/-- An expression in parentheses is an operand. -/
theorem group {e : Tree} {n : Nat} (h : Derives .expression ts e n) :
    DerivesAt .prefixed (.symbol .open :: (ts ++ [.symbol .close])) (.operand e) :=
  .operand (.primary (.group h))

end DerivesAt

end Chain

/-- The comparisons that stand side by side in the text of an expression. -/
def Expr.chain : Expr → Chain
  | logical op left right => .operand (.binary (.logical op) left.chain.tree right.chain.tree)
  | arithmetic op left right => .operand (left.chain.arithmetic op right.chain).tree
  | relational op left right => left.chain.relational op right.chain
  | unary op operand => operand.chain.unary op
  | property path _ => .operand (.path path)
  | call f args => .operand (.call f.name (trees args))
  | constant value _ => .operand (.literal (value.literal?.getD .null))
where
  /-- The trees of the chains of some expressions. -/
  trees : List Expr → List Tree
    | [] => []
    | e :: es => e.chain.tree :: trees es

/-! ## What a text is read as -/

namespace Lexeme

variable {cs ds : List Char} {ts us : List Token}

/-- Two texts with a keyword between them are read with the keyword between their tokens. -/
theorem Lexes.between (k : Keyword) (h : Lexes cs ts) (h' : Lexes ds us) :
    Lexes (cs ++ ' ' :: (k.spelling.toList ++ ' ' :: ds)) (ts ++ .keyword k :: us) :=
  h.spaced ((Lexes.spelling (.keyword k)).spaced h')

/-- Names with slashes between them are read as a path. -/
theorem Lexes.path {first : String} {more : List String}
    (h : ∀ name ∈ first :: more, (Token.ident name).IsWritable) :
    Lexes (['/'].intercalate ((first :: more).map String.toList))
      (.ident first :: more.flatMap fun name => [.symbol .slash, .ident name]) := by
  obtain ⟨hfirst, hmore⟩ := List.forall_mem_cons.mp h
  have hname := Lexes.spelling (.ident hfirst.1 hfirst.2)
  induction more generalizing first with
  | nil => simpa [List.intercalate] using hname
  | cons next more ih =>
    obtain ⟨hnext, -⟩ := List.forall_mem_cons.mp hmore
    have hrest := ih hmore hnext (List.forall_mem_cons.mp hmore).2
      (Lexes.spelling (.ident hnext.1 hnext.2))
    have htext : ['/'].intercalate ((first :: next :: more).map String.toList) =
        first.toList ++ '/' :: ['/'].intercalate ((next :: more).map String.toList) := by
      simp [List.intercalate]
    rw [htext]
    exact hname.marked .slash hrest.reads

end Lexeme

namespace Expr

open Lexeme (Lexes)

/-- The name of a function can be written as a name. -/
theorem isWritable_function (f : Builtin) : (Token.ident f.name).IsWritable := by
  refine ⟨(Head.function f).isName_word, ?_⟩
  intro k hk
  have hheads : Head.ofWord? (Head.keyword k).word = Head.ofWord? (Head.function f).word :=
    congrArg Head.ofWord? hk
  rw [Head.ofWord?_word, Head.ofWord?_word] at hheads
  cases hheads

/-- An operation in parentheses is written as its operands with the keyword between them. -/
theorem toList_text_logical (op : LogicalOp) (left right : Expr) :
    (logical op left right).text.toList = '(' :: ((left.text.toList ++ ' ' ::
      ((Keyword.logical op).spelling.toList ++ ' ' :: right.text.toList)) ++ [')']) := by
  simp [text, Keyword.spelling]

@[inherit_doc toList_text_logical]
theorem toList_text_arithmetic (op : ArithmeticOp) (left right : Expr) :
    (arithmetic op left right).text.toList = '(' :: ((left.text.toList ++ ' ' ::
      ((Keyword.arithmetic op).spelling.toList ++ ' ' :: right.text.toList)) ++ [')']) := by
  simp [text, Keyword.spelling]

/-- A comparison is written as its operands with the keyword between them. -/
theorem toList_text_relational (op : RelationalOp) (left right : Expr) :
    (relational op left right).text.toList = left.text.toList ++ ' ' ::
      ((Keyword.relational op).spelling.toList ++ ' ' :: right.text.toList) := by
  simp [text, Keyword.spelling]

/-- A call is written as its name with the arguments in parentheses. -/
theorem toList_text_call (f : Builtin) (args : List Expr) :
    (call f args).text.toList = f.name.toList ++ '(' ::
      ([','].intercalate ((text.texts args).map String.toList) ++ [')']) := by
  simp [text, String.toList_intercalate]

/-- A text of a prefix operator and an operand is read as the operator and what the operand is read
as. -/
theorem lexes_unary (op : UnaryOp) {operand : Expr} {ts : List Token}
    (h : Lexes operand.text.toList ts) : Lexes (unary op operand).text.toList (op.token :: ts) := by
  cases op with
  | negate =>
    have hchars : (unary .negate operand).text.toList = '-' :: operand.text.toList := by
      simp [text]
    rw [hchars]
    exact h.prefixed .minus
  | not =>
    have hchars : (unary .not operand).text.toList =
        (Keyword.not).spelling.toList ++ ' ' :: operand.text.toList := by
      simp [text, Keyword.spelling]
    rw [hchars]
    exact (Lexes.spelling (.keyword .not)).spaced h

/-- Text, a truth value or null is written as its literal. -/
theorem lexes_constant {value : Value} {ty : EdmType} (h : (constant value ty).IsTextual) :
    Lexes (constant value ty).text.toList [(value.literal?.getD .null).token] := by
  cases value with
  | null => exact Lexes.spelling (.keyword .null)
  | bool b => cases b <;> exact Lexes.spelling (.keyword (.bool _))
  | string s => exact Lexes.spelling (.text s)
  | _ => exact h.elim

/-- The text of an expression is read as tokens that derive with the tree of its chain. -/
theorem exists_lexes {e : Expr} (hnamed : e.tree.IsNamed)
    (htext : ∀ part ∈ e.parts, part.IsTextual) :
    ∃ ts, Lexes e.text.toList ts ∧ e.chain.DerivesAt .prefixed ts := by
  induction e using @Expr.rec _
    (fun es => Tree.IsNamed.AllNamed (tree.trees es) →
      (∀ part ∈ parts.partsOfAll es, part.IsTextual) → es ≠ [] →
      ∃ ts n, Lexes ([','].intercalate ((text.texts es).map String.toList)) ts ∧
        Listed (Derives .expression) ts (chain.trees es) n) with
  | logical op left right ihl ihr =>
    obtain ⟨hleft, hright⟩ := List.forall_mem_append.mp (List.forall_mem_cons.mp htext).2
    obtain ⟨ts, hlexes, hchain⟩ := ihl hnamed.1 hleft
    obtain ⟨us, hlexes', hchain'⟩ := ihr hnamed.2 hright
    obtain ⟨n, hd⟩ := hchain.logical op hchain'
    rw [toList_text_logical]
    exact ⟨_, (hlexes.between (.logical op) hlexes').enclosed, .group hd⟩
  | arithmetic op left right ihl ihr =>
    obtain ⟨hleft, hright⟩ := List.forall_mem_append.mp (List.forall_mem_cons.mp htext).2
    obtain ⟨ts, hlexes, hchain⟩ := ihl hnamed.1 hleft
    obtain ⟨us, hlexes', hchain'⟩ := ihr hnamed.2 hright
    obtain ⟨n, hd⟩ := (hchain.arithmetic op hchain').exists_expression
    rw [toList_text_arithmetic]
    exact ⟨_, (hlexes.between (.arithmetic op) hlexes').enclosed, .group hd⟩
  | relational op left right ihl ihr =>
    obtain ⟨hleft, hright⟩ := List.forall_mem_append.mp (List.forall_mem_cons.mp htext).2
    obtain ⟨ts, hlexes, hchain⟩ := ihl hnamed.1 hleft
    obtain ⟨us, hlexes', hchain'⟩ := ihr hnamed.2 hright
    rw [toList_text_relational]
    exact ⟨_, hlexes.between (.relational op) hlexes', hchain.relational op hchain'⟩
  | unary op operand ih =>
    obtain ⟨ts, hlexes, hchain⟩ := ih hnamed (List.forall_mem_cons.mp htext).2
    exact ⟨_, lexes_unary op hlexes, hchain.unary op⟩
  | property path ty =>
    obtain ⟨hne, hnames⟩ := hnamed
    obtain ⟨first, more, rfl⟩ := List.exists_cons_of_ne_nil hne
    have hchars : (property (first :: more) ty).text.toList =
        ['/'].intercalate ((first :: more).map String.toList) := String.toList_intercalate
    rw [hchars]
    exact ⟨_, Lexes.path hnames, .operand (.primary (.path first more))⟩
  | call f args ih =>
    have hwritable := isWritable_function f
    have hname := Lexes.spelling (.ident hwritable.1 hwritable.2)
    rw [toList_text_call]
    cases args with
    | nil =>
      exact ⟨_, hname.marked .open (Lexeme.ReadsAs.nil.symbol .close),
        .operand (.primary (.emptyCall f.name))⟩
    | cons e es =>
      obtain ⟨ts, n, hlexes, hlisted⟩ :=
        ih hnamed (List.forall_mem_cons.mp htext).2 (List.cons_ne_nil e es)
      exact ⟨_, hname.marked .open (hlexes.marked .close .nil).reads,
        .operand (.primary (.call hlisted))⟩
  | constant value ty =>
    have htextual := htext _ (self_mem_parts _)
    exact ⟨_, lexes_constant htextual, .operand (.primary (.literal _))⟩
  | nil =>
    rename_i hne
    exact absurd rfl hne
  | cons e es ihe ihes =>
    rename_i hnamed htext _
    obtain ⟨hfirst, hrest⟩ := List.forall_mem_append.mp htext
    obtain ⟨ts, hlexes, hchain⟩ := ihe hnamed.1 hfirst
    obtain ⟨m, hd⟩ := hchain.additive.exists_expression
    cases es with
    | nil =>
      have hchars : [','].intercalate ((text.texts [e]).map String.toList) = e.text.toList := by
        simp [text.texts, List.intercalate]
      rw [hchars]
      exact ⟨ts, m, hlexes, .last hd⟩
    | cons e' es =>
      obtain ⟨us, n, hlexes', hlisted⟩ := ihes hnamed.2 hrest (List.cons_ne_nil e' es)
      have hchars : [','].intercalate ((text.texts (e :: e' :: es)).map String.toList) =
          e.text.toList ++
            ',' :: [','].intercalate ((text.texts (e' :: es)).map String.toList) := by
        simp [text.texts, List.intercalate]
      rw [hchars]
      exact ⟨_, _, hlexes.marked .comma hlexes'.reads, .more hd hlisted⟩

end Expr

end EntityQuery
