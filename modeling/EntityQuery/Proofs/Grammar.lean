import EntityQuery.Filter.Parser

/-!
# The grammar of filters and sort orders

Which sequences of tokens are filters and sort orders, and what tree each one stands for:

    or             ::= and             | or 'or' and
    and            ::= relational      | and 'and' relational
    relational     ::= additive        | relational comparison additive
    additive       ::= multiplicative  | additive ('add' | 'sub') multiplicative
    multiplicative ::= prefixed        | multiplicative ('mul' | 'div' | 'mod') prefixed
    prefixed       ::= primary         | ('-' | 'not') prefixed
    primary        ::= literal | name ('/' name)* | name '(' (or (',' or)*)? ')' | '(' or ')'
    item           ::= or | or 'asc' | or 'desc'

A sort order is a list of items with commas between them. The five levels of operators share the
two rules of `Derives` for operands and operations, which group to the left. A derivation counts its
nesting: the greatest number of prefix operators, opening parentheses and calls inside of each
other. A tree has no spans, and parentheses leave no node in it.
-/

namespace EntityQuery

/-! ## Trees -/

/-- A parsed expression without its spans. -/
inductive Tree
  | binary (op : BinaryOp) (left right : Tree)
  | unary (op : UnaryOp) (operand : Tree)
  | path (segments : List String)
  | call (name : String) (args : List Tree)
  | literal (value : Literal)

/-- The tree of a parsed expression. -/
def Syntax.tree : Syntax → Tree
  | binary op left right _ => .binary op left.tree right.tree
  | unary op operand _ => .unary op operand.tree
  | path segments _ => .path segments
  | call name args _ => .call name.value (trees args)
  | literal value _ => .literal value
where
  /-- The trees of some parsed expressions. -/
  trees : List Syntax → List Tree
    | [] => []
    | e :: es => e.tree :: trees es

/-- The trees of some parsed expressions are the tree of each. -/
theorem Syntax.trees_eq_map (es : List Syntax) : tree.trees es = es.map tree := by
  induction es with
  | nil => rfl
  | cons e es ih => exact congrArg (e.tree :: ·) ih

/-- The tree of an item of a sort order, with its direction. -/
def OrderItem.tree (item : OrderItem) : Tree × Direction := (item.expr.tree, item.direction)

/-! ## Tokens -/

/-- The keyword of an operator between operands. -/
def BinaryOp.token : BinaryOp → Token
  | logical op => .keyword (.logical op)
  | relational op => .keyword (.relational op)
  | arithmetic op => .keyword (.arithmetic op)

/-- The token of a prefix operator. -/
def UnaryOp.token : UnaryOp → Token
  | negate => .symbol .minus
  | not => .keyword .not

/-- The token of a literal. -/
def Literal.token : Literal → Token
  | null => .keyword .null
  | bool b => .keyword (.bool b)
  | int n => .int n
  | long n => .long n
  | double x => .double x
  | decimal digits => .decimal digits
  | text value => .text value
  | quoted kind body => .quoted kind body

/-- The keyword of a direction. -/
def Direction.token (d : Direction) : Token := .keyword (.direction d)

/-! ## Levels -/

/-- The levels of operators between operands, from the loosest to the tightest. -/
inductive Level
  | or
  | and
  | relational
  | additive
  | multiplicative

/-- The level of an operator. -/
def BinaryOp.level : BinaryOp → Level
  | logical .or => .or
  | logical .and => .and
  | relational _ => .relational
  | arithmetic .add | arithmetic .sub => .additive
  | arithmetic .mul | arithmetic .div | arithmetic .mod => .multiplicative

/-- What the rules of the grammar are about. -/
inductive Category
  /-- Operands with operators of a level between them. -/
  | operations (level : Level)
  /-- An operand with prefix operators before it. -/
  | prefixed
  /-- An operand that begins with no operator. -/
  | primary

/-- An expression is made of operations of the loosest level. -/
abbrev Category.expression : Category := .operations .or

/-- What the operands of operations of a level are. -/
def Level.operands : Level → Category
  | or => .operations .and
  | and => .operations .relational
  | relational => .operations .additive
  | additive => .operations .multiplicative
  | multiplicative => .prefixed

/-! ## Derivations -/

/-- Sequences of tokens with commas between them, each of which stands for something, and all of
what they stand for. -/
inductive Listed {α : Type} (D : List Token → α → Nat → Prop) : List Token → List α → Nat → Prop
  | last {ts : List Token} {a : α} {n : Nat} (h : D ts a n) : Listed D ts [a] n
  | more {ts us : List Token} {a : α} {as : List α} {m n : Nat} (h : D ts a m)
      (hmore : Listed D us as n) :
      Listed D (ts ++ .symbol .comma :: us) (a :: as) (max m n)

/-- Tokens derive from a category with a tree, at some nesting. -/
inductive Derives : Category → List Token → Tree → Nat → Prop
  /-- One operand is an operation of every level. -/
  | operand {level : Level} {ts : List Token} {e : Tree} {n : Nat}
      (h : Derives level.operands ts e n) : Derives (.operations level) ts e n
  /-- Operators of one level group to the left. -/
  | operation {op : BinaryOp} {ts us : List Token} {left right : Tree} {m n : Nat}
      (hleft : Derives (.operations op.level) ts left m)
      (hright : Derives op.level.operands us right n) :
      Derives (.operations op.level) (ts ++ op.token :: us) (.binary op left right) (max m n)
  /-- A prefix operator stands before an operand, which may have one too. -/
  | unary {op : UnaryOp} {ts : List Token} {e : Tree} {n : Nat} (h : Derives .prefixed ts e n) :
      Derives .prefixed (op.token :: ts) (.unary op e) (n + 1)
  /-- An operand needs no prefix operator. -/
  | primary {ts : List Token} {e : Tree} {n : Nat} (h : Derives .primary ts e n) :
      Derives .prefixed ts e n
  /-- A literal is an operand. -/
  | literal (value : Literal) : Derives .primary [value.token] (.literal value) 0
  /-- Names with slashes between them are an operand. -/
  | path (first : String) (more : List String) :
      Derives .primary
        (.ident first :: more.flatMap fun segment => [.symbol .slash, .ident segment])
        (.path (first :: more)) 0
  /-- A call may have no arguments. -/
  | emptyCall (name : String) :
      Derives .primary [.ident name, .symbol .open, .symbol .close] (.call name []) 1
  /-- The arguments of a call have commas between them. -/
  | call {name : String} {ts : List Token} {args : List Tree} {n : Nat}
      (h : Listed (Derives .expression) ts args n) :
      Derives .primary (.ident name :: .symbol .open :: (ts ++ [.symbol .close])) (.call name args)
        (n + 1)
  /-- An expression in parentheses is an operand. -/
  | group {ts : List Token} {e : Tree} {n : Nat} (h : Derives .expression ts e n) :
      Derives .primary (.symbol .open :: (ts ++ [.symbol .close])) e (n + 1)

/-- Tokens are an item of a sort order; without a direction it is ascending. -/
inductive DerivesItem : List Token → Tree × Direction → Nat → Prop
  | plain {ts : List Token} {e : Tree} {n : Nat} (h : Derives .expression ts e n) :
      DerivesItem ts (e, .ascending) n
  | directed {ts : List Token} {e : Tree} {n : Nat} (h : Derives .expression ts e n)
      (d : Direction) : DerivesItem (ts ++ [d.token]) (e, d) n

end EntityQuery
