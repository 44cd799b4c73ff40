import EntityQuery.Filter.ParseError
import EntityQuery.Filter.Syntax

/-!
# Parsing filters and sort orders

From the loosest to the tightest, operators bind as follows: `or`; `and`; the comparisons; `add` and
`sub`; `mul`, `div` and `mod`; the two prefix operators. All binary operators group to the left.
An operand is a literal, a path of names, a call, or an expression in parentheses.

A parser takes lexemes off the front of a list and returns the rest together with a proof that it
took at least one, which is what ends the loops over operators and arguments. What follows a prefix
operator, an opening parenthesis or the parenthesis of a call is one level deeper than it, and
`operand` recurses over the number of levels that are left.
-/

namespace EntityQuery

/-- What is left of some lexemes after at least one was taken. -/
abbrev Lexeme.Rest (ls : List Lexeme) := {rest : List Lexeme // rest.length < ls.length}

/-- What is left of some lexemes after none or more were taken. -/
abbrev Lexeme.Tail (ls : List Lexeme) := {rest : List Lexeme // rest.length ≤ ls.length}

/-- Takes a value off the front of some lexemes. -/
abbrev Parser (α : Type) := (ls : List Lexeme) → Except ParseError (α × Lexeme.Rest ls)

namespace Parser

/-- What the parsers of one text share. -/
structure Setting where
  /-- The offset of the end of the text. -/
  stop : Nat
  /-- How deep expressions may be nested. -/
  limit : Nat

/-- The error of a text that ends too early. -/
def Setting.endError (s : Setting) : ParseError := ⟨.unexpectedEnd, ⟨s.stop, s.stop⟩⟩

/-- The error of an expression that is nested too deep, at the token that opens it. -/
def Setting.depthError (s : Setting) (span : Span) : ParseError := ⟨.tooDeep s.limit, span⟩

/-- The next token, if there is one. -/
def peek : List Lexeme → Except ParseError (Option Token)
  | [] => .ok none
  | l :: _ => l.token.map fun t => some t.value

/-- Takes the next token. -/
def next (s : Setting) : Parser (Located Token)
  | [] => .error s.endError
  | l :: rest => l.token.map fun t => (t, ⟨rest, by simp⟩)

/-- Takes the closing parenthesis. -/
def closing (s : Setting) : Parser (Located Token) := fun ls => do
  let (t, rest) ← next s ls
  if t.value = .symbol .close then return (t, rest)
  else throw ⟨.notClosed t.value, t.span⟩

/-- Takes the name of a property. -/
def name (s : Setting) : Parser (Located String) := fun ls => do
  let (t, rest) ← next s ls
  match t.value with
  | .ident name => return (⟨name, t.span⟩, rest)
  | found => throw ⟨.notAProperty found, t.span⟩

/-- The literal that a token is. -/
def literal? : Token → Option Literal
  | .keyword .null => some .null
  | .keyword (.bool b) => some (.bool b)
  | .int n => some (.int n)
  | .long n => some (.long n)
  | .double x => some (.double x)
  | .decimal digits => some (.decimal digits)
  | .text value => some (.text value)
  | .quoted kind body => some (.quoted kind body)
  | _ => none

/-- The prefix operator that a token is. -/
def unaryOp? : Token → Option UnaryOp
  | .symbol .minus => some .negate
  | .keyword .not => some .not
  | _ => none

/-! ### Operators between operands -/

/-- Goes on from a left operand with operators of one level and their right operands. -/
def chainFrom (operand : Parser Syntax) (op? : Token → Option BinaryOp) (left : Syntax)
    (ls : List Lexeme) : Except ParseError (Syntax × Lexeme.Tail ls) :=
  match ls with
  | [] => .ok (left, ⟨[], Nat.le_refl _⟩)
  | l :: after => do
    let t ← l.token
    match op? t.value with
    | none => return (left, ⟨l :: after, Nat.le_refl _⟩)
    | some op => do
      let (right, rest) ← operand after
      let (result, rest') ← chainFrom operand op? (left.join op right) rest.1
      return (result, ⟨rest'.1, by
        have := rest.2
        have := rest'.2
        simp only [List.length_cons]
        omega⟩)
termination_by ls.length
decreasing_by have := rest.2; simp only [List.length_cons]; omega

/-- Takes operands with operators of one level between them, grouped to the left. -/
def chain (op? : Token → Option BinaryOp) (operand : Parser Syntax) : Parser Syntax := fun ls => do
  let (left, rest) ← operand ls
  let (result, rest') ← chainFrom operand op? left rest.1
  return (result, ⟨rest'.1, Nat.lt_of_le_of_lt rest'.2 rest.2⟩)

/-- The level of `or`. -/
def orOp? : Token → Option BinaryOp
  | .keyword (.logical .or) => some (.logical .or)
  | _ => none

/-- The level of `and`. -/
def andOp? : Token → Option BinaryOp
  | .keyword (.logical .and) => some (.logical .and)
  | _ => none

/-- The level of the comparisons. -/
def relationalOp? : Token → Option BinaryOp
  | .keyword (.relational op) => some (.relational op)
  | _ => none

/-- The level of `add` and `sub`. -/
def additiveOp? : Token → Option BinaryOp
  | .keyword (.arithmetic .add) => some (.arithmetic .add)
  | .keyword (.arithmetic .sub) => some (.arithmetic .sub)
  | _ => none

/-- The level of `mul`, `div` and `mod`. -/
def multiplicativeOp? : Token → Option BinaryOp
  | .keyword (.arithmetic .mul) => some (.arithmetic .mul)
  | .keyword (.arithmetic .div) => some (.arithmetic .div)
  | .keyword (.arithmetic .mod) => some (.arithmetic .mod)
  | _ => none

/-- Takes an expression, given how to take an operand. -/
def expressionOf (operand : Parser Syntax) : Parser Syntax :=
  chain orOp? (chain andOp? (chain relationalOp? (chain additiveOp?
    (chain multiplicativeOp? operand))))

/-! ### Operands -/

/-- The parsers of the next level down. -/
structure Deeper where
  /-- Takes an operand. -/
  operand : Parser Syntax
  /-- Takes an expression. -/
  expression : Parser Syntax

/-- Takes expressions with commas between them. -/
def arguments (expression : Parser Syntax) (ls : List Lexeme) :
    Except ParseError (List Syntax × Lexeme.Rest ls) := do
  let (e, rest) ← expression ls
  match _h : rest.1 with
  | [] => return ([e], rest)
  | l :: after => do
    let t ← l.token
    if t.value = .symbol .comma then
      let (es, rest') ← arguments expression after
      return (e :: es, ⟨rest'.1, by
        have h₁ := rest.2; have h₂ := rest'.2; rw [_h, List.length_cons] at h₁; omega⟩)
    else return ([e], rest)
termination_by ls.length
decreasing_by have h₁ := rest.2; rw [_h, List.length_cons] at h₁; omega

/-- Takes what stands between the parentheses of a call. -/
def callArguments (expression : Parser Syntax) (ls : List Lexeme) :
    Except ParseError (List Syntax × Lexeme.Tail ls) := do
  let t ← peek ls
  if t = some (.symbol .close) then return ([], ⟨ls, Nat.le_refl _⟩)
  else do
    let (es, rest) ← arguments expression ls
    return (es, ⟨rest.1, Nat.le_of_lt rest.2⟩)

/-- Takes the segments of a path after the first one, each with the slash before it. -/
def segments (s : Setting) (ls : List Lexeme) :
    Except ParseError (List (Located String) × Lexeme.Tail ls) :=
  match ls with
  | [] => .ok ([], ⟨[], Nat.le_refl _⟩)
  | l :: after => do
    let t ← l.token
    if t.value = .symbol .slash then do
      let (segment, rest) ← name s after
      let (more, rest') ← segments s rest.1
      return (segment :: more, ⟨rest'.1, by
        have := rest.2; have := rest'.2; simp only [List.length_cons]; omega⟩)
    else return ([], ⟨l :: after, Nat.le_refl _⟩)
termination_by ls.length
decreasing_by have := rest.2; simp only [List.length_cons]; omega

/-- Takes what follows a name: the arguments of a call, or the further segments of a path. -/
def afterName (s : Setting) (deeper? : Option Deeper) (first : Located String)
    (ls : List Lexeme) : Except ParseError (Syntax × Lexeme.Tail ls) := do
  let t ← peek ls
  if t = some (.symbol .open) then
    match deeper? with
    | none => throw (s.depthError first.span)
    | some deeper => do
      let (args, rest) ← callArguments deeper.expression ls.tail
      let (close, rest') ← closing s rest.1
      return (.call first args (first.span.merge close.span), ⟨rest'.1, by
        have := rest.2; have := rest'.2; have := List.length_tail (l := ls); omega⟩)
  else do
    let (more, rest) ← segments s ls
    let span := more.foldl (fun span segment => span.merge segment.span) first.span
    return (.path (first.value :: more.map (·.value)) span, rest)

/-- Takes an operand. The parsers of the next level down are missing when expressions may not be
nested any deeper. -/
def operandWith (s : Setting) (deeper? : Option Deeper) : Parser Syntax := fun ls => do
  let (t, rest) ← next s ls
  match unaryOp? t.value with
  | some op =>
    match deeper? with
    | none => throw (s.depthError t.span)
    | some deeper => do
      let (e, rest') ← deeper.operand rest.1
      return (.unary op e (t.span.merge e.span), ⟨rest'.1, Nat.lt_trans rest'.2 rest.2⟩)
  | none =>
    match t.value with
    | .symbol .open =>
      match deeper? with
      | none => throw (s.depthError t.span)
      | some deeper => do
        let (e, inner) ← deeper.expression rest.1
        let (_, rest') ← closing s inner.1
        return (e, ⟨rest'.1, Nat.lt_trans rest'.2 (Nat.lt_trans inner.2 rest.2)⟩)
    | .ident name => do
      let (e, rest') ← afterName s deeper? ⟨name, t.span⟩ rest.1
      return (e, ⟨rest'.1, Nat.lt_of_le_of_lt rest'.2 rest.2⟩)
    | found =>
      match literal? found with
      | some value => return (.literal value t.span, rest)
      | none => throw ⟨.notAnExpression found, t.span⟩

/-- Takes an operand whose parts are nested at most so many levels deep. -/
def operand (s : Setting) : Nat → Parser Syntax
  | 0, ls => operandWith s none ls
  | levels + 1, ls =>
    operandWith s (some
      ⟨fun ls => operand s levels ls, expressionOf fun ls => operand s levels ls⟩) ls

/-- Takes an expression. -/
def expression (s : Setting) : Parser Syntax := expressionOf (operand s s.limit)

/-! ### Whole texts -/

/-- Refuses what follows a complete text. -/
def finish : List Lexeme → Except ParseError Unit
  | [] => .ok ()
  | l :: _ => do
    let t ← l.token
    throw ⟨.trailing t.value, t.span⟩

/-- Takes the direction of an item of a sort order, if one is written. -/
def direction (ls : List Lexeme) :
    Except ParseError (Option (Located Direction) × Lexeme.Tail ls) :=
  match ls with
  | [] => .ok (none, ⟨[], Nat.le_refl _⟩)
  | l :: after => do
    let t ← l.token
    match t.value with
    | .keyword (.direction d) => return (some ⟨d, t.span⟩, ⟨after, by simp⟩)
    | _ => return (none, ⟨l :: after, Nat.le_refl _⟩)

/-- Takes an item of a sort order. -/
def orderItem (expression : Parser Syntax) : Parser OrderItem := fun ls => do
  let (e, rest) ← expression ls
  let (direction?, rest') ← direction rest.1
  let item :=
    match direction? with
    | some d => ⟨e, d.value, e.span.merge d.span⟩
    | none => ⟨e, .ascending, e.span⟩
  return (item, ⟨rest'.1, Nat.lt_of_le_of_lt rest'.2 rest.2⟩)

/-- Takes items of a sort order with commas between them. -/
def orderItems (expression : Parser Syntax) (ls : List Lexeme) :
    Except ParseError (List OrderItem × Lexeme.Rest ls) := do
  let (item, rest) ← orderItem expression ls
  match _h : rest.1 with
  | [] => return ([item], rest)
  | l :: after => do
    let t ← l.token
    if t.value = .symbol .comma then
      let (items, rest') ← orderItems expression after
      return (item :: items, ⟨rest'.1, by
        have h₁ := rest.2; have h₂ := rest'.2; rw [_h, List.length_cons] at h₁; omega⟩)
    else return ([item], rest)
termination_by ls.length
decreasing_by have h₁ := rest.2; rw [_h, List.length_cons] at h₁; omega

/-- The setting of a text. -/
def settingOf (source : String) (limit : Nat) : Setting := ⟨source.utf8ByteSize, limit⟩

end Parser

/-- How deep the expressions of a text may be nested unless it is said otherwise. -/
def defaultNesting : Nat := 64

/-- The expression that a whole filter is. -/
def Syntax.parseFilter (source : String) (limit : Nat) : Except ParseError Syntax := do
  let (e, rest) ← Parser.expression (Parser.settingOf source limit) (Lexeme.all source)
  Parser.finish rest.1
  return e

/-- The items that a whole sort order has. -/
def OrderItem.parseList (source : String) (limit : Nat) : Except ParseError (List OrderItem) := do
  let expression := Parser.expression (Parser.settingOf source limit)
  let (items, rest) ← Parser.orderItems expression (Lexeme.all source)
  Parser.finish rest.1
  return items

end EntityQuery
