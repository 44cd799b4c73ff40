/-!
# Operators

The operators of filter expressions with their keywords in filter text and their names in
documents.
-/

namespace EntityQuery

/-- A logical connective. -/
inductive LogicalOp
  | and
  | or
deriving DecidableEq

/-- An arithmetic operator. -/
inductive ArithmeticOp
  | add
  | sub
  | mul
  | div
  | mod
deriving DecidableEq

/-- A comparison. -/
inductive RelationalOp
  | eq
  | ne
  | gt
  | ge
  | lt
  | le
deriving DecidableEq

/-- An operator on one operand. -/
inductive UnaryOp
  /-- Arithmetic negation. -/
  | negate
  /-- Logical negation. -/
  | not
deriving DecidableEq

/-- The direction of a sort key. -/
inductive Direction
  | ascending
  | descending
deriving DecidableEq

namespace LogicalOp

/-- Every connective. -/
def all : List LogicalOp := [and, or]

/-- The keyword in filter text. -/
def keyword : LogicalOp → String
  | and => "and"
  | or => "or"

/-- The name in documents. -/
def tag : LogicalOp → String
  | and => "And"
  | or => "Or"

/-- The connective with a name in documents. -/
def ofTag? (tag : String) : Option LogicalOp := all.find? (·.tag == tag)

theorem ofTag?_tag (op : LogicalOp) : ofTag? op.tag = some op := by cases op <;> rfl

end LogicalOp

namespace ArithmeticOp

/-- Every arithmetic operator. -/
def all : List ArithmeticOp := [add, sub, mul, div, mod]

/-- The keyword in filter text. -/
def keyword : ArithmeticOp → String
  | add => "add"
  | sub => "sub"
  | mul => "mul"
  | div => "div"
  | mod => "mod"

/-- The name in documents. -/
def tag : ArithmeticOp → String
  | add => "Add"
  | sub => "Sub"
  | mul => "Mul"
  | div => "Div"
  | mod => "Mod"

/-- The operator with a name in documents. -/
def ofTag? (tag : String) : Option ArithmeticOp := all.find? (·.tag == tag)

theorem ofTag?_tag (op : ArithmeticOp) : ofTag? op.tag = some op := by cases op <;> rfl

end ArithmeticOp

namespace RelationalOp

/-- Every comparison. -/
def all : List RelationalOp := [eq, ne, gt, ge, lt, le]

/-- The keyword in filter text. -/
def keyword : RelationalOp → String
  | eq => "eq"
  | ne => "ne"
  | gt => "gt"
  | ge => "ge"
  | lt => "lt"
  | le => "le"

/-- The name in documents. -/
def tag : RelationalOp → String
  | eq => "Eq"
  | ne => "Ne"
  | gt => "Gt"
  | ge => "Ge"
  | lt => "Lt"
  | le => "Le"

/-- The comparison with a name in documents. -/
def ofTag? (tag : String) : Option RelationalOp := all.find? (·.tag == tag)

/-- A comparison is an equality when it asks for equal or for different values. -/
def isEquality : RelationalOp → Bool
  | eq | ne => true
  | _ => false

theorem ofTag?_tag (op : RelationalOp) : ofTag? op.tag = some op := by cases op <;> rfl

end RelationalOp

namespace UnaryOp

/-- Every operator on one operand. -/
def all : List UnaryOp := [negate, not]

/-- The name in documents. -/
def tag : UnaryOp → String
  | negate => "Negate"
  | not => "Not"

/-- The operator with a name in documents. -/
def ofTag? (tag : String) : Option UnaryOp := all.find? (·.tag == tag)

theorem ofTag?_tag (op : UnaryOp) : ofTag? op.tag = some op := by cases op <;> rfl

end UnaryOp

namespace Direction

/-- Both directions. -/
def all : List Direction := [ascending, descending]

/-- The keyword in filter text, which is also the name in documents. -/
def keyword : Direction → String
  | ascending => "asc"
  | descending => "desc"

/-- The direction with a keyword. -/
def ofKeyword? (keyword : String) : Option Direction := all.find? (·.keyword == keyword)

theorem ofKeyword?_keyword (d : Direction) : ofKeyword? d.keyword = some d := by cases d <;> rfl

end Direction

end EntityQuery
