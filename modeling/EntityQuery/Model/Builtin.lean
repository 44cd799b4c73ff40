import EntityQuery.Model.EdmType

/-!
# Built-in functions

The closed set of functions that a filter may call, with their names in filter text, the numbers
of arguments they take, their result types, and the way in which each one is compiled.
-/

namespace EntityQuery

/-- A function that a filter may call. -/
inductive Builtin
  | substringOf
  | startsWith
  | endsWith
  | length
  | indexOf
  | replace
  | substring
  | toLower
  | toUpper
  | trim
  | concat
  | year
  | month
  | day
  | hour
  | minute
  | second
  | round
  | floor
  | ceiling
  | stringCompare
  | dateTimeCompare
  | guidCompare
deriving DecidableEq

/-- The way in which a call is compiled. -/
inductive Builtin.Kind
  /-- A scalar function of the query. -/
  | directValue
  /-- A pattern match. -/
  | patternMatch
  /-- A comparison with zero; no value of its own. -/
  | opaqueComparison
  /-- A position, which only an equality around it can compile. -/
  | indexOf
deriving DecidableEq

/-- The name of a way of compiling calls. -/
def Builtin.Kind.title : Builtin.Kind → String
  | directValue => "DirectValue"
  | patternMatch => "PatternMatch"
  | opaqueComparison => "OpaqueComparison"
  | indexOf => "IndexOf"

/-- The numbers of arguments that a function takes. -/
structure Arity where
  /-- The least number. -/
  least : Nat
  /-- The greatest number, if there is one. -/
  most? : Option Nat
deriving DecidableEq

namespace Arity

/-- Exactly `n` arguments. -/
def exactly (n : Nat) : Arity := ⟨n, some n⟩

/-- Whether a number of arguments is accepted. -/
def accepts (a : Arity) (n : Nat) : Bool :=
  decide (a.least ≤ n) && (a.most?.all fun most => decide (n ≤ most))

/-- How messages name the numbers that are accepted. -/
def text (a : Arity) : String :=
  match a.most? with
  | none => "at least " ++ toString a.least
  | some most =>
    if a.least = most then toString a.least else toString a.least ++ " to " ++ toString most

end Arity

namespace Builtin

/-- Every function, in the order of declaration. -/
def all : List Builtin :=
  [substringOf, startsWith, endsWith, length, indexOf, replace, substring, toLower, toUpper, trim,
    concat, year, month, day, hour, minute, second, round, floor, ceiling, stringCompare,
    dateTimeCompare, guidCompare]

/-- The name of a function in filter text. -/
def name : Builtin → String
  | substringOf => "substringof"
  | startsWith => "startswith"
  | endsWith => "endswith"
  | length => "length"
  | indexOf => "indexof"
  | replace => "replace"
  | substring => "substring"
  | toLower => "tolower"
  | toUpper => "toupper"
  | trim => "trim"
  | concat => "concat"
  | year => "year"
  | month => "month"
  | day => "day"
  | hour => "hour"
  | minute => "minute"
  | second => "second"
  | round => "round"
  | floor => "floor"
  | ceiling => "ceiling"
  | stringCompare => "compare"
  | dateTimeCompare => "datetimecompare"
  | guidCompare => "guidcompare"

/-- The name of a function in prose. -/
def title : Builtin → String
  | substringOf => "SubstringOf"
  | startsWith => "StartsWith"
  | endsWith => "EndsWith"
  | length => "Length"
  | indexOf => "IndexOf"
  | replace => "Replace"
  | substring => "Substring"
  | toLower => "ToLower"
  | toUpper => "ToUpper"
  | trim => "Trim"
  | concat => "Concat"
  | year => "Year"
  | month => "Month"
  | day => "Day"
  | hour => "Hour"
  | minute => "Minute"
  | second => "Second"
  | round => "Round"
  | floor => "Floor"
  | ceiling => "Ceiling"
  | stringCompare => "StringCompare"
  | dateTimeCompare => "DateTimeCompare"
  | guidCompare => "GuidCompare"

/-- The function with a name in filter text; letter case counts. -/
def ofName? (name : String) : Option Builtin := all.find? (·.name == name)

/-- The way in which calls of a function are compiled. -/
def kind : Builtin → Kind
  | substringOf | startsWith | endsWith => .patternMatch
  | stringCompare | dateTimeCompare | guidCompare => .opaqueComparison
  | indexOf => .indexOf
  | _ => .directValue

/-- The numbers of arguments that a function takes. -/
def arity : Builtin → Arity
  | substring => ⟨2, some 3⟩
  | replace => .exactly 3
  | concat => ⟨2, none⟩
  | substringOf | startsWith | endsWith | indexOf | stringCompare | dateTimeCompare
  | guidCompare => .exactly 2
  | _ => .exactly 1

/-- The result type of a call by the type of its first argument, if it has one. Rounding keeps a
numeric type. -/
def returnType (f : Builtin) (first? : Option EdmType) : EdmType :=
  match f with
  | substringOf | startsWith | endsWith => .boolean
  | length | indexOf | year | month | day | hour | minute | second | stringCompare
  | dateTimeCompare | guidCompare => .int32
  | replace | substring | toLower | toUpper | trim | concat => .string
  | round | floor | ceiling => (first?.filter (·.isNumeric)).getD .double

theorem mem_all (f : Builtin) : f ∈ all := by cases f <;> decide

/-- A function is found under its name. -/
theorem ofName?_name (f : Builtin) : ofName? f.name = some f := by cases f <;> rfl

end Builtin

end EntityQuery
