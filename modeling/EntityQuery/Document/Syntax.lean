import EntityQuery.Filter.ParseError
import EntityQuery.Filter.Syntax
import EntityQuery.Json.Basic

/-!
# Documents of tokens and parsed expressions

Tokens and literals are shown by the name of their kind and by their content, and every node with
its span.
-/

namespace EntityQuery

/-- The document of a span: its two offsets. -/
def Span.toJson (s : Span) : Json := .array [Json.ofNat s.start, Json.ofNat s.stop]

/-- The name of a kind of quoted literal in documents. -/
def LiteralKind.tag : LiteralKind → String
  | dateTime => "DateTime"
  | dateTimeOffset => "DateTimeOffset"
  | guid => "Guid"
  | binary => "Binary"

namespace Token

/-- The name of the kind of a token in documents. -/
def tag : Token → String
  | keyword k => k.name
  | symbol s => s.name
  | quoted kind _ => kind.tag
  | ident _ => "Ident"
  | text _ => "String"
  | int _ => "Int"
  | long _ => "Long"
  | decimal _ => "Decimal"
  | double _ => "Double"

/-- The content of a token; keywords and symbols have none. -/
def content : Token → Json
  | keyword _ | symbol _ => .null
  | quoted _ body => .string body
  | ident name => .string name
  | text value => .string value
  | int n => .int n.toInt
  | long n => .int n.toInt
  | decimal digits => .string digits
  | double x => .float x

end Token

/-- The document of a token with its span. -/
def Located.tokenToJson (t : Located Token) : Json :=
  .object [("token", .string t.value.tag), ("value", t.value.content), ("span", t.span.toJson),
    ("describe", .string t.value.describe)]

namespace Literal

/-- The name of the kind of a literal in documents. -/
def tag : Literal → String
  | null => "Null"
  | bool _ => "Bool"
  | int _ => "Int"
  | long _ => "Long"
  | double _ => "Double"
  | decimal _ => "Decimal"
  | text _ => "String"
  | quoted kind _ => kind.tag

/-- The content of a literal, unless it is `null`. -/
def content? : Literal → Option Json
  | null => none
  | bool b => some (.bool b)
  | int n => some (.int n.toInt)
  | long n => some (.int n.toInt)
  | double x => some (.float x)
  | decimal digits => some (.string digits)
  | text value => some (.string value)
  | quoted _ body => some (.string body)

end Literal

/-- The document of a parsed expression. -/
def Syntax.toJson : Syntax → Json
  | binary op left right span =>
    .object [("binary", .string op.tag), ("left", left.toJson), ("right", right.toJson),
      ("span", span.toJson)]
  | unary op operand span =>
    .object [("unary", .string op.tag), ("operand", operand.toJson), ("span", span.toJson)]
  | path segments span =>
    .object [("path", Json.ofList .string segments), ("span", span.toJson)]
  | call name args span =>
    .object [("call", .string name.value), ("name_span", name.span.toJson),
      ("args", .array (listToJson args)), ("span", span.toJson)]
  | literal value span =>
    .object ([("literal", .string value.tag)] ++ (value.content?.map (("value", ·))).toList ++
      [("span", span.toJson)])
where
  /-- The documents of some parsed expressions. -/
  listToJson : List Syntax → List Json
    | [] => []
    | e :: es => e.toJson :: listToJson es

/-- The document of an item of a parsed sort order. -/
def OrderItem.toJson (item : OrderItem) : Json :=
  .object [("expr", item.expr.toJson),
    ("direction", .string (Keyword.direction item.direction).name),
    ("span", item.span.toJson)]

end EntityQuery
