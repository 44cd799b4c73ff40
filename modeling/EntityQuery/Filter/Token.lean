import EntityQuery.Expr.Operator
import EntityQuery.Number.Shortest

/-!
# Tokens of filter text

Filters and sort orders are written with keywords, symbols, names, numbers, and literals in single
quotes, the latter with a word before them where they stand for something else than text.
-/

namespace EntityQuery

/-- A word with a fixed meaning. -/
inductive Keyword
  | relational (op : RelationalOp)
  | logical (op : LogicalOp)
  | not
  | arithmetic (op : ArithmeticOp)
  | direction (d : Direction)
  | bool (b : Bool)
  | null
deriving DecidableEq

/-- A punctuation mark. -/
inductive Symbol
  | slash
  | comma
  | open
  | close
  | minus
deriving DecidableEq

/-- What a quoted literal with a word before it stands for. -/
inductive LiteralKind
  | dateTime
  | dateTimeOffset
  | guid
  | binary
deriving DecidableEq

/-- A token of filter text. -/
inductive Token
  | keyword (k : Keyword)
  | symbol (s : Symbol)
  /-- A quoted literal with a word before it, by what stands between the quotes. -/
  | quoted (kind : LiteralKind) (body : String)
  /-- A name. -/
  | ident (name : String)
  /-- A text literal, with doubled quotes made single. -/
  | text (value : String)
  | int (n : Int64)
  | long (n : Int64)
  /-- A decimal literal, by its digits. -/
  | decimal (digits : String)
  | double (x : Binary64)
deriving DecidableEq

namespace Keyword

/-- Every keyword. -/
def all : List Keyword :=
  RelationalOp.all.map relational ++ LogicalOp.all.map logical ++ [not] ++
    ArithmeticOp.all.map arithmetic ++ Direction.all.map direction ++ [bool true, bool false, null]

/-- The spelling of a keyword. -/
def spelling : Keyword → String
  | relational op => op.keyword
  | logical op => op.keyword
  | not => "not"
  | arithmetic op => op.keyword
  | direction d => d.keyword
  | bool true => "true"
  | bool false => "false"
  | null => "null"

/-- The keyword with a spelling; letter case counts. -/
def ofSpelling? (word : String) : Option Keyword := all.find? (·.spelling == word)

/-- The name of a keyword in messages. -/
def name : Keyword → String
  | relational op => op.tag
  | logical op => op.tag
  | not => "Not"
  | arithmetic op => op.tag
  | direction .ascending => "Asc"
  | direction .descending => "Desc"
  | bool true => "True"
  | bool false => "False"
  | null => "Null"

theorem mem_all (k : Keyword) : k ∈ all := by
  cases k with
  | relational op => cases op <;> decide
  | logical op => cases op <;> decide
  | not => decide
  | arithmetic op => cases op <;> decide
  | direction d => cases d <;> decide
  | bool b => cases b <;> decide
  | null => decide

/-- A keyword is found under its spelling. -/
theorem ofSpelling?_spelling (k : Keyword) : ofSpelling? k.spelling = some k := by
  cases k with
  | relational op => cases op <;> rfl
  | logical op => cases op <;> rfl
  | not => rfl
  | arithmetic op => cases op <;> rfl
  | direction d => cases d <;> rfl
  | bool b => cases b <;> rfl
  | null => rfl

end Keyword

namespace Symbol

/-- The character of a symbol. -/
def char : Symbol → Char
  | slash => '/'
  | comma => ','
  | .open => '('
  | close => ')'
  | minus => '-'

/-- The symbol that a character is. -/
def ofChar? : Char → Option Symbol
  | '/' => some slash
  | ',' => some comma
  | '(' => some .open
  | ')' => some close
  | '-' => some minus
  | _ => none

/-- The name of a symbol in messages. -/
def name : Symbol → String
  | slash => "Slash"
  | comma => "Comma"
  | .open => "LParen"
  | close => "RParen"
  | minus => "Minus"

end Symbol

namespace LiteralKind

/-- The kind of literal that a word announces when a quote follows it. -/
def ofWord? (word : String) : Option LiteralKind :=
  match word with
  | "datetime" => some dateTime
  | "datetimeoffset" => some dateTimeOffset
  | "guid" => some guid
  | "binary" | "x" | "X" => some binary
  | _ => none

/-- The word that announces a kind of literal. -/
def word : LiteralKind → String
  | dateTime => "datetime"
  | dateTimeOffset => "datetimeoffset"
  | guid => "guid"
  | binary => "binary"

theorem ofWord?_word (kind : LiteralKind) : ofWord? kind.word = some kind := by cases kind <;> rfl

end LiteralKind

namespace Token

/-- How messages name a token: by its kind and, where it has one, its content. -/
def describe : Token → String
  | ident name => "identifier '" ++ name ++ "'"
  | text value => "string '" ++ value ++ "'"
  | int n | long n => "number " ++ toString n.toInt
  | double x => "number " ++ String.ofList x.positional
  | decimal digits => "number " ++ digits
  | quoted .dateTime _ | quoted .dateTimeOffset _ => "date-time literal"
  | quoted .guid _ => "guid literal"
  | quoted .binary _ => "binary literal"
  | keyword k => k.name
  | symbol s => s.name

end Token

end EntityQuery
