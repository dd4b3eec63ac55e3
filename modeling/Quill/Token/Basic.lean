/-!
# Tokens

A token is a classified piece of source text with the line it stands on. The
kinds fall into five families: the line feed, which ends statements; blanks and
comments, which nothing after the scanner sees; keywords and symbols, each with
one spelling; constants; and names.

The order of `Token.Kind.all` is the order in which the scanner tries the
kinds, and it decides between two kinds that fit the same text: `==` stands
before `=`, and every keyword before the names.
-/

namespace Quill

/-- The words of the language. -/
inductive Keyword where
  | bool
  | else
  | falseWord
  | for
  | fun
  | if
  | int
  | nullWord
  | return
  | str
  | trueWord
  | while
  deriving DecidableEq, Repr

namespace Keyword

/-- How the keyword is written. -/
def spelling : Keyword → String
  | .bool => "bool"
  | .else => "else"
  | .falseWord => "false"
  | .for => "for"
  | .fun => "fun"
  | .if => "if"
  | .int => "int"
  | .nullWord => "null"
  | .return => "return"
  | .str => "str"
  | .trueWord => "true"
  | .while => "while"

/-- The keywords that are read as such only in front of a blank. The others need
no end: `elsewhere` is `else` and then `where`. -/
def needsBlank : Keyword → Bool
  | .bool | .fun | .int | .return | .str => true
  | .else | .falseWord | .for | .if | .nullWord | .trueWord | .while => false

/-- Every keyword, in the order in which the scanner tries them. -/
def all : List Keyword :=
  [.bool, .else, .falseWord, .for, .fun, .if, .int, .nullWord, .return, .str,
    .trueWord, .while]

theorem mem_all (k : Keyword) : k ∈ all := by
  cases k <;> decide

end Keyword

/-- Operators and punctuation. -/
inductive Symbol where
  | andAnd
  | eqEq
  | assign
  | comma
  | slash
  | dot
  | ge
  | gt
  | lbrace
  | le
  | lparen
  | lt
  | minus
  | percent
  | star
  | ne
  | bang
  | orOr
  | plus
  | rbrace
  | rparen
  deriving DecidableEq, Repr

namespace Symbol

/-- How the symbol is written. -/
def spelling : Symbol → String
  | .andAnd => "&&"
  | .eqEq => "=="
  | .assign => "="
  | .comma => ","
  | .slash => "/"
  | .dot => "."
  | .ge => ">="
  | .gt => ">"
  | .lbrace => "\x7b"
  | .le => "<="
  | .lparen => "("
  | .lt => "<"
  | .minus => "-"
  | .percent => "%"
  | .star => "*"
  | .ne => "!="
  | .bang => "!"
  | .orOr => "||"
  | .plus => "+"
  | .rbrace => "\x7d"
  | .rparen => ")"

/-- Every symbol, in the order in which the scanner tries them: a symbol stands
before its own beginnings. -/
def all : List Symbol :=
  [.andAnd, .eqEq, .assign, .comma, .slash, .dot, .ge, .gt, .lbrace, .le,
    .lparen, .lt, .minus, .percent, .star, .ne, .bang, .orOr, .plus,
    .rbrace, .rparen]

theorem mem_all (s : Symbol) : s ∈ all := by
  cases s <;> decide

end Symbol

/-- What a token is. -/
inductive Token.Kind where
  | newline
  | blank
  | comment
  | keyword (k : Keyword)
  | symbol (s : Symbol)
  | string
  | integer
  | name
  deriving DecidableEq, Repr

namespace Token.Kind

/-- Every kind, in the order in which the scanner tries them. -/
def all : List Kind :=
  [.newline, .blank, .comment] ++ Keyword.all.map .keyword ++
    Symbol.all.map .symbol ++ [.string, .integer, .name]

theorem mem_all (k : Kind) : k ∈ all := by
  cases k with
  | keyword k => simp [all, Keyword.mem_all]
  | symbol s => simp [all, Symbol.mem_all]
  | _ => simp [all]

/-- The name of the kind in token listings. -/
def label : Kind → String
  | .newline => "T_NEWLINE"
  | .blank => "T_WHITESPACE"
  | .comment => "T_COMMENT"
  | .keyword .bool => "T_BOOLTYPE"
  | .keyword .else => "T_ELSE"
  | .keyword .falseWord => "T_FALSE"
  | .keyword .for => "T_FOR"
  | .keyword .fun => "T_FUN"
  | .keyword .if => "T_IF"
  | .keyword .int => "T_INTTYPE"
  | .keyword .nullWord => "T_NULL"
  | .keyword .return => "T_RETURN"
  | .keyword .str => "T_STRINGTYPE"
  | .keyword .trueWord => "T_TRUE"
  | .keyword .while => "T_WHILE"
  | .symbol .andAnd => "T_AND"
  | .symbol .assign => "T_ASSIGN"
  | .symbol .comma => "T_COMMA"
  | .symbol .slash => "T_DIV"
  | .symbol .dot => "T_DOT"
  | .symbol .eqEq => "T_EQ"
  | .symbol .ge => "T_GEQ"
  | .symbol .gt => "T_GT"
  | .symbol .lbrace => "T_LCB"
  | .symbol .le => "T_LEQ"
  | .symbol .lparen => "T_LPAREN"
  | .symbol .lt => "T_LT"
  | .symbol .minus => "T_MINUS"
  | .symbol .percent => "T_MOD"
  | .symbol .star => "T_MULT"
  | .symbol .ne => "T_NEQ"
  | .symbol .bang => "T_NOT"
  | .symbol .orOr => "T_OR"
  | .symbol .plus => "T_PLUS"
  | .symbol .rbrace => "T_RCB"
  | .symbol .rparen => "T_RPAREN"
  | .string => "T_STRINGCONSTANT"
  | .integer => "T_INTCONSTANT"
  | .name => "T_ID"

/-- The kind that listings call `label`. -/
def ofLabel? (label : String) : Option Kind :=
  all.find? fun k => k.label == label

/-- Blanks and comments, which the scanner drops. -/
def isTrivia : Kind → Bool
  | .blank | .comment => true
  | _ => false

/-- How tightly a binary operator binds, from `||` at 0 to the multiplications
at 5. No other kind has a level, and operators of one level group to the
left. -/
def level? : Kind → Option Nat
  | .symbol .orOr => some 0
  | .symbol .andAnd => some 1
  | .symbol .eqEq | .symbol .ne => some 2
  | .symbol .le | .symbol .ge | .symbol .gt | .symbol .lt => some 3
  | .symbol .plus | .symbol .minus => some 4
  | .symbol .star | .symbol .slash | .symbol .percent => some 5
  | _ => none

end Token.Kind

/-- A piece of source text of a known kind, on a line counted from 1. The text
of a string constant is what stands between its quotes. -/
structure Token where
  kind : Token.Kind
  text : String
  line : Nat
  deriving DecidableEq, Repr

/-- The token with its kind, as listings show it. -/
def Token.display (t : Token) : String :=
  t.kind.label ++ ": " ++ t.text

end Quill
