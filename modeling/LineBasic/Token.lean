import LineBasic.Number.Text
import LineBasic.Operator
import LineBasic.Span

/-!
# Tokens

The words of program text. A token has a kind, the span of its text, and the line and column of
its start, both counted from one.

* `Kind.display`: how a kind is named in messages;
* `Token.describe`: how a token is listed.
-/

namespace LineBasic

/-- A word with a fixed meaning. -/
inductive Keyword where
  | print
  | letKw
  | ifKw
  | thenKw
  | elseKw
  | goto
  | gosub
  | returnKw
  | input
  | endKw
deriving DecidableEq

namespace Keyword

/-- How a keyword is written, in capitals. -/
def spelling : Keyword → String
  | .print => "PRINT"
  | .letKw => "LET"
  | .ifKw => "IF"
  | .thenKw => "THEN"
  | .elseKw => "ELSE"
  | .goto => "GOTO"
  | .gosub => "GOSUB"
  | .returnKw => "RETURN"
  | .input => "INPUT"
  | .endKw => "END"

/-- Every keyword. -/
def all : List Keyword :=
  [.print, .letKw, .ifKw, .thenKw, .elseKw, .goto, .gosub, .returnKw, .input, .endKw]

/-- The keyword that a word in capitals is, if it is one. -/
def ofWord? (word : String) : Option Keyword := all.find? fun k => k.spelling == word

theorem mem_all (k : Keyword) : k ∈ all := by
  cases k <;> decide

theorem ofWord?_spelling (k : Keyword) : ofWord? k.spelling = some k := by
  cases k <;> decide

theorem spelling_of_ofWord? {word : String} {k : Keyword} (h : ofWord? word = some k) :
    k.spelling = word := by
  simpa using List.find?_some h

end Keyword

/-- The kind of a token, with the number, text or name that it carries. -/
inductive Kind where
  | number (value : Number)
  | string (value : String)
  | ident (name : String)
  | keyword (word : Keyword)
  | operator (op : BinaryOp)
  | leftParen
  | rightParen
  | comma
  | newline
deriving DecidableEq

/-- A token and its place. -/
structure Token where
  kind : Kind
  span : Span
  line : Nat
  column : Nat
deriving DecidableEq

/-- How a kind is named in messages. -/
def Kind.display : Kind → String
  | .number x => "number " ++ Number.text x
  | .string s => "string \"" ++ s ++ "\""
  | .ident name => "identifier " ++ name
  | .keyword k => k.spelling
  | .operator op => "'" ++ op.symbol ++ "'"
  | .leftParen => "'('"
  | .rightParen => "')'"
  | .comma => "','"
  | .newline => "end of line"

/-- How a token is listed: its class and, for a class of many words, the word. -/
def Token.describe (t : Token) : String :=
  match t.kind with
  | .number x => "<NUM," ++ Number.text x ++ ">"
  | .string s => "<STRING,\"" ++ s ++ "\">"
  | .ident name => "<ID," ++ name ++ ">"
  | .keyword k => "<" ++ k.spelling ++ ">"
  | .operator (.arith op) => "<OP," ++ op.symbol ++ ">"
  | .operator (.rel op) => "<RELOP," ++ op.symbol ++ ">"
  | .leftParen => "<(>"
  | .rightParen => "<)>"
  | .comma => "<,>"
  | .newline => "<CR>"

end LineBasic
