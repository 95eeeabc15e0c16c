import Triangle.Source.Span

/-!
# Tokens

A token is a stretch of the text with its kind.  Keywords are a kind each; the other words are
identifiers.  Two kinds stand for no token of the language: the end of the text, and a stretch
that could not be read.
-/

namespace Triangle

/-- A reserved word. -/
inductive Keyword where
  | array
  | begin
  | const
  | do_
  | else_
  | end_
  | func
  | if_
  | in_
  | let_
  | loop
  | of
  | proc
  | record
  | then_
  | type
  | var
  | while_
deriving DecidableEq

namespace Keyword

/-- The word itself. -/
def spelling : Keyword → String
  | array => "array"
  | begin => "begin"
  | const => "const"
  | do_ => "do"
  | else_ => "else"
  | end_ => "end"
  | func => "func"
  | if_ => "if"
  | in_ => "in"
  | let_ => "let"
  | loop => "loop"
  | of => "of"
  | proc => "proc"
  | record => "record"
  | then_ => "then"
  | type => "type"
  | var => "var"
  | while_ => "while"

/-- All reserved words. -/
def all : List Keyword :=
  [array, begin, const, do_, else_, end_, func, if_, in_, let_, loop, of, proc, record, then_,
    type, var, while_]

/-- The reserved word with the given spelling. -/
def ofSpelling? (word : String) : Option Keyword :=
  all.find? fun keyword => keyword.spelling = word

end Keyword

/-- What a token is. -/
inductive Kind where
  | integer
  | character
  | identifier
  | operator
  | keyword (word : Keyword)
  | dot
  | colon
  | semicolon
  | comma
  /-- The sign `:=`. -/
  | becomes
  /-- The sign `~`. -/
  | is
  | openParen
  | closeParen
  | openSquare
  | closeSquare
  | openCurly
  | closeCurly
  /-- What follows the last token. -/
  | endOfText
  /-- A stretch that could not be read. -/
  | faulty
deriving DecidableEq

/-- A kind as it is named in messages. -/
def Kind.describe : Kind → String
  | integer => "integer literal"
  | character => "character literal"
  | identifier => "identifier"
  | operator => "operator"
  | keyword word => "`" ++ word.spelling ++ "`"
  | dot => "`.`"
  | colon => "`:`"
  | semicolon => "`;`"
  | comma => "`,`"
  | becomes => "`:=`"
  | is => "`~`"
  | openParen => "`(`"
  | closeParen => "`)`"
  | openSquare => "`[`"
  | closeSquare => "`]`"
  | openCurly => "`\x7b`"
  | closeCurly => "`\x7d`"
  | endOfText => "end of text"
  | faulty => "erroneous token"

/-- A token with its place. -/
structure Token where
  /-- What it is. -/
  kind : Kind
  /-- Its characters, quotes and escapes included. -/
  spelling : String
  /-- The stretch of the text it is. -/
  span : Span
deriving DecidableEq

namespace Token

/-- The end of a text at a position. -/
def endAt (position : Position) : Token :=
  ⟨.endOfText, "", .between position position⟩

/-- A token as it is quoted in messages. -/
def describe (token : Token) : String :=
  if token.kind = .endOfText then "end of text" else "`" ++ token.spelling ++ "`"

end Token

end Triangle
