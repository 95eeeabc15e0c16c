import Triangle.Syntax.Tree
import Triangle.Typing.Signature

/-!
# What names mean

A name or an operator refers to a declaration, and means what the declaration makes of it.  The
standard environment is declared before every program; its declarations have no place in the
tree.
-/

namespace Triangle

/-- What a name or an operator may be used for. -/
inductive Meaning where
  | const (of : Ty)
  | var (of : Ty)
  | proc (formals : Formals)
  | func (formals : Formals) (result : Ty)
  | type (of : Ty)
  | unary (operand result : Ty)
  | binary (left right result : Ty)

/-- A declaration of the standard environment. -/
inductive Standard where
  | boolean
  | char
  | integer
  | false_
  | true_
  | maxint
  | not_
  | and_
  | or_
  | add
  | sub
  | mult
  | div
  | mod
  | lt
  | le
  | gt
  | ge
  | eq
  | ne
  | chr
  | ord
  | eof
  | eol
  | get
  | put
  | getint
  | putint
  | geteol
  | puteol
deriving DecidableEq

namespace Standard

/-- The standard environment. -/
def all : List Standard :=
  [boolean, char, integer, false_, true_, maxint, not_, and_, or_, add, sub, mult, div, mod, lt,
    le, gt, ge, eq, ne, chr, ord, eof, eol, get, put, getint, putint, geteol, puteol]

/-- The name or operator that a standard declaration introduces. -/
def spelling : Standard → String
  | boolean => "Boolean"
  | char => "Char"
  | integer => "Integer"
  | false_ => "false"
  | true_ => "true"
  | maxint => "maxint"
  | not_ => "\\"
  | and_ => "/\\"
  | or_ => "\\/"
  | add => "+"
  | sub => "-"
  | mult => "*"
  | div => "/"
  | mod => "//"
  | lt => "<"
  | le => "<="
  | gt => ">"
  | ge => ">="
  | eq => "="
  | ne => "\\="
  | chr => "chr"
  | ord => "ord"
  | eof => "eof"
  | eol => "eol"
  | get => "get"
  | put => "put"
  | getint => "getint"
  | putint => "putint"
  | geteol => "geteol"
  | puteol => "puteol"

/-- The standard declaration with the given spelling. -/
def ofSpelling? (spelling : String) : Option Standard :=
  all.find? fun declaration => declaration.spelling = spelling

/-- What a standard name means. -/
def meaning : Standard → Meaning
  | boolean => .type .bool
  | char => .type .char
  | integer => .type .int
  | false_ | true_ => .const .bool
  | maxint => .const .int
  | not_ => .unary .bool .bool
  | and_ | or_ => .binary .bool .bool .bool
  | add | sub | mult | div | mod => .binary .int .int .int
  | lt | le | gt | ge => .binary .int .int .bool
  | eq | ne => .binary .any .any .bool
  | chr => .func (.ofList [.const .int]) .char
  | ord => .func (.ofList [.const .char]) .int
  | eof | eol => .func .nil .bool
  | get => .proc (.ofList [.var .char])
  | put => .proc (.ofList [.const .char])
  | getint => .proc (.ofList [.var .int])
  | putint => .proc (.ofList [.const .int])
  | geteol | puteol => .proc .nil

end Standard

/-- A declaration that a name refers to. -/
inductive Referent where
  /-- A declaration or a formal parameter of the program. -/
  | node (id : NodeId)
  /-- A declaration of the standard environment. -/
  | standard (declaration : Standard)
deriving DecidableEq

end Triangle
