import StackScript.Location
import StackScript.Text.Quoted

/-
  Tokens: the words of a source text with their kind and
  the place where they start.

  Key definitions include:
    * `Token.Kind`
    * `Token`
    * `Token.describe`
-/

namespace StackScript

/- What sort of word a token is. -/
inductive Token.Kind where
| keyword
| identifier
| literal
| stringLiteral
| operator
| separator
| unknown
deriving DecidableEq, Repr

/- A word of a source text. -/
structure Token where
  kind : Token.Kind
  text : String
  location : Location
deriving DecidableEq, Repr

namespace Token

/- The name of a kind. -/
def Kind.label : Kind → String
| .keyword => "Keyword"
| .identifier => "Identifier"
| .literal => "Literal"
| .stringLiteral => "StringLiteral"
| .operator => "Operator"
| .separator => "Separator"
| .unknown => "Unknown"

/- The token is the word `text` of some kind. -/
def is
    (t : Token)
    (kind : Kind)
    (text : String) : Bool :=
  t.kind == kind && t.text == text

/- The token is the operator `text`. -/
def isOperator
    (t : Token)
    (text : String) : Bool :=
  t.is .operator text

/- The token is the separator `text`. -/
def isSeparator
    (t : Token)
    (text : String) : Bool :=
  t.is .separator text

/- The token is the keyword `text`. -/
def isKeyword
    (t : Token)
    (text : String) : Bool :=
  t.is .keyword text

/- A line that shows place, kind and quoted text. -/
def describe (t : Token) : String :=
  s!"{t.location.row}:{t.location.column}\t{t.kind.label}\t{Text.quoted t.text}"

end Token
end StackScript
