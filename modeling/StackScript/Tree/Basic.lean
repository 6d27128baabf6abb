import StackScript.Location

/-
  Syntax trees of programs.

  Every node carries the place of the token that it was
  made from. Literals keep their text, and a tree may hold
  operators in positions where the language has none; both
  are settled when code is made.

  Key definitions include:
    * `Operator`
    * `Expr`
    * `Stmt`
    * `Program`
-/

namespace StackScript

------------------------------------------------------------
-- Operators
------------------------------------------------------------

/- The operators of the language. -/
inductive Operator where
| add
| sub
| mul
| div
| mod
| eq
| ne
| lt
| gt
| le
| ge
| and
| or
| assign
| addAssign
| subAssign
| mulAssign
| divAssign
| not
| bitNot
| plus
| minus
| increment
| decrement
deriving DecidableEq, Repr

namespace Operator

/- The text of an operator in a program. -/
def symbol : Operator → String
| .add | .plus => "+"
| .sub | .minus => "-"
| .mul => "*"
| .div => "/"
| .mod => "%"
| .eq => "=="
| .ne => "!="
| .lt => "<"
| .gt => ">"
| .le => "<="
| .ge => ">="
| .and => "&&"
| .or => "||"
| .assign => "="
| .addAssign => "+="
| .subAssign => "-="
| .mulAssign => "*="
| .divAssign => "/="
| .not => "!"
| .bitNot => "~"
| .increment => "++"
| .decrement => "--"

/- The name of an operator in dumps of a tree. -/
def label : Operator → String
| .add => "Add"
| .sub => "Sub"
| .mul => "Mul"
| .div => "Div"
| .mod => "Mod"
| .eq => "Eq"
| .ne => "Ne"
| .lt => "Lt"
| .gt => "Gt"
| .le => "Le"
| .ge => "Ge"
| .and => "And"
| .or => "Or"
| .assign => "Assign"
| .addAssign => "AddAssign"
| .subAssign => "SubAssign"
| .mulAssign => "MulAssign"
| .divAssign => "DivAssign"
| .not => "Not"
| .bitNot => "BitNot"
| .plus => "Plus"
| .minus => "Minus"
| .increment => "Increment"
| .decrement => "Decrement"

/- The operator that a compound assignment applies first. -/
def base? : Operator → Option Operator
| .addAssign => some .add
| .subAssign => some .sub
| .mulAssign => some .mul
| .divAssign => some .div
| _ => none

/- The operator is an increment or a decrement. -/
def isStep : Operator → Bool
| .increment | .decrement => true
| _ => false

end Operator

------------------------------------------------------------
-- Expressions
------------------------------------------------------------

/- An expression. -/
inductive Expr where
/- A numeric literal, as written. -/
| literal (text : String) (place : Location)
/- A string literal, with its quotes. -/
| string (text : String) (place : Location)
| variable (name : String) (place : Location)
| binary
    (operator : Operator)
    (left right : Expr)
    (place : Location)
| logical
    (operator : Operator)
    (left right : Expr)
    (place : Location)
| unary
    (operator : Operator)
    (argument : Expr)
    (place : Location)
/- An operator written after its argument. -/
| post
    (operator : Operator)
    (argument : Expr)
    (place : Location)
| assignment
    (name : String)
    (value : Expr)
    (place : Location)
| call
    (name : String)
    (arguments : List Expr)
    (place : Location)
deriving Repr

namespace Expr

/- The place of an expression. -/
def location : Expr → Location
| .literal _ l | .string _ l | .variable _ l => l
| .binary _ _ _ l | .logical _ _ _ l => l
| .unary _ _ l | .post _ _ l => l
| .assignment _ _ l | .call _ _ l => l

/- What an expression is called in error messages. -/
def kind : Expr → String
| .literal .. => "literal"
| .string .. => "string literal"
| .variable .. => "variable"
| .binary .. => "binary expression"
| .logical .. => "logical expression"
| .unary .. => "unary expression"
| .post .. => "postfix expression"
| .assignment .. => "assignment"
| .call .. => "function call"

/- The name of a variable, if the expression is one. -/
def name? : Expr → Option String
| .variable name _ => some name
| _ => none

end Expr

------------------------------------------------------------
-- Statements
------------------------------------------------------------

/- A statement. -/
inductive Stmt where
| expr (value : Expr)
/- `new name`. -/
| declare (name : String) (place : Location)
/- `new name = value`. -/
| define (name : String) (value : Expr) (place : Location)
| function
    (name : String)
    (parameters : List String)
    (body : List Stmt)
    (place : Location)
| ret (argument : Option Expr) (place : Location)
/- `if` without `else`. -/
| ifThen
    (condition : Expr)
    (body : List Stmt)
    (place : Location)
| ifElse
    (condition : Expr)
    (body otherwise : List Stmt)
    (place : Location)
| whileLoop
    (condition : Expr)
    (body : List Stmt)
    (place : Location)
| forLoop
    (initial : Stmt)
    (condition update : Option Expr)
    (body : List Stmt)
    (place : Location)
| breakLoop (place : Location)
| continueLoop (place : Location)
deriving Repr

/- A program is a list of statements. -/
abbrev Program :=
  List Stmt

end StackScript
