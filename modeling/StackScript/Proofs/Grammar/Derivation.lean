import StackScript.Token.Basic
import StackScript.Tree.Basic

/-
  The grammar of programs.

  A list of tokens derives a tree when it falls into the
  parts of the tree, each token in its place and none left
  over. Expressions have strata: the operators of a stratum
  take operands from the next one, which binds tighter, or
  on one side from their own.

      program    = item*
      item       = ";" | statement
      block      = "{" item* "}"
      statement  = "new" name ["=" expression]
                 | "if" "(" expression ")" block ["else" (if | block)]
                 | "while" "(" expression ")" block
                 | "for" "(" statement ";" [expression] ";"
                     [expression] ")" block
                 | "function" name "(" [names] ")" block
                 | "return" [expression] ";"
                 | "break" | "continue" | expression

  The place of a node is that of the token that names it.

  Key definitions include:
    * `Level`
    * `Expr.Derives`
    * `Stmt.Derives`
    * `Program.Derives`
-/

namespace StackScript

------------------------------------------------------------
-- Strata
------------------------------------------------------------

/- The strata of expressions, the loosest first. -/
inductive Level where
| assignment
| conjunction
| disjunction
| equality
| relational
| additive
| multiplicative
| signed
| stepped
| atom
deriving DecidableEq, Repr

namespace Level

/- The next stratum, which binds tighter. -/
def next : Level → Level
| .assignment => .conjunction
| .conjunction => .disjunction
| .disjunction => .equality
| .equality => .relational
| .relational => .additive
| .additive => .multiplicative
| .multiplicative => .signed
| .signed => .stepped
| .stepped => .atom
| .atom => .atom

/- How many strata bind tighter. -/
def height : Level → Nat
| .assignment => 9
| .conjunction => 8
| .disjunction => 7
| .equality => 6
| .relational => 5
| .additive => 4
| .multiplicative => 3
| .signed => 2
| .stepped => 1
| .atom => 0

theorem height_next_lt
    {level : Level}
    (h : level ≠ .atom) :
    level.next.height < level.height := by
  cases level with
  | atom => exact absurd rfl h
  | _ => decide

/- The operators of a stratum that are grouped from the right. -/
def rightward : Level → List Operator
| .conjunction => [.and]
| .disjunction => [.or]
| _ => []

/- The operators of a stratum that are grouped from the left. -/
def leftward : Level → List Operator
| .equality => [.eq, .ne]
| .relational => [.lt, .gt, .le, .ge]
| .additive => [.add, .sub]
| .multiplicative => [.mul, .div, .mod]
| _ => []

end Level

/- The operators in front of an operand of any form. -/
def Operator.signs : List Operator :=
  [.plus, .minus, .not, .bitNot]

/- The operators before or after a variable. -/
def Operator.steps : List Operator :=
  [.increment, .decrement]

/- The texts of compound assignments, with what they apply first. -/
def Operator.compounds : List (String × Operator) :=
  [("+=", .add), ("-=", .sub), ("*=", .mul), ("/=", .div)]

------------------------------------------------------------
-- Expressions
------------------------------------------------------------

mutual

/- Tokens that are an expression of a stratum. -/
inductive Expr.Derives : Level → List Token → Expr → Prop
/- What binds tighter may stand for what binds looser. -/
| tighter
    {level : Level}
    {ts : List Token}
    {e : Expr}
    (h : Expr.Derives level.next ts e) :
    Expr.Derives level ts e
/- The target is a variable, perhaps in parentheses. -/
| assign
    {ts us : List Token}
    {t : Token}
    {name : String}
    {place : Location}
    {value : Expr}
    (hTarget : Expr.Derives .atom ts (.variable name place))
    (hEquals : t.isOperator "=" = true)
    (hValue : Expr.Derives .assignment us value) :
    Expr.Derives .assignment (ts ++ t :: us)
      (.assignment name value t.location)
/- `x += e` stands for `x = x + e`. -/
| compound
    {ts us : List Token}
    {t : Token}
    {name : String}
    {place : Location}
    {value : Expr}
    {text : String}
    {base : Operator}
    (hTarget : Expr.Derives .atom ts (.variable name place))
    (hBase : (text, base) ∈ Operator.compounds)
    (hEquals : t.isOperator text = true)
    (hValue : Expr.Derives .assignment us value) :
    Expr.Derives .assignment (ts ++ t :: us)
      (.assignment name
        (.binary base (.variable name place) value t.location)
        t.location)
| rightward
    {level : Level}
    {ts us : List Token}
    {t : Token}
    {left right : Expr}
    {operator : Operator}
    (hOperator : operator ∈ level.rightward)
    (hLeft : Expr.Derives level.next ts left)
    (hToken : t.isOperator operator.symbol = true)
    (hRight : Expr.Derives level us right) :
    Expr.Derives level (ts ++ t :: us)
      (.logical operator left right t.location)
| leftward
    {level : Level}
    {ts us : List Token}
    {t : Token}
    {left right : Expr}
    {operator : Operator}
    (hOperator : operator ∈ level.leftward)
    (hLeft : Expr.Derives level ts left)
    (hToken : t.isOperator operator.symbol = true)
    (hRight : Expr.Derives level.next us right) :
    Expr.Derives level (ts ++ t :: us)
      (.binary operator left right t.location)
| sign
    {ts : List Token}
    {t : Token}
    {argument : Expr}
    {operator : Operator}
    (hOperator : operator ∈ Operator.signs)
    (hToken : t.isOperator operator.symbol = true)
    (hArgument : Expr.Derives .signed ts argument) :
    Expr.Derives .signed (t :: ts)
      (.unary operator argument t.location)
| stepBefore
    {ts : List Token}
    {t : Token}
    {name : String}
    {place : Location}
    {operator : Operator}
    (hOperator : operator ∈ Operator.steps)
    (hToken : t.isOperator operator.symbol = true)
    (hTarget : Expr.Derives .atom ts (.variable name place)) :
    Expr.Derives .signed (t :: ts)
      (.unary operator (.variable name place) t.location)
| stepAfter
    {ts : List Token}
    {t : Token}
    {name : String}
    {place : Location}
    {operator : Operator}
    (hOperator : operator ∈ Operator.steps)
    (hTarget : Expr.Derives .atom ts (.variable name place))
    (hToken : t.isOperator operator.symbol = true) :
    Expr.Derives .stepped (ts ++ [t])
      (.post operator (.variable name place) t.location)
| literal
    {t : Token}
    (hKind : t.kind = .literal) :
    Expr.Derives .atom [t] (.literal t.text t.location)
| string
    {t : Token}
    (hKind : t.kind = .stringLiteral) :
    Expr.Derives .atom [t] (.string t.text t.location)
| «variable»
    {t : Token}
    (hKind : t.kind = .identifier) :
    Expr.Derives .atom [t] (.variable t.text t.location)
| group
    {ts : List Token}
    {o p : Token}
    {e : Expr}
    (hOpen : o.isOperator "(" = true)
    (hInner : Expr.Derives .assignment ts e)
    (hClose : p.isOperator ")" = true) :
    Expr.Derives .atom (o :: ts ++ [p]) e
| emptyCall
    {t o p : Token}
    (hKind : t.kind = .identifier)
    (hOpen : o.isOperator "(" = true)
    (hClose : p.isOperator ")" = true) :
    Expr.Derives .atom [t, o, p] (.call t.text [] t.location)
| call
    {ts : List Token}
    {t o p : Token}
    {arguments : List Expr}
    (hKind : t.kind = .identifier)
    (hOpen : o.isOperator "(" = true)
    (hArguments : Expr.DerivesList ts arguments)
    (hClose : p.isOperator ")" = true) :
    Expr.Derives .atom (t :: o :: ts ++ [p])
      (.call t.text arguments t.location)

/- Tokens that are expressions with commas between them. -/
inductive Expr.DerivesList : List Token → List Expr → Prop
| one
    {ts : List Token}
    {e : Expr}
    (h : Expr.Derives .assignment ts e) :
    Expr.DerivesList ts [e]
| more
    {ts us : List Token}
    {t : Token}
    {e : Expr}
    {es : List Expr}
    (hFirst : Expr.Derives .assignment ts e)
    (hComma : t.isSeparator "," = true)
    (hOthers : Expr.DerivesList us es) :
    Expr.DerivesList (ts ++ t :: us) (e :: es)

end

/- Tokens that are an expression or none at all. -/
inductive Expr.DerivesOption : List Token → Option Expr → Prop
| none :
    Expr.DerivesOption [] none
| some
    {ts : List Token}
    {e : Expr}
    (h : Expr.Derives .assignment ts e) :
    Expr.DerivesOption ts (some e)

------------------------------------------------------------
-- Statements
------------------------------------------------------------

/- Tokens that are names with commas between them. -/
inductive DerivesNames : List Token → List String → Prop
| one
    {t : Token}
    (hKind : t.kind = .identifier) :
    DerivesNames [t] [t.text]
| more
    {t u : Token}
    {ts : List Token}
    {names : List String}
    (hKind : t.kind = .identifier)
    (hComma : u.isSeparator "," = true)
    (hOthers : DerivesNames ts names) :
    DerivesNames (t :: u :: ts) (t.text :: names)

/- Tokens that are names or none at all, each name once. -/
def DerivesParameters
    (ts : List Token)
    (names : List String) : Prop :=
  (ts = [] ∧ names = [] ∨ DerivesNames ts names) ∧ names.Nodup

/- The statement begins with `if`. -/
def Stmt.isIf : Stmt → Bool
| .ifThen .. | .ifElse .. => true
| _ => false

mutual

/- Tokens that are a statement. -/
inductive Stmt.Derives : List Token → Stmt → Prop
| expr
    {ts : List Token}
    {e : Expr}
    (h : Expr.Derives .assignment ts e) :
    Stmt.Derives ts (.expr e)
| declare
    {k t : Token}
    (hNew : k.isKeyword "new" = true)
    (hKind : t.kind = .identifier) :
    Stmt.Derives [k, t] (.declare t.text k.location)
| define
    {k t u : Token}
    {ts : List Token}
    {value : Expr}
    (hNew : k.isKeyword "new" = true)
    (hKind : t.kind = .identifier)
    (hEquals : u.isOperator "=" = true)
    (hValue : Expr.Derives .assignment ts value) :
    Stmt.Derives (k :: t :: u :: ts)
      (.define t.text value k.location)
| ifThen
    {k o p : Token}
    {ts us : List Token}
    {condition : Expr}
    {body : List Stmt}
    (hIf : k.isKeyword "if" = true)
    (hOpen : o.isOperator "(" = true)
    (hCondition : Expr.Derives .assignment ts condition)
    (hClose : p.isOperator ")" = true)
    (hBody : Stmt.DerivesBlock us body) :
    Stmt.Derives (k :: o :: ts ++ p :: us)
      (.ifThen condition body k.location)
| ifElse
    {k o p l : Token}
    {ts us vs : List Token}
    {condition : Expr}
    {body otherwise : List Stmt}
    (hIf : k.isKeyword "if" = true)
    (hOpen : o.isOperator "(" = true)
    (hCondition : Expr.Derives .assignment ts condition)
    (hClose : p.isOperator ")" = true)
    (hBody : Stmt.DerivesBlock us body)
    (hElse : l.isKeyword "else" = true)
    (hOther : Stmt.DerivesOther vs otherwise) :
    Stmt.Derives (k :: o :: ts ++ p :: us ++ l :: vs)
      (.ifElse condition body otherwise k.location)
| whileLoop
    {k o p : Token}
    {ts us : List Token}
    {condition : Expr}
    {body : List Stmt}
    (hWhile : k.isKeyword "while" = true)
    (hOpen : o.isOperator "(" = true)
    (hCondition : Expr.Derives .assignment ts condition)
    (hClose : p.isOperator ")" = true)
    (hBody : Stmt.DerivesBlock us body) :
    Stmt.Derives (k :: o :: ts ++ p :: us)
      (.whileLoop condition body k.location)
| forLoop
    {k o s s' p : Token}
    {is cs us bs : List Token}
    {initial : Stmt}
    {condition update : Option Expr}
    {body : List Stmt}
    (hFor : k.isKeyword "for" = true)
    (hOpen : o.isOperator "(" = true)
    (hInitial : Stmt.Derives is initial)
    (hFirst : s.isSeparator ";" = true)
    (hCondition : Expr.DerivesOption cs condition)
    (hSecond : s'.isSeparator ";" = true)
    (hUpdate : Expr.DerivesOption us update)
    (hClose : p.isOperator ")" = true)
    (hBody : Stmt.DerivesBlock bs body) :
    Stmt.Derives
      (k :: o :: is ++ s :: cs ++ s' :: us ++ p :: bs)
      (.forLoop initial condition update body k.location)
| function
    {k t o p : Token}
    {ts us : List Token}
    {parameters : List String}
    {body : List Stmt}
    (hFunction : k.isKeyword "function" = true)
    (hKind : t.kind = .identifier)
    (hOpen : o.isOperator "(" = true)
    (hParameters : DerivesParameters ts parameters)
    (hClose : p.isOperator ")" = true)
    (hBody : Stmt.DerivesBlock us body) :
    Stmt.Derives (k :: t :: o :: ts ++ p :: us)
      (.function t.text parameters body k.location)
| ret
    {k s : Token}
    {ts : List Token}
    {argument : Option Expr}
    (hReturn : k.isKeyword "return" = true)
    (hArgument : Expr.DerivesOption ts argument)
    (hEnd : s.isSeparator ";" = true) :
    Stmt.Derives (k :: ts ++ [s]) (.ret argument k.location)
| breakLoop
    {k : Token}
    (hBreak : k.isKeyword "break" = true) :
    Stmt.Derives [k] (.breakLoop k.location)
| continueLoop
    {k : Token}
    (hContinue : k.isKeyword "continue" = true) :
    Stmt.Derives [k] (.continueLoop k.location)

/- Tokens that follow `else`. -/
inductive Stmt.DerivesOther : List Token → List Stmt → Prop
| block
    {ts : List Token}
    {body : List Stmt}
    (h : Stmt.DerivesBlock ts body) :
    Stmt.DerivesOther ts body
| chained
    {ts : List Token}
    {s : Stmt}
    (hIf : s.isIf = true)
    (h : Stmt.Derives ts s) :
    Stmt.DerivesOther ts [s]

/- Tokens that are statements in braces. -/
inductive Stmt.DerivesBlock : List Token → List Stmt → Prop
| braces
    {o p : Token}
    {ts : List Token}
    {body : List Stmt}
    (hOpen : o.isOperator "\x7b" = true)
    (hItems : Stmt.DerivesItems ts body)
    (hClose : p.isOperator "\x7d" = true) :
    Stmt.DerivesBlock (o :: ts ++ [p]) body

/- Tokens that are statements in a row, semicolons between any. -/
inductive Stmt.DerivesItems : List Token → List Stmt → Prop
| nil :
    Stmt.DerivesItems [] []
| empty
    {t : Token}
    {ts : List Token}
    {body : List Stmt}
    (hEmpty : t.isSeparator ";" = true)
    (hOthers : Stmt.DerivesItems ts body) :
    Stmt.DerivesItems (t :: ts) body
| cons
    {ts us : List Token}
    {s : Stmt}
    {body : List Stmt}
    (hFirst : Stmt.Derives ts s)
    (hOthers : Stmt.DerivesItems us body) :
    Stmt.DerivesItems (ts ++ us) (s :: body)

end

/- Tokens that are a program. -/
def Program.Derives
    (ts : List Token)
    (p : Program) : Prop :=
  Stmt.DerivesItems ts p

end StackScript
