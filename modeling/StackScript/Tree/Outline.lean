import StackScript.Text.Quoted
import StackScript.Tree.Basic

/-
  Syntax trees as indented text.

  An outline is a tree of named records, named groups and
  lists; each part stands on a line of its own, indented by
  four spaces and followed by a comma.

  Key definitions include:
    * `Outline`
    * `Outline.render`
    * `Program.outline`
-/

namespace StackScript

------------------------------------------------------------
-- Outlines
------------------------------------------------------------

/- A tree of labelled parts. -/
inductive Outline where
| atom (text : String)
| record (name : String) (fields : List (String × Outline))
| group (name : String) (item : Outline)
| list (items : List Outline)

namespace Outline

/- The blanks at the front of a line. -/
def margin (depth : Nat) : String :=
  String.ofList (List.replicate (4 * depth) ' ')

/- An opening, parts on lines of their own, and a closing. -/
def enclose
    (depth : Nat)
    (opening closing : String)
    (parts : List String) : String :=
  opening ++ "\n"
    ++ String.join
      (parts.map fun p => margin (depth + 1) ++ p ++ ",\n")
    ++ margin depth ++ closing

mutual

/- The text of an outline whose first line stands at a depth. -/
def render
    (depth : Nat) :
    Outline → String
| .atom text => text
| .record name fields =>
    enclose depth (name ++ " \x7b") "\x7d"
      (renderFields (depth + 1) fields)
| .group name item =>
    enclose depth (name ++ "(") ")" [render (depth + 1) item]
| .list [] => "[]"
| .list (item :: items) =>
    enclose depth "[" "]"
      (render (depth + 1) item :: renderItems (depth + 1) items)

/- The texts of the fields of a record. -/
def renderFields
    (depth : Nat) :
    List (String × Outline) → List String
| [] => []
| (key, value) :: fields =>
    (key ++ ": " ++ render depth value) :: renderFields depth fields

/- The texts of the items of a list. -/
def renderItems
    (depth : Nat) :
    List Outline → List String
| [] => []
| item :: items => render depth item :: renderItems depth items

end

/- A quoted text. -/
def text (s : String) : Outline :=
  .atom (Text.quoted s)

/- A number. -/
def number (n : Nat) : Outline :=
  .atom (toString n)

/- A value that may be missing. -/
def optional : Option Outline → Outline
| none => .atom "None"
| some item => .group "Some" item

end Outline

------------------------------------------------------------
-- Outlines of Trees
------------------------------------------------------------

/- The outline of a place. -/
def Location.outline (l : Location) : Outline :=
  .record "Location"
    [("row", .number l.row), ("column", .number l.column)]

/- The outline of an operator. -/
def Operator.outline (o : Operator) : Outline :=
  .atom o.label

mutual

/- The outline of an expression. -/
def Expr.outline : Expr → Outline
| .literal text l =>
    .record "Literal"
      [("text", .text text), ("location", l.outline)]
| .string text l =>
    .record "String"
      [("text", .text text), ("location", l.outline)]
| .variable name l =>
    .record "Variable"
      [("name", .text name), ("location", l.outline)]
| .binary o a b l =>
    .record "Binary"
      [("operator", o.outline), ("left", a.outline),
       ("right", b.outline), ("location", l.outline)]
| .logical o a b l =>
    .record "Logical"
      [("operator", o.outline), ("left", a.outline),
       ("right", b.outline), ("location", l.outline)]
| .unary o a l =>
    .record "Unary"
      [("operator", o.outline), ("argument", a.outline),
       ("location", l.outline)]
| .post o a l =>
    .record "Postfix"
      [("operator", o.outline), ("argument", a.outline),
       ("location", l.outline)]
| .assignment name value l =>
    .record "Assignment"
      [("name", .text name), ("value", value.outline),
       ("location", l.outline)]
| .call name arguments l =>
    .record "Call"
      [("name", .text name),
       ("arguments", .list (Expr.outlines arguments)),
       ("location", l.outline)]

/- The outlines of some expressions. -/
def Expr.outlines : List Expr → List Outline
| [] => []
| e :: es => e.outline :: Expr.outlines es

end

mutual

/- The outline of a statement. -/
def Stmt.outline : Stmt → Outline
| .expr value => .group "Expr" value.outline
| .declare name l =>
    .record "NewDeclaration"
      [("name", .text name), ("location", l.outline)]
| .define name value l =>
    .record "NewAssignment"
      [("name", .text name), ("value", value.outline),
       ("location", l.outline)]
| .function name parameters body l =>
    .record "FunctionDeclaration"
      [("name", .text name),
       ("parameters", .list (parameters.map .text)),
       ("body", .list (Stmt.outlines body)),
       ("location", l.outline)]
| .ret argument l =>
    .record "Return"
      [("argument", .optional (argument.map Expr.outline)),
       ("location", l.outline)]
| .ifThen condition body l =>
    .record "If"
      [("condition", condition.outline),
       ("body", .list (Stmt.outlines body)),
       ("otherwise", .optional none),
       ("location", l.outline)]
| .ifElse condition body otherwise l =>
    .record "If"
      [("condition", condition.outline),
       ("body", .list (Stmt.outlines body)),
       ("otherwise",
         .optional (some (.list (Stmt.outlines otherwise)))),
       ("location", l.outline)]
| .whileLoop condition body l =>
    .record "While"
      [("condition", condition.outline),
       ("body", .list (Stmt.outlines body)),
       ("location", l.outline)]
| .forLoop initial condition update body l =>
    .record "For"
      [("initial", initial.outline),
       ("condition", .optional (condition.map Expr.outline)),
       ("update", .optional (update.map Expr.outline)),
       ("body", .list (Stmt.outlines body)),
       ("location", l.outline)]
| .breakLoop l => .record "Break" [("location", l.outline)]
| .continueLoop l => .record "Continue" [("location", l.outline)]

/- The outlines of some statements. -/
def Stmt.outlines : List Stmt → List Outline
| [] => []
| s :: ss => s.outline :: Stmt.outlines ss

end

/- The outline of a program. -/
def Program.outline (p : Program) : Outline :=
  .record "Program" [("body", .list (Stmt.outlines p))]

end StackScript
