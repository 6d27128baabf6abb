import StackScript.Proofs.Grammar.Forms
import StackScript.Proofs.Token.Spacing

/-
  Writing programs down.

  An operand that is more than one value, name or call is
  put in parentheses, a body in braces, and a semicolon
  stands behind every statement; the one that belongs to
  `return` is written as well. The words are separated by
  blanks.

  Key definitions include:
    * `Expr.words`
    * `Stmt.words`
    * `Program.render`
    * `Program.unplaced`

  Key theorems include:
    * `Expr.allSpell_words`
    * `Stmt.allSpell_words`
    * `Program.spellings_scan_render`
-/

namespace StackScript

------------------------------------------------------------
-- Trees Without Places
------------------------------------------------------------

mutual

/- An expression with all its places forgotten. -/
def Expr.unplaced : Expr → Expr
| .literal text _ => .literal text .start
| .string text _ => .string text .start
| .variable name _ => .variable name .start
| .binary operator a b _ =>
    .binary operator a.unplaced b.unplaced .start
| .logical operator a b _ =>
    .logical operator a.unplaced b.unplaced .start
| .unary operator a _ => .unary operator a.unplaced .start
| .post operator a _ => .post operator a.unplaced .start
| .assignment name value _ =>
    .assignment name value.unplaced .start
| .call name arguments _ =>
    .call name (Expr.unplacedAll arguments) .start

/- Expressions with all their places forgotten. -/
def Expr.unplacedAll : List Expr → List Expr
| [] => []
| e :: es => e.unplaced :: Expr.unplacedAll es

end

mutual

/- A statement with all its places forgotten. -/
def Stmt.unplaced : Stmt → Stmt
| .expr e => .expr e.unplaced
| .declare name _ => .declare name .start
| .define name value _ => .define name value.unplaced .start
| .function name parameters body _ =>
    .function name parameters (Stmt.unplacedAll body) .start
| .ret argument _ => .ret (argument.map Expr.unplaced) .start
| .ifThen condition body _ =>
    .ifThen condition.unplaced (Stmt.unplacedAll body) .start
| .ifElse condition body otherwise _ =>
    .ifElse condition.unplaced (Stmt.unplacedAll body)
      (Stmt.unplacedAll otherwise) .start
| .whileLoop condition body _ =>
    .whileLoop condition.unplaced (Stmt.unplacedAll body) .start
| .forLoop initial condition update body _ =>
    .forLoop initial.unplaced (condition.map Expr.unplaced)
      (update.map Expr.unplaced) (Stmt.unplacedAll body) .start
| .breakLoop _ => .breakLoop .start
| .continueLoop _ => .continueLoop .start

/- Statements with all their places forgotten. -/
def Stmt.unplacedAll : List Stmt → List Stmt
| [] => []
| s :: ss => s.unplaced :: Stmt.unplacedAll ss

end

/- A program with all its places forgotten. -/
def Program.unplaced (p : Program) : Program :=
  Stmt.unplacedAll p

------------------------------------------------------------
-- Words
------------------------------------------------------------

namespace Token.Spelling

/- The operator `text`. -/
def operator (text : String) : Token.Spelling :=
  ⟨.operator, text⟩

/- The keyword `text`. -/
def keyword (text : String) : Token.Spelling :=
  ⟨.keyword, text⟩

/- A name. -/
def name (text : String) : Token.Spelling :=
  ⟨.identifier, text⟩

def comma : Token.Spelling :=
  ⟨.separator, ","⟩

def semicolon : Token.Spelling :=
  ⟨.separator, ";"⟩

/- Words in parentheses. -/
def parenthesized (ws : List Token.Spelling) : List Token.Spelling :=
  operator "(" :: ws ++ [operator ")"]

/- Words in braces. -/
def braced (ws : List Token.Spelling) : List Token.Spelling :=
  operator "\x7b" :: ws ++ [operator "\x7d"]

end Token.Spelling

open Token.Spelling (operator keyword name comma semicolon)
open Token.Spelling (parenthesized braced)

/- An expression that needs no parentheses as an operand. -/
def Expr.isSimple : Expr → Bool
| .literal .. | .string .. | .variable .. | .call .. => true
| _ => false

/- The words of an expression, as they stand in an operand. -/
def Expr.enclose
    (e : Expr)
    (ws : List Token.Spelling) : List Token.Spelling :=
  if e.isSimple then ws else parenthesized ws

mutual

/- The words of an expression. -/
def Expr.words : Expr → List Token.Spelling
| .literal text _ => [⟨.literal, text⟩]
| .string text _ => [⟨.stringLiteral, text⟩]
| .variable text _ => [name text]
| .binary o a b _ | .logical o a b _ =>
    a.enclose a.words ++ operator o.symbol :: b.enclose b.words
| .unary o a _ => operator o.symbol :: a.enclose a.words
| .post o a _ => a.enclose a.words ++ [operator o.symbol]
| .assignment text value _ =>
    name text :: operator "=" :: value.enclose value.words
| .call text arguments _ =>
    name text :: parenthesized (Expr.wordsAll arguments)

/- The words of expressions with commas between them. -/
def Expr.wordsAll : List Expr → List Token.Spelling
| [] => []
| [e] => e.words
| e :: es => e.words ++ comma :: Expr.wordsAll es

end

/- The words of an expression, if there is one. -/
def Expr.wordsOption : Option Expr → List Token.Spelling
| none => []
| some e => e.words

/- The words of names with commas between them. -/
def nameWords : List String → List Token.Spelling
| [] => []
| [text] => [name text]
| text :: names => name text :: comma :: nameWords names

mutual

/- The words of a statement. -/
def Stmt.words : Stmt → List Token.Spelling
| .expr e => e.words
| .declare text _ => [keyword "new", name text]
| .define text value _ =>
    keyword "new" :: name text :: operator "=" :: value.words
| .function text parameters body _ =>
    keyword "function" :: name text
      :: (parenthesized (nameWords parameters)
        ++ braced (Stmt.wordsAll body))
| .ret argument _ =>
    keyword "return" :: (Expr.wordsOption argument ++ [semicolon])
| .ifThen condition body _ =>
    keyword "if"
      :: (parenthesized condition.words
        ++ braced (Stmt.wordsAll body))
| .ifElse condition body otherwise _ =>
    keyword "if"
      :: (parenthesized condition.words
        ++ braced (Stmt.wordsAll body)
        ++ keyword "else" :: braced (Stmt.wordsAll otherwise))
| .whileLoop condition body _ =>
    keyword "while"
      :: (parenthesized condition.words
        ++ braced (Stmt.wordsAll body))
| .forLoop initial condition update body _ =>
    keyword "for"
      :: (parenthesized
          (initial.words ++ semicolon :: Expr.wordsOption condition
            ++ semicolon :: Expr.wordsOption update)
        ++ braced (Stmt.wordsAll body))
| .breakLoop _ => [keyword "break"]
| .continueLoop _ => [keyword "continue"]

/- The words of statements, with a semicolon behind each. -/
def Stmt.wordsAll : List Stmt → List Token.Spelling
| [] => []
| s :: ss => s.words ++ semicolon :: Stmt.wordsAll ss

end

/- The text of a program. -/
def Program.render (p : Program) : String :=
  String.ofList (Token.spaced (Stmt.wordsAll p))

------------------------------------------------------------
-- Words of Their Kinds
------------------------------------------------------------

namespace Token

/- All of some words are words of their kinds. -/
def AllSpell (ws : List Spelling) : Prop :=
  ∀ w ∈ ws, Spells w.kind w.text.toList

namespace AllSpell

variable {w : Spelling}
variable {vs ws : List Spelling}

theorem nil : AllSpell [] :=
  nofun

theorem cons
    (hFirst : Spells w.kind w.text.toList)
    (hOthers : AllSpell ws) :
    AllSpell (w :: ws) :=
  List.forall_mem_cons.2 ⟨hFirst, hOthers⟩

theorem append
    (hLeft : AllSpell vs)
    (hRight : AllSpell ws) :
    AllSpell (vs ++ ws) :=
  List.forall_mem_append.2 ⟨hLeft, hRight⟩

theorem parenthesized
    (h : AllSpell ws) :
    AllSpell (Spelling.parenthesized ws) := by
  refine .append (.cons ?_ h) (.cons ?_ .nil)
  · exact .inl ⟨'(', by decide, rfl⟩
  · exact .inl ⟨')', by decide, rfl⟩

theorem braced
    (h : AllSpell ws) :
    AllSpell (Spelling.braced ws) := by
  refine .append (.cons ?_ h) (.cons ?_ .nil)
  · exact .inl ⟨'\x7b', by decide, rfl⟩
  · exact .inl ⟨'\x7d', by decide, rfl⟩

theorem enclose
    {e : Expr}
    (h : AllSpell ws) :
    AllSpell (e.enclose ws) := by
  unfold Expr.enclose
  split
  · exact h
  · exact h.parenthesized

end AllSpell

theorem spells_symbol_toList (o : Operator) :
    Spells .operator o.symbol.toList := by
  cases o with
  | eq | ne | le | ge | and | or | addAssign | subAssign | mulAssign
  | divAssign | increment | decrement =>
      exact .inr ⟨(_, _), by decide, rfl⟩
  | _ => exact .inl ⟨_, by decide, rfl⟩

theorem spells_comma : Spells .separator ",".toList :=
  .inl rfl

theorem spells_semicolon : Spells .separator ";".toList :=
  .inr rfl

/- Letters, digits and lines alone continue a name. -/
theorem isNameTail_of_isWord
    {cs : List Char}
    (h : ∀ c ∈ cs, isWord c = true) :
    IsNameTail cs := by
  induction cs with
  | nil => exact .nil
  | cons c cs ih =>
      exact .word (h c List.mem_cons_self)
        (ih fun d hd => h d (List.mem_cons_of_mem _ hd))

theorem spells_of_mem_keywords
    {text : String}
    (h : text ∈ keywords) :
    Spells .keyword text.toList := by
  have hAll :
      ∀ word ∈ keywords,
        (word.toList.head?.all isLetter &&
          word.toList.all isWord) = true ∧ word.toList ≠ [] := by
    decide
  rcases hAll text h with ⟨hLetters, hSome⟩
  refine ⟨?_, by rwa [String.ofList_toList]⟩
  rcases List.exists_cons_of_ne_nil hSome with ⟨c, cs, hText⟩
  rw [hText] at hLetters ⊢
  simp only [List.head?_cons, Option.all_some, List.all_cons,
    Bool.and_eq_true, List.all_eq_true] at hLetters
  exact ⟨hLetters.1, isNameTail_of_isWord hLetters.2.2⟩

end Token

open Token (AllSpell Spells)
open Token (spells_symbol_toList spells_comma spells_semicolon)

mutual

/- The words of an expression are words of their kinds. -/
theorem Expr.allSpell_words
    (e : Expr)
    (h : e.Formed) :
    AllSpell e.words := by
  match e with
  | .literal text place | .string text place
  | .variable text place =>
      exact .cons h .nil
  | .binary o a b place | .logical o a b place =>
      exact .append (.enclose (a.allSpell_words h.2.1))
        (.cons (spells_symbol_toList o)
          (.enclose (b.allSpell_words h.2.2)))
  | .unary o a place =>
      exact .cons (spells_symbol_toList o)
        (.enclose (a.allSpell_words h.2))
  | .post o a place =>
      exact .append (.enclose (a.allSpell_words h.2.2))
        (.cons (spells_symbol_toList o) .nil)
  | .assignment text value place =>
      exact .cons h.1
        (.cons (spells_symbol_toList .assign)
          (.enclose (value.allSpell_words h.2)))
  | .call text arguments place =>
      exact .cons h.1
        (.parenthesized (Expr.allSpell_wordsAll arguments h.2))

theorem Expr.allSpell_wordsAll
    (es : List Expr)
    (h : Expr.FormedAll es) :
    AllSpell (Expr.wordsAll es) := by
  match es with
  | [] => exact .nil
  | [e] => exact e.allSpell_words h.1
  | e :: f :: es =>
      exact .append (e.allSpell_words h.1)
        (.cons spells_comma (Expr.allSpell_wordsAll (f :: es) h.2))

end

theorem Expr.allSpell_wordsOption
    {e : Option Expr}
    (h : Expr.FormedOption e) :
    AllSpell (Expr.wordsOption e) := by
  cases e with
  | none => exact .nil
  | some e => exact e.allSpell_words h

theorem allSpell_nameWords
    {names : List String}
    (h : ∀ text ∈ names, FreeName text) :
    AllSpell (nameWords names) := by
  fun_induction nameWords names with
  | case1 => exact .nil
  | case2 text => exact .cons (h text List.mem_cons_self) .nil
  | case3 text names _ ih =>
      exact .cons (h text List.mem_cons_self)
        (.cons spells_comma
          (ih fun u hu => h u (List.mem_cons_of_mem _ hu)))

mutual

/- The words of a statement are words of their kinds. -/
theorem Stmt.allSpell_words
    (s : Stmt)
    (h : s.Formed) :
    AllSpell s.words := by
  have hKeyword :
      ∀ text ∈ Token.keywords, Spells .keyword text.toList :=
    fun _ => Token.spells_of_mem_keywords
  match s with
  | .expr e => exact e.allSpell_words h
  | .declare text place =>
      exact .cons (hKeyword "new" (by decide)) (.cons h .nil)
  | .define text value place =>
      exact .cons (hKeyword "new" (by decide))
        (.cons h.1
          (.cons (spells_symbol_toList .assign)
            (value.allSpell_words h.2)))
  | .function text parameters body place =>
      rcases h with ⟨hName, hNames, _, hBody⟩
      exact .cons (hKeyword "function" (by decide))
        (.cons hName
          (.append (.parenthesized (allSpell_nameWords hNames))
            (.braced (Stmt.allSpell_wordsAll body hBody))))
  | .ret argument place =>
      exact .cons (hKeyword "return" (by decide))
        (.append (Expr.allSpell_wordsOption h)
          (.cons spells_semicolon .nil))
  | .ifThen condition body place =>
      exact .cons (hKeyword "if" (by decide))
        (.append (.parenthesized (condition.allSpell_words h.1))
          (.braced (Stmt.allSpell_wordsAll body h.2)))
  | .ifElse condition body otherwise place =>
      rcases h with ⟨hCondition, hBody, hOther⟩
      exact .cons (hKeyword "if" (by decide))
        (.append
          (.append
            (.parenthesized (condition.allSpell_words hCondition))
            (.braced (Stmt.allSpell_wordsAll body hBody)))
          (.cons (hKeyword "else" (by decide))
            (.braced (Stmt.allSpell_wordsAll otherwise hOther))))
  | .whileLoop condition body place =>
      exact .cons (hKeyword "while" (by decide))
        (.append (.parenthesized (condition.allSpell_words h.1))
          (.braced (Stmt.allSpell_wordsAll body h.2)))
  | .forLoop initial condition update body place =>
      rcases h with ⟨hInitial, hCondition, hUpdate, hBody⟩
      have hHeader :
          AllSpell
            (initial.words ++ semicolon :: Expr.wordsOption condition
              ++ semicolon :: Expr.wordsOption update) :=
        .append
          (.append (initial.allSpell_words hInitial)
            (.cons spells_semicolon
              (Expr.allSpell_wordsOption hCondition)))
          (.cons spells_semicolon (Expr.allSpell_wordsOption hUpdate))
      exact .cons (hKeyword "for" (by decide))
        (.append (.parenthesized hHeader)
          (.braced (Stmt.allSpell_wordsAll body hBody)))
  | .breakLoop place =>
      exact .cons (hKeyword "break" (by decide)) .nil
  | .continueLoop place =>
      exact .cons (hKeyword "continue" (by decide)) .nil

theorem Stmt.allSpell_wordsAll
    (ss : List Stmt)
    (h : Stmt.FormedAll ss) :
    AllSpell (Stmt.wordsAll ss) := by
  match ss with
  | [] => exact .nil
  | s :: ss =>
      exact .append (s.allSpell_words h.1)
        (.cons spells_semicolon (Stmt.allSpell_wordsAll ss h.2))

end

/- The text of a program is read as its words. -/
theorem Program.spellings_scan_render
    {p : Program}
    (h : Program.Formed p) :
    (Token.scan p.render).map Token.spelling = Stmt.wordsAll p :=
  Token.spellings_scan (Stmt.allSpell_wordsAll p h)

end StackScript
