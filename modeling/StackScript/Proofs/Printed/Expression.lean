import StackScript.Proofs.Grammar.Expression
import StackScript.Proofs.Grammar.Giving
import StackScript.Proofs.Printed.Words

/-
  Expressions that are written down are read back.

  Operands are read one at a time, as each is a single value,
  name or call or stands in parentheses; between two of them
  there is one operator, and what follows an expression ends
  it. The bound on the nesting of calls allows eight for
  every token.

  Key definitions include:
    * `Parser.Calm`
    * `Parser.Ends`
    * `Expr.Reads`

  Key theorems include:
    * `Parser.gives_joined`
    * `Expr.reads`
-/

namespace StackScript

open Token (spelling exists_cons_of_spellings)
open Token (exists_append_of_spellings)

/- Two expressions differ in their places alone. -/
def Expr.Same (e f : Expr) : Prop :=
  f.unplaced = e.unplaced

theorem Expr.name?_unplaced (e : Expr) :
    e.unplaced.name? = e.name? := by
  cases e with
  | _ => rfl

theorem Expr.Same.name?_eq
    {e f : Expr}
    (h : e.Same f) :
    f.name? = e.name? := by
  rw [← f.name?_unplaced, ← e.name?_unplaced, h]

/- Tokens whose spellings stand between two others. -/
theorem Token.exists_of_enclosed
    {ts : List Token}
    {v w : Token.Spelling}
    {ws : List Token.Spelling}
    (h : ts.map spelling = v :: ws ++ [w]) :
    ∃ o us p,
      ts = ⟨v.kind, v.text, o⟩ :: (us ++ [⟨w.kind, w.text, p⟩]) ∧
        us.map spelling = ws := by
  rw [List.cons_append] at h
  rcases exists_cons_of_spellings h with ⟨o, others, rfl, hMore⟩
  rcases exists_append_of_spellings hMore with
    ⟨us, ends, rfl, hInner, hEnd⟩
  rcases exists_cons_of_spellings hEnd with ⟨p, none, rfl, hNone⟩
  rw [List.map_eq_nil_iff.1 hNone]
  exact ⟨o, us, p, rfl, hInner⟩

theorem Token.exists_of_parenthesized
    {ts : List Token}
    {ws : List Token.Spelling}
    (h : ts.map spelling = Token.Spelling.parenthesized ws) :
    ∃ o us p,
      ts = ⟨.operator, "(", o⟩ :: (us ++ [⟨.operator, ")", p⟩]) ∧
        us.map spelling = ws :=
  exists_of_enclosed h

theorem Token.exists_of_braced
    {ts : List Token}
    {ws : List Token.Spelling}
    (h : ts.map spelling = Token.Spelling.braced ws) :
    ∃ o us p,
      ts =
        ⟨.operator, "\x7b", o⟩ :: (us ++ [⟨.operator, "\x7d", p⟩]) ∧
        us.map spelling = ws :=
  exists_of_enclosed h

namespace Parser

variable {before : Option Token}
variable {t : Token}
variable {ts us rest : List Token}
variable {P : Expr → Prop}

------------------------------------------------------------
-- What Follows
------------------------------------------------------------

/- The next token does not go on with an operand. -/
def Calm (rest : List Token) : Prop :=
  ∀ t ∈ rest.head?, step? t = none ∧ t.isOperator "(" = false

/- The next token does not go on with an expression. -/
def Ends (rest : List Token) : Prop :=
  Calm rest ∧ ∀ t ∈ rest.head?, Connective.of? t = none

theorem calm_of_of?
    {c : Connective}
    (h : Connective.of? t = some c) :
    Calm (t :: rest) := by
  have hAll :
      ∀ entry ∈ Connective.table,
        entry.1 ≠ "++" ∧ entry.1 ≠ "--" ∧ entry.1 ≠ "(" := by
    decide
  rcases hAll _ (Connective.mem_of_of? h).2 with ⟨hPlus, hMinus, hOpen⟩
  rintro _ ⟨⟩
  simp [step?, Token.isOperator, Token.is, hPlus, hMinus, hOpen]

theorem ends_close
    {place : Location} :
    Ends (⟨.operator, ")", place⟩ :: rest) := by
  refine ⟨?_, ?_⟩
  · rintro _ ⟨⟩
    exact ⟨rfl, rfl⟩
  · rintro _ ⟨⟩
    rfl

theorem ends_separator
    {text : String}
    {place : Location} :
    Ends (⟨.separator, text, place⟩ :: rest) := by
  refine ⟨?_, ?_⟩
  · rintro _ ⟨⟩
    exact ⟨rfl, rfl⟩
  · rintro _ ⟨⟩
    rfl

------------------------------------------------------------
-- Ends of Expressions
------------------------------------------------------------

variable {bound least : Nat}

/- What is left when no operator waits is given. -/
theorem gives_conclude
    {output : List Expr}
    {pending : Pending}
    {e : Expr}
    (hReduce : ∀ place, reduceAll place pending output = .ok [e])
    (h : P e) :
    Gives ⟨before, rest⟩ (conclude output pending) rest P :=
  gives_run rfl (gives_lift (hReduce _) (gives_pure h))

/- No operator comes next. -/
theorem gives_connectives_end
    {output : List Expr}
    {pending : Pending}
    {e : Expr}
    (hEnds : Ends rest)
    (hReduce : ∀ place, reduceAll place pending output = .ok [e])
    (h : P e) :
    Gives ⟨before, rest⟩
      (connectives (bound + 1) least output pending) rest P := by
  have hEnd :
      Gives ⟨before, rest⟩ (conclude output pending) rest P :=
    gives_conclude hReduce h
  rw [connectives]
  apply gives_peek
  cases rest with
  | nil => exact hEnd
  | cons t rest =>
      dsimp only [List.head?_cons]
      rw [hEnds.2 t rfl]
      exact hEnd

/- An operand that nothing goes on with is an expression. -/
theorem gives_expression_of_operand
    (hEnds : Ends rest)
    (hOperand :
      Gives ⟨before, ts⟩ (operand (bound + 1)) rest P) :
    Gives ⟨before, ts⟩ (expression (bound + 2) least) rest P := by
  rw [expression]
  apply hOperand.bind
  intro e last hGiven
  exact gives_connectives_end hEnds (fun _ => rfl) hGiven

/- An operand that no step follows is read without one. -/
theorem gives_stepped
    {e : Expr}
    (hCalm : Calm rest)
    (h : P e) :
    Gives ⟨before, rest⟩ (stepped e) rest P := by
  unfold stepped
  apply gives_peek
  cases rest with
  | nil => exact gives_pure h
  | cons t rest =>
      dsimp only [List.head?_cons]
      rw [(hCalm t rfl).1]
      exact gives_pure h

/- An operand begins with the token that tells what it is. -/
theorem gives_operand_of_primary
    (hPrimary :
      Gives ⟨some t, us⟩ (primary bound before t) rest P)
    (hCalm : Calm rest) :
    Gives ⟨before, t :: us⟩ (operand (bound + 1)) rest P := by
  rw [operand]
  refine gives_run rfl ?_
  apply gives_peek
  dsimp only [List.head?_cons]
  apply gives_advance
  apply hPrimary.bind
  intro e last hGiven
  exact gives_stepped hCalm hGiven

/- An expression in parentheses is an operand. -/
theorem gives_operand_of_group
    {o p : Location}
    (hCalm : Calm rest)
    (hInner :
      Gives ⟨some ⟨.operator, "(", o⟩, us⟩ (expression bound 0)
        (⟨.operator, ")", p⟩ :: rest) P) :
    Gives ⟨before, ⟨.operator, "(", o⟩ :: us⟩ (operand (bound + 2))
      rest P := by
  apply gives_operand_of_primary ?_ hCalm
  rw [primary]
  dsimp only
  rw [if_pos rfl]
  apply hInner.bind
  intro e last hGiven
  exact gives_expectOperator rfl (gives_pure hGiven)

------------------------------------------------------------
-- One Operator
------------------------------------------------------------

/- Two operands and the operator between them. -/
theorem gives_joined
    {c : Connective}
    {A B : Expr → Prop}
    {u : Token}
    (hToken : Connective.of? t = some c)
    (hKind : c.kind ≠ .assignment)
    (hEnds : Ends rest)
    (hLeft :
      Gives ⟨before, ts⟩ (operand (bound + 2)) (t :: u :: us) A)
    (hRight :
      Gives ⟨some t, u :: us⟩ (operand (bound + 1)) rest B) :
    Gives ⟨before, ts⟩ (expression (bound + 3) 0) rest fun e =>
      ∃ a b, A a ∧ B b ∧ e = c.apply a b t.location := by
  rw [expression]
  apply hLeft.bind
  intro a last hA
  rw [connectives]
  apply gives_peek
  dsimp only [List.head?_cons]
  rw [hToken]
  dsimp only
  rw [if_neg (Nat.not_lt_zero _)]
  apply gives_advance
  apply gives_lift rfl
  dsimp only
  rw [if_neg hKind]
  apply gives_requireOperand
  apply hRight.bind
  intro b last hB
  apply gives_connectives_end hEnds
  · intro place
    rfl
  · exact ⟨a, b, hA, hB, rfl⟩

/- A name that no parenthesis follows is a variable. -/
theorem gives_primary_name
    {x : String}
    {l : Location}
    (hNext : ∀ t ∈ rest.head?, t.isOperator "(" = false) :
    Gives ⟨some ⟨.identifier, x, l⟩, rest⟩
      (primary (bound + 1) before ⟨.identifier, x, l⟩) rest
      (· = .variable x l) := by
  rw [primary]
  exact gives_ifNotNext hNext (gives_pure rfl)

theorem gives_operand_name
    {x : String}
    {l : Location}
    (hCalm : Calm rest) :
    Gives ⟨before, ⟨.identifier, x, l⟩ :: rest⟩
      (operand (bound + 2)) rest (· = .variable x l) :=
  gives_operand_of_primary
    (gives_primary_name fun t hHead => (hCalm t hHead).2) hCalm

/- A name, an equals sign and the value. -/
theorem gives_assignment
    {x : String}
    {l q : Location}
    {u : Token}
    (hValue :
      Gives ⟨some ⟨.operator, "=", q⟩, u :: us⟩
        (expression (bound + 1) 1) rest P) :
    Gives
      ⟨before, ⟨.identifier, x, l⟩ :: ⟨.operator, "=", q⟩ :: u :: us⟩
      (expression (bound + 3) 0) rest fun e =>
        ∃ value, P value ∧ e = .assignment x value q := by
  have hCalm : Calm (⟨.operator, "=", q⟩ :: u :: us) :=
    calm_of_of? rfl
  rw [expression]
  apply (gives_operand_name hCalm).bind
  rintro _ last rfl
  rw [connectives]
  apply gives_peek
  apply gives_advance
  apply gives_lift rfl
  apply gives_requireOperand
  apply hValue.bind
  intro value last hGiven
  exact gives_conclude (fun _ => rfl) ⟨value, hGiven, rfl⟩

/- The operators in front of an operand are read as such. -/
theorem sign?_of_mem
    {o : Operator}
    (hBefore : signMayFollow before = true)
    (h : o ∈ Operator.signs ∨ o ∈ Operator.steps) :
    sign? before o.symbol = some o ∧ o.symbol ≠ "(" := by
  have hMem : o ∈ Operator.signs ++ Operator.steps :=
    List.mem_append.2 h
  simp only [Operator.signs, Operator.steps, List.cons_append,
    List.nil_append, List.mem_cons, List.not_mem_nil, or_false] at hMem
  rcases hMem with rfl | rfl | rfl | rfl | rfl | rfl <;>
    simp [sign?, Operator.symbol, hBefore]

/- A sign or a step and its argument. -/
theorem gives_sign
    {o : Operator}
    {l : Location}
    {u : Token}
    (hBefore : signMayFollow before = true)
    (h : o ∈ Operator.signs ∨ o ∈ Operator.steps)
    (hCalm : Calm rest)
    (hArgument :
      Gives ⟨some ⟨.operator, o.symbol, l⟩, u :: us⟩
        (expression bound Connective.signPrecedence) rest
        fun a => P a ∧ (o.isStep = true → a.name?.isSome = true)) :
    Gives ⟨before, ⟨.operator, o.symbol, l⟩ :: u :: us⟩
      (operand (bound + 2)) rest fun e =>
        ∃ a, P a ∧ e = .unary o a l := by
  rcases sign?_of_mem hBefore h with ⟨hSign, hOpen⟩
  apply gives_operand_of_primary ?_ hCalm
  rw [primary]
  dsimp only
  rw [if_neg hOpen, hSign]
  apply gives_requireOperand
  apply hArgument.bind
  rintro a last ⟨hGiven, hTarget⟩
  rw [if_neg]
  · exact gives_pure ⟨a, hGiven, rfl⟩
  · intro hNone
    rw [Bool.and_eq_true] at hNone
    have hSome := hTarget hNone.1
    rw [Option.isNone_iff_eq_none.1 hNone.2] at hSome
    cases hSome

theorem step?_of_mem
    {o : Operator}
    {l : Location}
    (h : o ∈ Operator.steps) :
    step? ⟨.operator, o.symbol, l⟩ = some o := by
  simp only [Operator.steps, List.mem_cons, List.not_mem_nil,
    or_false] at h
  rcases h with rfl | rfl
  · rfl
  · rfl

theorem run_refuseStep
    (hCalm : Calm rest) :
    refuseStep.run ⟨before, rest⟩ = .ok ((), ⟨before, rest⟩) := by
  cases rest with
  | nil => rfl
  | cons t rest =>
      change
        (if (step? t).isSome = true then
            (throw (.chainedStep t.location) : Parser Unit)
          else pure ()).run ⟨before, t :: rest⟩ = _
      rw [(hCalm t rfl).1]
      rfl

/- A variable and the step behind it. -/
theorem gives_stepAfter
    {o : Operator}
    {x : String}
    {l q : Location}
    (h : o ∈ Operator.steps)
    (hCalm : Calm rest) :
    Gives
      ⟨before, ⟨.identifier, x, l⟩ :: ⟨.operator, o.symbol, q⟩ :: rest⟩
      (operand (bound + 2)) rest
      (· = .post o (.variable x l) q) := by
  rw [operand]
  refine gives_run rfl ?_
  apply gives_peek
  dsimp only [List.head?_cons]
  apply gives_advance
  apply (gives_primary_name ?_).bind
  · rintro _ last rfl
    unfold stepped
    apply gives_peek
    dsimp only [List.head?_cons]
    rw [step?_of_mem h]
    apply gives_advance
    exact gives_run (run_refuseStep hCalm) (gives_pure rfl)
  · have hOpen := (@sign?_of_mem none o rfl (.inr h)).2
    rintro _ ⟨⟩
    simp [Token.isOperator, Token.is, hOpen]

------------------------------------------------------------
-- Calls
------------------------------------------------------------

/- A call that no second argument list follows. -/
theorem gives_called
    {x : String}
    {l : Location}
    {arguments : List Expr}
    (hCalm : Calm rest) :
    Gives ⟨before, rest⟩ (called ⟨.identifier, x, l⟩ arguments) rest
      (· = .call x arguments l) := by
  apply gives_ifNotNext
  · intro t hHead
    exact (hCalm t hHead).2
  · exact gives_pure rfl

theorem gives_emptyCall
    {x : String}
    {l o p : Location}
    (hCalm : Calm rest) :
    Gives
      ⟨before,
        ⟨.identifier, x, l⟩ :: ⟨.operator, "(", o⟩
          :: ⟨.operator, ")", p⟩ :: rest⟩
      (operand (bound + 2)) rest (· = .call x [] l) := by
  apply gives_operand_of_primary ?_ hCalm
  rw [primary]
  refine gives_ifNext rfl (gives_advance ?_)
  exact gives_ifNext rfl (gives_advance (gives_called hCalm))

/- A name and its arguments in parentheses. -/
theorem gives_call
    {x : String}
    {l o : Location}
    {Q : List Expr → Prop}
    (hCalm : Calm rest)
    (hFirst : t.isOperator ")" = false)
    (hArguments :
      Gives ⟨some ⟨.operator, "(", o⟩, t :: us⟩
        (argumentList bound ⟨.identifier, x, l⟩) rest Q) :
    Gives
      ⟨before, ⟨.identifier, x, l⟩ :: ⟨.operator, "(", o⟩ :: t :: us⟩
      (operand (bound + 2)) rest fun e =>
        ∃ es, Q es ∧ e = .call x es l := by
  apply gives_operand_of_primary ?_ hCalm
  rw [primary]
  refine gives_ifNext rfl (gives_advance ?_)
  apply gives_ifNotNext
  · rintro _ ⟨⟩
    exact hFirst
  · apply hArguments.bind
    intro es last hGiven
    refine (gives_called hCalm).mono ?_
    rintro _ rfl
    exact ⟨es, hGiven, rfl⟩

theorem gives_lastArgument
    {name : Token}
    {p : Location}
    (h :
      Gives ⟨before, us⟩ (expression bound 0)
        (⟨.operator, ")", p⟩ :: rest) P) :
    Gives ⟨before, us⟩ (argumentList (bound + 1) name) rest fun es =>
      ∃ e, P e ∧ es = [e] := by
  rw [argumentList]
  apply h.bind
  intro e last hGiven
  apply gives_ifNotNext
  · rintro _ ⟨⟩
    rfl
  · exact gives_ifNext rfl
      (gives_advance (gives_pure ⟨e, hGiven, rfl⟩))

theorem gives_moreArguments
    {name : Token}
    {l : Location}
    {Q : List Expr → Prop}
    (hFirst :
      Gives ⟨before, ts⟩ (expression bound 0)
        (⟨.separator, ",", l⟩ :: us) P)
    (hOthers :
      Gives ⟨some ⟨.separator, ",", l⟩, us⟩ (argumentList bound name)
        rest Q) :
    Gives ⟨before, ts⟩ (argumentList (bound + 1) name) rest fun es =>
      ∃ f fs, P f ∧ Q fs ∧ es = f :: fs := by
  rw [argumentList]
  apply hFirst.bind
  intro f last hGiven
  refine gives_ifNext rfl (gives_advance ?_)
  apply hOthers.bind
  intro fs last hMore
  exact gives_pure ⟨f, fs, hGiven, hMore, rfl⟩

end Parser

------------------------------------------------------------
-- First Words
------------------------------------------------------------

open Token.Spelling (operator name parenthesized)

/- A word that an expression can begin with. -/
def Token.Spelling.opens (w : Token.Spelling) : Bool :=
  match w.kind with
  | .literal | .stringLiteral | .identifier => true
  | .operator => ["(", "+", "-", "!", "~", "++", "--"].contains w.text
  | _ => false

/- An operand begins with such a word. -/
theorem Expr.exists_opens_enclose (e : Expr) :
    ∃ w ws, e.enclose e.words = w :: ws ∧ w.opens = true := by
  cases e with
  | literal | string | «variable» | call =>
      exact ⟨_, _, rfl, rfl⟩
  | _ => exact ⟨_, _, rfl, rfl⟩

/- An expression begins with such a word. -/
theorem Expr.exists_opens_words
    {e : Expr}
    (h : e.Formed) :
    ∃ w ws, e.words = w :: ws ∧ w.opens = true := by
  cases e with
  | literal | string | «variable» | call | assignment =>
      exact ⟨_, _, rfl, rfl⟩
  | binary o a b place | logical o a b place | post o a place =>
      rcases a.exists_opens_enclose with ⟨w, ws, hWords, hOpens⟩
      rw [Expr.words, hWords]
      exact ⟨w, _, rfl, hOpens⟩
  | unary o a place =>
      have hAll :
          ∀ o ∈ Operator.signs ++ Operator.steps,
            (operator o.symbol).opens = true := by
        decide
      have hMem : o ∈ Operator.signs ++ Operator.steps :=
        List.mem_append.2 (h.1.imp_right And.left)
      exact ⟨_, _, rfl, hAll o hMem⟩

/- A token that opens an expression is no other token. -/
theorem Token.is_eq_false_of_opens
    {t : Token}
    {kind : Token.Kind}
    {text : String}
    (h : t.spelling.opens = true)
    (hOther : Token.Spelling.opens ⟨kind, text⟩ = false) :
    t.is kind text = false := by
  by_contra hSame
  simp only [Token.is, Bool.not_eq_false, Bool.and_eq_true,
    beq_iff_eq] at hSame
  have hSpelling : t.spelling = ⟨kind, text⟩ := by
    simp [Token.spelling, hSame.1, hSame.2]
  rw [hSpelling, hOther] at h
  cases h

/- The first token of an expression that is written down. -/
theorem Expr.exists_opens_tokens
    {e : Expr}
    {ts : List Token}
    (h : e.Formed)
    (hWords : ts.map spelling = e.words) :
    ∃ t us, ts = t :: us ∧ t.spelling.opens = true := by
  rcases Expr.exists_opens_words h with ⟨w, ws, hFirst, hOpens⟩
  rw [hFirst] at hWords
  rcases exists_cons_of_spellings hWords with ⟨l, us, rfl, _⟩
  exact ⟨_, us, rfl, hOpens⟩

/- The first token of an operand that is written down. -/
theorem Expr.exists_cons_of_enclose
    {e : Expr}
    {ts : List Token}
    (hWords : ts.map spelling = e.enclose e.words) :
    ∃ t us, ts = t :: us := by
  rcases e.exists_opens_enclose with ⟨w, ws, hFirst, _⟩
  rw [hFirst] at hWords
  rcases exists_cons_of_spellings hWords with ⟨l, us, rfl, _⟩
  exact ⟨_, us, rfl⟩

------------------------------------------------------------
-- Expressions
------------------------------------------------------------

open StackScript.Parser

/- The words of an expression are read back as it. -/
def Expr.ReadsWhole (e : Expr) : Prop :=
  ∀ ts before rest bound,
    ts.map spelling = e.words → signMayFollow before = true →
    Ends rest → 8 * ts.length ≤ bound →
      Gives ⟨before, ts ++ rest⟩ (expression bound 0) rest e.Same

/- The words of an operand are read back as it. -/
def Expr.ReadsOperand (e : Expr) : Prop :=
  ∀ ts before rest bound,
    ts.map spelling = e.enclose e.words → Calm rest →
    8 * ts.length ≤ bound + 1 →
      Gives ⟨before, ts ++ rest⟩ (operand bound) rest e.Same

/- An expression is read back in both positions. -/
structure Expr.Reads (e : Expr) : Prop where
  whole : e.ReadsWhole
  operand : e.ReadsOperand

namespace Expr.Reads

variable {a b e : Expr}

/- A simple expression is written as an operand. -/
theorem of_operand
    (hSimple : e.isSimple = true)
    (h : e.ReadsOperand) :
    e.Reads where
  operand := h
  whole := by
    intro ts before rest bound hWords _ hEnds hBound
    have hOperand : ts.map spelling = e.enclose e.words := by
      rw [hWords, Expr.enclose, if_pos hSimple]
    rcases Expr.exists_cons_of_enclose hOperand with ⟨t, us, hTokens⟩
    obtain ⟨b, rfl⟩ : ∃ b, bound = b + 2 :=
      ⟨bound - 2, by simp [hTokens] at hBound; omega⟩
    exact gives_expression_of_operand hEnds
      (h ts before rest (b + 1) hOperand hEnds.1 hBound)

/- Any other expression is put in parentheses. -/
theorem of_whole
    (hCompound : e.isSimple = false)
    (h : e.ReadsWhole) :
    e.Reads where
  whole := h
  operand := by
    intro ts before rest bound hWords hCalm hBound
    rw [Expr.enclose, if_neg (by simp [hCompound])] at hWords
    rcases Token.exists_of_parenthesized hWords with
      ⟨o, us, p, rfl, hInner⟩
    simp only [List.length_cons, List.length_append,
      List.length_nil] at hBound
    obtain ⟨b, rfl⟩ : ∃ b, bound = b + 2 := ⟨bound - 2, by omega⟩
    rw [List.cons_append, List.append_assoc]
    apply gives_operand_of_group hCalm
    exact h us _ _ b hInner rfl ends_close (by omega)

/- Two operands with an operator of the table between them. -/
theorem of_joined
    {o : Operator}
    {c : Connective}
    (hSimple : e.isSimple = false)
    (hTable : Connective.table.lookup o.symbol = some c)
    (hKind : c.kind ≠ .assignment)
    (hWords :
      e.words =
        a.enclose a.words ++ operator o.symbol :: b.enclose b.words)
    (hSame :
      ∀ a' b' place, a.Same a' → b.Same b' →
        e.Same (c.apply a' b' place))
    (hLeft : a.ReadsOperand)
    (hRight : b.ReadsOperand) :
    e.Reads := by
  apply of_whole hSimple
  intro ts before rest bound hText _ hEnds hBound
  rw [hWords] at hText
  rcases exists_append_of_spellings hText with
    ⟨as, others, rfl, hFirst, hMore⟩
  rcases exists_cons_of_spellings hMore with ⟨l, bs, rfl, hSecond⟩
  rcases Expr.exists_cons_of_enclose hFirst with ⟨t, as', hAs⟩
  rcases Expr.exists_cons_of_enclose hSecond with ⟨u, bs', hBs⟩
  have hToken :
      Connective.of? ⟨.operator, o.symbol, l⟩ = some c :=
    hTable
  simp only [List.length_append, List.length_cons] at hBound
  have hSome : 0 < as.length := by simp [hAs]
  obtain ⟨n, rfl⟩ : ∃ n, bound = n + 3 := ⟨bound - 3, by omega⟩
  have hReadLeft :=
    hLeft as before
      (⟨.operator, o.symbol, l⟩ :: (bs ++ rest)) (n + 2) hFirst
      (calm_of_of? hToken) (by omega)
  have hReadRight :=
    hRight bs (some ⟨.operator, o.symbol, l⟩) rest (n + 1) hSecond
      hEnds.1 (by omega)
  rw [List.append_assoc, List.cons_append]
  rw [hBs, List.cons_append] at hReadLeft hReadRight ⊢
  refine (gives_joined hToken hKind hEnds hReadLeft hReadRight).mono ?_
  rintro _ ⟨a', b', hA, hB, rfl⟩
  exact hSame a' b' l hA hB

/- What the table holds for an operator. -/
theorem exists_lookup
    {o : Operator}
    {kind : Connective.Kind}
    (h :
      (Connective.table.lookup o.symbol).any
        (fun c => c.kind = kind ∧ c.operator = o) = true) :
    ∃ c, Connective.table.lookup o.symbol = some c ∧
      c.kind = kind ∧ c.operator = o := by
  rw [Option.any_eq_true] at h
  rcases h with ⟨c, hTable, hEntry⟩
  exact ⟨c, hTable, of_decide_eq_true hEntry⟩

theorem of_binary
    {o : Operator}
    {place : Location}
    (hOperator : o ∈ Operator.binaries)
    (hLeft : a.ReadsOperand)
    (hRight : b.ReadsOperand) :
    (Expr.binary o a b place).Reads := by
  have hAll :
      ∀ o ∈ Operator.binaries,
        (Connective.table.lookup o.symbol).any
          (fun c => c.kind = .binary ∧ c.operator = o) = true := by
    decide
  rcases exists_lookup (hAll o hOperator) with
    ⟨c, hTable, hKind, rfl⟩
  refine of_joined rfl hTable (by simp [hKind]) rfl ?_ hLeft hRight
  intro a' b' l hA hB
  unfold Expr.Same at hA hB ⊢
  simp [Connective.apply, hKind, Expr.unplaced, hA, hB]

theorem of_logical
    {o : Operator}
    {place : Location}
    (hOperator : o ∈ Operator.logicals)
    (hLeft : a.ReadsOperand)
    (hRight : b.ReadsOperand) :
    (Expr.logical o a b place).Reads := by
  have hAll :
      ∀ o ∈ Operator.logicals,
        (Connective.table.lookup o.symbol).any
          (fun c => c.kind = .logical ∧ c.operator = o) = true := by
    decide
  rcases exists_lookup (hAll o hOperator) with
    ⟨c, hTable, hKind, rfl⟩
  refine of_joined rfl hTable (by simp [hKind]) rfl ?_ hLeft hRight
  intro a' b' l hA hB
  unfold Expr.Same at hA hB ⊢
  simp [Connective.apply, hKind, Expr.unplaced, hA, hB]

theorem of_unary
    {o : Operator}
    {place : Location}
    (hOperator :
      o ∈ Operator.signs ∨
        o ∈ Operator.steps ∧ a.name?.isSome = true)
    (hArgument : a.ReadsOperand) :
    (Expr.unary o a place).Reads := by
  apply of_whole rfl
  intro ts before rest bound hText hBefore hEnds hBound
  rw [Expr.words] at hText
  rcases exists_cons_of_spellings hText with ⟨l, us, rfl, hMore⟩
  rcases Expr.exists_cons_of_enclose hMore with ⟨u, us', hUs⟩
  simp only [List.length_cons] at hBound
  have hSome : 0 < us.length := by simp [hUs]
  obtain ⟨n, rfl⟩ : ∃ n, bound = n + 5 := ⟨bound - 5, by omega⟩
  have hRead :=
    hArgument us (some ⟨.operator, o.symbol, l⟩) rest (n + 1) hMore
      hEnds.1 (by omega)
  -- A step needs a variable, and places do not matter to that.
  have hTarget :
      ∀ a', a.Same a' →
        a.Same a' ∧ (o.isStep = true → a'.name?.isSome = true) := by
    intro a' hSame
    refine ⟨hSame, ?_⟩
    intro hStep
    rw [hSame.name?_eq]
    rcases hOperator with hSign | ⟨_, hName⟩
    · have hAll : ∀ o ∈ Operator.signs, o.isStep = false := by
        decide
      rw [hAll o hSign] at hStep
      cases hStep
    · exact hName
  have hGiven := hRead.mono hTarget
  rw [hUs, List.cons_append] at hGiven
  rw [hUs, List.cons_append, List.cons_append]
  apply gives_expression_of_operand hEnds
  refine (gives_sign hBefore (hOperator.imp_right And.left) hEnds.1
    (gives_expression_of_operand hEnds hGiven)).mono ?_
  rintro _ ⟨a', hSame, rfl⟩
  unfold Expr.Same at hSame ⊢
  rw [Expr.unplaced, Expr.unplaced, hSame]

theorem of_post
    {o : Operator}
    {place : Location}
    (hOperator : o ∈ Operator.steps)
    (hTarget : a.name?.isSome = true) :
    (Expr.post o a place).Reads := by
  apply of_whole rfl
  intro ts before rest bound hText _ hEnds hBound
  rcases Option.isSome_iff_exists.1 hTarget with ⟨x, hName⟩
  rcases Expr.eq_variable_of_name? hName with ⟨spot, rfl⟩
  rcases exists_cons_of_spellings hText with ⟨l, us, rfl, hMore⟩
  rcases exists_cons_of_spellings hMore with ⟨q, none, rfl, hNone⟩
  rw [List.map_eq_nil_iff.1 hNone] at hBound ⊢
  simp only [List.length_cons, List.length_nil] at hBound
  obtain ⟨n, rfl⟩ : ∃ n, bound = n + 3 := ⟨bound - 3, by omega⟩
  apply gives_expression_of_operand hEnds
  refine (gives_stepAfter hOperator hEnds.1).mono ?_
  rintro _ rfl
  rfl

theorem of_assignment
    {x : String}
    {place : Location}
    (hValue : a.ReadsOperand) :
    (Expr.assignment x a place).Reads := by
  apply of_whole rfl
  intro ts before rest bound hText _ hEnds hBound
  rw [Expr.words] at hText
  rcases exists_cons_of_spellings hText with ⟨l, others, rfl, hMore⟩
  rcases exists_cons_of_spellings hMore with ⟨q, us, rfl, hRight⟩
  rcases Expr.exists_cons_of_enclose hRight with ⟨u, us', hUs⟩
  simp only [List.length_cons] at hBound
  have hSome : 0 < us.length := by simp [hUs]
  obtain ⟨n, rfl⟩ : ∃ n, bound = n + 4 := ⟨bound - 4, by omega⟩
  have hRead :=
    hValue us (some ⟨.operator, "=", q⟩) rest (n + 1) hRight
      hEnds.1 (by omega)
  rw [hUs, List.cons_append] at hRead
  rw [hUs, List.cons_append, List.cons_append, List.cons_append]
  refine (gives_assignment
    (gives_expression_of_operand hEnds hRead)).mono ?_
  rintro _ ⟨value, hSame, rfl⟩
  unfold Expr.Same at hSame ⊢
  rw [Expr.unplaced, Expr.unplaced, hSame]
  rfl

/- An expression of one word. -/
theorem of_single
    {w : Token.Spelling}
    (hSimple : e.isSimple = true)
    (hWords : e.words = [w])
    (hPrimary :
      ∀ before rest l n, Calm rest →
        Gives ⟨some ⟨w.kind, w.text, l⟩, rest⟩
          (primary (n + 1) before ⟨w.kind, w.text, l⟩) rest e.Same) :
    e.Reads := by
  apply of_operand hSimple
  intro ts before rest bound hText hCalm hBound
  rw [Expr.enclose, if_pos hSimple, hWords] at hText
  rcases exists_cons_of_spellings hText with ⟨l, none, rfl, hNone⟩
  rw [List.map_eq_nil_iff.1 hNone] at hBound ⊢
  simp only [List.length_cons, List.length_nil] at hBound
  obtain ⟨n, rfl⟩ : ∃ n, bound = n + 2 := ⟨bound - 2, by omega⟩
  exact gives_operand_of_primary (hPrimary before rest l n hCalm) hCalm

theorem of_literal
    {text : String}
    {place : Location} :
    (Expr.literal text place).Reads := by
  apply of_single rfl rfl
  intro before rest l n _
  rw [primary]
  exact gives_pure rfl

theorem of_string
    {text : String}
    {place : Location} :
    (Expr.string text place).Reads := by
  apply of_single rfl rfl
  intro before rest l n _
  rw [primary]
  exact gives_pure rfl

theorem of_variable
    {x : String}
    {place : Location} :
    (Expr.variable x place).Reads := by
  apply of_single rfl rfl
  intro before rest l n hCalm
  refine (gives_primary_name fun t hHead => (hCalm t hHead).2).mono ?_
  rintro _ rfl
  rfl

end Expr.Reads

/- The words of arguments, up to the parenthesis, are read back. -/
def Expr.ReadsAll (es : List Expr) : Prop :=
  ∀ ts before rest bound callee p,
    ts.map spelling = Expr.wordsAll es →
    signMayFollow before = true → 8 * ts.length < bound →
      Gives ⟨before, ts ++ ⟨.operator, ")", p⟩ :: rest⟩
        (argumentList bound callee) rest fun fs =>
          Expr.unplacedAll fs = Expr.unplacedAll es

theorem Expr.readsAll_one
    {e : Expr}
    (h : e.ReadsWhole) :
    Expr.ReadsAll [e] := by
  intro ts before rest bound callee p hText hBefore hBound
  obtain ⟨n, rfl⟩ : ∃ n, bound = n + 1 := ⟨bound - 1, by omega⟩
  have hRead :=
    h ts before (⟨.operator, ")", p⟩ :: rest) n hText hBefore
      ends_close (by omega)
  refine (gives_lastArgument hRead).mono ?_
  rintro _ ⟨f, hSame, rfl⟩
  rw [Expr.unplacedAll, hSame]
  rfl

theorem Expr.readsAll_more
    {e f : Expr}
    {es : List Expr}
    (hFirst : e.ReadsWhole)
    (hOthers : Expr.ReadsAll (f :: es)) :
    Expr.ReadsAll (e :: f :: es) := by
  intro ts before rest bound callee p hText hBefore hBound
  have hWords :
      Expr.wordsAll (e :: f :: es) =
        e.words ++ Token.Spelling.comma :: Expr.wordsAll (f :: es) :=
    rfl
  rw [hWords] at hText
  rcases exists_append_of_spellings hText with
    ⟨us, others, rfl, hHead, hMore⟩
  rcases exists_cons_of_spellings hMore with ⟨l, vs, rfl, hTail⟩
  simp only [List.length_append, List.length_cons] at hBound
  obtain ⟨n, rfl⟩ : ∃ n, bound = n + 1 := ⟨bound - 1, by omega⟩
  have hReadFirst :=
    hFirst us before
      (⟨.separator, ",", l⟩ :: (vs ++ ⟨.operator, ")", p⟩ :: rest)) n
      hHead hBefore ends_separator (by omega)
  have hReadOthers :=
    hOthers vs (some ⟨.separator, ",", l⟩) rest n callee p hTail rfl
      (by omega)
  rw [List.append_assoc, List.cons_append]
  refine (gives_moreArguments hReadFirst hReadOthers).mono ?_
  rintro _ ⟨g, gs, hSame, hRest, rfl⟩
  rw [Expr.unplacedAll, hSame, hRest]
  rfl

/- The first token of arguments that are written down. -/
theorem Expr.exists_opens_wordsAll
    {e : Expr}
    {es : List Expr}
    {ts : List Token}
    (h : Expr.FormedAll (e :: es))
    (hText : ts.map spelling = Expr.wordsAll (e :: es)) :
    ∃ t us, ts = t :: us ∧ t.spelling.opens = true := by
  cases es with
  | nil => exact Expr.exists_opens_tokens h.1 hText
  | cons f es =>
      rcases exists_append_of_spellings hText with
        ⟨us, others, rfl, hHead, _⟩
      rcases Expr.exists_opens_tokens h.1 hHead with
        ⟨t, us', rfl, hOpens⟩
      exact ⟨t, us' ++ others, rfl, hOpens⟩

theorem Expr.Reads.of_call
    {x : String}
    {place : Location}
    {es : List Expr}
    (hFormed : Expr.FormedAll es)
    (h : es ≠ [] → Expr.ReadsAll es) :
    (Expr.call x es place).Reads := by
  apply of_operand rfl
  intro ts before rest bound hText hCalm hBound
  rcases exists_cons_of_spellings hText with ⟨l, others, rfl, hMore⟩
  rcases Token.exists_of_parenthesized hMore with
    ⟨o, us, p, rfl, hInner⟩
  simp only [List.length_cons, List.length_append,
    List.length_nil] at hBound
  obtain ⟨n, rfl⟩ : ∃ n, bound = n + 2 := ⟨bound - 2, by omega⟩
  rw [List.cons_append, List.cons_append, List.append_assoc]
  cases es with
  | nil =>
      rw [List.map_eq_nil_iff.1 hInner]
      refine (gives_emptyCall hCalm).mono ?_
      rintro _ rfl
      rfl
  | cons e es =>
      rcases Expr.exists_opens_wordsAll hFormed hInner with
        ⟨t, us', rfl, hOpens⟩
      have hRead :=
        h nofun _ (some ⟨.operator, "(", o⟩) rest n
          ⟨.identifier, x, l⟩ p hInner rfl (by omega)
      refine (gives_call hCalm (Token.is_eq_false_of_opens hOpens rfl)
        hRead).mono ?_
      rintro _ ⟨fs, hSame, rfl⟩
      unfold Expr.Same
      rw [Expr.unplaced, Expr.unplaced, hSame]

mutual

/- Every expression of a form that the language has is read back. -/
theorem Expr.reads
    (e : Expr)
    (h : e.Formed) :
    e.Reads := by
  match e with
  | .literal _ _ => exact .of_literal
  | .string _ _ => exact .of_string
  | .variable _ _ => exact .of_variable
  | .binary _ a b _ =>
      exact .of_binary h.1 (a.reads h.2.1).operand
        (b.reads h.2.2).operand
  | .logical _ a b _ =>
      exact .of_logical h.1 (a.reads h.2.1).operand
        (b.reads h.2.2).operand
  | .unary _ a _ => exact .of_unary h.1 (a.reads h.2).operand
  | .post _ _ _ => exact .of_post h.1 h.2.1
  | .assignment _ value _ =>
      exact .of_assignment (value.reads h.2).operand
  | .call _ arguments _ =>
      exact .of_call h.2 fun hSome =>
        Expr.readsAll arguments h.2 hSome

theorem Expr.readsAll
    (es : List Expr)
    (h : Expr.FormedAll es)
    (hSome : es ≠ []) :
    Expr.ReadsAll es := by
  match es with
  | [] => exact absurd rfl hSome
  | [e] => exact Expr.readsAll_one (e.reads h.1).whole
  | e :: f :: es =>
      exact Expr.readsAll_more (e.reads h.1).whole
        (Expr.readsAll (f :: es) h.2 nofun)

end

end StackScript
