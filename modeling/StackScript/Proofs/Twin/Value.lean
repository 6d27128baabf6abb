import Mathlib.Data.List.Forall2
import StackScript.Proofs.Machine.Results
import StackScript.Proofs.Twin.Paired

/-
  Values that are alike but for functions.

  Two values are twins when they are the same or both are
  functions that are related. Twins show the same text and
  are equal to twins, so operations and built-in functions
  cannot tell them apart.

  Key definitions include:
    * `Routine.Tagged`
    * `Value.Twin`
    * `Scopes.Twin`
    * `EvalError.Twin`

  Key theorems include:
    * `Value.Twin.combine`
    * `Scopes.Twin.assign`, `Scopes.Twin.truncate`
    * `Builtin.pairs_run`
-/

namespace StackScript

variable {R : Routine → Routine → Prop}

------------------------------------------------------------
-- Values
------------------------------------------------------------

/- Related functions share what a program can tell of them. -/
def Routine.Tagged (R : Routine → Routine → Prop) : Prop :=
  ∀ r r', R r r' →
    r'.mark = r.mark ∧ r'.name = r.name ∧
      r'.parameters = r.parameters

/- The same value, or functions that are related. -/
inductive Value.Twin (R : Routine → Routine → Prop) :
    Value → Value → Prop
| same
    {v : Value}
    (h : ∀ r, v ≠ .routine r) :
    Twin R v v
| routine
    {r r' : Routine}
    (h : R r r') :
    Twin R (.routine r) (.routine r')

/- Lists of values that are twins one by one. -/
abbrev Value.Twins (R : Routine → Routine → Prop) :
    List Value → List Value → Prop :=
  List.Forall₂ (Value.Twin R)

namespace Value.Twin

variable {v v' w w' : Value}

theorem null : Value.Twin R .null .null :=
  .same (by simp)

theorem undefined : Value.Twin R .undefined .undefined :=
  .same (by simp)

theorem text {s : String} : Value.Twin R (.text s) (.text s) :=
  .same (by simp)

theorem number {n : Binary64} :
    Value.Twin R (.number n) (.number n) :=
  .same (by simp)

theorem decimal {d : Decimal} :
    Value.Twin R (.decimal d) (.decimal d) :=
  .same (by simp)

theorem isNumeric (h : v.Twin R v') :
    v'.isNumeric = v.isNumeric := by
  cases h with
  | same => rfl
  | routine => rfl

/- Numbers are twins of themselves only. -/
theorem eq_of_isNumeric
    (h : v.Twin R v')
    (hNumeric : v.isNumeric = true) :
    v' = v := by
  cases h with
  | same => rfl
  | routine => cases hNumeric

theorem kind (h : v.Twin R v') :
    v'.kind = v.kind := by
  cases h with
  | same => rfl
  | routine => rfl

theorem isText (h : v.Twin R v') :
    v'.isText = v.isText := by
  cases h with
  | same => rfl
  | routine => rfl

theorem isZero (h : v.Twin R v') :
    v'.isZero = v.isZero := by
  cases h with
  | same => rfl
  | routine => rfl

theorem isTruthy (h : v.Twin R v') :
    v'.isTruthy = v.isTruthy := by
  cases h with
  | same => rfl
  | routine => rfl

theorem toInteger? (h : v.Twin R v') :
    v'.toInteger? = v.toInteger? := by
  cases h with
  | same => rfl
  | routine => rfl

theorem display
    (hTags : Routine.Tagged R)
    (h : v.Twin R v') :
    v'.display = v.display := by
  cases h with
  | same => rfl
  | routine h => rw [Value.display, Value.display, (hTags _ _ h).2.1]

theorem displayAll
    {vs vs' : List Value}
    (hTags : Routine.Tagged R)
    (h : Value.Twins R vs vs') :
    Value.displayAll vs' = Value.displayAll vs := by
  have hTexts : vs'.map Value.display = vs.map Value.display := by
    induction h with
    | nil => rfl
    | cons h _ ih =>
        rw [List.map_cons, List.map_cons, h.display hTags, ih]
  rw [Value.displayAll, Value.displayAll, hTexts]

theorem sameAs
    (hTags : Routine.Tagged R)
    (hv : v.Twin R v')
    (hw : w.Twin R w') :
    v'.same w' = v.same w := by
  cases hv with
  | same hv =>
      cases hw with
      | same => rfl
      | routine =>
          cases v with
          | routine r => exact absurd rfl (hv r)
          | _ => rfl
  | routine hr =>
      cases hw with
      | same hw =>
          cases w with
          | routine r => exact absurd rfl (hw r)
          | _ => rfl
      | routine hq =>
          rw [Value.same, Value.same, (hTags _ _ hr).1,
            (hTags _ _ hq).1]

------------------------------------------------------------
-- Operations
------------------------------------------------------------

/- Twins that are numbers are the same; others give no operands. -/
theorem promote
    (hv : v.Twin R v')
    (hw : w.Twin R w') :
    (v' = v ∧ w' = w) ∨
      Value.promote v w = .ok none ∧
        Value.promote v' w' = .ok none := by
  by_cases hNumbers : (v.isNumeric && w.isNumeric) = true
  · left
    rw [Bool.and_eq_true] at hNumbers
    exact ⟨hv.eq_of_isNumeric hNumbers.1,
      hw.eq_of_isNumeric hNumbers.2⟩
  · right
    rw [Bool.not_eq_true] at hNumbers
    rw [Value.promote, Value.promote, hv.isNumeric, hw.isNumeric,
      hNumbers]
    exact ⟨rfl, rfl⟩

theorem arithmetic
    (hTags : Routine.Tagged R)
    (hv : v.Twin R v')
    (hw : w.Twin R w')
    (op : Op)
    (precision : Nat) :
    Value.arithmetic op v' w' precision =
      Value.arithmetic op v w precision := by
  rcases hv.promote hw with ⟨rfl, rfl⟩ | ⟨hNone, hNone'⟩
  · rfl
  · unfold Value.arithmetic
    rw [hNone, hNone', hv.kind, hw.kind, hv.isText, hw.isText,
      hv.display hTags, hw.display hTags]
    rfl

theorem compare
    (hTags : Routine.Tagged R)
    (hv : v.Twin R v')
    (hw : w.Twin R w')
    (op : Op) :
    Value.compare op v' w' = Value.compare op v w := by
  rcases hv.promote hw with ⟨rfl, rfl⟩ | ⟨hNone, hNone'⟩
  · rfl
  · unfold Value.compare
    rw [hNone, hNone', hv.kind, hw.kind, hv.sameAs hTags hw]
    cases hv with
    | same =>
        cases hw with
        | same => rfl
        | routine => cases v <;> rfl
    | routine => rfl

/- Operations between twins give the same. -/
theorem combine
    (hTags : Routine.Tagged R)
    (hv : v.Twin R v')
    (hw : w.Twin R w')
    (op : Op)
    (precision : Nat) :
    op.combine precision v' w' = op.combine precision v w := by
  unfold Op.combine
  rw [hv.arithmetic hTags hw, hv.compare hTags hw]

theorem negate (h : v.Twin R v') :
    v'.negate = v.negate := by
  cases h with
  | same => rfl
  | routine => rfl

theorem bitNot (h : v.Twin R v') :
    v'.bitNot = v.bitNot := by
  cases h with
  | same => rfl
  | routine => rfl

end Value.Twin

------------------------------------------------------------
-- Scopes
------------------------------------------------------------

/- Scopes of the same names in the same order, of twin values. -/
abbrev Scope.Twin (R : Routine → Routine → Prop) :
    Scope → Scope → Prop :=
  List.Forall₂ fun entry entry' =>
    entry'.1 = entry.1 ∧ entry.2.Twin R entry'.2

/- Nested scopes that are twins one by one. -/
structure Scopes.Twin
    (R : Routine → Routine → Prop)
    (s s' : Scopes) : Prop where
  top : Scope.Twin R s.top s'.top
  outer : List.Forall₂ (Scope.Twin R) s.outer s'.outer

namespace Scope.Twin

variable {s s' : Scope}
variable {v v' : Value}

theorem get?
    (h : Scope.Twin R s s')
    (name : String) :
    Option.Rel (Value.Twin R) (s.get? name) (s'.get? name) := by
  induction h with
  | nil => exact .none
  | @cons entry entry' rest rest' hEntry _ ih =>
      rcases entry with ⟨n, w⟩
      rcases entry' with ⟨n', w'⟩
      rcases hEntry with ⟨hName, hValue⟩
      cases hName
      unfold Scope.get? at ih ⊢
      rw [List.lookup_cons, List.lookup_cons]
      cases name == n with
      | true => exact .some hValue
      | false => exact ih

theorem has
    (h : Scope.Twin R s s')
    (name : String) :
    s'.has name = s.has name := by
  unfold Scope.has
  rcases missing_or_related (h.get? name) with
    ⟨hLeft, hRight⟩ | ⟨w, w', hLeft, hRight, _⟩
  · rw [hLeft, hRight]
  · rw [hLeft, hRight]
    rfl

theorem set
    (h : Scope.Twin R s s')
    (hValue : v.Twin R v')
    (name : String) :
    Scope.Twin R (Scope.set name v s) (Scope.set name v' s') := by
  induction h with
  | nil => exact .nil
  | @cons entry entry' rest rest' hEntry hRest ih =>
      rcases entry with ⟨n, w⟩
      rcases entry' with ⟨n', w'⟩
      rcases hEntry with ⟨hName, hOld⟩
      cases hName
      unfold Scope.set
      split
      · exact .cons ⟨rfl, hValue⟩ hRest
      · exact .cons ⟨rfl, hOld⟩ ih

end Scope.Twin

namespace Scopes.Twin

variable {s s' : Scopes}
variable {v v' : Value}

theorem toList (h : s.Twin R s') :
    List.Forall₂ (Scope.Twin R) s.toList s'.toList :=
  .cons h.top h.outer

theorem depth (h : s.Twin R s') :
    s'.depth = s.depth := by
  unfold Scopes.depth
  rw [h.outer.length_eq]

theorem push (h : s.Twin R s') :
    s.push.Twin R s'.push :=
  ⟨.nil, h.toList⟩

theorem pop (h : s.Twin R s') :
    Agree Eq (Scopes.Twin R) s.pop s'.pop := by
  rcases s with ⟨top, outer⟩
  rcases s' with ⟨top', outer'⟩
  cases h.outer with
  | nil => exact rfl
  | cons hFirst hOthers => exact ⟨hFirst, hOthers⟩

theorem close
    (h : s.Twin R s')
    (n : Nat) :
    (s.close n).Twin R (s'.close n) := by
  induction n generalizing s s' with
  | zero => exact h
  | succ n ih =>
      rcases s with ⟨top, outer⟩
      rcases s' with ⟨top', outer'⟩
      cases hOuter : h.outer with
      | nil => exact h
      | cons hFirst hOthers => exact ih ⟨hFirst, hOthers⟩

theorem truncate
    (h : s.Twin R s')
    (n : Nat) :
    (s.truncate n).Twin R (s'.truncate n) := by
  unfold Scopes.truncate
  rw [h.depth]
  exact h.close _

theorem get?
    (h : s.Twin R s')
    (name : String) :
    Option.Rel (Value.Twin R) (s.get? name) (s'.get? name) := by
  have hFind :
      ∀ {scopes scopes' : List Scope},
        List.Forall₂ (Scope.Twin R) scopes scopes' →
        Option.Rel (Value.Twin R) (find? name scopes)
          (find? name scopes') := by
    intro scopes scopes' hScopes
    induction hScopes with
    | nil => exact .none
    | cons hFirst _ ih =>
        unfold find?
        rcases missing_or_related (hFirst.get? name) with
          ⟨hLeft, hRight⟩ | ⟨w, w', hLeft, hRight, hValue⟩
        · rw [hLeft, hRight]
          exact ih
        · rw [hLeft, hRight]
          exact .some hValue
  exact hFind h.toList

theorem lookup
    (h : s.Twin R s')
    (name : String) :
    Agree Eq (Value.Twin R) (s.lookup name) (s'.lookup name) := by
  unfold Scopes.lookup
  rcases missing_or_related (h.get? name) with
    ⟨hLeft, hRight⟩ | ⟨w, w', hLeft, hRight, hValue⟩
  · rw [hLeft, hRight]
    exact rfl
  · rw [hLeft, hRight]
    exact hValue

theorem declare
    (h : s.Twin R s')
    (hValue : v.Twin R v')
    (name : String) :
    Agree Eq (Scopes.Twin R) (s.declare name v)
      (s'.declare name v') := by
  unfold Scopes.declare
  rw [h.top.has name]
  split
  · exact rfl
  · exact ⟨.cons ⟨rfl, hValue⟩ h.top, h.outer⟩

theorem setIn?
    {scopes scopes' : List Scope}
    (h : List.Forall₂ (Scope.Twin R) scopes scopes')
    (hValue : v.Twin R v')
    (name : String) :
    Option.Rel (List.Forall₂ (Scope.Twin R))
      (Scopes.setIn? name v scopes)
      (Scopes.setIn? name v' scopes') := by
  induction h with
  | nil => exact .none
  | cons hFirst hOthers ih =>
      unfold Scopes.setIn?
      rw [hFirst.has name]
      split
      · exact .some (.cons (hFirst.set hValue name) hOthers)
      · rcases missing_or_related ih with
          ⟨hLeft, hRight⟩ | ⟨rest, rest', hLeft, hRight, hRest⟩
        · rw [hLeft, hRight]
          exact .none
        · rw [hLeft, hRight]
          exact .some (.cons hFirst hRest)

theorem assign
    (h : s.Twin R s')
    (hValue : v.Twin R v')
    (name : String) :
    Agree Eq (Scopes.Twin R) (s.assign name v)
      (s'.assign name v') := by
  unfold Scopes.assign
  rw [h.top.has name]
  split
  · exact rfl
  · split
    · exact ⟨h.top.set hValue name, h.outer⟩
    · rcases missing_or_related (setIn? h.outer hValue name) with
        ⟨hLeft, hRight⟩ | ⟨outer, outer', hLeft, hRight, hOuter⟩
      · rw [hLeft, hRight]
        exact rfl
      · rw [hLeft, hRight]
        exact ⟨h.top, hOuter⟩

/- Parameters are declared with twin arguments alike. -/
theorem bindParameters
    {arguments arguments' : List Value}
    (h : s.Twin R s')
    (hArguments : Value.Twins R arguments arguments')
    (parameters : List String) :
    Agree Eq (Scopes.Twin R)
      (Machine.bindParameters parameters arguments s)
      (Machine.bindParameters parameters arguments' s') := by
  induction parameters generalizing s s' arguments arguments' with
  | nil => exact h
  | cons p ps ih =>
      unfold Machine.bindParameters
      have hFirst :
          (arguments.head?.getD .undefined).Twin R
            (arguments'.head?.getD .undefined) := by
        cases hArguments with
        | nil => exact .undefined
        | cons hValue => exact hValue
      have hRest : Value.Twins R arguments.tail arguments'.tail := by
        cases hArguments with
        | nil => exact .nil
        | cons _ hOthers => exact hOthers
      apply (h.declare hFirst p).bind
      intro t t' hDeclared
      exact ih hDeclared hRest

end Scopes.Twin

------------------------------------------------------------
-- Errors
------------------------------------------------------------

/- The same complaint, about twins where it names a value. -/
inductive BuiltinError.Twin (R : Routine → Routine → Prop) :
    BuiltinError → BuiltinError → Prop
| same (e : BuiltinError) : Twin R e e
| invalidArgument
    {index : Nat}
    {v v' : Value}
    {kind : Value.Kind}
    (h : v.Twin R v') :
    Twin R (.invalidArgument index ⟨v, kind⟩)
      (.invalidArgument index ⟨v', kind⟩)
| domain
    {function : String}
    {v v' : Value}
    (h : v.Twin R v') :
    Twin R (.domain function v) (.domain function v')
| invalidPrecision
    {v v' : Value}
    (h : v.Twin R v') :
    Twin R (.invalidPrecision v) (.invalidPrecision v')

/- The same error, about twins where it names a value. -/
inductive EvalError.Twin (R : Routine → Routine → Prop) :
    EvalError → EvalError → Prop
| same (e : EvalError) : Twin R e e
| builtin
    {name : String}
    {e e' : BuiltinError}
    (h : e.Twin R e') :
    Twin R (.builtin name e) (.builtin name e')

------------------------------------------------------------
-- Built-in Functions
------------------------------------------------------------

/- Paired from the same host on, with twin errors. -/
abbrev Hosted.Pairs
    {α β : Type}
    (R : Routine → Routine → Prop)
    (Q : α → β → Prop)
    (x : Hosted α)
    (y : Hosted β) : Prop :=
  StackScript.Pairs Eq (BuiltinError.Twin R) Q x y

namespace Builtin

variable {v v' w w' u u' : Value}
variable {scopes scopes' : Scopes}
variable {arguments arguments' : List Value}

theorem pairs_self
    {α : Type}
    (x : Hosted α) :
    Hosted.Pairs R Eq x x := by
  rintro host _ rfl
  cases x host with
  | ok a after => exact ⟨rfl, rfl⟩
  | error e after => exact ⟨.same e, rfl⟩

/- What a conversion of twins gives. -/
def AlikeConverted
    {α : Type}
    (R : Routine → Routine → Prop) :
    Except ConversionError α → Except ConversionError α → Prop :=
  Agree (fun e e' => e'.kind = e.kind ∧ e.value.Twin R e'.value) Eq

theorem pairs_converted
    {α : Type}
    {index : Nat}
    {x y : Except ConversionError α}
    (h : AlikeConverted R x y) :
    Hosted.Pairs R Eq (converted index x) (converted index y) := by
  cases x with
  | ok a =>
      cases y with
      | ok b => exact pairs_pure h
      | error e => exact h.elim
  | error e =>
      cases y with
      | ok b => exact h.elim
      | error e' =>
          rcases e with ⟨w, k⟩
          rcases e' with ⟨w', k'⟩
          rcases h with ⟨hKind, hValue⟩
          cases hKind
          exact pairs_throw (.invalidArgument hValue)

/- A conversion takes twins for the same or refuses both. -/
theorem alike_toNumber (h : v.Twin R v') :
    AlikeConverted R v.toNumber v'.toNumber := by
  cases h with
  | same h =>
      unfold Value.toNumber
      cases v.toNumber? with
      | some n => exact rfl
      | none => exact ⟨rfl, .same h⟩
  | routine h => exact ⟨rfl, .routine h⟩

theorem alike_toInteger (h : v.Twin R v') :
    AlikeConverted R v.toInteger v'.toInteger := by
  cases h with
  | same h =>
      unfold Value.toInteger
      cases v.toInteger? with
      | some n => exact rfl
      | none => exact ⟨rfl, .same h⟩
  | routine h => exact ⟨rfl, .routine h⟩

theorem alike_toDecimal (h : v.Twin R v') :
    AlikeConverted R v.toDecimal v'.toDecimal := by
  cases h with
  | same h =>
      unfold Value.toDecimal
      cases v.toDecimal? with
      | some n => exact rfl
      | none => exact ⟨rfl, .same h⟩
  | routine h => exact ⟨rfl, .routine h⟩

/- Values that are no functions are their own twins. -/
theorem twin_self
    (h : v.All fun _ => False) :
    v.Twin R v :=
  .same fun r hr => h r hr

theorem twin_argument
    (h : Value.Twins R arguments arguments')
    (index : Nat) :
    (argument arguments index).Twin R (argument arguments' index) := by
  unfold argument
  induction h generalizing index with
  | nil => exact .undefined
  | cons hValue _ ih =>
      cases index with
      | zero => exact hValue
      | succ index => exact ih index

theorem pairs_checkCount
    (h : Value.Twins R arguments arguments')
    (function : String)
    (least most : Nat) :
    Hosted.Pairs R Eq (checkCount function least most arguments)
      (checkCount function least most arguments') := by
  unfold checkCount
  rw [h.length_eq]
  exact pairs_self _

theorem pairs_number {n : Binary64} :
    Hosted.Pairs R (Option.Rel (Value.Twin R))
      (pure (some (.number n))) (pure (some (.number n))) :=
  pairs_pure (.some .number)

/- Whatever gives no function gives its own twin. -/
theorem pairs_of_gives
    {x : Hosted (Option Value)}
    (h : Hosted.Gives (Value.AllIn fun _ => False) x) :
    Hosted.Pairs R (Option.Rel (Value.Twin R)) x x := by
  rintro host _ rfl
  cases hResult : x host with
  | ok result after =>
      refine ⟨?_, rfl⟩
      cases result with
      | none => exact .none
      | some v => exact .some (twin_self (h host _ after hResult v rfl))
  | error e after => exact ⟨.same e, rfl⟩

theorem pairs_runNumeric
    (f : Binary64 → Binary64)
    (h : v.Twin R v') :
    Hosted.Pairs R (Option.Rel (Value.Twin R)) (runNumeric f v)
      (runNumeric f v') := by
  apply (pairs_converted (alike_toNumber h)).bind
  rintro x _ rfl
  exact pairs_number

theorem pairs_runSetPrecision (h : v.Twin R v') :
    Hosted.Pairs R (Option.Rel (Value.Twin R)) (runSetPrecision v)
      (runSetPrecision v') := by
  unfold runSetPrecision
  rw [h.toInteger?]
  split
  · split
    · apply (pairs_self _).bind
      intro _ _ _
      exact pairs_pure .none
    · exact pairs_throw (.invalidPrecision h)
  · exact pairs_throw (.invalidPrecision h)

theorem pairs_runRoot
    (hBase : v.Twin R v')
    (hDegree : w.Twin R w')
    (hScientific : u.Twin R u') :
    Hosted.Pairs R (Option.Rel (Value.Twin R)) (runRoot v w u)
      (runRoot v' w' u') := by
  unfold runRoot
  apply (pairs_converted (alike_toDecimal hBase)).bind
  rintro a _ rfl
  apply (pairs_converted (alike_toInteger hDegree)).bind
  rintro n _ rfl
  split
  · apply (pairs_self _).bind
    rintro host _ rfl
    apply (pairs_self _).bind
    rintro result _ rfl
    rw [hScientific.isTruthy]
    split
    · exact pairs_number
    · exact pairs_pure (.some .decimal)
  · exact pairs_throw (.domain hDegree)

theorem pairs_runRaise
    (hBase : v.Twin R v')
    (hExponent : w.Twin R w')
    (hScientific : u.Twin R u') :
    Hosted.Pairs R (Option.Rel (Value.Twin R)) (runRaise v w u)
      (runRaise v' w' u') := by
  cases hNumber : v.isNumeric with
  | false =>
      unfold runRaise
      rw [hBase.isNumeric, hNumber]
      exact pairs_throw (.invalidArgument hBase)
  | true =>
      rw [hBase.eq_of_isNumeric hNumber]
      cases hOther : w.isNumeric with
      | false =>
          unfold runRaise
          rw [hExponent.isNumeric, hNumber, hOther]
          exact pairs_throw (.invalidArgument hExponent)
      | true =>
          have hSame : runRaise v w' u' = runRaise v w u := by
            unfold runRaise
            rw [hExponent.eq_of_isNumeric hOther,
              hScientific.isTruthy]
          rw [hSame]
          exact pairs_of_gives (gives_runRaise v w u)

theorem twin_resolve
    (h : scopes.Twin R scopes')
    (line : String) :
    (resolve scopes line).Twin R (resolve scopes' line) := by
  unfold resolve
  rcases missing_or_related (h.get? line) with
    ⟨hLeft, hRight⟩ | ⟨w, w', hLeft, hRight, hValue⟩
  · rw [hLeft, hRight]
    exact twin_self (Value.all_ofText line)
  · rw [hLeft, hRight]
    exact hValue

/- Built-in functions cannot tell twins apart. -/
theorem pairs_run
    (hTags : Routine.Tagged R)
    (hScopes : scopes.Twin R scopes')
    (h : Value.Twins R arguments arguments')
    (f : Builtin) :
    Hosted.Pairs R (Option.Rel (Value.Twin R))
      (f.run scopes arguments) (f.run scopes' arguments') := by
  cases f with
  | print =>
      unfold run
      rw [Value.Twin.displayAll hTags h]
      apply (pairs_self _).bind
      intro _ _ _
      exact pairs_pure .none
  | concat =>
      unfold run
      rw [Value.Twin.displayAll hTags h]
      exact pairs_pure (.some .text)
  | now =>
      apply (pairs_checkCount h "now" 0 0).bind
      intro _ _ _
      apply (pairs_self _).bind
      rintro host _ rfl
      exact pairs_number
  | root =>
      apply (pairs_checkCount h "root" 2 3).bind
      intro _ _ _
      exact pairs_runRoot (twin_argument h 0) (twin_argument h 1)
        (twin_argument h 2)
  | setPrecision =>
      apply (pairs_checkCount h "setPrecision" 1 1).bind
      intro _ _ _
      exact pairs_runSetPrecision (twin_argument h 0)
  | sine =>
      apply (pairs_checkCount h "sine" 1 1).bind
      intro _ _ _
      exact pairs_runNumeric .sin (twin_argument h 0)
  | cosine =>
      apply (pairs_checkCount h "cosine" 1 1).bind
      intro _ _ _
      exact pairs_runNumeric .cos (twin_argument h 0)
  | raise =>
      apply (pairs_checkCount h "raise" 2 3).bind
      intro _ _ _
      exact pairs_runRaise (twin_argument h 0) (twin_argument h 1)
        (twin_argument h 2)
  | input =>
      unfold run runInput
      rw [Value.Twin.displayAll hTags h]
      apply (pairs_self _).bind
      intro _ _ _
      apply (pairs_self _).bind
      rintro line _ rfl
      cases line with
      | none => exact pairs_pure .none
      | some text => exact pairs_pure (.some (twin_resolve hScopes text))

end Builtin
end StackScript
