import StackScript.Builtin.Library
import StackScript.Proofs.Arithmetic.Promotion
import StackScript.Proofs.Number.Root
import StackScript.Proofs.Number.ShortestOrder

/-
  Divisions in `root` and `raise`.

  A guarded call does what the call does, but looks at the
  divisor of every quotient of decimals and stops where it
  is zero. No guarded call stops there: the divisors of a
  step to a root are the degree and a power of a positive
  number, and what `raise` divides by is a power of a base
  that is not zero.

  Key definitions include:
    * `Decimal.quotient?`
    * `Decimal.root?`
    * `Builtin.Guarded`
    * `Builtin.Guarded.root`
    * `Builtin.Guarded.raise`

  Key theorems include:
    * `Decimal.root?_eq`
    * `Builtin.Guarded.root_eq`
    * `Builtin.Guarded.raise_eq`
    * `Builtin.divisors_ne_zero`
-/

namespace StackScript

------------------------------------------------------------
-- Quotients and Roots
------------------------------------------------------------

namespace Decimal

variable {a b x : Decimal}
variable {n p : Nat}

/- The quotient, unless the divisor is zero. -/
def quotient? (a b : Decimal) : Option Decimal :=
  if b.isZero then none
  else some (a.div b)

/- A better approximation to a root, unless a divisor is zero. -/
def rootStep?
    (a : Decimal)
    (n working : Nat)
    (x : Decimal) : Option Decimal := do
  let ratio ← a.quotient? (x.power (n - 1) working)
  let correction := ratio.round working
  let sum := (x.mul ((ofInt n).sub one)).add correction
  let mean ← sum.quotient? (ofInt n)
  return mean.round working

/- Improve an approximation, unless a divisor is zero. -/
def refineRoot?
    (a : Decimal)
    (n working : Nat)
    (tolerance : Decimal) :
    Nat → Decimal → Option Decimal
| 0, x => some x
| steps + 1, x => do
    let next ← a.rootStep? n working x
    if (next.sub x).abs.less tolerance then return next
    else refineRoot? a n working tolerance steps next

/- The `n`th root of a positive decimal, unless a divisor is zero. -/
def root?
    (a : Decimal)
    (n precision : Nat) : Option Decimal := do
  let x ←
    refineRoot? a n (precision + 5) ⟨1, precision + 2⟩
      rootIterations (a.rootGuess n)
  return x.round precision

theorem quotient?_eq
    (a : Decimal)
    (hb : b.value ≠ 0) :
    a.quotient? b = some (a.div b) :=
  if_neg (mt isZero_iff.1 hb)

theorem rootStep?_eq
    (a : Decimal)
    (hn : 1 ≤ n)
    (hp : 1 ≤ p)
    (hx : 0 < x.value) :
    a.rootStep? n p x = some (a.rootStep n p x) := by
  have hPower := power_pos hp hx (n - 1)
  have hDegree := value_ofInt_pos hn
  unfold rootStep?
  rw [quotient?_eq a hPower.ne', Option.bind_eq_bind, Option.bind_some]
  dsimp only
  rw [quotient?_eq _ hDegree.ne']
  rfl

/-
  The loop goes on with what a step from a positive number
  leads to, by induction on the steps.
-/
theorem refineRoot?_eq
    (tolerance : Decimal)
    (steps : Nat)
    (hn : 1 ≤ n)
    (hp : 1 ≤ p)
    (ha : 0 < a.value)
    (hx : 0 < x.value) :
    refineRoot? a n p tolerance steps x =
      some (refineRoot a n p tolerance steps x) := by
  induction steps generalizing x with
  | zero => rfl
  | succ steps ih =>
      unfold refineRoot? refineRoot
      rw [rootStep?_eq a hn hp hx, Option.bind_eq_bind, Option.bind_some]
      dsimp only
      split
      · rfl
      · exact ih (rootStep_pos hn hp ha hx)

theorem root?_eq
    (p : Nat)
    (hn : 1 ≤ n)
    (ha : 0 < a.value) :
    a.root? n p = some (a.root n p) := by
  unfold root? root
  rw [refineRoot?_eq _ rootIterations hn (by omega) ha (rootGuess_pos a n)]
  rfl

end Decimal

/- A number that is not zero is a decimal that is not zero. -/
theorem Value.value_ne_zero
    {v : Value}
    {d : Decimal}
    (hDecimal : v.toDecimal? = some d)
    (hZero : v.isZero = false) :
    d.value ≠ 0 := by
  cases v with
  | number x =>
      have hShortest : Decimal.ofShortest? x = some d := hDecimal
      have hFinite : x.isFinite = true := by
        cases x with
        | finite s m e hm => rfl
        | _ => cases hDecimal
      have hWritten : x.written = d.value := by
        unfold Binary64.written
        rw [hShortest]
        rfl
      rw [← hWritten, Ne, Binary64.written_eq_zero_iff hFinite,
        ← Binary64.isZero_iff hFinite]
      exact Bool.eq_false_iff.1 hZero
  | integer i =>
      have hSame : Decimal.ofInt i = d := Option.some.inj hDecimal
      rw [← hSame, Decimal.value_ofInt]
      exact_mod_cast beq_eq_false_iff_ne.1 hZero
  | decimal c =>
      have hSame : c = d := Option.some.inj hDecimal
      rw [← hSame]
      exact mt Decimal.isZero_iff.2 (Bool.eq_false_iff.1 hZero)
  | _ => cases hDecimal

namespace Builtin

------------------------------------------------------------
-- Guarded Calls
------------------------------------------------------------

/- Why a guarded call stops. -/
inductive Guarded.Stop where
/- The call fails by itself. -/
| refused (error : BuiltinError)
/- A decimal was to be divided by zero. -/
| zeroDivisor

/- What a call does to the world that looks at its divisors. -/
abbrev Guarded :=
  EStateM Guarded.Stop Host

namespace Guarded

variable {α β : Type}

/- A call that divides no decimals. -/
def plain (call : Hosted α) : Guarded α :=
  call.adaptExcept .refused

/- The result of divisions none of which was by zero. -/
def divided : Option α → Guarded α
| some a => return a
| none => throw .zeroDivisor

/- The `n`th root of any decimal. -/
def signedRoot
    (base : Decimal)
    (n precision : Nat) : Guarded Decimal :=
  if base.isOne || n == 1 then return base
  else if base.isNegative then
    if n % 2 = 0 then plain (throw (.domain "root" (.decimal base)))
    else return (← divided (base.neg.root? n precision)).neg
  else if base.isZero then return base
  else divided (base.root? n precision)

/- The root of a base, as a decimal or as a number. -/
def runRoot
    (base degree scientific : Value) : Guarded (Option Value) := do
  let a ← plain (converted 0 base.toDecimal)
  let n ← plain (converted 1 degree.toInteger)
  if 0 < n ∧ n ≤ maxDegree then
    let precision := min (← get).precision maxPrecision
    let result ← signedRoot a n.toNat precision
    if scientific.isTruthy then
      return some (.number result.toBinary64)
    else return some (.decimal result)
  else plain (throw (.domain "root" degree))

/- A decimal to an integer power. -/
def raiseDecimal
    (base : Value)
    (e : Int)
    (precision : Nat) : Guarded Value := do
  let b ← plain (converted 0 base.toDecimal)
  if maxDegree < e.natAbs then plain (throw (.exponentTooLarge e))
  else
    let p := b.power e.natAbs (precision + 5)
    let result ←
      if e < 0 then divided (Decimal.one.quotient? p) else pure p
    return .decimal (result.round precision)

/- A base to an exponent. -/
def runRaise
    (base exponent scientific : Value) : Guarded (Option Value) := do
  if !base.isNumeric then
    plain (throw (.invalidArgument 0 ⟨base, .number⟩))
  else if !exponent.isNumeric then
    plain (throw (.invalidArgument 1 ⟨exponent, .number⟩))
  else if base.isZero && exponent.isZero then plain (throw .zeroToZero)
  else if base.isZero then return some (.number (.zero false))
  else if isOne base then return some (.number .one)
  else if scientific.isTruthy then
    return some (.number (← plain (raiseNumber base exponent)))
  else
    let precision := min (← get).precision maxPrecision
    match exponent.toInteger? with
    | some e =>
        if isPlainInteger base then
          return some (← plain (raiseInteger base e))
        else return some (← raiseDecimal base e precision)
    | none =>
        let x ← plain (raiseNumber base exponent)
        match Decimal.ofBinary64? x with
        | some d => return some (.decimal (d.round precision))
        | none => plain (throw (.domain "raise" (.number x)))

/- The function `root`, called with some arguments. -/
def root (arguments : List Value) : Guarded (Option Value) := do
  plain (checkCount "root" 2 3 arguments)
  runRoot (argument arguments 0) (argument arguments 1)
    (argument arguments 2)

/- The function `raise`, called with some arguments. -/
def raise (arguments : List Value) : Guarded (Option Value) := do
  plain (checkCount "raise" 2 3 arguments)
  runRaise (argument arguments 0) (argument arguments 1)
    (argument arguments 2)

------------------------------------------------------------
-- Plain Calls
------------------------------------------------------------

@[simp] theorem plain_get :
    plain (get : Hosted Host) = get := rfl

@[simp] theorem plain_bind
    (first : Hosted α)
    (next : α → Hosted β) :
    plain (first >>= next) = plain first >>= fun a => plain (next a) := by
  funext h
  change EStateM.adaptExcept _ (EStateM.bind first next) h =
    EStateM.bind (EStateM.adaptExcept _ first) _ h
  unfold EStateM.adaptExcept EStateM.bind
  dsimp only
  cases first h <;> rfl

/- A plain call fails only as the call does. -/
theorem plain_ne_zeroDivisor
    (call : Hosted α)
    (h h' : Host) :
    plain call h ≠ .error .zeroDivisor h' := by
  intro hStop
  change EStateM.adaptExcept _ call h = _ at hStop
  unfold EStateM.adaptExcept at hStop
  cases hCall : call h with
  | ok a s =>
      rw [hCall] at hStop
      cases hStop
  | error e s =>
      rw [hCall] at hStop
      cases hStop

------------------------------------------------------------
-- Roots
------------------------------------------------------------

theorem signedRoot_eq
    (base : Decimal)
    (n precision : Nat)
    (hn : 1 ≤ n) :
    signedRoot base n precision =
      plain (Builtin.signedRoot base n precision) := by
  unfold signedRoot Builtin.signedRoot
  split
  · rfl
  split
  · rename_i hNegative
    split
    · rfl
    · have hPos : 0 < base.neg.value := by
        rw [Decimal.value_pos_iff]
        exact Int.neg_pos_of_neg (of_decide_eq_true hNegative)
      rw [Decimal.root?_eq precision hn hPos]
      rfl
  split
  · rfl
  · rename_i hNonneg hZero
    have hPos : 0 < base.value := by
      have hDigits : ¬base.digits < 0 := fun hLess =>
        hNonneg (decide_eq_true hLess)
      have hNonzero : base.digits ≠ 0 := fun hNone =>
        hZero (beq_iff_eq.2 hNone)
      rw [Decimal.value_pos_iff]
      omega
    rw [Decimal.root?_eq precision hn hPos]
    rfl

theorem runRoot_eq (base degree scientific : Value) :
    runRoot base degree scientific =
      plain (Builtin.runRoot base degree scientific) := by
  unfold runRoot Builtin.runRoot
  rw [plain_bind]
  refine bind_congr fun a => ?_
  rw [plain_bind]
  refine bind_congr fun n => ?_
  split
  · rename_i hDegree
    rw [plain_bind, plain_get]
    refine bind_congr fun h => ?_
    dsimp only
    rw [plain_bind, signedRoot_eq a n.toNat _ (by omega)]
    refine bind_congr fun result => ?_
    split <;> rfl
  · rfl

theorem root_eq
    (scopes : Scopes)
    (arguments : List Value) :
    root arguments = plain (run scopes arguments .root) := by
  unfold root run
  rw [plain_bind]
  exact bind_congr fun _ => runRoot_eq _ _ _

------------------------------------------------------------
-- Powers
------------------------------------------------------------

theorem raiseDecimal_eq
    {base : Value}
    (e : Int)
    (precision : Nat)
    (hZero : base.isZero = false) :
    raiseDecimal base e precision =
      plain (Builtin.raiseDecimal base e precision) := by
  unfold raiseDecimal Builtin.raiseDecimal Value.toDecimal
  cases hBase : base.toDecimal? with
  | none => rfl
  | some b =>
      have hNonzero := Value.value_ne_zero hBase hZero
      have hPower :=
        Decimal.power_ne_zero (p := precision + 5) (by omega) hNonzero
          e.natAbs
      change (if _ then _ else _) = plain (if _ then _ else _)
      split
      · rfl
      · rw [Decimal.quotient?_eq _ hPower]
        split <;> rfl

theorem runRaise_eq (base exponent scientific : Value) :
    runRaise base exponent scientific =
      plain (Builtin.runRaise base exponent scientific) := by
  unfold runRaise Builtin.runRaise
  split
  · rfl
  split
  · rfl
  split
  · rfl
  split
  · rfl
  rename_i hZero
  split
  · rfl
  split
  · rw [plain_bind]
    rfl
  rw [plain_bind, plain_get]
  refine bind_congr fun h => ?_
  cases exponent.toInteger? with
  | some e =>
      dsimp only
      split
      · rw [plain_bind]
        rfl
      · rw [raiseDecimal_eq e _ (Bool.eq_false_iff.2 hZero), plain_bind]
        rfl
  | none =>
      dsimp only
      rw [plain_bind]
      refine bind_congr fun x => ?_
      cases Decimal.ofBinary64? x <;> rfl

theorem raise_eq
    (scopes : Scopes)
    (arguments : List Value) :
    raise arguments = plain (run scopes arguments .raise) := by
  unfold raise run
  rw [plain_bind]
  exact bind_congr fun _ => runRaise_eq _ _ _

end Guarded

------------------------------------------------------------
-- No Divisor Is Zero
------------------------------------------------------------

/-
  Whatever the arguments are, and to whatever precision
  decimals are kept, `root` and `raise` do the same when
  they look at their divisors, and none of these is zero:
  no power of a number that is not zero is zero, and all
  approximations to a root of a positive number are
  positive.
-/
theorem divisors_ne_zero (scopes : Scopes) :
    (∀ arguments : List Value,
      Guarded.root arguments =
          Guarded.plain (run scopes arguments .root) ∧
        Guarded.raise arguments =
          Guarded.plain (run scopes arguments .raise)) ∧
      (∀ (arguments : List Value) (h h' : Host),
        Guarded.root arguments h ≠ .error .zeroDivisor h' ∧
          Guarded.raise arguments h ≠ .error .zeroDivisor h') ∧
      (∀ (a : Decimal) (e p : Nat),
        a.value ≠ 0 → 1 ≤ p → (a.power e p).value ≠ 0) ∧
      ∀ (a : Decimal) (n p : Nat),
        1 ≤ n →
        0 < a.value →
        a.root? n p = some (a.root n p) ∧
          ∀ k, 0 < (a.approximation n p (a.rootGuess n) k).value := by
  refine ⟨?_, ?_, ?_, ?_⟩
  · intro arguments
    exact ⟨Guarded.root_eq scopes arguments,
      Guarded.raise_eq scopes arguments⟩
  · intro arguments h h'
    rw [Guarded.root_eq scopes, Guarded.raise_eq scopes]
    exact ⟨Guarded.plain_ne_zeroDivisor _ h h',
      Guarded.plain_ne_zeroDivisor _ h h'⟩
  · intro a e p ha hp
    exact Decimal.power_ne_zero hp ha e
  · intro a n p hn ha
    exact ⟨Decimal.root?_eq p hn ha,
      Decimal.approximation_pos hn ha (a.rootGuess_pos n)⟩

/-
  With no digits kept, minus a half raised to minus three is
  rounded to zero, but what one is divided by is not; with
  more digits than a program may ask for, the root of a
  number below zero is found without a division by zero.
-/
theorem divisors_ne_zero_extreme :
    Guarded.raise [.decimal ⟨-5, 1⟩, .integer (-3)] ⟨[], "", 0, 0⟩ =
        Guarded.plain
          (run .initial [.decimal ⟨-5, 1⟩, .integer (-3)] .raise)
          ⟨[], "", 0, 0⟩ ∧
      ((⟨-5, 1⟩ : Decimal).power 3 5).value ≠ 0 ∧
      (Decimal.one.div ((⟨-5, 1⟩ : Decimal).power 3 5)).round 0 =
        ⟨0, -1⟩ ∧
      (∀ h' : Host,
        Guarded.root [.decimal ⟨-5, 1⟩, .integer 3]
            ⟨[], "", 20000, 0⟩ ≠
          .error .zeroDivisor h') ∧
      (⟨5, 1⟩ : Decimal).root? 3 10000 =
        some ((⟨5, 1⟩ : Decimal).root 3 10000) ∧
      0 <
        ((⟨5, 1⟩ : Decimal).approximation 3 10000
          ((⟨5, 1⟩ : Decimal).rootGuess 3) 500).value := by
  rcases divisors_ne_zero .initial with ⟨hSame, hNever, hPower, hRoot⟩
  have hNegative : (⟨-5, 1⟩ : Decimal).value ≠ 0 := by
    rw [Ne, Decimal.value_eq_zero_iff]
    decide
  have hPositive : 0 < (⟨5, 1⟩ : Decimal).value :=
    Decimal.value_pos_iff.2 (by decide)
  rcases hRoot ⟨5, 1⟩ 3 10000 (by decide) hPositive with
    ⟨hChecked, hApproximations⟩
  refine ⟨congrFun (hSame _).2 _, hPower _ 3 5 hNegative (by decide),
    by decide +kernel, ?_, hChecked, hApproximations 500⟩
  intro h'
  exact (hNever _ _ h').1

end Builtin
end StackScript
