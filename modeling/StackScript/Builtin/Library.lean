import StackScript.Builtin.Host
import StackScript.Builtin.Power

/-
  The functions that every program can call.

  Key definitions include:
    * `Builtin`
    * `Builtin.run`
-/

namespace StackScript

/- A function that every program can call. -/
inductive Builtin where
| print
| concat
| now
| root
| setPrecision
| sine
| cosine
| raise
| input
deriving DecidableEq, Repr

namespace Builtin

------------------------------------------------------------
-- Arguments
------------------------------------------------------------

/- The number of arguments lies between two bounds. -/
def checkCount
    (function : String)
    (least most : Nat)
    (arguments : List Value) : Hosted Unit :=
  if most < arguments.length then
    throw (.tooManyArguments function most)
  else if arguments.length < least then
    throw (.missingArguments function least)
  else return

/- An argument, or `undefined` where the caller gave none. -/
def argument
    (arguments : List Value)
    (index : Nat) : Value :=
  arguments[index]?.getD .undefined

/- A converted argument, or the complaint about it. -/
def converted
    {α : Type}
    (index : Nat)
    (result : Except ConversionError α) : Hosted α :=
  match result with
  | .ok a => return a
  | .error e => throw (.invalidArgument index e)

------------------------------------------------------------
-- Precision and Trigonometry
------------------------------------------------------------

/- Set how many significant digits decimals are kept to. -/
def runSetPrecision (value : Value) : Hosted (Option Value) := do
  match value.toInteger? with
  | some p =>
      if 1 ≤ p ∧ p ≤ maxPrecision then
        modify fun h => { h with precision := p.toNat }
        return none
      else throw (.invalidPrecision value)
  | none => throw (.invalidPrecision value)

/- A function of one number. -/
def runNumeric
    (f : Binary64 → Binary64)
    (value : Value) : Hosted (Option Value) := do
  let x ← converted 0 value.toNumber
  return some (.number (f x))

------------------------------------------------------------
-- Roots
------------------------------------------------------------

/- The largest number that an exponent or a degree may be. -/
def maxDegree : Int :=
  18446744073709551615

/- The least number that an exponent of an integer must not be. -/
def exponentLimit : Int :=
  4294967296

/- The `n`th root of any decimal. -/
def signedRoot
    (base : Decimal)
    (n precision : Nat) : Hosted Decimal :=
  if base.isOne || n == 1 then return base
  else if base.isNegative then
    if n % 2 = 0 then throw (.domain "root" (.decimal base))
    else return (base.neg.root n precision).neg
  else if base.isZero then return base
  else return base.root n precision

/- The root of a base, as a decimal or as a number. -/
def runRoot
    (base degree scientific : Value) : Hosted (Option Value) := do
  let a ← converted 0 base.toDecimal
  let n ← converted 1 degree.toInteger
  if 0 < n ∧ n ≤ maxDegree then
    let precision := min (← get).precision maxPrecision
    let result ← signedRoot a n.toNat precision
    if scientific.isTruthy then
      return some (.number result.toBinary64)
    else return some (.decimal result)
  else throw (.domain "root" degree)

------------------------------------------------------------
-- Powers
------------------------------------------------------------

/- The value is one. -/
def isOne : Value → Bool
| .number n => n == .one
| .integer i => i == 1
| .decimal d => d.isOne
| _ => false

/- The value is an integer and not stored as a decimal. -/
def isPlainInteger : Value → Bool
| .number n => n.isIntegral
| .integer _ => true
| _ => false

/- An integer to a natural power. -/
def integerPower
    (b : Int)
    (e : Nat) : Int :=
  let n : Int := Nat.pow b.natAbs e
  if b < 0 ∧ e % 2 = 1 then -n else n

/- An integer to an integer power, if that is an integer. -/
def raiseInteger
    (base : Value)
    (e : Int) : Hosted Value := do
  let b ← converted 0 base.toInteger
  if e < 0 then throw (.negativeExponent e)
  else if e < exponentLimit then
    return .integer (integerPower b e.toNat)
  else throw (.exponentTooLarge e)

/- A decimal to an integer power. -/
def raiseDecimal
    (base : Value)
    (e : Int)
    (precision : Nat) : Hosted Value := do
  let b ← converted 0 base.toDecimal
  if maxDegree < e.natAbs then throw (.exponentTooLarge e)
  else
    let p := b.power e.natAbs (precision + 5)
    let result := if e < 0 then Decimal.one.div p else p
    return .decimal (result.round precision)

/- A number to any power, by floating point. -/
def raiseNumber
    (base exponent : Value) : Hosted Binary64 := do
  let b ← converted 0 base.toNumber
  let e ← converted 1 exponent.toNumber
  return b.pow e

/- A base to an exponent. -/
def runRaise
    (base exponent scientific : Value) : Hosted (Option Value) := do
  if !base.isNumeric then
    throw (.invalidArgument 0 ⟨base, .number⟩)
  else if !exponent.isNumeric then
    throw (.invalidArgument 1 ⟨exponent, .number⟩)
  else if base.isZero && exponent.isZero then throw .zeroToZero
  else if base.isZero then return some (.number (.zero false))
  else if isOne base then return some (.number .one)
  else if scientific.isTruthy then
    return some (.number (← raiseNumber base exponent))
  else
    let precision := min (← get).precision maxPrecision
    match exponent.toInteger? with
    | some e =>
        if isPlainInteger base then
          return some (← raiseInteger base e)
        else return some (← raiseDecimal base e precision)
    | none =>
        let x ← raiseNumber base exponent
        match Decimal.ofBinary64? x with
        | some d => return some (.decimal (d.round precision))
        | none => throw (.domain "raise" (.number x))

------------------------------------------------------------
-- Input
------------------------------------------------------------

/-
  The value that a line of input stands for: that of the
  variable it names, a number, or the text itself.
-/
def resolve
    (scopes : Scopes)
    (line : String) : Value :=
  (scopes.get? line).getD (.ofText line)

/- Write a prompt and read a line. -/
def runInput
    (scopes : Scopes)
    (arguments : List Value) : Hosted (Option Value) := do
  Host.write (Value.displayAll arguments)
  let line ← Host.readLine
  return line.map (resolve scopes)

------------------------------------------------------------
-- Calls
------------------------------------------------------------

/- Call a function; `none` stands for no result. -/
def run
    (scopes : Scopes)
    (arguments : List Value) :
    Builtin → Hosted (Option Value)
| .print => do
    Host.write (Value.displayAll arguments ++ "\n")
    return none
| .concat => return some (.text (Value.displayAll arguments))
| .now => do
    checkCount "now" 0 0 arguments
    return some (.number (.ofNat (← get).clock))
| .root => do
    checkCount "root" 2 3 arguments
    runRoot (argument arguments 0) (argument arguments 1)
      (argument arguments 2)
| .setPrecision => do
    checkCount "setPrecision" 1 1 arguments
    runSetPrecision (argument arguments 0)
| .sine => do
    checkCount "sine" 1 1 arguments
    runNumeric .sin (argument arguments 0)
| .cosine => do
    checkCount "cosine" 1 1 arguments
    runNumeric .cos (argument arguments 0)
| .raise => do
    checkCount "raise" 2 3 arguments
    runRaise (argument arguments 0) (argument arguments 1)
      (argument arguments 2)
| .input => runInput scopes arguments

end Builtin
end StackScript
