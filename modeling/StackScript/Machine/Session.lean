import StackScript.Code.Compile
import StackScript.Machine.Run

/-
  Sessions: one machine that runs program after program.

  A program starts with what the earlier ones left behind,
  also those that failed. Functions of different programs
  are marked by different numbers.

  Key definitions include:
    * `RunError`
    * `Session`
    * `Session.execute`
    * `Session.runSource`
-/

namespace StackScript

/- Why a source text is not run to its end. -/
inductive RunError where
| build (error : BuildError)
| eval (error : EvalError)

/- The text of an error. -/
def RunError.message : RunError → String
| .build e => e.message
| .eval e => e.message

/- A machine, and the mark of the next function that is made. -/
structure Session where
  machine : Machine
  mark : Nat

namespace Session

/- A session before its first program. -/
def new
    (config : Config)
    (input : List UInt8) : Session :=
  ⟨.new config input, 0⟩

/- Run a stream; a run beyond the bound has no result. -/
def execute
    (bound : Nat)
    (s : Session)
    (code : Code) : Option (Option EvalError × Session) :=
  match s.machine.execute bound code with
  | .done _ machine => some (none, { s with machine })
  | .failed e machine => some (some e, { s with machine })
  | .unfinished => none

/-
  Build a source text and run it. One that does not build
  leaves the machine as it was.
-/
def runSource
    (bound : Nat)
    (s : Session)
    (source : String) : Option (Option RunError × Session) :=
  match build s.mark source with
  | (.error e, mark) => some (some (.build e), { s with mark })
  | (.ok code, mark) =>
      (execute bound { s with mark } code).map fun (e?, s) =>
        (e?.map .eval, s)

/- The text written so far, and the session without it. -/
def takeOutput (s : Session) : String × Session :=
  let host := { s.machine.host with output := "" }
  (s.machine.host.output, { s with machine.host := host })

end Session
end StackScript
