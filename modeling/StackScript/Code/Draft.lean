import StackScript.Code.Emit

/-
  Streams under construction.

  A jump forward is written before its target is known, with
  a placeholder, and filled in where the target is reached.
  Jumps out of a loop wait in the context of the loop until
  it is closed. Each function has a draft of its own, so a
  loop around it is not seen inside.

  Key definitions include:
    * `Draft`
    * `Draft.patch`
    * `Draft.closeLoop`
    * `Drafting`
    * `Drafting.jump`
    * `Drafting.separately`
-/

namespace StackScript

------------------------------------------------------------
-- Drafts
------------------------------------------------------------

/- The target of a jump whose target is not known yet. -/
def Code.placeholder : Nat :=
  18446744073709551615

/- What waits for the end of a loop. -/
structure LoopContext where
  /- How many scopes are open around the body. -/
  depth : Nat
  /- Where the targets of the `break`s of the loop stand. -/
  breaks : List Nat
  /- Where the targets of its `continue`s stand. -/
  continues : List Nat
deriving DecidableEq, Repr

/- A stream under construction. -/
structure Draft where
  words : Code
  /- The loops that are not closed yet, the innermost first. -/
  loops : List LoopContext
  /- How many scopes are open. -/
  depth : Nat

namespace Draft

/- Nothing written. -/
def empty : Draft :=
  ⟨[], [], 0⟩

/- Write some words behind the last one. -/
def append
    (d : Draft)
    (code : Code) : Draft :=
  { d with words := d.words ++ code }

/- Fill in the target of a jump. -/
def patch
    (d : Draft)
    (site target : Nat) : Draft :=
  { d with words := d.words.set site (.target target) }

/- Fill in the targets of some jumps. -/
def patchAll
    (d : Draft)
    (sites : List Nat)
    (target : Nat) : Draft :=
  sites.foldl (·.patch · target) d

/- Open a scope. -/
def pushScope (d : Draft) : Draft :=
  { d.append (Code.bare .pushScope) with depth := d.depth + 1 }

/- Close a scope. -/
def popScope (d : Draft) : Draft :=
  { d.append (Code.bare .popScope) with depth := d.depth - 1 }

/-
  Close the scopes in which a jump starts, up to some number
  of them. The code behind the jump is still inside.
-/
def unwindTo
    (d : Draft)
    (depth : Nat) : Draft :=
  d.append
    (List.replicate (d.depth - depth) (Code.bare .popScope)).flatten

/- Begin the body of a loop. -/
def openLoop (d : Draft) : Draft :=
  { d with loops := ⟨d.depth, [], []⟩ :: d.loops }

/- End a loop and fill in the jumps that wait for it. -/
def closeLoop
    (d : Draft)
    (next leave : Nat) : Draft :=
  match d.loops with
  | [] => d
  | c :: loops =>
      ({ d with loops := loops }.patchAll c.breaks leave).patchAll
        c.continues next

/- Let a `break` of the innermost loop wait for its end. -/
def addBreak
    (d : Draft)
    (site : Nat) : Draft :=
  match d.loops with
  | [] => d
  | c :: loops =>
      { d with
        loops := { c with breaks := c.breaks ++ [site] } :: loops }

/- Let a `continue` of the innermost loop wait for its end. -/
def addContinue
    (d : Draft)
    (site : Nat) : Draft :=
  match d.loops with
  | [] => d
  | c :: loops =>
      { d with
        loops := { c with continues := c.continues ++ [site] } :: loops }

end Draft

------------------------------------------------------------
-- Writing Drafts
------------------------------------------------------------

/- Work on a draft, which uses up fresh numbers and may fail. -/
abbrev Drafting :=
  StateT Draft Emit

namespace Drafting

/- The position of the next word. -/
def here : Drafting Nat :=
  return (← get).words.length

def write (code : Code) : Drafting Unit :=
  modify (·.append code)

/- Write a jump with a placeholder; the result is its site. -/
def jump (o : Op) : Drafting Nat := do
  write (Code.bare o)
  let site ← here
  write [.target Code.placeholder]
  return site

/- Write a jump whose target is known. -/
def jumpTo
    (o : Op)
    (target : Nat) : Drafting Unit :=
  write (Code.jump o target)

/- Let a jump lead to a position. -/
def patch (site target : Nat) : Drafting Unit :=
  modify (·.patch site target)

/- Let a jump lead to where the next word will be. -/
def patchHere (site : Nat) : Drafting Unit := do
  patch site (← here)

def pushScope : Drafting Unit :=
  modify (·.pushScope)

def popScope : Drafting Unit :=
  modify (·.popScope)

/- Code in a scope of its own. -/
def inScope (body : Drafting Unit) : Drafting Unit := do
  pushScope
  body
  popScope

def openLoop : Drafting Unit :=
  modify (·.openLoop)

def closeLoop (next leave : Nat) : Drafting Unit :=
  modify (·.closeLoop next leave)

/- The words of a draft of its own. -/
def separately (body : Drafting Unit) : Emit Code := do
  let (_, d) ← body.run .empty
  return d.words

end Drafting

end StackScript
