import StackScript.Files.Path
import StackScript.Machine.Basic

/-
  The command line.

  A command comes first, with `-v` allowed before it. After
  it stand one file and the options of the command, in any
  order; an option has its value behind an equals sign or in
  the next argument. Everything after `--` is a file.

  Key definitions include:
    * `Command`
    * `Refusal`
    * `Environment`
    * `Command.parse`
-/

namespace StackScript

------------------------------------------------------------
-- Commands
------------------------------------------------------------

/- How a script is run. -/
structure RunOptions where
  cacheDir : Option Path
  useCache : Bool
  config : Config
deriving DecidableEq, Repr

/- What the tool is asked to do. -/
inductive Command where
| run (file : Path) (options : RunOptions)
| compile (file : Path) (out : Option Path)
| listing (file : Path)
| tokens (file : Path)
| tree (file : Path)
deriving DecidableEq, Repr

/- Why nothing is done. -/
inductive Refusal where
/- The arguments make no command. -/
| rejected
/- The user asked for help or for the version. -/
| informed
deriving DecidableEq, Repr

/- The variables of the environment that the tool looks at. -/
structure Environment where
  cacheDir : Option String
  localData : Option String
deriving DecidableEq, Repr

------------------------------------------------------------
-- Values
------------------------------------------------------------

/- A natural number below `2 ^ 64`, with an optional plus sign. -/
def readNumber? (text : String) : Option Nat :=
  let digits :=
    match text.toList with
    | '+' :: cs => cs
    | cs => cs
  (Digits.read? 10 digits).filter (· < Nat.pow 2 64)

/- A path, which must not be empty. -/
def readPath? (text : String) : Option Path :=
  if text = "" then none else some text

------------------------------------------------------------
-- Settings
------------------------------------------------------------

/- What the arguments behind a command have set so far. -/
structure Settings where
  file : Option Path := none
  cacheDir : Option Path := none
  noCache : Bool := false
  maxCalls : Option Nat := none
  precision : Option Nat := none
  out : Option Path := none

/- The options that the commands have. -/
inductive Setting where
| cacheDir
| noCache
| maxCalls
| precision
| out
deriving DecidableEq, Repr

/- The commands by name, before their arguments are known. -/
inductive Verb where
| run
| compile
| listing
| tokens
| tree
deriving DecidableEq, Repr

namespace Verb

/- The verb with a name. -/
def ofName? : String → Option Verb
| "run" => some .run
| "compile" => some .compile
| "disasm" => some .listing
| "tokens" => some .tokens
| "ast" => some .tree
| _ => none

/- The option of a verb with a name. -/
def setting? : Verb → String → Option Setting
| .run, "--cache-dir" => some .cacheDir
| .run, "--no-cache" => some .noCache
| .run, "--max-call-depth" => some .maxCalls
| .run, "--precision" => some .precision
| .compile, "--out" => some .out
| _, _ => none

end Verb

/- A value for a setting that has none yet. -/
def once
    {α : Type}
    (old new : Option α) : Except Refusal (Option α) :=
  match old, new with
  | none, some a => .ok (some a)
  | _, _ => .error .rejected

namespace Settings

/- Set the file. -/
def addFile
    (s : Settings)
    (text : String) : Except Refusal Settings := do
  return { s with file := ← once s.file (readPath? text) }

/- Set a flag that takes no value. -/
def addFlag
    (s : Settings) :
    Setting → Except Refusal Settings
| .noCache =>
    if s.noCache then .error .rejected
    else .ok { s with noCache := true }
| _ => .error .rejected

/- Set an option to a value. -/
def addValue
    (s : Settings)
    (text : String) :
    Setting → Except Refusal Settings
| .cacheDir => do
    return { s with cacheDir := ← once s.cacheDir (readPath? text) }
| .out => do
    return { s with out := ← once s.out (readPath? text) }
| .maxCalls => do
    return { s with maxCalls := ← once s.maxCalls (readNumber? text) }
| .precision => do
    let p := (readNumber? text).filter fun p =>
      decide (1 ≤ p) && decide (p ≤ maxPrecision)
    return { s with precision := ← once s.precision p }
| .noCache => .error .rejected

end Settings

------------------------------------------------------------
-- Arguments
------------------------------------------------------------

/- An argument that starts with a dash and has more. -/
def looksLikeOption (text : String) : Bool :=
  match text.toList with
  | '-' :: _ :: _ => true
  | _ => false

/- A name and, behind an equals sign, a value. -/
def splitEquals (text : String) : String × Option String :=
  let cs := text.toList
  let name := String.ofList (cs.takeWhile (· ≠ '='))
  match cs.dropWhile (· ≠ '=') with
  | [] => (name, none)
  | _ :: value => (name, some (String.ofList value))

/- Letters behind a single dash, all of which ask for more words. -/
def checkLetters
    (versionToo : Bool) :
    List Char → Except Refusal Unit
| [] => .ok ()
| 'v' :: cs => checkLetters versionToo cs
| 'h' :: _ => .error .informed
| 'V' :: _ => .error (if versionToo then .informed else .rejected)
| _ :: _ => .error .rejected

/- The arguments behind `--`. -/
def addFiles :
    List String → Settings → Except Refusal Settings
| [], s => .ok s
| text :: rest, s => do
    let s ← s.addFile text
    addFiles rest s

/- The arguments behind a command. -/
def Verb.settings
    (v : Verb) :
    List String → Settings → Except Refusal Settings
| [], s => .ok s
| "--" :: rest, s => addFiles rest s
| "--help" :: _, _ => .error .informed
| "--verbose" :: rest, s => v.settings rest s
| text :: rest, s =>
    if "--".isPrefixOf text then
      let (name, value?) := splitEquals text
      match v.setting? name, value?, rest with
      | none, _, _ => .error .rejected
      | some .noCache, none, rest => do
          let s ← s.addFlag .noCache
          v.settings rest s
      | some o, some value, rest => do
          let s ← s.addValue value o
          v.settings rest s
      | some _, none, [] => .error .rejected
      | some o, none, value :: rest =>
          if looksLikeOption value then .error .rejected
          else do
            let s ← s.addValue value o
            v.settings rest s
    else if looksLikeOption text then do
      checkLetters false (text.toList.drop 1)
      v.settings rest s
    else do
      let s ← s.addFile text
      v.settings rest s

/- The directory of compiled scripts that the environment names. -/
def Environment.cache? (env : Environment) : Except Refusal (Option Path) :=
  match env.cacheDir with
  | none => .ok none
  | some text =>
      match readPath? text with
      | some p => .ok (some p)
      | none => .error .rejected

/- The file, which every command needs. -/
def Settings.neededFile (s : Settings) : Except Refusal Path :=
  match s.file with
  | some file => .ok file
  | none => .error .rejected

/- How a script is to be run. -/
def Settings.runOptions
    (s : Settings)
    (cacheDir : Option Path) : RunOptions :=
  let standard : Config := {}
  ⟨cacheDir, !s.noCache,
   ⟨s.maxCalls.getD standard.maxCalls,
    s.precision.getD standard.precision⟩⟩

/- The command that a verb and its settings make. -/
def Settings.command
    (s : Settings)
    (env : Environment) :
    Verb → Except Refusal Command
| .run => do
    let cacheDir ←
      match s.cacheDir with
      | some dir => .ok (some dir)
      | none => env.cache?
    return .run (← s.neededFile) (s.runOptions cacheDir)
| .compile => return .compile (← s.neededFile) s.out
| .listing => return .listing (← s.neededFile)
| .tokens => return .tokens (← s.neededFile)
| .tree => return .tree (← s.neededFile)

/- What the arguments behind `help` lead to: at most one topic. -/
def refusalOfHelp : List String → Refusal
| [] | ["help"] => .informed
| [topic] =>
    if (Verb.ofName? topic).isSome then .informed else .rejected
| _ => .rejected

/- The command that some arguments make. -/
def Command.parse
    (env : Environment) :
    List String → Except Refusal Command
| [] => .error .rejected
| "--help" :: _ | "--version" :: _ => .error .informed
| "help" :: topics => .error (refusalOfHelp topics)
| "--verbose" :: rest => Command.parse env rest
| text :: rest =>
    match Verb.ofName? text with
    | some v => do
        let s ← v.settings rest {}
        s.command env v
    | none =>
        if looksLikeOption text then do
          checkLetters true (text.toList.drop 1)
          Command.parse env rest
        else .error .rejected

end StackScript
