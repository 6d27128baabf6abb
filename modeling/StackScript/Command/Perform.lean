import StackScript.Cache.Store
import StackScript.Code.Compile
import StackScript.Command.Arguments
import StackScript.Machine.Run
import StackScript.Tree.Outline
import StackScript.Value.Dump

/-
  Performing commands.

  A command reads and writes a tree of files and ends in a
  report: an exit code and the text of the two output
  streams.

  Key definitions include:
    * `Report`
    * `Command.perform`
    * `invoke`
-/

namespace StackScript

------------------------------------------------------------
-- Reports
------------------------------------------------------------

/- What a command leaves to its caller. -/
structure Report where
  code : Nat
  stdout : String
  stderr : String
deriving DecidableEq, Repr

namespace Report

/- Success, with some output. -/
def success (stdout : String) : Report :=
  ⟨0, stdout, ""⟩

/- Failure to make code. -/
def buildFailure (message : String) : Report :=
  ⟨1, "", s!"Error: {message}\n"⟩

/- Failure of a running program, with its operands. -/
def runFailure
    (m : Machine)
    (error : EvalError) : Report :=
  let operands := m.stack.reverse.map fun v => s!"  {v.dump}\n"
  ⟨1, m.host.output,
   s!"Error: {error.message}\n\nStack:\n" ++ String.join operands⟩

/- One cause stands alone, several are numbered. -/
def causeLines : List String → List String
| [cause] => [s!"    {cause}\n"]
| causes =>
    causes.zipIdx.map fun (cause, n) => s!"    {n}: {cause}\n"

/- Failure with a chain of causes. -/
def failure
    (message : String)
    (causes : List String) : Report :=
  ⟨1, "",
   s!"Error: {message}\n\nCaused by:\n"
     ++ String.join (causeLines causes)⟩

/- The arguments make no command. -/
def rejected : Report :=
  ⟨2, "", ""⟩

end Report

/- The causes of an error in loading. -/
def LoadError.causes (e : LoadError) : List String :=
  match e with
  | .wrongExtension _ => [e.message]
  | .io _ os => [e.message, os.message]

/- Failure to load a script. -/
def LoadError.report
    (e : LoadError)
    (path : Path) : Report :=
  .failure s!"loading {path}" e.causes

/- Failure of the directory of compiled scripts. -/
def CacheError.report (e : CacheError) : Report :=
  .failure e.message [e.cause.message]

------------------------------------------------------------
-- Code of Scripts
------------------------------------------------------------

/- The directory of compiled scripts that is used by default. -/
def Environment.defaultCache (env : Environment) : Cache :=
  let base := Path.join (env.localData.getD "") "pure-dango"
  ⟨Path.join base ".pdbccache"⟩

/- The directory of compiled scripts that options ask for. -/
def RunOptions.cache?
    (options : RunOptions)
    (env : Environment) : Option Cache :=
  if options.useCache then
    some ((options.cacheDir.map Cache.mk).getD env.defaultCache)
  else none

/- The code of a script, made from its source. -/
def Script.compile (s : Script) : Except Report Code :=
  match (build 0 s.source).1 with
  | .ok code => .ok code
  | .error e => .error (.buildFailure e.message)

/-
  The code of a script, from a directory of compiled scripts
  if it is there, else made and stored.
-/
def Script.obtain
    (s : Script)
    (cache? : Option Cache)
    (fs : Files) : Except Report Code × Files :=
  match cache? with
  | none => (s.compile, fs)
  | some cache =>
      match cache.load fs s with
      | .error e => (.error e.report, fs)
      | .ok (some code) => (.ok code, fs)
      | .ok none =>
          match s.compile with
          | .error r => (.error r, fs)
          | .ok code =>
              match cache.store fs s code with
              | .error e => (.error e.report, fs)
              | .ok fs => (.ok code, fs)

------------------------------------------------------------
-- Commands
------------------------------------------------------------

/- Run code; a run beyond the bound has no report. -/
def runCode
    (bound : Nat)
    (config : Config)
    (input : List UInt8)
    (code : Code) : Option Report :=
  match (Machine.new config input).execute bound code with
  | .done _ m => some (.success m.host.output)
  | .failed e m => some (.runFailure m e)
  | .unfinished => none

/- Load a script and run it. -/
def performRun
    (bound : Nat)
    (env : Environment)
    (input : List UInt8)
    (fs : Files)
    (file : Path)
    (options : RunOptions) : Option (Report × Files) :=
  match Script.load fs file with
  | .error e => some (e.report file, fs)
  | .ok script =>
      match script.obtain (options.cache? env) fs with
      | (.error r, fs) => some (r, fs)
      | (.ok code, fs) =>
          (runCode bound options.config input code).map (·, fs)

/- Load a script and show what becomes of it. -/
def performShow
    (fs : Files)
    (file : Path)
    (render : Script → Except Report String) : Report :=
  match Script.load fs file with
  | .error e => e.report file
  | .ok script =>
      match render script with
      | .error r => r
      | .ok text => .success text

/- Load a script and write the text that would be stored for it. -/
def performCompile
    (fs : Files)
    (file : Path)
    (out : Option Path) : Report × Files :=
  match Script.load fs file with
  | .error e => (e.report file, fs)
  | .ok script =>
      match script.compile with
      | .error r => (r, fs)
      | .ok code =>
          let text := Cache.encode script code
          match out with
          | none => (.success (text ++ "\n"), fs)
          | some path =>
              match fs.write path text 0 with
              | .error e =>
                  (.failure s!"writing {path}" [e.message], fs)
              | .ok fs => (.success "", fs)

/- The tokens of a script, a line for each. -/
def Script.tokenLines (s : Script) : String :=
  String.join ((Token.scan s.source).map fun t => t.describe ++ "\n")

/- The outline of the tree of a script. -/
def Script.treeText (s : Script) : Except Report String :=
  match Program.parse (Token.scan s.source) with
  | .error e => .error (.buildFailure e.message)
  | .ok program => .ok (program.outline.render 0 ++ "\n")

/- Perform a command; a run beyond the bound has no report. -/
def Command.perform
    (bound : Nat)
    (env : Environment)
    (input : List UInt8)
    (fs : Files) :
    Command → Option (Report × Files)
| .run file options => performRun bound env input fs file options
| .compile file out => some (performCompile fs file out)
| .listing file =>
    some
      (performShow fs file fun s => s.compile.map Code.listing, fs)
| .tokens file =>
    some (performShow fs file fun s => .ok s.tokenLines, fs)
| .tree file => some (performShow fs file Script.treeText, fs)

/- Perform the command that some arguments make. -/
def invoke
    (bound : Nat)
    (env : Environment)
    (input : List UInt8)
    (fs : Files)
    (arguments : List String) : Option (Report × Files) :=
  match Command.parse env arguments with
  | .ok command => command.perform bound env input fs
  | .error .rejected => some (.rejected, fs)
  | .error .informed => some (.success "", fs)

end StackScript
