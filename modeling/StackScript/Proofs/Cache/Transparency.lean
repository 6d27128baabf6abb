import StackScript.Command.Perform
import StackScript.Proofs.Cache.Compiled
import StackScript.Proofs.Cache.Directory

/-
  Running scripts through the directory of compiled scripts.

  A history starts from a directory with nothing in it, and
  goes on by runs of scripts and by changes that do not touch
  the directory. At each point of it the file of a stem holds
  the code that was stored last for a script of this stem. A
  run takes that code if the times agree, whichever script
  of the stem it was made from. So a run does what it does
  without the directory just when the code that it finds is
  that of its own source.

  Key definitions include:
    * `Cache.History`
    * `Cache.Holds`
    * `Script.holder?`
    * `Script.recalled?`
    * `Script.Unmixed`

  Key theorems include:
    * `Cache.History.holds`
    * `Cache.Holds.obtain_eq`
    * `Cache.History.run_as_built`
-/

namespace StackScript

------------------------------------------------------------
-- Stored Code
------------------------------------------------------------

/- The code of a script as it comes back from its entry. -/
def Script.recalled? (s : Script) : Option Code :=
  match s.compile with
  | .error _ => none
  | .ok code =>
      if (Cache.entryFor s code).Fits then
        some (Word.recalledAll 0 code).1
      else none

section

variable {s : Script}
variable {code : Code}

/- The code of a script is that of a program. -/
theorem Script.program_of_compile
    (h : s.compile = .ok code) :
    ∃ (p : Program) (t : Fresh), p.compile ⟨0, 0⟩ = .ok code t := by
  unfold Script.compile build at h
  split at h
  · rename_i made hBuild
    cases h
    split at hBuild
    · cases hBuild
    · rename_i p hParse
      split at hBuild
      · rename_i c fresh hCompile
        cases hBuild
        exact ⟨p, fresh, hCompile⟩
      · cases hBuild
  · cases h

/- Code without a decimal zero comes back as it was. -/
theorem Script.recalled?_of_nonZero
    (h : s.compile = .ok code)
    (hNonZero : Word.EachAll Constant.NonZero code) :
    s.recalled? = none ∨ s.recalled? = some code := by
  rcases Script.program_of_compile h with ⟨p, t, hCompile⟩
  have hBack := Program.recalledAll_of_compile hCompile hNonZero
  unfold Script.recalled?
  rw [h]
  dsimp only
  split
  · right
    rw [show (0 : Nat) = Fresh.routines ⟨0, 0⟩ from rfl, hBack]
  · exact .inl rfl

/- An entry counts for a script with its time. -/
theorem Cache.decode?_encode
    (script : Script)
    (h : s.compile = .ok code) :
    Cache.decode? script (Cache.encode s code) =
      if s.modified = script.modified then s.recalled? else none := by
  rcases Script.program_of_compile h with ⟨p, t, hCompile⟩
  have hWhole :
      Word.EachAll Constant.IsWhole
        (Cache.entryFor s code).bytecode :=
    Word.EachAll.combine (fun c hEmitted _ => hEmitted.isWhole)
      code (Program.each_emitted hCompile)
      (Program.each_emitted hCompile)
  have hVersion : Entry.current < Nat.pow 2 32 := by decide
  have hRead := Entry.read?_write hWhole hVersion
  unfold Cache.decode? Cache.encode Script.recalled?
  rw [hRead, h]
  dsimp only
  by_cases hFits : (Cache.entryFor s code).Fits
  · rw [if_pos hFits, if_pos hFits]
    change Cache.accept script (Cache.entryFor s code).recalled = _
    unfold Cache.accept
    by_cases hTime : s.modified = script.modified
    · rw [if_pos hTime, if_pos ⟨rfl, hTime⟩]
      rfl
    · rw [if_neg hTime, if_neg fun hBoth => hTime hBoth.2]
  · rw [if_neg hFits, if_neg hFits, ite_self]
    rfl

end

------------------------------------------------------------
-- Histories
------------------------------------------------------------

/-
  The script whose code a run of a script finds: the last
  one of its stem that was stored, if it has the same time.
-/
def Script.holder?
    (stored : List Script)
    (s : Script) : Option Script :=
  (stored.find? fun other => other.stem = s.stem).filter
    fun other => other.modified = s.modified

namespace Cache

/- The scripts whose code was stored, the last first, after a run. -/
def record
    (cache : Cache)
    (fs : Files)
    (script : Script)
    (stored : List Script) : List Script :=
  match cache.load fs script, script.compile with
  | .ok none, .ok _ => script :: stored
  | _, _ => stored

/-
  A tree of files after runs of scripts that share a
  directory, from one with nothing in the directory on, and
  the scripts whose code was stored meanwhile. Between runs
  all else may change.
-/
inductive History
    (cache : Cache) :
    List Script → Files → Prop
| start
    {fs : Files}
    (hEmpty : ∀ name, fs.node? (cache.home fs ++ [name]) = none) :
    History cache [] fs
| edit
    {stored : List Script}
    {fs other : Files}
    (hBefore : History cache stored fs)
    (hSpares : cache.Spares fs other) :
    History cache stored other
| run
    {stored : List Script}
    {fs : Files}
    {file : Path}
    {script : Script}
    (hBefore : History cache stored fs)
    (hWritable : cache.Writable fs)
    (hLoad : Script.load fs file = .ok script) :
    History cache (cache.record fs script stored)
      (script.obtain (some cache) fs).2

/- What is at the place of an entry for which a script was stored. -/
inductive Kept : Option Script → Option Node → Prop
| none :
    Kept none none
| some
    {s : Script}
    {code : Code}
    (h : s.compile = .ok code) :
    Kept (some s) (some (.file (encode s code) 0))

/- The directory holds what was stored last for each stem. -/
structure Holds
    (cache : Cache)
    (stored : List Script)
    (fs : Files) : Prop where
  entries :
    ∀ stem,
      Kept (stored.find? fun other => other.stem = stem)
        (fs.node? (cache.entryPlace fs stem))
  way : stored ≠ [] → cache.IsOpen fs

variable {cache : Cache}
variable {stored : List Script}
variable {fs other : Files}
variable {script : Script}

theorem Kept.ne_directory
    {s? : Option Script}
    {node : Option Node}
    (h : Kept s? node) :
    node ≠ Option.some .directory := by
  cases h with
  | none => exact nofun
  | some h => exact nofun

/- Nothing is kept, or there is a way into the directory. -/
theorem Holds.none_or_open
    (h : cache.Holds stored fs)
    (stem : String) :
    fs.node? (cache.entryPlace fs stem) = none ∨
      cache.IsOpen fs := by
  by_cases hStored : stored = []
  · left
    have hEntry := h.entries stem
    rw [hStored, List.find?_nil] at hEntry
    generalize fs.node? (cache.entryPlace fs stem) = node at hEntry
    cases hEntry
    rfl
  · exact .inr (h.way hStored)

/- A run finds the code of the script that holds its entry. -/
theorem Holds.load_eq
    (h : cache.Holds stored fs)
    (hWritable : cache.Writable fs) :
    cache.load fs script =
      .ok ((script.holder? stored).bind Script.recalled?) := by
  have hRead := read_pathFor hWritable (h.none_or_open script.stem)
  have hEntry := h.entries script.stem
  unfold load Script.holder?
  dsimp only
  rw [hRead]
  generalize fs.node? (cache.entryPlace fs script.stem) = node
    at hEntry
  generalize stored.find? (fun other => other.stem = script.stem) =
    found at hEntry
  cases hEntry with
  | none => rfl
  | @some s code hCompile =>
      dsimp only [contents]
      rw [decode?_encode script hCompile]
      by_cases hTime : s.modified = script.modified
      · rw [if_pos hTime, Option.filter_some_pos (by simpa using hTime)]
        rfl
      · rw [if_neg hTime, Option.filter_some_neg (by simpa using hTime)]
        rfl

/- Storing the code of a script keeps what is held. -/
theorem Holds.store
    {code : Code}
    {after : Files}
    (h : cache.Holds stored fs)
    (hCompile : script.compile = .ok code)
    (hStored : cache.Stored script (encode script code) fs after) :
    cache.Holds (script :: stored) after := by
  constructor
  · intro stem
    have hHome := hStored.home_eq
    unfold entryPlace
    rw [hHome]
    by_cases hStem : script.stem = stem
    · have hEntry := hStored.entry
      unfold entryPlace at hEntry
      rw [hStem] at hEntry
      rw [List.find?_cons_of_pos (by simpa using hStem), hEntry]
      exact .some hCompile
    · have hName : entryName stem ≠ entryName script.stem :=
        fun hSame => hStem (entryName_inj hSame).symm
      rw [List.find?_cons_of_neg (by simpa using hStem),
        hStored.others _ hName]
      exact h.entries stem
  · intro _
    exact hStored.way

/- A change that does not touch the directory keeps what is held. -/
theorem Holds.spare
    (h : cache.Holds stored fs)
    (hSpares : cache.Spares fs other) :
    cache.Holds stored other := by
  constructor
  · intro stem
    have hEntry := h.entries stem
    unfold entryPlace at hEntry ⊢
    rw [hSpares.home_eq, hSpares.entries]
    exact hEntry
  · intro hStored
    exact hSpares.way (h.way hStored)

/- The code that a run obtains, and what it leaves. -/
theorem Holds.obtain_eq
    (h : cache.Holds stored fs)
    (hWritable : cache.Writable fs) :
    (script.obtain (some cache) fs).1 =
        (match (script.holder? stored).bind Script.recalled? with
          | some code => .ok code
          | none => script.compile) ∧
      cache.Holds (cache.record fs script stored)
        (script.obtain (some cache) fs).2 := by
  have hLoad : cache.load fs script = _ := h.load_eq hWritable
  unfold Script.obtain record
  dsimp only
  rw [hLoad]
  cases hFound : (script.holder? stored).bind Script.recalled? with
  | some code => exact ⟨rfl, h⟩
  | none =>
      dsimp only
      cases hCompile : script.compile with
      | error report => exact ⟨rfl, h⟩
      | ok code =>
          have hEntry := (h.entries script.stem).ne_directory
          rcases store_eq_ok hWritable hEntry code with
            ⟨after, hStore, hStored⟩
          dsimp only
          rw [hStore]
          exact ⟨rfl, h.store hCompile hStored⟩

/- At each point of a history the directory holds what was stored. -/
theorem History.holds (h : cache.History stored fs) :
    cache.Holds stored fs := by
  induction h with
  | start hEmpty =>
      constructor
      · intro stem
        rw [entryPlace, hEmpty]
        exact .none
      · intro hStored
        exact absurd rfl hStored
  | edit _ hSpares ih => exact ih.spare hSpares
  | run _ hWritable _ ih => exact (ih.obtain_eq hWritable).2

------------------------------------------------------------
-- Runs
------------------------------------------------------------

end Cache

/-
  If the run of a script finds code, then it is the code of
  the script's own source.
-/
def Script.Unmixed
    (stored : List Script)
    (s : Script) : Prop :=
  ∀ other code,
    s.holder? stored = some other →
      other.recalled? = some code →
        s.compile = .ok code

/- The report of a run depends on the code that it obtains. -/
theorem performRun_report
    {fs : Files}
    {file : Path}
    {script : Script}
    (h : Script.load fs file = .ok script)
    (bound : Nat)
    (env : Environment)
    (input : List UInt8)
    (options : RunOptions) :
    (performRun bound env input fs file options).map Prod.fst =
      match (script.obtain (options.cache? env) fs).1 with
      | .error report => some report
      | .ok code => runCode bound options.config input code := by
  unfold performRun
  rw [h]
  dsimp only
  rcases script.obtain (options.cache? env) fs with ⟨result, after⟩
  cases result with
  | error report => rfl
  | ok code =>
      dsimp only
      rw [Option.map_map]
      exact Option.map_id'

/- A run that ends leaves what obtaining its code leaves. -/
theorem performRun_files
    {fs after : Files}
    {file : Path}
    {script : Script}
    {bound : Nat}
    {env : Environment}
    {input : List UInt8}
    {options : RunOptions}
    {report : Report}
    (h : Script.load fs file = .ok script)
    (hRun :
      performRun bound env input fs file options =
        some (report, after)) :
    after = (script.obtain (options.cache? env) fs).2 := by
  unfold performRun at hRun
  rw [h] at hRun
  dsimp only at hRun
  generalize script.obtain (options.cache? env) fs = obtained at *
  rcases obtained with ⟨result, left⟩
  cases result with
  | error report =>
      cases hRun
      rfl
  | ok code =>
      rcases Option.map_eq_some_iff.1 hRun with ⟨_, _, hPair⟩
      cases hPair
      rfl

section

variable {cache : Cache}
variable {stored : List Script}
variable {fs : Files}
variable {script : Script}

/- A run through the directory that ends goes on with a history. -/
theorem Cache.History.perform
    {after : Files}
    {file : Path}
    {bound : Nat}
    {env : Environment}
    {input : List UInt8}
    {options : RunOptions}
    {report : Report}
    (h : cache.History stored fs)
    (hWritable : cache.Writable fs)
    (hCache : options.cache? env = some cache)
    (hRun :
      performRun bound env input fs file options =
        some (report, after)) :
    ∃ more, cache.History more after := by
  cases hLoad : Script.load fs file with
  | error e =>
      unfold performRun at hRun
      rw [hLoad] at hRun
      cases hRun
      exact ⟨stored, h⟩
  | ok script =>
      rw [performRun_files hLoad hRun, hCache]
      exact ⟨_, .run h hWritable hLoad⟩

/- A run executes the program of its source just if it finds no other. -/
theorem Cache.Holds.obtain_eq_compile_iff
    (h : cache.Holds stored fs)
    (hWritable : cache.Writable fs) :
    (script.obtain (some cache) fs).1 = script.compile ↔
      script.Unmixed stored := by
  rw [(h.obtain_eq hWritable).1]
  unfold Script.Unmixed
  constructor
  · intro hSame other code hHolder hCode
    rw [hHolder, Option.bind_some, hCode] at hSame
    exact hSame.symm
  · intro hUnmixed
    cases hHolder : script.holder? stored with
    | none => rfl
    | some other =>
        rw [Option.bind_some]
        cases hCode : other.recalled? with
        | none => rfl
        | some code => exact (hUnmixed other code hHolder hCode).symm

/- Scripts that agree where they meet are not mixed up. -/
theorem Script.unmixed_of_agree
    (hAgree :
      ∀ other ∈ stored,
        other.stem = script.stem →
          other.modified = script.modified →
            other.source = script.source)
    (hNonZero :
      ∀ code, script.compile = .ok code →
        Word.EachAll Constant.NonZero code) :
    script.Unmixed stored := by
  intro other code hHolder hCode
  rcases Option.filter_eq_some_iff.1 hHolder with ⟨hFind, hTime⟩
  have hStem : other.stem = script.stem := by
    simpa using List.find?_some hFind
  have hSource :=
    hAgree other (List.mem_of_find?_eq_some hFind) hStem
      (by simpa using hTime)
  have hCompile : other.compile = script.compile := by
    unfold Script.compile
    rw [hSource]
  cases hBuilt : script.compile with
  | error report =>
      unfold Script.recalled? at hCode
      rw [hCompile, hBuilt] at hCode
      cases hCode
  | ok built =>
      have hBack :=
        Script.recalled?_of_nonZero (hCompile.trans hBuilt)
          (hNonZero built hBuilt)
      rcases hBack with hNone | hSome
      · rw [hNone] at hCode
        cases hCode
      · rw [hSome] at hCode
        cases hCode
        rfl

end

/-
  At each point of a history, a run through the directory
  executes the program of the script's source just if the
  script is not mixed up with another; it then ends in the
  report of a run without the directory. It is not mixed up
  if every script that was stored with its stem and its time
  has its source, and if its code holds no decimal zero.
-/
theorem Cache.History.run_as_built
    {cache : Cache}
    {stored : List Script}
    {fs : Files}
    {file : Path}
    {script : Script}
    {env : Environment}
    {options : RunOptions}
    (hHistory : cache.History stored fs)
    (hWritable : cache.Writable fs)
    (hCache : options.cache? env = some cache)
    (hLoad : Script.load fs file = .ok script) :
    ((script.obtain (options.cache? env) fs).1 = script.compile ↔
        script.Unmixed stored) ∧
      (script.Unmixed stored →
        ∀ bound input,
          (performRun bound env input fs file options).map
              Prod.fst =
            (performRun bound env input fs file
              { options with useCache := false }).map Prod.fst) ∧
      ((∀ other ∈ stored,
          other.stem = script.stem →
            other.modified = script.modified →
              other.source = script.source) →
        (∀ code, script.compile = .ok code →
          Word.EachAll Constant.NonZero code) →
          script.Unmixed stored) := by
  have hIff :
      (script.obtain (options.cache? env) fs).1 = script.compile ↔
        script.Unmixed stored := by
    rw [hCache]
    exact hHistory.holds.obtain_eq_compile_iff hWritable
  refine ⟨hIff, ?_, Script.unmixed_of_agree⟩
  intro hUnmixed bound input
  rw [performRun_report hLoad, performRun_report hLoad,
    hIff.2 hUnmixed]
  rfl

------------------------------------------------------------
-- Two Scripts of One Stem
------------------------------------------------------------

/- The first of two scripts of one stem and one time. -/
def Script.first : Script :=
  ⟨"a/x.pds", "new a;", 5⟩

/- The second of them. -/
def Script.second : Script :=
  ⟨"b/x.pds", "new b;", 5⟩

theorem Script.compile_first :
    Script.first.compile =
      .ok (Code.named .alloc "a" ++ Code.bare .halt) := by
  cbv

theorem Script.compile_second :
    Script.second.compile =
      .ok (Code.named .alloc "b" ++ Code.bare .halt) := by
  cbv

/- The two scripts in directories of their own. -/
def Files.twins : Files where
  current := ["w"]
  nodes :=
    [(["w", "a", "x.pds"], .file "new a;" 5),
     (["w", "b", "x.pds"], .file "new b;" 5),
     (["w", "a"], .directory),
     (["w", "b"], .directory),
     (["w"], .directory)]

/- The directory that they share. -/
def Cache.shared : Cache :=
  ⟨"c"⟩

/- What a run of the first leaves. -/
def Files.afterFirst : Files :=
  (Script.first.obtain (some .shared) .twins).2

/- What is there once some text is stored for the first. -/
def Files.twinsWith (text : String) : Files :=
  (Files.twins.put ["w", "c"] .directory).put ["w", "c", "x.pdbc"]
    (.file text 0)

theorem Cache.load_twins :
    Cache.shared.load .twins .first = .ok none :=
  rfl

theorem Cache.store_twins (code : Code) :
    Cache.shared.store .twins .first code =
      .ok (.twinsWith (Cache.encode .first code)) :=
  rfl

theorem Files.exists_afterFirst_eq :
    ∃ text, Files.afterFirst = .twinsWith text := by
  unfold Files.afterFirst Script.obtain
  dsimp only
  rw [Cache.load_twins, Script.compile_first]
  dsimp only
  rw [Cache.store_twins]
  exact ⟨_, rfl⟩

/- How they are run. -/
def RunOptions.shared : RunOptions :=
  ⟨some "c", true, ⟨256, 20⟩⟩

theorem Cache.history_afterFirst :
    Cache.shared.History [.first] .afterFirst := by
  have hLoad : Script.load .twins "a/x.pds" = .ok .first := rfl
  have hWritable : Cache.shared.Writable .twins :=
    Cache.writable_of_down rfl rfl (by decide)
  have hRun :=
    Cache.History.run (.start fun name => rfl) hWritable hLoad
  rw [record, load_twins, Script.compile_first] at hRun
  exact hRun

/-
  After a run of the first script, a second run of it does
  what it does without the directory, and the other script
  is mixed up with it.
-/
theorem Cache.History.run_as_built_afterFirst :
    (∀ bound input,
        (performRun bound ⟨none, none⟩ input .afterFirst "a/x.pds"
            .shared).map Prod.fst =
          (performRun bound ⟨none, none⟩ input .afterFirst "a/x.pds"
            { RunOptions.shared with useCache := false }).map
              Prod.fst) ∧
      (Script.second.obtain (some .shared) .afterFirst).1 ≠
        Script.second.compile := by
  obtain ⟨text, hAfter⟩ := Files.exists_afterFirst_eq
  have hWritable : Cache.shared.Writable .afterFirst := by
    rw [hAfter]
    exact Cache.writable_of_down rfl rfl (by decide)
  have hOptions :
      RunOptions.shared.cache? ⟨none, none⟩ = some .shared :=
    rfl
  have hFirst : Script.load .afterFirst "a/x.pds" = .ok .first := by
    rw [hAfter]
    rfl
  have hSecond : Script.load .afterFirst "b/x.pds" = .ok .second := by
    rw [hAfter]
    rfl
  have hHolder : Script.second.holder? [.first] = some .first := rfl
  have hRecalled :
      Script.first.recalled? =
        some (Code.named .alloc "a" ++ Code.bare .halt) := by
    unfold Script.recalled?
    rw [Script.compile_first]
    rfl
  have hRuns :=
    run_as_built history_afterFirst hWritable hOptions hFirst
  have hMixed :=
    run_as_built history_afterFirst hWritable hOptions hSecond
  constructor
  · apply hRuns.2.1
    apply hRuns.2.2
    · intro other hMem _ _
      rw [List.mem_singleton.1 hMem]
    · intro code hBuilt
      rw [Script.compile_first] at hBuilt
      cases hBuilt
      exact ⟨trivial, trivial, trivial, trivial⟩
  · intro hSame
    rw [hOptions] at hMixed
    have hFound := hMixed.1.1 hSame _ _ hHolder hRecalled
    rw [Script.compile_second] at hFound
    simp [Code.named] at hFound

end StackScript
