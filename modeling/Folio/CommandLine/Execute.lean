import Folio.Build
import Folio.Check
import Folio.CommandLine.Invocation

/-!
# Running the program

A command is an action that prints lines and ends in a code: 0 if all is well, 1 if
something was found or could not be built, 2 if the command line or the declaration
of the spaces is wrong.  Reports go to the error output, each under the name of the
program, and on request to a log file.

A failure that is none of the program's own ends the program without a code.
-/

namespace Folio.CommandLine

/-! ## Commands -/

/-- What a command ends in: its code, and the lines that it prints. -/
structure Ending where
  code : Nat
  printed : List String
  deriving Repr, DecidableEq

/-- The space that is meant by a name, or by none. -/
def selectedSpace (c : SpaceConfig) : Option String → Except Failure Space
  | some name => if name.isEmpty then c.default else c.get name
  | none => c.default

/-- The layout of the space that is meant by a name, or by none. -/
def selectedLayout (c : SpaceConfig) (name : Option String) : Action Layout := do
  let s ← ExceptT.mk (pure (selectedSpace c name))
  Action.orRaise (c.layout s)

/-- Builds spaces and reports what was built. -/
def runBuild (here workspace : Path) (spaces : List String) (titleSuffix : String) :
    Action Ending := do
  let result ← buildWorkspace here workspace spaces titleSuffix
  for s in result.spaces do
    let r := s.output
    Action.info "cli"
      (s!"Space {s.space.name}: {r.pagesRendered} pages rendered, {r.pagesCopied} copied, " ++
        s!"{r.previews} component previews, {s.entries} manifest entries")
  if !result.failures.isEmpty then
    Action.warn "cli" s!"{result.failures.length} file(s) failed to render"
  return ⟨0, []⟩

/-- The references that lead nowhere in the template at a path, which must lie in a
space. -/
def checkOne (c : SpaceConfig) (here : Path) (file : String) : Action (List Diagnostic) := do
  let place ← Action.orRaise ((Path.resolve here (Path.ofString file)).mapError Cause.ofUnusable)
  match ← Action.orRaise (findSpace c here place) with
  | none => throw (.usage s!"{file} is not inside any space's template root")
  | some s => do checkFile (← Action.orRaise (c.layout s)) place

/-- Prints what leads nowhere in a template or in a space. -/
def runCheck (here workspace : Path) (space file : Option String) : Action Ending := do
  let c ← loadSpaces here workspace
  let problems ←
    match file.filter (!·.isEmpty) with
    | some file => checkOne c here file
    | none => do checkSpace (← selectedLayout c space)
  let lines := problems.map fun d => d.format c.root
  if problems.isEmpty then
    Action.info "cli" "No unresolved references"
    return ⟨0, lines⟩
  else
    Action.warn "cli" s!"{problems.length} unresolved reference(s)"
    return ⟨1, lines⟩

/-- A macro or block as a line. -/
def definitionLine (d : Source.Definition) : String :=
  let span := match d.endLine with
    | some last => s!"{d.line}-{last}"
    | none => s!"{d.line}"
  s!"  {d.kind.keyword} " ++ String.ofList d.name ++ s!" ({span})"

/-- Prints the macros and blocks of a space. -/
def runSymbols (here workspace : Path) (space : Option String) : Action Ending := do
  let c ← loadSpaces here workspace
  let l ← selectedLayout c space
  let found ← definitionsIn l
  return ⟨0, found.flatMap fun (p, defs) => p.textBelow l.templates :: defs.map definitionLine⟩

/-- Runs a command. -/
def runCommand (here : Path) (i : Invocation) : Action Ending :=
  let workspace := Path.ofString i.workspace
  match i.command with
  | .build spaces titleSuffix => runBuild here workspace spaces titleSuffix
  | .check space file => runCheck here workspace space file
  | .symbols space => runSymbols here workspace space

/-! ## Reports -/

/-- Whether a report is shown. -/
def isShown (verbose : Bool) (r : Record) : Bool :=
  verbose || r.level ≠ .debug

/-- A report on the error output. -/
def consoleLine (r : Record) : String :=
  s!"[{programName}] {r.level.word} {r.message}"

/-- A report in the log file, after the time at which it was written. -/
def logFileLine (time : String) (r : Record) : String :=
  s!"{time} {r.level.word} {programName}.{r.topic}: {r.message}"

/-- Lines as one text, each with its line end. -/
def printedLines (lines : List String) : String :=
  String.join (lines.map (· ++ "\n"))

/-- Opens the log file at a path, which is made if it is missing. -/
def openLog (t : FileTree) (p : Path) : Except FileFault FileTree :=
  match t.stat p with
  | .ok (.file _) => .ok t
  | _ => t.write p ByteArray.empty

/-- Adds lines to the log file, unless it has been removed. -/
def appendLog (t : FileTree) (p : Path) (lines : List String) : FileTree :=
  match t.read p with
  | .ok content => (t.write p (content ++ (printedLines lines).toUTF8)).toOption.getD t
  | .error _ => t

/-! ## The program -/

/-- The code of a failure of the program's own. -/
def failureCode : Failure → Option Nat
  | .config _ => some 2
  | .unreadableConfig _ _ => some 2
  | .usage _ => some 2
  | .build _ _ => some 1
  | .raised _ => none

/-- How the program ends: with a code, after what it printed, what it reported, and
the failure that ended it. -/
structure Exit where
  code : Nat
  printed : List String
  reported : List String
  failure : Option Failure
  deriving Repr, DecidableEq

namespace Exit

/-- The error output, with the text of the failure as `message` gives it. -/
def errorOutputWith (e : Exit) (message : Failure → String) : String :=
  printedLines (e.reported ++ (e.failure.map fun f => "error: " ++ message f).toList)

/-- The error output. -/
def errorOutput (e : Exit) : String :=
  e.errorOutputWith Failure.message

/-- The output. -/
def output (e : Exit) : String :=
  printedLines e.printed

end Exit

/-- What help calls the value of an option. -/
def valueName (o : OptionSpec OptionName) : String :=
  let word := ((o.spellings.headD "").toList.drop 2).map fun c => if c = '-' then '_' else c
  String.ofList (Text.upper word)

/-- The lines that tell how the program is used. -/
def helpLines : Option CommandName → List String
  | none =>
      let commands := ",".intercalate (CommandName.all.map CommandName.word)
      [s!"usage: {programName} [-h] [--version] [-v] [--log-file LOG_FILE] \x7b{commands}\x7d ..."]
  | some c =>
      let options := (commandOptions c).map fun o =>
        let spelling := o.spellings.headD ""
        if o.takesValue then
          s!"[{spelling} {valueName o}]"
        else s!"[{spelling}]"
      [s!"usage: {programName} {c.word} " ++ " ".intercalate options]

/-- How the program ends if nothing is run. -/
def Refusal.exit : Refusal → Exit
  | .help command => ⟨0, helpLines command, [], none⟩
  | .version => ⟨0, [s!"{programName} {programVersion}"], [], none⟩
  | .mistake program m => ⟨2, [], [s!"{program}: error: {m.message}"], none⟩

/-- How the program ends after a command. -/
def exitOf (reported : List String) : Except Failure Ending → Except Failure Exit
  | .ok ending => .ok ⟨ending.code, ending.printed, reported, none⟩
  | .error failure =>
      match failureCode failure with
      | some code => .ok ⟨code, [], reported, some failure⟩
      | none => .error failure

/-- Runs what a command line asks for in a tree, from the directory `here`; `time` is
written to the log file before each report. -/
def runInvocation (here : Path) (time : String) (i : Invocation) (t : FileTree) :
    Except Failure Exit × FileTree :=
  let log := i.logFile.map (Path.absolute here)
  let opened := match log with
    | some p => openLog t p
    | none => .ok t
  match opened with
  | .error fault => (.error (.raised (.file fault)), t)
  | .ok t =>
      match runCommand here i ⟨t, []⟩ with
      | (outcome, session) =>
          let shown := session.log.filter (isShown i.verbose)
          let files := match log with
            | some p => appendLog session.files p (shown.map (logFileLine time))
            | none => session.files
          (exitOf (shown.map consoleLine) outcome, files)

/-- Runs the program with the words of a command line. -/
def runProgram (here : Path) (time : String) (words : List String) (t : FileTree) :
    Except Failure Exit × FileTree :=
  match Invocation.ofWords words with
  | .error refusal => (.ok refusal.exit, t)
  | .ok i => runInvocation here time i t

end Folio.CommandLine
