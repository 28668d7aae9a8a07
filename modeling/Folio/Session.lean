import Folio.Cause

/-!
# Sessions

A build reads and changes files and reports what it does.  Both are state of a
*session*: a file tree and a log.  An action runs in a session and may fail; what
it did before it failed stays done.
-/

namespace Folio

/-- How much a report matters. -/
inductive Level
  | debug
  | info
  | warning
  deriving Repr, DecidableEq

/-- The word for a level. -/
def Level.word : Level → String
  | .debug => "DEBUG"
  | .info => "INFO"
  | .warning => "WARNING"

/-- One report: its level, the part of the program it comes from, and its text. -/
structure Record where
  level : Level
  topic : String
  message : String
  deriving Repr, DecidableEq

/-- A failure that ends a command. -/
inductive Failure
  | config (message : String)
  | unreadableConfig (path : Path) (cause : Cause)
  | build (message : String) (cause : Cause)
  | usage (message : String)
  | raised (cause : Cause)
  deriving Repr, DecidableEq

namespace Failure

/-- The text of a failure. -/
def message : Failure → String
  | .config text => text
  | .unreadableConfig path cause => s!"Failed to parse {path}: {cause}"
  | .build text cause => s!"{text}: {cause}"
  | .usage text => text
  | .raised (.markup error) => error.message
  | .raised cause => cause.label

end Failure

/-- Files and what has been reported so far. -/
structure Session where
  files : FileTree
  log : List Record

/-- Something done in a session. -/
abbrev Action (α : Type) := ExceptT Failure (StateM Session) α

namespace Action

/-- Adds a report. -/
def report (level : Level) (topic message : String) : Action Unit :=
  modify fun s => { s with log := s.log ++ [⟨level, topic, message⟩] }

/-- Reports a detail. -/
def debug (topic message : String) : Action Unit :=
  report .debug topic message

/-- Reports progress. -/
def info (topic message : String) : Action Unit :=
  report .info topic message

/-- Reports a problem. -/
def warn (topic message : String) : Action Unit :=
  report .warning topic message

/-- The files as they are now. -/
def files : Action FileTree := do
  return (← get).files

/-- Replaces the files. -/
def setFiles (t : FileTree) : Action Unit :=
  modify fun s => { s with files := t }

/-- The value of a computation, or its cause as a failure. -/
def orRaise {α : Type} (r : Except Cause α) : Action α :=
  match r with
  | .ok a => pure a
  | .error cause => throw (.raised cause)

/-- The outcome of an action as a value. -/
def attempt {α : Type} (a : Action α) : Action (Except Failure α) :=
  fun s =>
    match a s with
    | (outcome, s') => (.ok outcome, s')

end Action

/-! ## Texts in files -/

namespace FileTree

/-- The text of a file, with line ends made line feeds. -/
def readText (t : FileTree) (p : Path) : Except Cause (List Char) :=
  match t.read p with
  | .error fault => .error (.file fault)
  | .ok content =>
      match String.fromUTF8? content with
      | some s => .ok (Text.normalizeLineEnds s.toList)
      | none => .error .notText

/-- Writes a text. -/
def writeText (t : FileTree) (p : Path) (text : List Char) : Except Cause FileTree :=
  (t.write p (String.ofList text).toUTF8).mapError .file

end FileTree

end Folio
