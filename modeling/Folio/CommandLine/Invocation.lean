import Folio.CommandLine.Option
import Folio.Output.Stage

/-!
# Invocations

What a command line asks for: one of three commands with its settings, and how to
report.  `build` renders spaces, `check` lists references that lead nowhere, and
`symbols` lists macros and blocks.
-/

namespace Folio.CommandLine

/-- The name of the program, as messages give it. -/
def programName : String := "pagesmith"

/-- The version of the program. -/
def programVersion : String := "0.1.0"

/-- What options stand for. -/
inductive OptionName
  | help
  | version
  | verbose
  | logFile
  | workspace
  | space
  | titleSuffix
  | file
  deriving Repr, DecidableEq

/-- The commands. -/
inductive CommandName
  | build
  | check
  | symbols
  deriving Repr, DecidableEq

namespace CommandName

/-- The word for a command. -/
def word : CommandName → String
  | .build => "build"
  | .check => "check"
  | .symbols => "symbols"

/-- All commands. -/
def all : List CommandName :=
  [.build, .check, .symbols]

/-- The command of a word. -/
def ofWord? (w : Word) : Option CommandName :=
  all.find? fun c => c.word.toList = w

end CommandName

/-- The option that asks for help. -/
def helpOption : OptionSpec OptionName :=
  ⟨.help, ["-h", "--help"], false⟩

/-- The options before the command. -/
def globalOptions : List (OptionSpec OptionName) :=
  [helpOption, ⟨.version, ["--version"], false⟩, ⟨.verbose, ["-v", "--verbose"], false⟩,
    ⟨.logFile, ["--log-file"], true⟩]

/-- The option that names a space. -/
def spaceOption : OptionSpec OptionName :=
  ⟨.space, ["--space"], true⟩

/-- The option that names a template. -/
def fileOption : OptionSpec OptionName :=
  ⟨.file, ["--file"], true⟩

/-- The options of a command. -/
def commandOptions (c : CommandName) : List (OptionSpec OptionName) :=
  let shared := [helpOption, ⟨.workspace, ["--workspace"], true⟩, spaceOption]
  match c with
  | .build => shared ++ [⟨.titleSuffix, ["--title-suffix"], true⟩]
  | .check => shared ++ [fileOption]
  | .symbols => shared

/-- A command with its settings. -/
inductive Command
  | build (spaces : List String) (titleSuffix : String)
  | check (space file : Option String)
  | symbols (space : Option String)
  deriving Repr, DecidableEq

/-- What a command line asks for. -/
structure Invocation where
  verbose : Bool
  logFile : Option Path
  workspace : String
  command : Command
  deriving Repr, DecidableEq

/-- Why nothing is run: help or the version is asked for, or there is a mistake,
which is told under the name of the program or of the command. -/
inductive Refusal
  | help (command : Option CommandName)
  | version
  | mistake (program : String) (m : Mistake)
  deriving Repr, DecidableEq

/-! ## Settings of commands -/

/-- The settings of a command, as far as they were read: the spaces in order, and the
words without meaning. -/
structure Settings where
  workspace : String
  spaces : List String
  titleSuffix : String
  file : Option String
  extras : List Word

namespace Settings

/-- The settings without options. -/
def default : Settings :=
  ⟨".", [], defaultTitleSuffix, none, []⟩

/-- The settings with the value of an option.  A template and a space exclude each
other where both can be named. -/
def put (c : CommandName) (s : Settings) (name : OptionName) (value : String) :
    Except Mistake Settings :=
  match name with
  | .workspace => .ok { s with workspace := value }
  | .titleSuffix => .ok { s with titleSuffix := value }
  | .space =>
      if c = .check && s.file.isSome then .error (.excluded spaceOption.title fileOption.title)
      else .ok { s with spaces := s.spaces ++ [value] }
  | .file =>
      if s.spaces.isEmpty then .ok { s with file := some value }
      else .error (.excluded fileOption.title spaceOption.title)
  | _ => .ok s

/-- The command that the settings are of. -/
def command (s : Settings) : CommandName → Command
  | .build => .build s.spaces s.titleSuffix
  | .check => .check s.spaces.getLast? s.file
  | .symbols => .symbols s.spaces.getLast?

end Settings

/-- Reads the settings of a command. -/
def readSettings (c : CommandName) : Settings → List (Event OptionName) → Except Refusal Settings
  | s, [] => .ok s
  | s, .extra word :: rest => readSettings c { s with extras := s.extras ++ [word] } rest
  | _, .mistake m :: _ => .error (.mistake s!"{programName} {c.word}" m)
  | s, .command _ _ :: rest => readSettings c s rest
  | s, .use o value :: rest =>
      if o.key = .help then .error (.help (some c))
      else
        match s.put c o.key (String.ofList (value.getD [])) with
        | .ok s => readSettings c s rest
        | .error m => .error (.mistake s!"{programName} {c.word}" m)

/-! ## Command lines -/

/-- How to report, as far as it was read: with details or without, and to which file;
and the words without meaning. -/
structure Reporting where
  verbose : Bool
  logFile : Option Path
  extras : List Word

namespace Reporting

/-- The reporting without options. -/
def default : Reporting :=
  ⟨false, none, []⟩

/-- A mistake on the command line as a whole. -/
def refuse {α : Type} (m : Mistake) : Except Refusal α :=
  .error (.mistake programName m)

/-- What a command line asks for, with a command and its words. -/
def finish (r : Reporting) (word : Word) (rest : List Word) : Except Refusal Invocation :=
  match CommandName.ofWord? word with
  | none => refuse (.unknownCommand word (CommandName.all.map CommandName.word))
  | some c => do
      let s ← readSettings c Settings.default (eventsOf (commandOptions c) false rest)
      let extras := r.extras ++ s.extras
      if extras.isEmpty then
        return ⟨r.verbose, r.logFile, s.workspace, s.command c⟩
      else refuse (.unknownWords extras)

end Reporting

/-- Reads what stands before the command, and the command. -/
def readInvocation : Reporting → List (Event OptionName) → Except Refusal Invocation
  | _, [] => Reporting.refuse .noCommand
  | r, .extra word :: rest => readInvocation { r with extras := r.extras ++ [word] } rest
  | _, .mistake m :: _ => Reporting.refuse m
  | r, .command word rest :: _ => r.finish word rest
  | r, .use o value :: rest =>
      match o.key with
      | .help => .error (.help none)
      | .version => .error .version
      | .verbose => readInvocation { r with verbose := true } rest
      | .logFile =>
          readInvocation { r with logFile := value.map Path.ofChars } rest
      | _ => readInvocation r rest

/-- What a command line asks for. -/
def Invocation.ofWords (words : List String) : Except Refusal Invocation :=
  readInvocation Reporting.default (eventsOf globalOptions true (words.map String.toList))

end Folio.CommandLine
