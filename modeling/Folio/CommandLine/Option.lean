import Folio.Text.Occurrence
import Folio.Text.Printable
import Folio.Text.WordChar

/-!
# Options on a command line

The words of a command line are options and arguments.  A long option may be cut
short where no other option begins the same way, and may hold its value after an
equals sign; short options may stand together in one word.  Two dashes end the
options.

`events` says what the words are, in order.  A word that is wrong gives a mistake in
its place, so that whatever stands before it still counts.
-/

namespace Folio.CommandLine

open Text

/-- A word of a command line. -/
abbrev Word := List Char

/-- An option: what it stands for, how it may be written, and whether it has a value. -/
structure OptionSpec (κ : Type) where
  key : κ
  spellings : List String
  takesValue : Bool

namespace OptionSpec

variable {κ : Type}

/-- What mistakes call an option: all its spellings. -/
def title (o : OptionSpec κ) : String :=
  "/".intercalate o.spellings

end OptionSpec

/-- What can be wrong with the words of a command line. -/
inductive Mistake
  | ambiguous (word : Word) (meanings : List String)
  | noValue (option : String)
  | strayValue (option : String) (value : Word)
  | excluded (option other : String)
  | unknownCommand (word : Word) (known : List String)
  | noCommand
  | unknownWords (words : List Word)
  deriving Repr, DecidableEq

namespace Mistake

/-- The text of a mistake. -/
def message : Mistake → String
  | .ambiguous word meanings =>
      "ambiguous option: " ++ String.ofList word ++ " could match " ++ ", ".intercalate meanings
  | .noValue option => s!"argument {option}: expected one argument"
  | .strayValue option value =>
      s!"argument {option}: ignored explicit argument " ++ String.ofList (quote value)
  | .excluded option other => s!"argument {option}: not allowed with argument {other}"
  | .unknownCommand word known =>
      "argument command: invalid choice: " ++ String.ofList (quote word) ++
        " (choose from " ++ ", ".intercalate (known.map quoted) ++ ")"
  | .noCommand => "the following arguments are required: command"
  | .unknownWords words =>
      "unrecognized arguments: " ++ " ".intercalate (words.map String.ofList)

end Mistake

/-! ## Single words -/

variable {κ : Type}

/-- What a single word can be.  An option may hold its value. -/
inductive WordKind (κ : Type)
  | argument
  | separator
  | unknown
  | option (spec : OptionSpec κ) (spelling : Word) (value : Option Word)

/-- The option of a spelling. -/
def optionOf (specs : List (OptionSpec κ)) (spelling : Word) : Option (OptionSpec κ) :=
  specs.find? fun o => o.spellings.any fun s => s.toList = spelling

/-- The word that ends the options. -/
def endOfOptions : Word := ['-', '-']

/-- Whether a spelling is that of a long option. -/
def isLong (spelling : Word) : Bool :=
  endOfOptions.isPrefixOf spelling

/-- A word cut at its first equals sign. -/
def cutValue (word : Word) : Word × Option Word :=
  match word.dropWhile (· != '=') with
  | [] => (word, none)
  | _ :: value => (word.takeWhile (· != '='), some value)

/-- All options by their spellings. -/
def spelled (specs : List (OptionSpec κ)) : List (OptionSpec κ × Word) :=
  specs.flatMap fun o => o.spellings.map fun s => (o, s.toList)

/-- The options that a word may mean that is no spelling of one: long options that
begin with it, or the short option that it begins with. -/
def candidates (specs : List (OptionSpec κ)) (word : Word) :
    List (OptionSpec κ × Word × Option Word) :=
  if isLong word then
    let (front, value) := cutValue word
    (spelled specs).filterMap fun (o, s) =>
      if front.isPrefixOf s then some (o, s, value) else none
  else
    (spelled specs).filterMap fun (o, s) =>
      if s = word.take 2 then some (o, s, some (word.drop 2)) else none

/-- Whether a word is a negative number in digits. -/
def isNegativeNumber : Word → Bool
  | '-' :: number =>
      let number := if number.getLast? = some '\n' then number.dropLast else number
      let whole := number.takeWhile isDecimalDigit
      match number.dropWhile isDecimalDigit with
      | [] => !whole.isEmpty
      | '.' :: fraction => !fraction.isEmpty && fraction.all isDecimalDigit
      | _ => false
  | _ => false

/-- What a word is that begins with a dash and is no spelling of an option. -/
def kindByStart (specs : List (OptionSpec κ)) (word : Word) : Except Mistake (WordKind κ) :=
  match candidates specs word with
  | [(o, spelling, value)] => .ok (.option o spelling value)
  | [] => .ok (if isNegativeNumber word || word.contains ' ' then .argument else .unknown)
  | several => .error (.ambiguous word (several.map fun c => String.ofList c.2.1))

/-- What a word is. -/
def kindOf (specs : List (OptionSpec κ)) (word : Word) : Except Mistake (WordKind κ) :=
  if word.head? ≠ some '-' then .ok .argument
  else
    match optionOf specs word with
    | some o => .ok (.option o word none)
    | none =>
        if word = ['-'] then .ok .argument
        else
          match cutValue word with
          | (front, some value) =>
              match optionOf specs front with
              | some o => .ok (.option o front (some value))
              | none => kindByStart specs word
          | (_, none) => kindByStart specs word

/-- All words with what they are; after the end of options there are only arguments. -/
def kinds (specs : List (OptionSpec κ)) : List Word → Except Mistake (List (Word × WordKind κ))
  | [] => .ok []
  | word :: rest =>
      if word = endOfOptions then
        .ok ((word, .separator) :: rest.map fun w => (w, .argument))
      else do
        let kind ← kindOf specs word
        return (word, kind) :: (← kinds specs rest)

/-! ## Events -/

/-- What stands on a command line: an option with its value, a command with all words
that follow it, a word without meaning, or a mistake. -/
inductive Event (κ : Type)
  | use (option : OptionSpec κ) (value : Option Word)
  | command (word : Word) (rest : List Word)
  | extra (word : Word)
  | mistake (m : Mistake)

/-- The short options that stand in one word, after the first of them and what
follows it; the last may have a value in the word. -/
def unbundle (specs : List (OptionSpec κ)) (first : OptionSpec κ) :
    Word → Except Mistake (List (OptionSpec κ) × OptionSpec κ × Option Word)
  | [] => .ok ([], first, none)
  | letter :: more =>
      match optionOf specs ['-', letter] with
      | none => .error (.strayValue first.title (letter :: more))
      | some next =>
          if more.isEmpty then .ok ([first], next, none)
          else if next.takesValue then .ok ([first], next, some more)
          else do
            let (flags, last) ← unbundle specs next more
            return (first :: flags, last)

/-- The options of a word that holds a value: flags, and the last option with its
value if that is in the word. -/
def openValue (specs : List (OptionSpec κ)) (o : OptionSpec κ) (spelling value : Word) :
    Except Mistake (List (OptionSpec κ) × OptionSpec κ × Option Word) :=
  if o.takesValue then .ok ([], o, some value)
  else if isLong spelling || value.isEmpty then .error (.strayValue o.title value)
  else unbundle specs o value

/-- What the words of a command line say.  With `commands`, the first argument is a
command, and all words after it belong to it. -/
def events (specs : List (OptionSpec κ)) (commands : Bool) :
    List (Word × WordKind κ) → List (Event κ)
  | [] => []
  | (word, .argument) :: rest =>
      if commands then [.command word (rest.map (·.1))]
      else .extra word :: events specs commands rest
  | (word, .separator) :: rest =>
      if commands && !rest.isEmpty then [.command word (rest.map (·.1))]
      else .extra word :: events specs commands rest
  | (word, .unknown) :: rest => .extra word :: events specs commands rest
  | (_, .option o spelling value) :: rest =>
      let opened := match value with
        | some v => openValue specs o spelling v
        | none => .ok ([], o, none)
      match opened with
      | .error m => [.mistake m]
      | .ok (flags, last, value) =>
          let before := flags.map fun flag => Event.use flag none
          if last.takesValue && value.isNone then
            match rest with
            | (word, .argument) :: rest =>
                before ++ .use last (some word) :: events specs commands rest
            | _ => [.mistake (.noValue last.title)]
          else before ++ .use last value :: events specs commands rest

/-- What some words of a command line say. -/
def eventsOf (specs : List (OptionSpec κ)) (commands : Bool) (words : List Word) :
    List (Event κ) :=
  match kinds specs words with
  | .ok kinds => events specs commands kinds
  | .error m => [.mistake m]

end Folio.CommandLine
