import Folio.Template.Expr
import Folio.Template.Lexeme

/-!
# Readers of lexemes

A reader takes what it reads from the front of a list of lexemes or fails.  A
lexeme that stands for a fault of the text makes every reader fail with it.
-/

namespace Folio.Template

/-- Reads something from the front of a list of lexemes. -/
abbrev Reader (α : Type) := StateT (List Lexeme) (Except Fault) α

namespace Reader

/-- The lexeme at the front, if there is one. -/
def current : Reader (Option Lexeme) :=
  return (← get).head?

/-- Drops the lexeme at the front. -/
def skip : Reader Unit :=
  modify List.tail

/-- Fails: what stands at the front is not what should stand there. -/
def refuse {α : Type} : Reader α := do
  match ← current with
  | some (.bad fault) => throw fault
  | _ => throw .badSyntax

/-! ## Single lexemes -/

/-- Whether a lexeme is a sign. -/
def isSign (sign : Sign) : Option Lexeme → Bool
  | some (.sign s) => s = sign
  | _ => false

/-- Whether a lexeme is one of some names. -/
def isNameOf (names : List String) : Option Lexeme → Bool
  | some (.name n) => names.contains n
  | _ => false

/-- Whether a sign stands at the front. -/
def atSign (sign : Sign) : Reader Bool :=
  return isSign sign (← current)

/-- Whether one of some names stands at the front. -/
def atName (names : List String) : Reader Bool :=
  return isNameOf names (← current)

/-- The second lexeme. -/
def second : Reader (Option Lexeme) :=
  return (← get).tail.head?

/-- Takes a sign if it stands at the front. -/
def takeSign (sign : Sign) : Reader Bool := do
  if ← atSign sign then
    skip
    return true
  else return false

/-- Takes a name if it stands at the front. -/
def takeName (name : String) : Reader Bool := do
  if ← atName [name] then
    skip
    return true
  else return false

/-- Takes a sign that must stand at the front. -/
def sign (sign : Sign) : Reader Unit := do
  if !(← takeSign sign) then refuse

/-- Takes a name that must stand at the front. -/
def keyword (name : String) : Reader Unit := do
  if !(← takeName name) then refuse

/-- Takes any name. -/
def anyName : Reader String := do
  match ← current with
  | some (.name n) =>
      skip
      return n
  | _ => refuse

/-- Takes the mark that ends a statement. -/
def statementEnd : Reader Unit := do
  match ← current with
  | some .statementEnd => skip
  | _ => refuse

/-- Takes the mark that ends a printed value. -/
def printEnd : Reader Unit := do
  match ← current with
  | some .printEnd => skip
  | _ => refuse

/-! ## Repetition -/

/-- Repeats a step until it gives nothing, at most `count` times. -/
def iterate {α : Type} (step : α → Reader (Option α)) : Nat → α → Reader α
  | 0, a => return a
  | count + 1, a => do
      match ← step a with
      | some b => iterate step count b
      | none => return a

/-- Repeats a step that takes lexemes until it gives nothing. -/
def repeated {α : Type} (step : α → Reader (Option α)) (a : α) : Reader α := do
  iterate step ((← get).length + 1) a

/-- Reads items separated by commas up to a closing sign, which is taken. -/
def separated {α : Type} (item : Reader α) (closing : Sign) (trailing : Bool) :
    Reader (List α) := do
  let items ← repeated (fun (items : List α) => do
    if ← atSign closing then return none
    if !items.isEmpty then
      sign .comma
      if trailing then
        if ← atSign closing then return none
    return some ((← item) :: items)) []
  sign closing
  return items.reverse

end Reader

end Folio.Template
