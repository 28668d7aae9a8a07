import Folio.Template.Escape
import Folio.Template.Format.Percent

/-!
# Operators

What operators give for values: numbers are computed, sequences are joined and
repeated, a text takes values after a percent sign.
-/

namespace Folio.Template

namespace Render

/-- The items of a list. -/
def listItems? (v : Value) : Render (Option (List Value)) := do
  match v with
  | .object id =>
      match ← object? id with
      | some (.list items) => return some items
      | _ => return none
  | _ => return none

/-- A list repeated. -/
def copies {α : Type} (count : Int) (items : List α) : Render (List α) := do
  ofExcept (do
    wordSized count
    roomFor (count * items.length))
  return (List.replicate count.toNat items).flatten

/-- Two sequences one after another, if they can be joined. -/
def joined? (a b : Value) : Render (Option Value) := do
  match a, b with
  | .text s, .text t => return some (.text (s ++ t))
  | .safe s, .safe t => return some (.safe (s ++ t))
  | .safe s, .text t => return some (.safe (s ++ escape t))
  | .text s, .safe t => return some (.safe (escape s ++ t))
  | .tuple s, .tuple t => return some (.tuple (s ++ t))
  | .bytes s, .bytes t => return some (.bytes (s ++ t))
  | _, _ =>
      match ← listItems? a, ← listItems? b with
      | some s, some t => return some (← newList (s ++ t))
      | _, _ => return none

/-- A sequence repeated, if it is one. -/
def repeated? (v : Value) (count : Int) : Render (Option Value) := do
  match v with
  | .text s => return some (.text (← copies count s))
  | .safe s => return some (.safe (← copies count s))
  | .tuple s => return some (.tuple (← copies count s))
  | .bytes s => return some (.bytes (← copies count s))
  | _ =>
      match ← listItems? v with
      | some s => return some (← newList (← copies count s))
      | none => return none

/-- What an operation gives for two numbers. -/
def computeNumbers (operation : Operation) (a b : Number) : Except Fault Number :=
  match operation with
  | .add => Number.compute (· + ·) (· + ·) a b
  | .subtract => Number.compute (· - ·) (· - ·) a b
  | .multiply => Number.compute (· * ·) (· * ·) a b
  | .divide => a.divide b
  | .floorDivide => (a.divMod b).map (·.1)
  | .remainder => (a.divMod b).map (·.2)
  | .power => a.power b

/-- What an operation gives for values that are not both numbers. -/
def computeOthers (operation : Operation) (a b : Value) : Render Value := do
  let orFail := fun (v : Option Value) =>
    match v with
    | some v => (return v : Render Value)
    | none => throw Fault.wrongType
  match operation with
  | .add => orFail (← joined? a b)
  | .multiply =>
      match a.int?, b.int? with
      | _, some n => orFail (← repeated? a n)
      | some n, _ => orFail (← repeated? b n)
      | none, none => throw .wrongType
  | .subtract =>
      match a, b with
      | .set s, .set t =>
          let objects := (← get).objects
          return .set (s.filter fun x => !t.any (x.equal objects))
      | _, _ => throw .wrongType
  | _ => throw .wrongType

/-- What an operation gives for two values. -/
def compute (operation : Operation) (a b : Value) : Render Value := do
  match operation, a.chars? with
  | .remainder, some template =>
      match a with
      | .safe _ => return .safe (← percentFormat true template b)
      | _ => return .text (← percentFormat false template b)
  | _, _ =>
      match a, b with
      | .undefined, _ => throw .undefined
      | _, .undefined => throw .undefined
      | _, _ =>
          match a.number?, b.number? with
          | some m, some n => return (← ofExcept (computeNumbers operation m n)).value
          | _, _ => computeOthers operation a b

/-- Whether two values stand in a relation. -/
def holds (comparison : Comparison) (a b : Value) : Render Bool := do
  match comparison with
  | .equal => equal a b
  | .notEqual => return !(← equal a b)
  | .less => less a b
  | .lessEqual => lessEqual a b
  | .greater => less b a
  | .greaterEqual => lessEqual b a
  | .isIn => contains b a
  | .isNotIn => return !(← contains b a)

/-- A value with a sign in front of it. -/
def signed (negative : Bool) (v : Value) : Render Value := do
  match v with
  | .undefined => throw .undefined
  | _ =>
      match v.number? with
      | some n => return (if negative then n.negate else n).value
      | none => throw .wrongType

end Render

end Folio.Template
