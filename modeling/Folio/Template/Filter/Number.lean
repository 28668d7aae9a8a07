import Folio.Template.Given

/-!
# Filters of numbers

Filters that make numbers of values and round them.
-/

namespace Folio.Template.Filter

open Text

/-- The floating-point number that a text stands for. -/
def readFloat (s : List Char) : Except Fault Number :=
  match Decimal.readFloat? isBlank s with
  | some x => .ok (.float x)
  | none => .error .badValue

/-- The floating-point number that a value stands for. -/
def toFloat (v : Value) : Except Fault Number :=
  match v.chars? with
  | some s => readFloat s
  | none =>
      match v with
      | .undefined => .error .undefined
      | _ =>
          match v.number? with
          | some n => n.toFloat.map .float
          | none => .error .wrongType

/-- Whether a fault is one that a default stands in for. -/
def isConversionFault (f : Fault) : Bool :=
  f = .wrongType || f = .badValue || f = .overflow

/-- The integer that a value stands for, or a default. -/
def intOf (v default : Value) (base : Nat) : Except Fault Value :=
  let direct : Except Fault Int :=
    match v.chars? with
    | some s =>
        match Decimal.readInt? base isBlank s with
        | some n => .ok n
        | none => .error .badValue
    | none =>
        match v with
        | .undefined => .error .undefined
        | _ =>
            match v.number? with
            | some n => n.truncate
            | none => .error .wrongType
  match direct with
  | .ok n => .ok (.int n)
  | .error f =>
      if !isConversionFault f then .error f
      else
        match (toFloat v).bind Number.truncate with
        | .ok n => .ok (.int n)
        | .error f => if isConversionFault f then .ok default else .error f

/-- The floating-point number that a value stands for, or a default. -/
def floatOf (v default : Value) : Except Fault Value :=
  match toFloat v with
  | .ok n => .ok n.value
  | .error f => if f = .wrongType || f = .badValue then .ok default else .error f

/-- The names of the units of sizes, from thousands on. -/
def sizeUnits (binary : Bool) : List String :=
  if binary then ["KiB", "MiB", "GiB", "TiB", "PiB", "EiB", "ZiB", "YiB"]
  else ["kB", "MB", "GB", "TB", "PB", "EB", "ZB", "YB"]

/-- A size in the first unit that makes it small. -/
def inUnits (base : Nat) (x : Float) : Nat → List String → List Char
  | _, [] => []
  | exponent, name :: rest =>
      let unit := Float.ofNat (Nat.pow base exponent)
      if x < unit || rest.isEmpty then
        let sign := if x < 0 then ['-'] else []
        sign ++ Number.fixedText 1 (.float (Float.ofNat base * x / unit)) ++ ' ' :: name.toList
      else inUnits base x (exponent + 1) rest

/-- A size of so many bytes. -/
def sizeText (binary : Bool) (x : Float) : Except Fault (List Char) := do
  let base := if binary then 1024 else 1000
  if x == 1 then return "1 Byte".toList
  else if x < Float.ofNat base then
    return Decimal.intText (← Number.truncate (.float x)) ++ " Bytes".toList
  else return inUnits base x 2 (sizeUnits binary)

/-- A value that must be a number. -/
def needNumber (v : Value) : Render Number :=
  match v.number? with
  | some n => return n
  | none => throw .wrongType

/-- A number rounded by a method. -/
def rounded (v : Value) (precision : Int) (method : List Char) : Render Value := do
  if method == "common".toList then
    return (← Render.ofExcept ((← needNumber v).round precision)).value
  else if method == "ceil".toList || method == "floor".toList then
    match v with
    | .undefined => throw .undefined
    | _ => pure ()
    let power ← Render.ofExcept (Number.power (.int 10) (.int precision))
    let scaled ← Render.ofExcept
      (Number.compute (· * ·) (· * ·) (← needNumber v) power)
    let n ← Render.ofExcept (scaled.toInt (method == "ceil".toList))
    return (← Render.ofExcept ((Number.int n).divide power)).value
  else throw .badFilterArgument

/-- Applies a filter of numbers, if it is one. -/
def ofNumber? (name : String) (v : Value) (g : Given) : Option (Render Value) :=
  match name with
  | "abs" => some do
      Render.nothing g
      return (← needNumber v).abs.value
  | "int" => some do
      let given ← Render.bind g ["default", "base"] 0
      let base ← Render.intOr (Given.nth given 1) 10
      Render.ofExcept (intOf v ((Given.nth given 0).getD (.int 0)) base.toNat)
  | "float" => some do
      let given ← Render.bind g ["default"] 0
      Render.ofExcept (floatOf v ((Given.nth given 0).getD (.float 0.0)))
  | "round" => some do
      let given ← Render.bind g ["precision", "method"] 0
      let precision ← Render.intOr (Given.nth given 0) 0
      rounded v precision (← Render.textOr (Given.nth given 1) "common".toList)
  | "filesizeformat" => some do
      let given ← Render.bind g ["binary"] 0
      let binary ← Render.flagOr (Given.nth given 0) false
      let n ← Render.ofExcept (toFloat v)
      return .text (← Render.ofExcept (do sizeText binary (← n.toFloat)))
  | _ => none

end Folio.Template.Filter
