import Folio.Template.Format.Layout

/-!
# Times laid out by patterns

A pattern is a text with letters after percent signs; each letter stands for a part
of a time.  Between the sign and the letter may stand how the part is written: without
zeros in front, with blanks for them, or in capitals.
-/

namespace Folio.Template

open Data (Date DateTime)

/-- The names of the days of a week, from Monday. -/
def dayNames : List String :=
  ["Monday", "Tuesday", "Wednesday", "Thursday", "Friday", "Saturday", "Sunday"]

/-- The names of the months. -/
def monthNames : List String :=
  ["January", "February", "March", "April", "May", "June", "July", "August", "September",
    "October", "November", "December"]

/-- The day of the week of a date, Monday being zero. -/
def weekday (d : Date) : Nat :=
  (d.ordinal + 6) % 7

/-- The days of a year up to a date. -/
def dayOfYear (d : Date) : Nat :=
  d.ordinal - (Date.mk d.year 1 1).ordinal + 1

/-- The number of weeks of a year: it has one more if it begins on a Thursday, or is a
leap year that begins on a Wednesday. -/
def weeksOf (year : Nat) : Nat :=
  let first := weekday ⟨year, 1, 1⟩
  if first = 3 || (first = 2 && Data.isLeap year) then 53 else 52

/-- The year and the number of the week that a date lies in, weeks being counted with
the Thursday that they hold. -/
def weekOf (d : Date) : Nat × Nat :=
  let week := (dayOfYear d + 9 - weekday d) / 7
  if week = 0 then (d.year - 1, weeksOf (d.year - 1))
  else if weeksOf d.year < week then (d.year + 1, 1)
  else (d.year, week)

/-- A part of a time: a number that is filled up to a width, or a text. -/
inductive TimePart
  | number (n width : Nat) (filler : Char)
  | text (s : List Char)

/-- The offset of a time in hours and minutes. -/
def offsetDigits (o : Int) : List Char :=
  (DateTime.offsetText o).filter (· != ':')

/-- The name of an offset. -/
def offsetName (o : Int) : List Char :=
  if o = 0 then "UTC".toList else "UTC".toList ++ DateTime.offsetText o

/-- A number of a date, by the letter that stands for it. -/
def dateNumber? (d : Date) (letter : Char) : Option TimePart :=
  let two := fun (n : Nat) => some (TimePart.number n 2 '0')
  match letter with
  | 'Y' => some (.number d.year 0 '0')
  | 'y' => two (d.year % 100)
  | 'C' => two (d.year / 100)
  | 'm' => two d.month
  | 'd' => two d.day
  | 'e' => some (.number d.day 2 ' ')
  | 'j' => some (.number (dayOfYear d) 3 '0')
  | 'w' => some (.number ((weekday d + 1) % 7) 0 '0')
  | 'u' => some (.number (weekday d + 1) 0 '0')
  | 'U' => two ((dayOfYear d + 6 - (weekday d + 1) % 7) / 7)
  | 'W' => two ((dayOfYear d + 6 - weekday d) / 7)
  | 'V' => two (weekOf d).2
  | 'G' => some (.number (weekOf d).1 0 '0')
  | 'g' => two ((weekOf d).1 % 100)
  | _ => none

/-- A number of the time of a day, by the letter that stands for it. -/
def clockNumber? (t : DateTime) (letter : Char) : Option TimePart :=
  let half := if t.hour % 12 = 0 then 12 else t.hour % 12
  match letter with
  | 'H' => some (.number t.hour 2 '0')
  | 'k' => some (.number t.hour 2 ' ')
  | 'I' => some (.number half 2 '0')
  | 'l' => some (.number half 2 ' ')
  | 'M' => some (.number t.minute 2 '0')
  | 'S' => some (.number t.second 2 '0')
  | 'f' => some (.number t.microsecond 6 '0')
  | _ => none

/-- A word of a time, by the letter that stands for it. -/
def timeWord? (t : DateTime) (letter : Char) : Option (List Char) :=
  let named := fun (names : List String) (i : Nat) => ((names[i]?).getD "").toList
  match letter with
  | 'p' => some (if t.hour < 12 then ['A', 'M'] else ['P', 'M'])
  | 'P' => some (if t.hour < 12 then ['a', 'm'] else ['p', 'm'])
  | 'A' => some (named dayNames (weekday t.date))
  | 'a' => some ((named dayNames (weekday t.date)).take 3)
  | 'B' => some (named monthNames (t.date.month - 1))
  | 'b' => some ((named monthNames (t.date.month - 1)).take 3)
  | 'h' => some ((named monthNames (t.date.month - 1)).take 3)
  | 'z' => some ((t.offset.map offsetDigits).getD [])
  | 'Z' => some ((t.offset.map offsetName).getD [])
  | 'n' => some ['\n']
  | 't' => some ['\t']
  | '%' => some ['%']
  | _ => none

/-- The pattern that a letter is short for. -/
def longPattern? (letter : Char) : Option String :=
  match letter with
  | 'F' => some "%Y-%m-%d"
  | 'D' => some "%m/%d/%y"
  | 'x' => some "%m/%d/%y"
  | 'T' => some "%H:%M:%S"
  | 'X' => some "%H:%M:%S"
  | 'R' => some "%H:%M"
  | 'r' => some "%I:%M:%S %p"
  | 'c' => some "%a %b %e %H:%M:%S %Y"
  | _ => none

/-- A part of a time written out; `flag` says how, if it stands before the letter. -/
def writePart (flag : Option Char) : TimePart → List Char
  | .text s => if flag = some '^' then capitals s else s
  | .number n width filler =>
      let digits := Decimal.natText n
      match flag with
      | some '-' => digits
      | some '_' => padTo .right width ' ' [] digits
      | some '0' => padTo .right width '0' [] digits
      | _ => padTo .right width filler [] digits

/-- A part of a time, by the letter that stands for it. -/
def timePart? (t : DateTime) (letter : Char) : Option TimePart :=
  (dateNumber? t.date letter).or ((clockNumber? t letter).or ((timeWord? t letter).map .text))

/-- Whether a character between the percent sign and the letter says how a part is
written. -/
def isTimeFlag (c : Char) : Bool :=
  c == '-' || c == '_' || c == '0' || c == '^'

/-- A time laid out by a pattern in which no letter is short for a pattern. -/
def simpleTimeText (t : DateTime) : List Char → List Char
  | [] => []
  | '%' :: letter :: rest =>
      if isTimeFlag letter then
        match rest with
        | next :: rest =>
            match timePart? t next with
            | some part => writePart (some letter) part ++ simpleTimeText t rest
            | none => '%' :: letter :: next :: simpleTimeText t rest
        | [] => ['%', letter]
      else
        match timePart? t letter with
        | some part => writePart none part ++ simpleTimeText t rest
        | none => '%' :: letter :: simpleTimeText t rest
  | c :: rest => c :: simpleTimeText t rest

/-- A pattern without letters that are short for patterns. -/
def longPattern : List Char → List Char
  | '%' :: letter :: rest =>
      match longPattern? letter with
      | some pattern => pattern.toList ++ longPattern rest
      | none => '%' :: letter :: longPattern rest
  | c :: rest => c :: longPattern rest
  | [] => []

/-- A time laid out by a pattern. -/
def timeText (t : DateTime) (pattern : List Char) : List Char :=
  simpleTimeText t (longPattern pattern)

/-- The midnight that a date begins with. -/
def midnight (d : Date) : DateTime :=
  ⟨d, 0, 0, 0, 0, none⟩

end Folio.Template
