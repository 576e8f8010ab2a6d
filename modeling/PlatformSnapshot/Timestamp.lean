import PlatformSnapshot.Text.Blank
import PlatformSnapshot.Text.Split
import PlatformSnapshot.Text.Numeral
/-!
Moments in universal time, and their text. Writing uses the shortest of no, three, six or nine
digits for the fraction of the second that keeps it exactly. Reading accepts any offset from
universal time and is lenient about blanks, short numbers and the letter between date and time.
-/
namespace PlatformSnapshot

open Text

structure Date where
  year : Int
  month : Nat
  day : Nat
  deriving DecidableEq, Repr

namespace Date

def isLeap (year : Int) : Bool := year % 4 == 0 && (year % 100 != 0 || year % 400 == 0)

def daysIn (year : Int) : Nat → Nat
  | 2 => if isLeap year then 29 else 28
  | 4 | 6 | 9 | 11 => 30
  | _ => 31

def inRange (d : Date) : Bool := -262143 ≤ d.year && d.year ≤ 262142

def isValid (d : Date) : Bool :=
  d.inRange && 1 ≤ d.month && d.month ≤ 12 && 1 ≤ d.day && d.day ≤ daysIn d.year d.month

def next (d : Date) : Date :=
  if d.day < daysIn d.year d.month then ⟨d.year, d.month, d.day + 1⟩
  else if d.month < 12 then ⟨d.year, d.month + 1, 1⟩
  else ⟨d.year + 1, 1, 1⟩

def previous (d : Date) : Date :=
  if 1 < d.day then ⟨d.year, d.month, d.day - 1⟩
  else if 1 < d.month then ⟨d.year, d.month - 1, daysIn d.year (d.month - 1)⟩
  else ⟨d.year - 1, 12, 31⟩

/-- The date some days after the first of January 1970. -/
def ofDay (days : Nat) : Date := days.repeat next ⟨1970, 1, 1⟩

end Date

/-- A second of 60 is a leap second. -/
structure Timestamp where
  date : Date
  hour : Nat
  minute : Nat
  second : Nat
  nanosecond : Nat
  deriving DecidableEq, Repr

namespace Timestamp

def isValid (t : Timestamp) : Bool :=
  t.date.isValid && t.hour < 24 && t.minute < 60 && t.second ≤ 60 && t.nanosecond < 1000000000

/-- Four digits, or a sign and at least four for a year that has no four digits. -/
def yearText (year : Int) : List Char :=
  if 0 ≤ year ∧ year ≤ 9999 then Numeral.padded 4 year.toNat
  else (if year < 0 then '-' else '+') :: Numeral.padded 4 year.natAbs

def fractionText (nanosecond : Nat) : List Char :=
  if nanosecond = 0 then []
  else if nanosecond % 1000000 = 0 then '.' :: Numeral.padded 3 (nanosecond / 1000000)
  else if nanosecond % 1000 = 0 then '.' :: Numeral.padded 6 (nanosecond / 1000)
  else '.' :: Numeral.padded 9 nanosecond

def render (t : Timestamp) : List Char :=
  yearText t.date.year ++ '-' :: Numeral.padded 2 t.date.month ++ '-' :: Numeral.padded 2 t.date.day ++
    'T' :: Numeral.padded 2 t.hour ++ ':' :: Numeral.padded 2 t.minute ++
    ':' :: Numeral.padded 2 t.second ++ fractionText t.nanosecond ++ ['Z']

def text (t : Timestamp) : String := .ofList t.render

/-- A number of one to `width` digits, and the rest. -/
def number? (width : Nat) (cs : List Char) : Option (Nat × List Char) :=
  let ds := (cs.take width).takeWhile Numeral.isDigit
  if ds = [] then none else some (Numeral.valueFrom 0 ds, cs.drop ds.length)

/-- A year of one to four digits, or of any length after a sign. -/
def year? : List Char → Option (Int × List Char)
  | '-' :: cs => (number? cs.length cs).map fun (n, r) => (-(n : Int), r)
  | '+' :: cs => (number? cs.length cs).map fun (n, r) => ((n : Int), r)
  | cs => (number? 4 cs).map fun (n, r) => ((n : Int), r)

/-- One character after optional blanks. -/
def mark? (c : Char) (cs : List Char) : Option (List Char) :=
  match trimLeft cs with
  | d :: r => if d = c then some r else none
  | [] => none

/-- Nine digits of the fraction count; further ones are passed over. -/
def fraction? : List Char → Option (Nat × List Char)
  | '.' :: cs =>
    let ds := cs.takeWhile Numeral.isDigit
    if ds = [] then none
    else
      let kept := ds.take 9
      some (Numeral.valueFrom 0 kept * Nat.pow 10 (9 - kept.length), cs.drop ds.length)
  | cs => some (0, cs)

/-- Hours and minutes of an offset, in minutes, with any colons and blanks between them. -/
def offsetMinutes? : List Char → Option (Nat × List Char)
  | a :: b :: r =>
    match r.dropWhile fun c => c == ':' || isBlank c with
    | c :: d :: rest =>
      if [a, b, c, d].all Numeral.isDigit && c < '6' && Numeral.valueFrom 0 [a, b] < 24 then
        some (60 * Numeral.valueFrom 0 [a, b] + Numeral.valueFrom 0 [c, d], rest)
      else none
    | _ => none
  | _ => none

/-- The offset from universal time in minutes: `UTC` or `Z` in any case, or signed hours and
minutes. -/
def offset? : List Char → Option (Int × List Char)
  | [] => none
  | c :: r =>
    if ((c :: r).take 3).map Char.toUpper = "UTC".toList then some (0, (c :: r).drop 3)
    else if c = 'Z' ∨ c = 'z' then some (0, r)
    else if c = '+' then (offsetMinutes? r).map fun (n, s) => ((n : Int), s)
    else if c = '-' ∨ c = '\u2212' then (offsetMinutes? r).map fun (n, s) => (-(n : Int), s)
    else none

/-- The same moment in universal time, for a local time ahead by some minutes of less than a day. -/
def toUniversal (t : Timestamp) (ahead : Int) : Timestamp :=
  let minutes : Int := 60 * t.hour + t.minute - ahead
  let date :=
    if minutes < 0 then t.date.previous else if 1440 ≤ minutes then t.date.next else t.date
  let inDay := (minutes % 1440).toNat
  { t with date := date, hour := inDay / 60, minute := inDay % 60 }

def parse? (cs : List Char) : Option Timestamp := do
  let (year, cs) ← year? (trimLeft cs)
  let (month, cs) ← number? 2 (trimLeft (← mark? '-' cs))
  let (day, cs) ← number? 2 (trimLeft (← mark? '-' cs))
  let cs ← match cs with
    | c :: r => if c = 'T' ∨ c = 't' ∨ c = ' ' then some r else none
    | [] => none
  let (hour, cs) ← number? 2 (trimLeft cs)
  let (minute, cs) ← number? 2 (trimLeft (← mark? ':' cs))
  let (second, cs) ← number? 2 (trimLeft (← mark? ':' cs))
  let (nanosecond, cs) ← fraction? cs
  let (ahead, cs) ← offset? (trimLeft cs)
  let there : Timestamp := ⟨⟨year, month, day⟩, hour, minute, second, nanosecond⟩
  let t := there.toUniversal ahead
  if there.isValid ∧ t.date.inRange ∧ trimLeft cs = [] then some t else none

def ofText? (s : String) : Option Timestamp := parse? s.toList

/-- The moment some nanoseconds after the start of 1970, where no leap second counts. -/
def ofEpoch (nanoseconds : Nat) : Timestamp :=
  let seconds := nanoseconds / 1000000000
  { date := .ofDay (seconds / 86400)
    hour := seconds % 86400 / 3600
    minute := seconds % 3600 / 60
    second := seconds % 60
    nanosecond := nanoseconds % 1000000000 }

end Timestamp
end PlatformSnapshot
