import PlatformSnapshot.SortedMap
import PlatformSnapshot.Attempt
/-!
Busy time of each logical processor, in ticks since boot. A processor is busy in user, nice, system,
interrupt, soft interrupt and stolen time; it is not in idle and waiting time, and guest time is
already part of user and nice time.
-/
namespace PlatformSnapshot

open Text

abbrev BusyTime := SortedMap UInt32 UInt64

namespace BusyTime

/-- The digits of the id and the further fields of a line about one processor. The line about all
processors, whose key is followed by a blank, is none. -/
def row? (line : List Char) : Option (List Char × List (List Char)) :=
  match after? "cpu".toList line with
  | none | some [] => none
  | some (c :: r) =>
    if isBlank c then none
    else match words (c :: r) with
      | [] => none
      | digits :: fields => if digits.all Numeral.isDigit then some (digits, fields) else none

def counters (id : UInt32) : List (List Char) → Except Fault (List UInt64)
  | [] => .ok []
  | w :: ws =>
    match Numeral.word64? w with
    | none => .error (.badCounter (.ofList w) id)
    | some n => (counters id ws).map (n :: ·)

/-- The sum of two counters, if it is in range. -/
def plus? (a b : UInt64) : Option UInt64 :=
  if a.toNat + b.toNat < UInt64.size then some (a + b) else none

/-- The sum of the busy kinds of time among the counters of one processor. They are added one after
the other, and every sum on the way has to be in range. -/
def busy (id : UInt32) : List UInt64 → Except Fault UInt64
  | user :: nice :: system :: _idle :: _wait :: irq :: softirq :: steal :: _ =>
    match [user, nice, system, irq, softirq, steal].foldlM plus? 0 with
    | some sum => .ok sum
    | none => .error (.busyTimeOverflow id)
  | few => .error (.tooFewCounters id few.length)

def entry (digits : List Char) (fields : List (List Char)) : Except Fault (UInt32 × UInt64) :=
  match Numeral.word32? digits with
  | none => .error (.badProcessorId (.ofList digits))
  | some id => do return (id, ← busy id (← counters id fields))

/-- The entries of all lines about one processor, in order. -/
def entriesOf : List (List Char) → Except Fault (List (UInt32 × UInt64))
  | [] => .ok []
  | line :: rest =>
    match row? line with
    | none => entriesOf rest
    | some (digits, fields) => do return (← entry digits fields) :: (← entriesOf rest)

/-- Of two lines about one processor the later counts. -/
def parse (content : String) : Except Fault BusyTime :=
  (entriesOf (lines content.toList)).map .ofList

def attempt (path : String) : Attempt BusyTime := .parsed path .malformed parse

def read (view : Files.Access) (path : String) : Except SourceError BusyTime := (attempt path).outcome view

end BusyTime
end PlatformSnapshot
