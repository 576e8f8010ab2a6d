/-!
What can be wrong with the text of a source. Each cause carries what a reader needs to find the
place, and has one wording.
-/
namespace PlatformSnapshot

inductive Fault where
  /-- A line of the processor descriptor without a colon; lines are counted from 1. -/
  | notAPair (line : Nat) (text : String)
  | missingKey (key : String)
  | notAnInteger (key value : String)
  | noProcessors
  | badProcessorId (digits : String)
  | badCounter (text : String) (id : UInt32)
  | tooFewCounters (id : UInt32) (count : Nat)
  | busyTimeOverflow (id : UInt32)
  | badAmount (value key : String)
  | amountOverflow (key : String) (kib : Int64)
  | usedMemoryOverflow
  | notANumber (value : String)
  deriving DecidableEq, Repr

def Fault.message : Fault → String
  | .notAPair line text => s!"line {line} is not a 'key : value' pair: '{text}'"
  | .missingKey key => s!"processor record without '{key}'"
  | .notAnInteger key value => s!"'{key}' is not an integer: '{value}'"
  | .noProcessors => "no processor records found"
  | .badProcessorId digits => s!"invalid cpu id 'cpu{digits}'"
  | .badCounter text id => s!"non-numeric counter '{text}' for cpu{id}"
  | .tooFewCounters id count => s!"cpu{id} has {count} counters, expected at least 8"
  | .busyTimeOverflow id => s!"busy time of cpu{id} overflows"
  | .badAmount value key => s!"invalid value '{value}' for {key}"
  | .amountOverflow key kib => s!"{key} value {kib} kB overflows"
  | .usedMemoryOverflow => "used memory overflows"
  | .notANumber value => s!"expected an integer, got '{value}'"

end PlatformSnapshot
