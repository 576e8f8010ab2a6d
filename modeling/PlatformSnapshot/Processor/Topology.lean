import PlatformSnapshot.Processor.Record
import PlatformSnapshot.Processor.Model
import PlatformSnapshot.Attempt
/-!
The topology of the host: which logical processors sit on which core of which socket. Ids need not
be contiguous. Cores are counted per socket, since two sockets may use the same core id.
-/
namespace PlatformSnapshot

open Processor (Seat)

/-- Socket id to core id to the logical processors on that core. -/
abbrev Layout := SortedMap UInt32 (SortedMap UInt32 (List UInt32))

/-- Puts an id before the first one that is not smaller. -/
def insertId (a : UInt32) : List UInt32 → List UInt32
  | [] => [a]
  | b :: bs => if a ≤ b then a :: b :: bs else b :: insertId a bs

namespace Layout

def add (l : Layout) (s : Seat) : Layout :=
  l.alter s.socket fun cores => (cores.getD ∅).alter s.core fun ids => insertId s.id (ids.getD [])

def ofSeats (seats : List Seat) : Layout := seats.foldl add ∅

/-- The processors of each core, socket by socket. -/
def cores (l : Layout) : List (List UInt32) := l.values.flatMap (·.values)

/-- Every listed processor, socket by socket and core by core. -/
def processors (l : Layout) : List UInt32 := l.cores.flatten

end Layout

structure Topology where
  cpus : Nat
  cores : Nat
  sockets : Nat
  layout : Layout
  model : String
  deriving DecidableEq

namespace Topology

/-- What is wrong with a processor descriptor. -/
inductive DescriptorError where
  | malformed (fault : Fault)
  | repeated (id : UInt32)
  deriving DecidableEq, Repr

/-- A repeated processor is blamed on no source by name: there is only one descriptor. -/
def DescriptorError.blame (source : String) : DescriptorError → SourceError
  | .malformed fault => .malformed source fault
  | .repeated id => .duplicateProcessor id

/-- The id of the earliest seat whose id an earlier seat has. -/
def firstRepeated? (seen : List UInt32) : List Seat → Option UInt32
  | [] => none
  | s :: rest => if s.id ∈ seen then some s.id else firstRepeated? (s.id :: seen) rest

def ofSeats (seats : List Seat) (model : String) : Topology :=
  let layout := Layout.ofSeats seats
  ⟨seats.length, layout.cores.length, layout.size, layout, model⟩

def parse (content : String) : Except DescriptorError Topology := do
  let seats ← ((Processor.records content).bind Processor.seats).mapError .malformed
  if seats = [] then .error (.malformed .noProcessors)
  match firstRepeated? [] seats with
  | some id => .error (.repeated id)
  | none => .ok (ofSeats seats (Processor.model content))

def attempt (path : String) : Attempt Topology := .parsed path DescriptorError.blame parse

def read (view : Files.Access) (path : String) : Except SourceError Topology := (attempt path).outcome view

end Topology
end PlatformSnapshot
