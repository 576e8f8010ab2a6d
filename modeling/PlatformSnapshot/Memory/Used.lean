import PlatformSnapshot.Attempt
/-!
Used memory of the host, in bytes: the total less the free, buffered and cached memory. Figures are
given in KiB; one that is missing counts as zero. The result may be negative if the figures were
taken at different moments, and is never clamped; it is refused where a signed word cannot hold it
or one of the differences on the way.
-/
namespace PlatformSnapshot.UsedMemory

open Text

structure Figures where
  total : Int64 := 0
  free : Int64 := 0
  buffers : Int64 := 0
  cached : Int64 := 0
  deriving DecidableEq

/-- A figure that the result depends on. -/
inductive Kind where
  | total | free | buffers | cached
  deriving DecidableEq, Repr

def Kind.key : Kind → String
  | .total => "MemTotal"
  | .free => "MemFree"
  | .buffers => "Buffers"
  | .cached => "Cached"

def Kind.ofKey? (key : List Char) : Option Kind :=
  [Kind.total, .free, .buffers, .cached].find? fun k => k.key.toList = key

def Figures.set (f : Figures) (value : Int64) : Kind → Figures
  | .total => { f with total := value }
  | .free => { f with free := value }
  | .buffers => { f with buffers := value }
  | .cached => { f with cached := value }

/-- The kind and the first word of a line that holds a figure. -/
def figure? (line : List Char) : Option (Kind × List Char) :=
  match splitOnce? ':' line with
  | none => none
  | some (key, rest) => (Kind.ofKey? key).map fun k => (k, (words rest).headD [])

/-- Of two lines with one key the later counts, but each has to be a number. -/
def figures (f : Figures) : List (List Char) → Except Fault Figures
  | [] => .ok f
  | line :: rest =>
    match figure? line with
    | none => figures f rest
    | some (k, w) =>
      match Numeral.int64? w with
      | none => .error (.badAmount (.ofList w) k.key)
      | some n => figures (f.set n k) rest

def less? (a b : Int64) : Option Int64 := Numeral.inInt64? (a.toInt - b.toInt)

def bytes? (kib : Int64) : Option Int64 := Numeral.inInt64? (kib.toInt * 1024)

def Figures.used? (f : Figures) : Option Int64 := do
  let a ← less? f.total f.free
  let b ← less? a f.buffers
  let c ← less? b f.cached
  bytes? c

def parse (content : String) : Except Fault Int64 := do
  let f ← figures {} (lines content.toList)
  match f.used? with
  | some used => .ok used
  | none => .error .usedMemoryOverflow

def attempt (path : String) : Attempt Int64 := .parsed path .malformed parse

def read (view : Files.Access) (path : String) : Except SourceError Int64 := (attempt path).outcome view

end PlatformSnapshot.UsedMemory
