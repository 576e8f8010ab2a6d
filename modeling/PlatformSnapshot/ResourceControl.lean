import PlatformSnapshot.Attempt
import PlatformSnapshot.Files.Path
/-!
Capabilities of the resource control file system: what of the shared cache and of the memory
bandwidth the host can monitor and what it can allocate. The schemata say which allocations there
are; the parameter files of an allocation are read, and required, only if the schemata mention it.
-/
namespace PlatformSnapshot

open Text

structure ResourceControl where
  cacheMonitoring : Bool
  bandwidthMonitoring : Bool
  cacheControl : Bool
  bandwidthControl : Bool
  /-- The bits of the cache mask, as the kernel writes them. -/
  cacheMask : Option String
  minCacheBits : Option String
  /-- How many classes of service can be used with every allocation there is. -/
  classCount : Option UInt32
  bandwidthStep : Option UInt32
  minBandwidth : Option UInt32
  deriving DecidableEq, Repr

namespace ResourceControl

def hasControl (r : ResourceControl) : Bool := r.bandwidthControl || r.cacheControl

def hasMonitoring (r : ResourceControl) : Bool := r.bandwidthMonitoring || r.cacheMonitoring

structure CacheParameters where
  mask : String
  minBits : String
  classCount : UInt32

structure BandwidthParameters where
  step : UInt32
  minimum : UInt32
  classCount : UInt32

/-- The text of a parameter file without the blanks around it. -/
def value (root name : String) : Attempt String := do
  return .ofList (trim (← .source (Path.join root name)).toList)

def number (root name : String) : Attempt UInt32 := do
  let text ← value root name
  .given (match Numeral.word32? text.toList with
    | some n => .ok n
    | none => .error (.malformed (Path.join root name) (.notANumber text)))

def cacheParameters (root : String) : Attempt CacheParameters := do
  let mask ← value root "info/L3/cbm_mask"
  let minBits ← value root "info/L3/min_cbm_bits"
  let classCount ← number root "info/L3/num_closids"
  return ⟨mask, minBits, classCount⟩

def bandwidthParameters (root : String) : Attempt BandwidthParameters := do
  let step ← number root "info/MB/bandwidth_gran"
  let minimum ← number root "info/MB/min_bandwidth"
  let classCount ← number root "info/MB/num_closids"
  return ⟨step, minimum, classCount⟩

def mentionsCache (schemata : String) : Bool := contains "L3".toList schemata.toList

def mentionsBandwidth (schemata : String) : Bool := contains "MB:".toList schemata.toList

/-- With both allocations the smaller count bounds the classes. -/
def jointClassCount : Option CacheParameters → Option BandwidthParameters → Option UInt32
  | some c, some b => some (if b.classCount < c.classCount then b.classCount else c.classCount)
  | some c, none => some c.classCount
  | none, some b => some b.classCount
  | none, none => none

/-- The record of the monitors, of the schemata and of the parameters of each allocation. -/
def ofParameters (cacheMonitoring bandwidthMonitoring : Bool) (schemata : String) (cache : Option CacheParameters)
    (bandwidth : Option BandwidthParameters) : ResourceControl where
  cacheMonitoring
  bandwidthMonitoring
  cacheControl := mentionsCache schemata
  bandwidthControl := mentionsBandwidth schemata
  cacheMask := cache.map (·.mask)
  minCacheBits := cache.map (·.minBits)
  classCount := jointClassCount cache bandwidth
  bandwidthStep := bandwidth.map (·.step)
  minBandwidth := bandwidth.map (·.minimum)

/-- The monitors are looked for before anything is read. -/
def attempt (root : String) : Attempt ResourceControl := do
  let monitors := Path.join root "mon_data/mon_L3_00"
  let cacheMonitoring ← .exists? (Path.join monitors "llc_occupancy")
  let bandwidthMonitoring ← .exists? (Path.join monitors "mbm_total_bytes")
  let schemata ← .source (Path.join root "schemata")
  let cache ← .onlyIf (mentionsCache schemata) (cacheParameters root)
  let bandwidth ← .onlyIf (mentionsBandwidth schemata) (bandwidthParameters root)
  return ofParameters cacheMonitoring bandwidthMonitoring schemata cache bandwidth

def read (view : Files.Access) (root : String) : Except SourceError ResourceControl := (attempt root).outcome view

end ResourceControl
end PlatformSnapshot
