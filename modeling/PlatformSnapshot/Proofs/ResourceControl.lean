import Mathlib.Data.List.Infix
import PlatformSnapshot.Files.Recorded
import PlatformSnapshot.Proofs.Reading
import PlatformSnapshot.Proofs.Text.Decimal
/-!
What is known of resource control. The schemata say what can be allocated, and a record has the
parameters of just these allocations, each as its own file says it. The reading fails just if a file that
is required cannot be used, for the first such file. Monitors only have to be there.
-/
namespace PlatformSnapshot

namespace Path

/-- What a root puts before a name does not depend on the name. -/
theorem join_eq_append (root name : String) : join root name = join root "" ++ name := by
  unfold join
  cases root.toList.getLast? with
  | none => simp
  | some c =>
    dsimp only
    split <;> simp

/-- Below one root, names are told apart by their paths. -/
theorem join_inj {root a b : String} : join root a = join root b ↔ a = b := by
  rw [join_eq_append root a, join_eq_append root b]
  exact String.append_right_inj _

theorem join_join {directory : String} (root name : String) (h : ∃ c ∈ directory.toList.getLast?, c ≠ '/') :
    join (join root directory) name = join root (directory ++ "/" ++ name) := by
  obtain ⟨c, hlast, hc⟩ := h
  have hjoined : (join root directory).toList.getLast? = some c := by
    rw [join_eq_append, String.toList_append, List.getLast?_append, Option.mem_def.1 hlast]
    rfl
  rw [join_eq_append root (directory ++ "/" ++ name), ← String.append_assoc, ← String.append_assoc,
    ← join_eq_append root directory, join, hjoined]
  simp [hc]

end Path

namespace ResourceControl

open Attempt (onlyIf onlyIf_eq_ok_iff outcome_bind outcome_exists? outcome_given outcome_onlyIf outcome_pure
  outcome_source_congr outcome_source_eq_error_iff outcome_source_eq_ok_iff)
open Text
open Numeral (Spells)

/-- The file of this name says this, but for the blanks around it. -/
def Says (view : Files.Access) (root name value : String) : Prop :=
  ∃ content, view.read (Path.join root name) = .ok content ∧ TrimsTo content.toList value.toList

/-- The file of this name says a number. -/
def SaysNumber (view : Files.Access) (root name : String) (n : UInt32) : Prop :=
  ∃ value, Says view root name value ∧ Spells value.toList n

/-- The schemata mention this somewhere. -/
def Mentions (view : Files.Access) (root word : String) : Prop :=
  ∃ text, view.read (Path.join root "schemata") = .ok text ∧ word.toList <:+: text.toList

/-- The path of a monitor of the first cache. -/
def monitor (root name : String) : String := Path.join (Path.join root "mon_data/mon_L3_00") name

/-- What a record says of resource control. A parameter is there just if its allocation is, and is what
its file says; of the two numbers of classes, if there are two, the smaller one counts. -/
structure Records (view : Files.Access) (root : String) (r : ResourceControl) : Prop where
  readable : ∃ text, view.read (Path.join root "schemata") = .ok text
  cacheMonitoring : r.cacheMonitoring = true ↔ view.has (monitor root "llc_occupancy") = true
  bandwidthMonitoring : r.bandwidthMonitoring = true ↔ view.has (monitor root "mbm_total_bytes") = true
  cacheControl : r.cacheControl = true ↔ Mentions view root "L3"
  bandwidthControl : r.bandwidthControl = true ↔ Mentions view root "MB:"
  isSome_mask : r.cacheMask.isSome = r.cacheControl
  isSome_minBits : r.minCacheBits.isSome = r.cacheControl
  isSome_step : r.bandwidthStep.isSome = r.bandwidthControl
  isSome_minimum : r.minBandwidth.isSome = r.bandwidthControl
  isSome_classCount : r.classCount.isSome = r.hasControl
  mask : ∀ v ∈ r.cacheMask, Says view root "info/L3/cbm_mask" v
  minBits : ∀ v ∈ r.minCacheBits, Says view root "info/L3/min_cbm_bits" v
  step : ∀ n ∈ r.bandwidthStep, SaysNumber view root "info/MB/bandwidth_gran" n
  minimum : ∀ n ∈ r.minBandwidth, SaysNumber view root "info/MB/min_bandwidth" n
  classCount : ∃ a b, (r.cacheControl = true → SaysNumber view root "info/L3/num_closids" a) ∧
    (r.bandwidthControl = true → SaysNumber view root "info/MB/num_closids" b) ∧
    r.classCount = match r.cacheControl, r.bandwidthControl with
      | true, true => some (min a b)
      | true, false => some a
      | false, true => some b
      | false, false => none

/-- A file that may be required, and whether it has to hold a number. -/
structure Parameter where
  name : String
  isNumber : Bool

def cacheFiles : List Parameter :=
  [⟨"info/L3/cbm_mask", false⟩, ⟨"info/L3/min_cbm_bits", false⟩, ⟨"info/L3/num_closids", true⟩]

def bandwidthFiles : List Parameter :=
  [⟨"info/MB/bandwidth_gran", true⟩, ⟨"info/MB/min_bandwidth", true⟩, ⟨"info/MB/num_closids", true⟩]

/-- The files that are required, in order: the schemata, and those of the allocations that they mention. -/
def required (view : Files.Access) (root : String) : List Parameter :=
  ⟨"schemata", false⟩ ::
    match view.read (Path.join root "schemata") with
    | .error _ => []
    | .ok text =>
      (if "L3".toList <:+: text.toList then cacheFiles else []) ++
        if "MB:".toList <:+: text.toList then bandwidthFiles else []

def Unreadable (view : Files.Access) (root name : String) : Prop :=
  ∃ cause, view.read (Path.join root name) = .error cause

/-- The file cannot be read, or what it says is no number. -/
def HoldsNoNumber (view : Files.Access) (root name : String) : Prop :=
  Unreadable view root name ∨ ∃ value, Says view root name value ∧ ∀ n, ¬ Spells value.toList n

/-- What is wrong with a file: it cannot be read, or is to hold a number and holds none. -/
inductive Unusable (view : Files.Access) (root : String) (p : Parameter) : SourceError → Prop where
  | unreadable (h : view.read (Path.join root p.name) = .error cause) :
      Unusable view root p (.unreadable (Path.join root p.name) cause)
  | notANumber (hp : p.isNumber = true) (hv : Says view root p.name text) (hn : ∀ n, ¬ Spells text.toList n) :
      Unusable view root p (.malformed (Path.join root p.name) (.notANumber text))

variable {view other : Files.Access} {root name v : String} {n : UInt32} {e : SourceError} {r : ResourceControl}
  {c : CacheParameters} {b : BandwidthParameters} {text : String}

theorem value_eq_ok_iff : (value root name).outcome view = .ok v ↔ Says view root name v := by
  simp only [value, outcome_bind, outcome_pure, bind_eq_ok_iff, outcome_source_eq_ok_iff, Except.ok.injEq,
    ofList_trim_eq_iff, Says]

theorem number_eq_ok_iff : (number root name).outcome view = .ok n ↔ SaysNumber view root name n := by
  simp only [number, outcome_bind, outcome_given, bind_eq_ok_iff, value_eq_ok_iff, SaysNumber,
    ← Numeral.word32?_eq_some_iff]
  refine exists_congr fun value => and_congr_right fun _ => ?_
  cases Numeral.word32? value.toList <;> simp

theorem cacheParameters_eq_ok_iff : (cacheParameters root).outcome view = .ok c ↔
    Says view root "info/L3/cbm_mask" c.mask ∧ Says view root "info/L3/min_cbm_bits" c.minBits ∧
      SaysNumber view root "info/L3/num_closids" c.classCount := by
  obtain ⟨mask, minBits, classCount⟩ := c
  simp [cacheParameters, bind_eq_ok_iff, value_eq_ok_iff, number_eq_ok_iff]

theorem bandwidthParameters_eq_ok_iff : (bandwidthParameters root).outcome view = .ok b ↔
    SaysNumber view root "info/MB/bandwidth_gran" b.step ∧ SaysNumber view root "info/MB/min_bandwidth" b.minimum ∧
      SaysNumber view root "info/MB/num_closids" b.classCount := by
  obtain ⟨step, minimum, classCount⟩ := b
  simp [bandwidthParameters, bind_eq_ok_iff, number_eq_ok_iff]

theorem value_congr (h : other.read (Path.join root name) = view.read (Path.join root name)) :
    (value root name).outcome other = (value root name).outcome view := by
  simp only [value, outcome_bind, outcome_pure, outcome_source_congr h]

theorem number_congr (h : other.read (Path.join root name) = view.read (Path.join root name)) :
    (number root name).outcome other = (number root name).outcome view := by
  simp only [number, outcome_bind, outcome_given, value_congr h]

theorem cacheParameters_congr (h : ∀ name ∈ ["info/L3/cbm_mask", "info/L3/min_cbm_bits", "info/L3/num_closids"],
      other.read (Path.join root name) = view.read (Path.join root name)) :
    (cacheParameters root).outcome other = (cacheParameters root).outcome view := by
  simp only [cacheParameters, outcome_bind, outcome_pure, value_congr (h "info/L3/cbm_mask" (by simp)),
    value_congr (h "info/L3/min_cbm_bits" (by simp)), number_congr (h "info/L3/num_closids" (by simp))]

theorem bandwidthParameters_congr
    (h : ∀ name ∈ ["info/MB/bandwidth_gran", "info/MB/min_bandwidth", "info/MB/num_closids"],
      other.read (Path.join root name) = view.read (Path.join root name)) :
    (bandwidthParameters root).outcome other = (bandwidthParameters root).outcome view := by
  simp only [bandwidthParameters, outcome_bind, outcome_pure, number_congr (h "info/MB/bandwidth_gran" (by simp)),
    number_congr (h "info/MB/min_bandwidth" (by simp)), number_congr (h "info/MB/num_closids" (by simp))]

theorem mentions_iff (h : view.read (Path.join root "schemata") = .ok text) (word : String) :
    Mentions view root word ↔ contains word.toList text.toList = true := by
  simp [Mentions, h, contains_iff]

/-- The record of what was found of the two allocations. -/
def recordOf (view : Files.Access) (root : String) (cache : Option CacheParameters)
    (bandwidth : Option BandwidthParameters) : ResourceControl where
  cacheMonitoring := view.has (monitor root "llc_occupancy")
  bandwidthMonitoring := view.has (monitor root "mbm_total_bytes")
  cacheControl := cache.isSome
  bandwidthControl := bandwidth.isSome
  cacheMask := cache.map (·.mask)
  minCacheBits := cache.map (·.minBits)
  classCount := jointClassCount cache bandwidth
  bandwidthStep := bandwidth.map (·.step)
  minBandwidth := bandwidth.map (·.minimum)

theorem read_eq (view : Files.Access) (root : String) : read view root = do
    let text ← (Attempt.source (Path.join root "schemata")).outcome view
    let cache ← onlyIf (mentionsCache text) ((cacheParameters root).outcome view)
    let bandwidth ← onlyIf (mentionsBandwidth text) ((bandwidthParameters root).outcome view)
    return ofParameters (view.has (monitor root "llc_occupancy")) (view.has (monitor root "mbm_total_bytes")) text cache
      bandwidth := by
  simp only [read, attempt, outcome_bind, outcome_exists?, outcome_onlyIf, outcome_pure]
  rfl

theorem read_eq_ok_iff : read view root = .ok r ↔ ∃ text, view.read (Path.join root "schemata") = .ok text ∧
    ∃ cache bandwidth, onlyIf (mentionsCache text) ((cacheParameters root).outcome view) = .ok cache ∧
      onlyIf (mentionsBandwidth text) ((bandwidthParameters root).outcome view) = .ok bandwidth ∧
        recordOf view root cache bandwidth = r := by
  simp only [read_eq, bind_eq_ok_iff, outcome_source_eq_ok_iff, pure, Except.pure, Except.ok.injEq, exists_and_left]
  refine exists_congr fun text => and_congr_right fun _ => exists_congr fun cache => and_congr_right fun hcache =>
    exists_congr fun bandwidth => and_congr_right fun hbandwidth => ?_
  rw [recordOf, (onlyIf_eq_ok_iff.1 hcache).1, (onlyIf_eq_ok_iff.1 hbandwidth).1]
  exact Iff.rfl

theorem jointClassCount_eq (cache : Option CacheParameters) (bandwidth : Option BandwidthParameters) :
    jointClassCount cache bandwidth = match cache, bandwidth with
      | some c, some b => some (min c.classCount b.classCount)
      | some c, none => some c.classCount
      | none, some b => some b.classCount
      | none, none => none := by
  have hmin : ∀ x y : UInt32, (if y < x then y else x) = min x y := by
    intro x y
    change _ = if x ≤ y then x else y
    rcases UInt32.lt_or_le y x with hlt | hle
    · rw [if_pos hlt, if_neg (UInt32.not_le.2 hlt)]
    · rw [if_neg (UInt32.not_lt.2 hle), if_pos hle]
  cases cache <;> cases bandwidth <;> simp [jointClassCount, hmin]

theorem isSome_jointClassCount (cache : Option CacheParameters) (bandwidth : Option BandwidthParameters) :
    (jointClassCount cache bandwidth).isSome = (bandwidth.isSome || cache.isSome) := by
  cases cache <;> cases bandwidth <;> rfl

/-- What was read is a record. -/
theorem records_recordOf {cache : Option CacheParameters} {bandwidth : Option BandwidthParameters}
    (ht : view.read (Path.join root "schemata") = .ok text)
    (hcache : onlyIf (mentionsCache text) ((cacheParameters root).outcome view) = .ok cache)
    (hbandwidth : onlyIf (mentionsBandwidth text) ((bandwidthParameters root).outcome view) = .ok bandwidth) :
    Records view root (recordOf view root cache bandwidth) := by
  obtain ⟨hcacheSome, hcache⟩ := onlyIf_eq_ok_iff.1 hcache
  obtain ⟨hbandwidthSome, hbandwidth⟩ := onlyIf_eq_ok_iff.1 hbandwidth
  simp only [cacheParameters_eq_ok_iff] at hcache
  simp only [bandwidthParameters_eq_ok_iff] at hbandwidth
  constructor
  case readable => exact ⟨text, ht⟩
  case cacheMonitoring => exact Iff.rfl
  case bandwidthMonitoring => exact Iff.rfl
  case cacheControl => rw [mentions_iff ht, recordOf, hcacheSome]; rfl
  case bandwidthControl => rw [mentions_iff ht, recordOf, hbandwidthSome]; rfl
  case isSome_mask => simp [recordOf]
  case isSome_minBits => simp [recordOf]
  case isSome_step => simp [recordOf]
  case isSome_minimum => simp [recordOf]
  case isSome_classCount => exact isSome_jointClassCount cache bandwidth
  case mask => simpa [recordOf] using fun c hc => (hcache c hc).1
  case minBits => simpa [recordOf] using fun c hc => (hcache c hc).2.1
  case step => simpa [recordOf] using fun b hb => (hbandwidth b hb).1
  case minimum => simpa [recordOf] using fun b hb => (hbandwidth b hb).2.1
  case classCount =>
    refine ⟨(cache.map (·.classCount)).getD 0, (bandwidth.map (·.classCount)).getD 0, ?_, ?_, ?_⟩
    · intro hsome
      obtain ⟨c, rfl⟩ := Option.isSome_iff_exists.1 hsome
      exact (hcache c rfl).2.2
    · intro hsome
      obtain ⟨b, rfl⟩ := Option.isSome_iff_exists.1 hsome
      exact (hbandwidth b rfl).2.2
    · rw [recordOf, jointClassCount_eq]
      cases cache <;> cases bandwidth <;> rfl

/-- Two parameters that are there together are the halves of one. -/
theorem exists_both {x : Option α} {y : Option β} (h : x.isSome = y.isSome) :
    ∃ o : Option (α × β), o.map (·.1) = x ∧ o.map (·.2) = y := by
  cases x with
  | none =>
    cases y with
    | none => exact ⟨none, rfl, rfl⟩
    | some b => cases h
  | some a =>
    obtain ⟨b, rfl⟩ := Option.isSome_iff_exists.1 h.symm
    exact ⟨some (a, b), rfl, rfl⟩

/-- A record can be read. -/
theorem Records.read_eq (h : Records view root r) : read view root = .ok r := by
  obtain ⟨text, ht⟩ := h.readable
  obtain ⟨a, b, ha, hb, hcount⟩ := h.classCount
  -- the record lists parameters one by one; the reading has those of one allocation together
  obtain ⟨cache, hmask, hminBits⟩ := exists_both (h.isSome_mask.trans h.isSome_minBits.symm)
  obtain ⟨bandwidth, hstep, hminimum⟩ := exists_both (h.isSome_step.trans h.isSome_minimum.symm)
  have hcacheSome : cache.isSome = r.cacheControl := by rw [← h.isSome_mask, ← hmask, Option.isSome_map]
  have hbandwidthSome : bandwidth.isSome = r.bandwidthControl := by rw [← h.isSome_step, ← hstep, Option.isSome_map]
  have hcacheControl : r.cacheControl = mentionsCache text :=
    Bool.eq_iff_iff.2 (h.cacheControl.trans (mentions_iff ht _))
  have hbandwidthControl : r.bandwidthControl = mentionsBandwidth text :=
    Bool.eq_iff_iff.2 (h.bandwidthControl.trans (mentions_iff ht _))
  have hcacheRead : onlyIf (mentionsCache text) ((cacheParameters root).outcome view) =
      .ok (cache.map fun p => ⟨p.1, p.2, a⟩) := by
    refine onlyIf_eq_ok_iff.2 ⟨by rw [Option.isSome_map, hcacheSome, hcacheControl], fun c hc => ?_⟩
    obtain ⟨p, rfl, rfl⟩ := Option.map_eq_some_iff.1 hc
    exact cacheParameters_eq_ok_iff.2 ⟨h.mask _ hmask.symm, h.minBits _ hminBits.symm, ha hcacheSome.symm⟩
  have hbandwidthRead : onlyIf (mentionsBandwidth text) ((bandwidthParameters root).outcome view) =
      .ok (bandwidth.map fun p => ⟨p.1, p.2, b⟩) := by
    refine onlyIf_eq_ok_iff.2 ⟨by rw [Option.isSome_map, hbandwidthSome, hbandwidthControl], fun c hc => ?_⟩
    obtain ⟨p, rfl, rfl⟩ := Option.map_eq_some_iff.1 hc
    exact bandwidthParameters_eq_ok_iff.2 ⟨h.step _ hstep.symm, h.minimum _ hminimum.symm, hb hbandwidthSome.symm⟩
  refine read_eq_ok_iff.2 ⟨text, ht, _, _, hcacheRead, hbandwidthRead, ?_⟩
  have hcount : jointClassCount (cache.map fun p => ⟨p.1, p.2, a⟩) (bandwidth.map fun p => ⟨p.1, p.2, b⟩) =
      r.classCount := by
    rw [hcount, ← hcacheSome, ← hbandwidthSome, jointClassCount_eq]
    cases cache <;> cases bandwidth <;> rfl
  have hcacheMonitoring : r.cacheMonitoring = view.has (monitor root "llc_occupancy") :=
    Bool.eq_iff_iff.2 h.cacheMonitoring
  have hbandwidthMonitoring :
      r.bandwidthMonitoring = view.has (monitor root "mbm_total_bytes") :=
    Bool.eq_iff_iff.2 h.bandwidthMonitoring
  simp only [recordOf, hcount, Option.isSome_map, hcacheSome, hbandwidthSome, Option.map_map, Function.comp_def, hmask,
    hminBits, hstep, hminimum, ← hcacheMonitoring, ← hbandwidthMonitoring]

/-- What is read is just the record of what the files say. Which monitors there are changes nothing else in it. -/
theorem read_records (view : Files.Access) (root : String) :
    (∀ r, read view root = .ok r ↔ Records view root r) ∧
    ∀ has : String → Bool, read { view with has := has } root = (read view root).map fun r =>
      { r with
        cacheMonitoring := has (monitor root "llc_occupancy")
        bandwidthMonitoring := has (monitor root "mbm_total_bytes") } := by
  refine ⟨fun r => ⟨fun h => ?_, fun h => h.read_eq⟩, fun has => ?_⟩
  · obtain ⟨text, ht, cache, bandwidth, hcache, hbandwidth, rfl⟩ := read_eq_ok_iff.1 h
    exact records_recordOf ht hcache hbandwidth
  · -- the other view shows the same contents, so the parameters read in it are the same
    let other : Files.Access := { view with has := has }
    have hcache : (cacheParameters root).outcome other = (cacheParameters root).outcome view :=
      cacheParameters_congr fun _ _ => rfl
    have hbandwidth : (bandwidthParameters root).outcome other = (bandwidthParameters root).outcome view :=
      bandwidthParameters_congr fun _ _ => rfl
    rw [read_eq, read_eq, hcache, hbandwidth]
    simp only [map_bind]
    rfl

-- of the two numbers of classes the smaller one is kept, and only the cache is monitored
example : read (Files.Recorded.access {
      contents := [
        ("resctrl/schemata", .ok "MB:0=100\nL3:0=ff\n"),
        ("resctrl/info/L3/cbm_mask", .ok " ff\n"),
        ("resctrl/info/L3/min_cbm_bits", .ok "\n"),
        ("resctrl/info/L3/num_closids", .ok "16\n"),
        ("resctrl/info/MB/bandwidth_gran", .ok "10\n"),
        ("resctrl/info/MB/min_bandwidth", .ok "+20\n"),
        ("resctrl/info/MB/num_closids", .ok "8\n")]
      existing := ["resctrl/mon_data/mon_L3_00/llc_occupancy"] }) "resctrl" =
    .ok ⟨true, false, true, true, some "ff", some "", some 8, some 10, some 20⟩ := rfl

/-- Where any text will do, a file is unusable only if it cannot be read. -/
theorem outcome_source_join_eq_error_iff :
    (Attempt.source (Path.join root name)).outcome view = .error e ↔ Unusable view root ⟨name, false⟩ e := by
  rw [outcome_source_eq_error_iff]
  constructor
  · rintro ⟨cause, h, rfl⟩
    exact .unreadable h
  · rintro (h | ⟨⟨⟩, -, -⟩)
    exact ⟨_, h, rfl⟩

theorem value_eq_error_iff : (value root name).outcome view = .error e ↔ Unusable view root ⟨name, false⟩ e := by
  simp only [value, outcome_bind, outcome_pure, bind_eq_error_iff, outcome_source_join_eq_error_iff, reduceCtorEq,
    and_false, exists_false, or_false]

theorem number_eq_error_iff : (number root name).outcome view = .error e ↔ Unusable view root ⟨name, true⟩ e := by
  have hnone : ∀ value : String, Numeral.word32? value.toList = none ↔ ∀ n, ¬ Spells value.toList n := by
    simp [Option.eq_none_iff_forall_ne_some, Numeral.word32?_eq_some_iff]
  simp only [number, outcome_bind, outcome_given, bind_eq_error_iff, value_eq_error_iff, value_eq_ok_iff]
  constructor
  · rintro ((h | ⟨⟨⟩, -, -⟩) | ⟨value, hv, he⟩)
    · exact .unreadable h
    · cases hnumber : Numeral.word32? value.toList with
      | some n => simp [hnumber] at he
      | none =>
        simp only [hnumber, Except.error.injEq] at he
        exact he ▸ .notANumber rfl hv ((hnone value).1 hnumber)
  · rintro (h | ⟨-, hv, hn⟩)
    · exact .inl (.unreadable h)
    · exact .inr ⟨_, hv, by rw [(hnone _).2 hn]⟩

theorem cacheParameters_failsFirst :
    FailsFirst (Unusable view root) cacheFiles ((cacheParameters root).outcome view) := by
  simp only [cacheParameters, outcome_bind, outcome_pure]
  refine .bind (.one fun _ => value_eq_error_iff) fun mask _ => ?_
  refine .bind (.one fun _ => value_eq_error_iff) fun minBits _ => ?_
  exact .bind (.one fun _ => number_eq_error_iff) fun classCount _ => .ok _

theorem bandwidthParameters_failsFirst :
    FailsFirst (Unusable view root) bandwidthFiles ((bandwidthParameters root).outcome view) := by
  simp only [bandwidthParameters, outcome_bind, outcome_pure]
  refine .bind (.one fun _ => number_eq_error_iff) fun step _ => ?_
  refine .bind (.one fun _ => number_eq_error_iff) fun minimum _ => ?_
  exact .bind (.one fun _ => number_eq_error_iff) fun classCount _ => .ok _

theorem onlyIf_failsFirst {fails : α → SourceError → Prop} {as : List α} {x : Except SourceError β}
    {wanted : Bool} {p : Prop} [Decidable p] (hp : wanted = true ↔ p) (h : FailsFirst fails as x) :
    FailsFirst fails (if p then as else []) (onlyIf wanted x) := by
  cases wanted with
  | false =>
    rw [if_neg (by simp [← hp])]
    exact .ok none
  | true =>
    rw [if_pos (hp.1 rfl)]
    exact h.map

/-- A reading uses the required files in order. -/
theorem read_failsFirst : FailsFirst (Unusable view root) (required view root) (read view root) := by
  rw [read_eq]
  refine .bind (.one fun _ => outcome_source_join_eq_error_iff) fun text htext => ?_
  simp only [outcome_source_eq_ok_iff.1 htext]
  refine .bind (onlyIf_failsFirst (contains_iff ..) cacheParameters_failsFirst) fun cache _ => ?_
  rw [← List.append_nil (ite _ bandwidthFiles [])]
  exact .bind (onlyIf_failsFirst (contains_iff ..) bandwidthParameters_failsFirst) fun bandwidth _ => .ok _

theorem unusable_congr {p : Parameter} (h : other.read (Path.join root p.name) = view.read (Path.join root p.name)) :
    Unusable other root p e ↔ Unusable view root p e := by
  obtain ⟨name, isNumber⟩ := p
  cases isNumber with
  | false => rw [← value_eq_error_iff, ← value_eq_error_iff, value_congr h]
  | true => rw [← number_eq_error_iff, ← number_eq_error_iff, number_congr h]

theorem exists_unusable_iff {isNumber : Bool} : (∃ e, Unusable view root ⟨name, isNumber⟩ e) ↔
    if isNumber then HoldsNoNumber view root name else Unreadable view root name := by
  constructor
  · rintro ⟨e, h | ⟨hp, hv, hn⟩⟩
    · have hunreadable : Unreadable view root name := ⟨_, h⟩
      cases isNumber with
      | false => exact hunreadable
      | true => exact .inl hunreadable
    · cases hp
      exact .inr ⟨_, hv, hn⟩
  · intro h
    cases isNumber with
    | false =>
      obtain ⟨cause, h⟩ := h
      exact ⟨_, .unreadable h⟩
    | true =>
      rcases h with ⟨cause, h⟩ | ⟨value, hv, hn⟩
      · exact ⟨_, .unreadable h⟩
      · exact ⟨_, .notANumber rfl hv hn⟩

theorem mem_required {p : Parameter} (h : p ∈ required view root) :
    p ∈ ⟨"schemata", false⟩ :: (cacheFiles ++ bandwidthFiles) := by
  rcases List.mem_cons.1 h with rfl | h
  · exact List.mem_cons_self
  · refine List.mem_cons_of_mem _ (List.mem_append.2 ?_)
    cases hread : view.read (Path.join root "schemata") with
    | error cause => simp [hread] at h
    | ok text =>
      simp only [hread, List.mem_append, List.mem_ite_nil_right] at h
      exact h.imp And.right And.right

/-- No file of a monitor is required: the names differ in their first letter. -/
theorem ne_monitor_of_mem_required {p : Parameter} (h : p ∈ required view root) (name : String) :
    Path.join root p.name ≠ monitor root name := by
  have hfirst : ∀ q ∈ (⟨"schemata", false⟩ : Parameter) :: (cacheFiles ++ bandwidthFiles),
      q.name.toList.head? ≠ some 'm' := by
    decide +kernel
  rw [monitor, Path.join_join root name ⟨'0', by decide +kernel, by decide⟩]
  intro heq
  apply hfirst p (mem_required h)
  rw [Path.join_inj.1 heq]
  simp

theorem exists_read_error_iff : (∃ e, read view root = .error e) ↔ Unreadable view root "schemata" ∨
    Mentions view root "L3" ∧ (Unreadable view root "info/L3/cbm_mask" ∨
      Unreadable view root "info/L3/min_cbm_bits" ∨ HoldsNoNumber view root "info/L3/num_closids") ∨
    Mentions view root "MB:" ∧ (HoldsNoNumber view root "info/MB/bandwidth_gran" ∨
      HoldsNoNumber view root "info/MB/min_bandwidth" ∨ HoldsNoNumber view root "info/MB/num_closids") := by
  simp only [read_failsFirst _, exists_firstFailure_iff, required]
  cases hread : view.read (Path.join root "schemata") with
  | error cause =>
    have hunreadable : Unreadable view root "schemata" := ⟨cause, hread⟩
    simp [exists_unusable_iff, hunreadable]
  | ok text =>
    have hreadable : ¬ Unreadable view root "schemata" := by simp [Unreadable, hread]
    have hmentions : ∀ word : String, Mentions view root word ↔ word.toList <:+: text.toList := by
      simp [Mentions, hread]
    simp only [List.exists_mem_cons_iff, List.mem_append, List.mem_ite_nil_right, or_and_right, exists_or, and_assoc,
      exists_and_left, ← hmentions, cacheFiles, bandwidthFiles, exists_unusable_iff, hreadable]
    simp

/-- A reading fails just if the schemata cannot be read or a file of an allocation that they mention cannot
be used. The error names the first required file that is at fault. What the files of monitors hold, and
whether there are any, makes no reading fail. -/
theorem fails_first_unusable (view : Files.Access) (root : String) :
    ((∃ e, read view root = .error e) ↔ Unreadable view root "schemata" ∨
      Mentions view root "L3" ∧ (Unreadable view root "info/L3/cbm_mask" ∨
        Unreadable view root "info/L3/min_cbm_bits" ∨ HoldsNoNumber view root "info/L3/num_closids") ∨
      Mentions view root "MB:" ∧ (HoldsNoNumber view root "info/MB/bandwidth_gran" ∨
        HoldsNoNumber view root "info/MB/min_bandwidth" ∨ HoldsNoNumber view root "info/MB/num_closids")) ∧
    (∀ e, read view root = .error e ↔ FirstFailure (Unusable view root) (required view root) e) ∧
    ∀ other : Files.Access,
      (∀ path, (∀ name, path ≠ monitor root name) → other.read path = view.read path) →
      ∀ e, read other root = .error e ↔ read view root = .error e := by
  refine ⟨exists_read_error_iff, read_failsFirst, fun other h e => ?_⟩
  -- the schemata are no monitor either, so that both views require the same files
  have hmem : ⟨"schemata", false⟩ ∈ required view root := List.mem_cons_self
  have hschemata : other.read (Path.join root "schemata") = view.read (Path.join root "schemata") :=
    h _ (ne_monitor_of_mem_required hmem)
  have hrequired : required other root = required view root := by rw [required, required, hschemata]
  rw [read_failsFirst, read_failsFirst, hrequired]
  exact firstFailure_congr fun p hp d => unusable_congr (h _ (ne_monitor_of_mem_required hp))

/-- A host with both allocations. Of its required files the number of cache classes is missing, and the
step of the bandwidth is no number. -/
def halfHost : Files.Recorded where
  contents := [
    ("resctrl/schemata", .ok "MB:0=100\nL3:0=ff\n"),
    ("resctrl/info/L3/cbm_mask", .ok " ff\n"),
    ("resctrl/info/L3/min_cbm_bits", .ok "1\n"),
    ("resctrl/info/MB/bandwidth_gran", .ok "ten\n"),
    ("resctrl/info/MB/min_bandwidth", .ok "20\n"),
    ("resctrl/info/MB/num_closids", .ok "8\n")]

/-- The same with monitors, one of which is a directory. -/
def halfHostMonitored : Files.Recorded where
  contents := ("resctrl/mon_data/mon_L3_00/llc_occupancy", .ok "none\n") ::
    ("resctrl/mon_data/mon_L3_00/mbm_total_bytes", .error .isADirectory) :: halfHost.contents
  existing := ["resctrl/mon_data/mon_L3_00/llc_occupancy", "resctrl/mon_data/mon_L3_00/mbm_total_bytes"]

theorem fails_halfHost : Mentions halfHost.access "resctrl" "L3" ∧
    HoldsNoNumber halfHost.access "resctrl" "info/L3/num_closids" ∧
    (∀ path, (∀ name, path ≠ monitor "resctrl" name) →
      halfHostMonitored.access.read path = halfHost.access.read path) ∧
    FirstFailure (Unusable halfHost.access "resctrl") (required halfHost.access "resctrl")
      (.unreadable "resctrl/info/L3/num_closids" .notFound) ∧
    read halfHostMonitored.access "resctrl" = .error (.unreadable "resctrl/info/L3/num_closids" .notFound) := by
  have hmonitors : ∀ path, (∀ name, path ≠ monitor "resctrl" name) →
      halfHostMonitored.access.read path = halfHost.access.read path := by
    intro path h
    have hcache : (path == "resctrl/mon_data/mon_L3_00/llc_occupancy") = false := beq_false_of_ne (h "llc_occupancy")
    have hbandwidth : (path == "resctrl/mon_data/mon_L3_00/mbm_total_bytes") = false :=
      beq_false_of_ne (h "mbm_total_bytes")
    simp only [Files.Recorded.access, halfHostMonitored, List.lookup_cons, hcache, hbandwidth]
  obtain ⟨-, hfirst, hmonitored⟩ := fails_first_unusable halfHost.access "resctrl"
  have hread : read halfHost.access "resctrl" = .error (.unreadable "resctrl/info/L3/num_closids" .notFound) := rfl
  refine ⟨⟨_, rfl, ?_⟩, .inl ⟨.notFound, rfl⟩, hmonitors, (hfirst _).1 hread,
    (hmonitored _ hmonitors _).2 hread⟩
  decide +kernel

-- with the number of cache classes there, the step of the bandwidth is the first file at fault
example : read (halfHost ++ { contents := [("resctrl/info/L3/num_closids", .ok "4\n")] }).access "resctrl" =
    .error (.malformed "resctrl/info/MB/bandwidth_gran" (.notANumber "ten")) := rfl

end ResourceControl
end PlatformSnapshot
