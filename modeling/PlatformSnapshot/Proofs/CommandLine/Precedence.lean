import PlatformSnapshot.CommandLine.Run
import PlatformSnapshot.Files.Recorded
import PlatformSnapshot.Proofs.CommandLine.Agreement
import PlatformSnapshot.Proofs.CommandLine.Arguments
/-!
Which settings are in effect. An argument comes before a setting of the base, and that before the
default; the default stands in only where neither says anything, since all that the check of the
settings lets through has a meaning. What an argument overrides is not checked.
-/
namespace PlatformSnapshot

/-- The first that there is: of the argument, of the base, or else the usual value. -/
inductive Prevails (flag base : Option α) (usual : α) : α → Prop where
  | flag (h : flag = some x) : Prevails flag base usual x
  | base (hf : flag = none) (h : base = some x) : Prevails flag base usual x
  | usual (hf : flag = none) (hb : base = none) : Prevails flag base usual usual

theorem prevails_getD (flag base : Option α) (usual : α) : Prevails flag base usual ((flag <|> base).getD usual) := by
  cases flag with
  | some x => exact .flag rfl
  | none =>
    cases base with
    | some x => exact .base rfl rfl
    | none => exact .usual rfl rfl

/-- Where every value has a meaning, only a value that is not there has none. -/
theorem eq_none_of_bind_eq_none {o : Option α} {f : α → Option β} (h : ∀ x ∈ o, ∃ y, f x = some y)
    (hnone : o.bind f = none) : o = none := by
  cases o with
  | none => rfl
  | some x =>
    obtain ⟨y, hy⟩ := h x rfl
    rw [Option.bind_some, hy] at hnone
    cases hnone

/-- What holds of all arguments has to hold of the base only where there is no argument. -/
theorem forall_mem_orElse_iff {P : α → Prop} {flag base : Option α} (h : ∀ x ∈ flag, P x) :
    (∀ x ∈ (flag <|> base), P x) ↔ (flag = none → ∀ x ∈ base, P x) := by
  cases flag with
  | none => simp
  | some y => simpa using h

namespace Settings

theorem checkRoot_eq_ok_iff {name : String} {root : Option String} {u : Unit} :
    checkRoot name root = .ok u ↔ ∀ r ∈ root, r ≠ "" := by
  unfold checkRoot
  cases root with
  | none => simp
  | some r => by_cases h : r = "" <;> simp [h]

/-- Settings are valid if no root is empty and the format and the level are known. -/
theorem validate_eq_ok_iff {s : Settings} : s.validate = .ok () ↔
    (∀ root ∈ s.procRoot, root ≠ "") ∧ (∀ root ∈ s.nodeRoot, root ≠ "") ∧
      (∀ root ∈ s.resctrlRoot, root ≠ "") ∧ (∀ format ∈ s.outputFormat, format ∈ outputFormats) ∧
      ∀ level ∈ s.logLevel, lowerCase level ∈ logLevels := by
  simp only [validate, bind_eq_ok_iff, checkRoot_eq_ok_iff, exists_and_left, exists_const]
  refine and_congr_right fun _ => and_congr_right fun _ => and_congr_right fun _ => ?_
  cases s.outputFormat with
  | none =>
    cases s.logLevel with
    | none => simp [pure, Except.pure]
    | some level => by_cases hl : lowerCase level ∈ logLevels <;> simp [hl, pure, Except.pure]
  | some format =>
    by_cases hf : format ∈ outputFormats
    · cases s.logLevel with
      | none => simp [hf, pure, Except.pure]
      | some level => by_cases hl : lowerCase level ∈ logLevels <;> simp [hf, hl, pure, Except.pure]
    · simp [hf, bind, Except.bind]

end Settings

namespace CommandLine

open Settings (lowerCase outputFormats logLevels)

/-- The format that a command asks for. -/
def Arguments.format? (a : Arguments) : Option OutputFormat :=
  match a.command with
  | some (.collect format _) => format
  | _ => none

/-- The settings that the arguments override: those of the file, unless there is to be none, and then
the standard ones even if a file is given. -/
inductive IsBase (a : Arguments) (view : Files.Access) : Settings → Prop where
  | standard (h : a.noConfig = true) : IsBase a view .standard
  | loaded (h : a.noConfig = false) (hb : Settings.load view a.config = .ok b) : IsBase a view b

/-- What the arguments leave of the base is valid. -/
structure IsValidBase (a : Arguments) (b : Settings) : Prop where
  proc : a.procRoot = none → ∀ root ∈ b.procRoot, root ≠ ""
  node : a.nodeRoot = none → ∀ root ∈ b.nodeRoot, root ≠ ""
  resctrl : a.resctrlRoot = none → ∀ root ∈ b.resctrlRoot, root ≠ ""
  format : a.format? = none → ∀ format ∈ b.outputFormat, format ∈ outputFormats
  level : a.logLevel = none → ∀ level ∈ b.logLevel, lowerCase level ∈ logLevels

/-- What a run uses: for each setting what the arguments say, or else the base, or else the default.
A format or a level that is set is never one without a meaning. -/
structure InEffect (a : Arguments) (b s : Settings) : Prop where
  proc : Prevails a.procRoot b.procRoot "/proc" s.collector.roots.proc
  node : Prevails a.nodeRoot b.nodeRoot "/sys/devices/system/node" s.collector.roots.node
  resctrl : Prevails a.resctrlRoot b.resctrlRoot "/sys/fs/resctrl" s.collector.roots.resctrl
  resourceControl : s.collector.withResourceControl = true ↔
    a.withoutResourceControl = false ∧ b.resourceControl ≠ some false
  parallel : s.collector.parallel = true ↔ a.parallel = true ∨ b.parallel = some true
  format : Prevails (a.format?.map OutputFormat.name) b.outputFormat "json" (outputFormat s).name
  level : Prevails (a.logLevel.map LogLevel.name) (b.logLevel.map lowerCase) "info" (logLevel a s).name
  format_set : s.outputFormat.bind OutputFormat.ofText? = none → a.format? = none ∧ b.outputFormat = none
  level_set : s.logLevel.bind LogLevel.ofText? = none → a.logLevel = none ∧ b.logLevel = none

variable {a : Arguments} {b s : Settings} {view : Files.Access}

/-- A format that the check lets through is one of the three. -/
theorem exists_format {text : String} (h : text ∈ outputFormats) :
    ∃ format, OutputFormat.ofText? text = some format ∧ format.name = text := by
  simp only [outputFormats, List.mem_cons, List.not_mem_nil, or_false] at h
  rcases h with rfl | rfl | rfl
  · exact ⟨.json, by decide, rfl⟩
  · exact ⟨.yaml, by decide, rfl⟩
  · exact ⟨.prometheus, by decide, rfl⟩

/-- A level that the check lets through is one of the six, in any case of its letters. -/
theorem exists_level {text : String} (h : lowerCase text ∈ logLevels) :
    ∃ level, LogLevel.ofText? text = some level ∧ level.name = lowerCase text := by
  have hname : ∀ name ∈ logLevels, ∃ level, LogLevel.ofName? name = some level ∧ level.name = name := by
    simp only [logLevels, List.forall_mem_cons]
    exact ⟨⟨.off, by decide, rfl⟩, ⟨.error, by decide, rfl⟩, ⟨.warn, by decide, rfl⟩,
      ⟨.info, by decide, rfl⟩, ⟨.debug, by decide, rfl⟩, ⟨.trace, by decide, rfl⟩, by simp⟩
  exact hname _ h

theorem logLevel_override (a : Arguments) (b : Settings) :
    (override a b).logLevel = (a.logLevel.map LogLevel.name <|> b.logLevel) := rfl

theorem outputFormat_override (a : Arguments) (b : Settings) :
    (override a b).outputFormat = (a.format?.map OutputFormat.name <|> b.outputFormat) := by
  rcases h : a.command with _ | ⟨_ | _, _⟩ | _ <;> simp [override, Arguments.format?, h]

/-- An argument that is given is valid, so of the base only what is not overridden counts. -/
theorem validate_override_iff (ha : RootsGiven a) : (override a b).validate = .ok () ↔ IsValidBase a b := by
  have hproc : (∀ root ∈ (override a b).procRoot, root ≠ "") ↔ _ := forall_mem_orElse_iff ha.proc
  have hnode : (∀ root ∈ (override a b).nodeRoot, root ≠ "") ↔ _ := forall_mem_orElse_iff ha.node
  have hresctrl : (∀ root ∈ (override a b).resctrlRoot, root ≠ "") ↔ _ := forall_mem_orElse_iff ha.resctrl
  have hformat : ∀ format ∈ a.format?.map OutputFormat.name, format ∈ outputFormats := by
    intro name hname
    obtain ⟨format, -, rfl⟩ := Option.map_eq_some_iff.1 hname
    cases format <;> decide
  have hlevel : ∀ level ∈ a.logLevel.map LogLevel.name, lowerCase level ∈ logLevels := by
    intro name hname
    obtain ⟨level, -, rfl⟩ := Option.map_eq_some_iff.1 hname
    cases level <;> decide
  rw [Settings.validate_eq_ok_iff, hproc, hnode, hresctrl, outputFormat_override, forall_mem_orElse_iff hformat,
    logLevel_override, forall_mem_orElse_iff hlevel, Option.map_eq_none_iff, Option.map_eq_none_iff]
  constructor
  · rintro ⟨hproc, hnode, hresctrl, hformat, hlevel⟩
    exact ⟨hproc, hnode, hresctrl, hformat, hlevel⟩
  · intro h
    exact ⟨h.proc, h.node, h.resctrl, h.format, h.level⟩

theorem name_outputFormat (h : ∀ text ∈ s.outputFormat, text ∈ outputFormats) :
    (outputFormat s).name = s.outputFormat.getD "json" := by
  unfold outputFormat
  cases htext : s.outputFormat with
  | none => rfl
  | some text =>
    obtain ⟨format, hformat, rfl⟩ := exists_format (h text htext)
    simp [hformat]

theorem name_logLevel (a : Arguments) (h : ∀ text ∈ s.logLevel, lowerCase text ∈ logLevels) :
    (logLevel a s).name = (a.logLevel.map LogLevel.name <|> s.logLevel.map lowerCase).getD "info" := by
  unfold logLevel
  cases a.logLevel with
  | some level => rfl
  | none =>
    cases htext : s.logLevel with
    | none => rfl
    | some text =>
      obtain ⟨level, hlevel, hname⟩ := exists_level (h text htext)
      simp [hlevel, hname]

/-- Valid settings that arguments override are in effect as the arguments and the base say. -/
theorem inEffect_override (h : (override a b).validate = .ok ()) : InEffect a b (override a b) := by
  obtain ⟨-, -, -, hformats, hlevels⟩ := Settings.validate_eq_ok_iff.1 h
  constructor
  case proc => exact prevails_getD a.procRoot b.procRoot "/proc"
  case node => exact prevails_getD a.nodeRoot b.nodeRoot "/sys/devices/system/node"
  case resctrl => exact prevails_getD a.resctrlRoot b.resctrlRoot "/sys/fs/resctrl"
  case resourceControl =>
    rw [withResourceControl_iff]
    cases hflag : a.withoutResourceControl <;> simp [override, hflag]
  case parallel =>
    cases hflag : a.parallel <;> rcases hbase : b.parallel with _ | _ | _ <;>
      simp [Settings.collector, override, hflag, hbase]
  case format =>
    rw [name_outputFormat hformats, outputFormat_override]
    exact prevails_getD ..
  case level =>
    have hlevel : (a.logLevel.map LogLevel.name <|> (override a b).logLevel.map lowerCase) =
        (a.logLevel.map LogLevel.name <|> b.logLevel.map lowerCase) := by
      cases hflag : a.logLevel <;> simp [override, hflag]
    rw [name_logLevel a hlevels, hlevel]
    exact prevails_getD ..
  case format_set =>
    intro hnone
    have hunset : (override a b).outputFormat = none :=
      eq_none_of_bind_eq_none (fun text htext => (exists_format (hformats text htext)).imp fun _ h => h.1) hnone
    simpa [outputFormat_override] using hunset
  case level_set =>
    intro hnone
    have hunset : (override a b).logLevel = none :=
      eq_none_of_bind_eq_none (fun text htext => (exists_level (hlevels text htext)).imp fun _ h => h.1) hnone
    simpa [logLevel_override] using hunset

theorem settings_eq_of_isBase (h : IsBase a view b) : settings a view = .ok (override a b) := by
  cases h with
  | standard h => simp [settings, h, Except.map]
  | loaded h hb => simp [settings, h, hb, Except.map]

theorem run_eq_perform {args : List String} (hread : Arguments.read args = .ok a) (hbase : IsBase a view b)
    (host : Host) (now : Timestamp) : run args view host now = perform a (override a b) view host now := by
  simp only [run, hread, settings_eq_of_isBase hbase]

/-- Whatever the base is, what the arguments override in it is not checked, and if the rest of it is
valid, all that is in effect is what the arguments say, or else the base, or else the default. A
run with this base does its task with these settings. -/
theorem inEffect_of_read {args : List String} (hread : Arguments.read args = .ok a) (b : Settings) :
    ((override a b).validate = .ok () ↔ IsValidBase a b) ∧
    ((override a b).validate = .ok () → InEffect a b (override a b) ∧
      ∀ view host now, IsBase a view b → a.checkConfig = false → a.showConfig = false →
        run args view host now =
          { dispatch a.command (override a b) view host now with logLevel := some (logLevel a (override a b)) }) := by
  refine ⟨validate_override_iff (rootsGiven_of_read hread), fun hvalid => ⟨inEffect_override hvalid, ?_⟩⟩
  intro view host now hbase hcheck hshow
  rw [run_eq_perform hread hbase, perform, hvalid]
  simp [hcheck, hshow]

/-- Settings with an empty root and an unknown format. -/
def unusableSettings : Settings where
  procRoot := some ""
  parallel := some true
  outputFormat := some "xml"
  logLevel := some "DeBug"

def unusableFile : Files.Recorded where
  contents := [("c.json", .ok ("\x7b\"proc_root\": \"\", \"parallel-collection\": true, " ++
    "\"output_format\": \"xml\", \"log_level\": \"DeBug\"\x7d"))]

/-- Arguments that put another root and another format in their place. -/
def repairingArguments : Arguments where
  config := some "c.json"
  procRoot := some "/host/proc"
  withoutResourceControl := true
  command := some (.collect (some .yaml) true)

def repairingCommandLine : List String :=
  ["-cc.json", "--proc-root", "/host/proc", "--disable-rdt", "collect", "--format=yaml", "--platform-only"]

theorem inEffect_repairingArguments :
    Arguments.read repairingCommandLine = .ok repairingArguments ∧
    IsBase repairingArguments unusableFile.access unusableSettings ∧ unusableSettings.validate ≠ .ok () ∧
    InEffect repairingArguments unusableSettings (override repairingArguments unusableSettings) ∧
    ∀ host now, run repairingCommandLine unusableFile.access host now =
      { dispatch repairingArguments.command (override repairingArguments unusableSettings) unusableFile.access host now
        with logLevel := some .debug } := by
  have hread : Arguments.read repairingCommandLine = .ok repairingArguments := by decide +kernel
  have hload : Settings.load unusableFile.access (some "c.json") = .ok unusableSettings := by decide +kernel
  have hbase : IsBase repairingArguments unusableFile.access unusableSettings := .loaded rfl hload
  have hlevel : logLevel repairingArguments (override repairingArguments unusableSettings) = .debug := by decide +kernel
  obtain ⟨hvalid, huse⟩ := inEffect_of_read hread unusableSettings
  have hrest : IsValidBase repairingArguments unusableSettings := by
    refine ⟨nofun, by decide, by decide, nofun, ?_⟩
    rintro - level ⟨⟩
    decide +kernel
  obtain ⟨heffect, hrun⟩ := huse (hvalid.2 hrest)
  exact ⟨hread, hbase, by decide +kernel, heffect, fun host now => hlevel ▸ hrun _ host now hbase rfl rfl⟩

end CommandLine
end PlatformSnapshot
