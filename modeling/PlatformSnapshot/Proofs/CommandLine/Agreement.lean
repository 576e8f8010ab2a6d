import PlatformSnapshot.CommandLine.Run
import PlatformSnapshot.Files.Recorded
import PlatformSnapshot.Proofs.Snapshot.Interleaving
/-!
The check and the cycle agree. The check looks at every source and goes on after a failure, the cycle
stops with one error; still the check passes just where the cycle succeeds, but for the resource
control that it looks at on demand only.
-/
namespace PlatformSnapshot.CommandLine

/-- None of the findings is bad. -/
def Clean (fs : List Finding) : Prop := ∀ f ∈ fs, f.isBad = false

variable {probe : Bool} {s : Settings} {view : Files.Access} {host : Host}

theorem clean_singleton {f : Finding} : Clean [f] ↔ f.isBad = false := List.forall_mem_singleton

theorem clean_findings {r : Except SourceError α} {f : α → List Finding} :
    Clean (findings r f) ↔ ∃ a, r = .ok a ∧ Clean (f a) := by
  cases r with
  | ok a => simp [findings]
  | error e => simp [findings, clean_singleton, Finding.isBad]

theorem clean_topologyFindings (t : Topology) : Clean (topologyFindings t) := clean_singleton.2 rfl

theorem clean_busyTimeFindings {r : Except SourceError Topology} {b : BusyTime} :
    Clean (busyTimeFindings r b) ↔ ∀ t, r = .ok t → b.size = t.cpus := by
  cases r with
  | error e => simp [busyTimeFindings, clean_singleton, Finding.isBad]
  | ok t =>
    by_cases h : t.cpus = b.size
    · simp [busyTimeFindings, clean_singleton, Finding.isBad, h]
    · simp [busyTimeFindings, clean_singleton, Finding.isBad, h, Ne.symm h]

theorem clean_memoryFindings (used : Int64) : Clean (memoryFindings used) := clean_singleton.2 rfl

/-- No nodes at all are notable, but not bad. -/
theorem clean_nodeFindings (n : Nodes) : Clean (nodeFindings n) := by
  unfold nodeFindings
  split
  · exact clean_singleton.2 rfl
  · intro f hf
    obtain ⟨e, -, rfl⟩ := List.mem_map.1 hf
    rfl

theorem clean_resourceControlFindings (r : ResourceControl) : Clean (resourceControlFindings r) := by
  unfold resourceControlFindings
  cases r.classCount <;> simp [Clean, Finding.isBad]

theorem clean_settingsFindings : Clean (settingsFindings s) ↔ s.validate = .ok () := by
  unfold settingsFindings
  cases h : s.validate <;> simp [clean_singleton, Finding.isBad]

theorem passes_iff {ss : List Section} : passes ss = true ↔ ∀ s ∈ ss, Clean s.findings := by
  simp [passes, Clean]

theorem forall_mem_section_if {wanted : Bool} {sec : Section} :
    (∀ x ∈ if wanted then [sec] else [], Clean x.findings) ↔ (wanted → Clean sec.findings) := by
  cases wanted <;> simp

/-- The check passes if all that it looks at can be read and the counts agree. -/
theorem passes_sections : passes (sections probe s view host) = true ↔
    (∃ t u m n, Cycle.readTopology s.collector view = .ok t ∧ Cycle.readBusyTime s.collector view = .ok u ∧
      Cycle.readMemory s.collector view = .ok m ∧ Cycle.readNodes s.collector view = .ok n ∧ u.size = t.cpus) ∧
    (looksAtResourceControl probe s → ∃ r, ResourceControl.read view s.roots.resctrl = .ok r) ∧
    s.validate = .ok () := by
  have hhost : Clean [.good s!"{host.name} (collector {host.version})"] := clean_singleton.2 rfl
  rw [passes_iff]
  simp only [sections, List.forall_mem_append, List.forall_mem_cons, List.not_mem_nil, false_implies, implies_true,
    and_true, forall_mem_section_if, clean_findings, clean_topologyFindings, clean_busyTimeFindings,
    clean_memoryFindings, clean_nodeFindings, clean_resourceControlFindings, clean_settingsFindings, hhost, true_and]
  constructor
  · rintro ⟨⟨⟨⟨t, ht⟩, ⟨u, hu, hsize⟩, ⟨m, hm⟩, ⟨n, hn⟩⟩, hrc⟩, hvalid⟩
    exact ⟨⟨t, u, m, n, ht, hu, hm, hn, hsize t ht⟩, hrc, hvalid⟩
  · rintro ⟨⟨t, u, m, n, ht, hu, hm, hn, hsize⟩, hrc, hvalid⟩
    refine ⟨⟨⟨⟨t, ht⟩, ⟨u, hu, fun t' ht' => ?_⟩, ⟨m, hm⟩, ⟨n, hn⟩⟩, hrc⟩, hvalid⟩
    rw [ht] at ht'
    rw [hsize, Except.ok.inj ht']

/-- A cycle succeeds if all that it reads can be read and the counts agree. -/
theorem exists_collect_ok (s : Settings) (view : Files.Access) (now : Timestamp) :
    (∃ p, s.collector.collect view now = .ok p) ↔
    (∃ t u m n, Cycle.readTopology s.collector view = .ok t ∧ Cycle.readBusyTime s.collector view = .ok u ∧
      Cycle.readMemory s.collector view = .ok m ∧ Cycle.readNodes s.collector view = .ok n ∧ u.size = t.cpus) ∧
    (s.collector.withResourceControl → ∃ r, ResourceControl.read view s.roots.resctrl = .ok r) := by
  have hrc : (∃ rc, Cycle.readResourceControl s.collector view = .ok rc) ↔
      (s.collector.withResourceControl → ∃ r, ResourceControl.read view s.roots.resctrl = .ok r) := by
    simp only [Cycle.readResourceControl_eq, Attempt.onlyIf_eq_ok_iff]
    cases s.collector.withResourceControl with
    | false =>
      constructor
      · exact fun _ => nofun
      · exact fun _ => ⟨none, rfl, nofun⟩
    | true =>
      constructor
      · rintro ⟨rc, hsome, hread⟩ -
        obtain ⟨r, rfl⟩ := Option.isSome_iff_exists.1 hsome
        exact ⟨r, hread r rfl⟩
      · intro h
        obtain ⟨r, hr⟩ := h rfl
        exact ⟨some r, rfl, by rintro _ ⟨⟩; exact hr⟩
  rw [← hrc]
  simp only [Collector.collect, Cycle.collectBy_eq_ok_iff]
  constructor
  · rintro ⟨_, t, u, m, n, rc, ht, hu, hm, hn, hrc, hsize, -⟩
    exact ⟨⟨t, u, m, n, ht, hu, hm, hn, hsize⟩, rc, hrc⟩
  · rintro ⟨⟨t, u, m, n, ht, hu, hm, hn, hsize⟩, rc, hrc⟩
    exact ⟨_, t, u, m, n, rc, ht, hu, hm, hn, hrc, hsize, rfl⟩

theorem check_exit_eq_one_iff : (check probe s view host).exit = 1 ↔ (check probe s view host).exit ≠ 0 := by
  by_cases h : passes (sections probe s view host) = true <;> simp [check, h]

theorem withResourceControl_iff : s.collector.withResourceControl = true ↔ s.resourceControl ≠ some false := by
  rcases h : s.resourceControl with _ | _ | _ <;> simp [Settings.collector, h]

/-- The check passes where the cycle succeeds and, on demand, the resource control can be read. -/
theorem check_exit_eq_zero_iff (hs : s.validate = .ok ()) (probe : Bool) (view : Files.Access) (host : Host)
    (now : Timestamp) :
    (check probe s view host).exit = 0 ↔
      (∃ p, s.collector.collect view now = .ok p) ∧
      (probe = true → ∃ r, ResourceControl.read view s.roots.resctrl = .ok r) := by
  have hexit : (check probe s view host).exit = 0 ↔ passes (sections probe s view host) = true := by
    by_cases h : passes (sections probe s view host) = true <;> simp [check, h]
  rw [hexit, passes_sections, exists_collect_ok, and_assoc]
  refine and_congr_right fun _ => ?_
  cases probe <;> cases h : s.collector.withResourceControl <;> simp [looksAtResourceControl, h, hs]

/-- With valid settings, the check passes only where the cycle succeeds. Conversely it passes wherever
the cycle succeeds, unless resource control is looked at on demand although the settings switch it
off; both fail where the busy times are not as many as the processors. -/
theorem check_agrees_with_collect (hs : s.validate = .ok ()) (probe : Bool) (view : Files.Access)
    (host : Host) (now : Timestamp) :
    ((check probe s view host).exit = 0 → ∃ p, s.collector.collect view now = .ok p) ∧
    (probe = false ∨ s.resourceControl ≠ some false →
      ((check probe s view host).exit = 0 ↔ ∃ p, s.collector.collect view now = .ok p) ∧
      ((check probe s view host).exit = 1 ↔ ∃ e, s.collector.collect view now = .error e)) ∧
    (∀ t u, Cycle.readTopology s.collector view = .ok t → Cycle.readBusyTime s.collector view = .ok u →
      u.size ≠ t.cpus →
      (check probe s view host).exit = 1 ∧ ∃ e, s.collector.collect view now = .error e) ∧
    ((∃ p, s.collector.collect view now = .ok p) → (check probe s view host).exit ≠ 0 →
      probe = true ∧ s.resourceControl = some false ∧
        ∃ e, ResourceControl.read view s.roots.resctrl = .error e) := by
  have hzero := check_exit_eq_zero_iff hs probe view host now
  have hcollect := exists_collect_ok s view now
  refine ⟨fun h => (hzero.1 h).1, ?_, ?_, ?_⟩
  · intro hwanted
    have hiff : (check probe s view host).exit = 0 ↔ ∃ p, s.collector.collect view now = .ok p := by
      rw [hzero]
      refine and_iff_left_of_imp fun hok hprobe => (hcollect.1 hok).2 (withResourceControl_iff.2 ?_)
      exact hwanted.resolve_left (by simp [hprobe])
    exact ⟨hiff, by rw [check_exit_eq_one_iff, exists_error_iff, ne_eq, hiff]⟩
  · intro t u ht hu hne
    have hfail : ¬ ∃ p, s.collector.collect view now = .ok p := by
      intro hok
      obtain ⟨t', u', _, _, ht', hu', -, -, hsize⟩ := (hcollect.1 hok).1
      rw [ht] at ht'
      rw [hu] at hu'
      exact hne (by rw [Except.ok.inj hu', hsize, Except.ok.inj ht'])
    exact ⟨check_exit_eq_one_iff.2 fun h => hfail (hzero.1 h).1, exists_error_iff.2 hfail⟩
  · intro hok hexit
    have hread : ¬ (probe = true → ∃ r, ResourceControl.read view s.roots.resctrl = .ok r) :=
      fun hrc => hexit (hzero.2 ⟨hok, hrc⟩)
    obtain ⟨hprobe, hnone⟩ := Classical.not_imp.1 hread
    have hoff : ¬ s.collector.withResourceControl = true := fun hon => hnone ((hcollect.1 hok).2 hon)
    exact ⟨hprobe, by simpa [withResourceControl_iff] using hoff, exists_error_iff.2 hnone⟩

/-- A host with one processor and no resource control. -/
def plainHost : Files.Recorded where
  contents := [
    ("/host/proc/cpuinfo", .ok "processor : 0\nphysical id : 0\ncore id : 0\n"),
    ("/host/proc/stat", .ok "cpu  2 2 2 2 2 2 2 2\ncpu0 2 2 2 2 2 2 2 2\n"),
    ("/host/proc/meminfo", .ok "MemTotal: 100 kB\nMemFree: 40 kB\n")]
  listings := [("/host/node", .ok ["online"])]

/-- Settings for it that switch resource control off. -/
def plainSettings : Settings where
  procRoot := some "/host/proc"
  nodeRoot := some "/host/node"
  resctrlRoot := some "/host/resctrl"
  resourceControl := some false

def plainTime : Timestamp := ⟨⟨2024, 1, 2⟩, 3, 4, 5, 0⟩

/-- Looked at on demand, the missing resource control fails the check although the cycle succeeds. -/
theorem check_plainHost :
    plainSettings.validate = .ok () ∧
    (∃ p, plainSettings.collector.collect plainHost.access plainTime = .ok p) ∧
    (check false plainSettings plainHost.access ⟨"plain", "0.1.0"⟩).exit = 0 ∧
    (check true plainSettings plainHost.access ⟨"plain", "0.1.0"⟩).exit = 1 ∧
    ∃ e, ResourceControl.read plainHost.access "/host/resctrl" = .error e := by
  have hvalid : plainSettings.validate = .ok () := by rfl
  have hok : ∃ p, plainSettings.collector.collect plainHost.access plainTime = .ok p :=
    exists_ok_of_isOk (by decide +kernel)
  have hexit : (check true plainSettings plainHost.access ⟨"plain", "0.1.0"⟩).exit = 1 := by decide +kernel
  obtain ⟨-, hsilent, -, -⟩ := check_agrees_with_collect hvalid false plainHost.access
    ⟨"plain", "0.1.0"⟩ plainTime
  obtain ⟨-, -, -, honly⟩ := check_agrees_with_collect hvalid true plainHost.access ⟨"plain", "0.1.0"⟩ plainTime
  have hread := honly hok (by rw [hexit]; decide)
  exact ⟨hvalid, hok, (hsilent (.inl rfl)).1.2 hok, hexit, hread.2.2⟩

end PlatformSnapshot.CommandLine
