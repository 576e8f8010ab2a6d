import PlatformSnapshot.Proofs.Reading
import PlatformSnapshot.Proofs.SortedMap
/-!
Memory figures. All of them are read in KiB and kept in bytes, so each is a whole number of KiB; and
a node has a figure only if it also has its processors.
-/
namespace PlatformSnapshot

namespace UsedMemory

theorem dvd_of_bytes? {kib n : Int64} (h : bytes? kib = some n) : (1024 : Int) ∣ n.toInt := by
  rw [Numeral.toInt_of_inInt64? h]
  exact Int.dvd_mul_left _ _

theorem dvd_of_parse {content : String} {n : Int64} (h : parse content = .ok n) :
    (1024 : Int) ∣ n.toInt := by
  obtain ⟨f, -, h⟩ := bind_eq_ok_iff.1 h
  cases hu : f.used? with
  | none => simp [hu] at h
  | some used =>
    obtain rfl : used = n := by simpa [hu] using h
    simp only [Figures.used?, Option.bind_eq_bind, Option.bind_eq_some_iff] at hu
    obtain ⟨_, -, _, -, _, -, hb⟩ := hu
    exact dvd_of_bytes? hb

end UsedMemory

namespace NodeMemory

/-- Both figures, where there are any, are whole numbers of KiB. -/
def WholeKiB (m : NodeMemory) : Prop :=
  (∀ n ∈ m.free, (1024 : Int) ∣ n.toInt) ∧ ∀ n ∈ m.used, (1024 : Int) ∣ n.toInt

theorem wholeKiB_set {m : NodeMemory} (h : m.WholeKiB) {n : Int64} (hn : (1024 : Int) ∣ n.toInt)
    (k : Kind) : (m.set n k).WholeKiB := by
  have hnew : ∀ v ∈ some n, (1024 : Int) ∣ v.toInt := by rintro _ ⟨⟩; exact hn
  cases k with
  | free => exact ⟨hnew, h.2⟩
  | used => exact ⟨h.1, hnew⟩

theorem dvd_of_amount {k : Kind} {w : List Char} {n : Int64} (h : amount k w = .ok n) :
    (1024 : Int) ∣ n.toInt := by
  unfold amount at h
  cases hk : Numeral.int64? w with
  | none => simp [hk] at h
  | some kib =>
    cases hb : UsedMemory.bytes? kib with
    | none => simp [hk, hb] at h
    | some v =>
      obtain rfl : v = n := by simpa [hk, hb] using h
      exact UsedMemory.dvd_of_bytes? hb

theorem wholeKiB_of_figures {lines : List (List Char)} {m r : NodeMemory} (hm : m.WholeKiB)
    (h : figures m lines = .ok r) : r.WholeKiB := by
  induction lines generalizing m with
  | nil =>
    cases h
    exact hm
  | cons line rest ih =>
    unfold figures at h
    split at h
    case h_1 => exact ih hm h
    case h_2 k w _ =>
      cases ha : amount k w with
      | error e => simp [ha] at h
      | ok n =>
        simp only [ha] at h
        exact ih (wholeKiB_set hm (dvd_of_amount ha) k) h

theorem wholeKiB_of_parse {content : String} {m : NodeMemory} (h : parse content = .ok m) :
    m.WholeKiB :=
  wholeKiB_of_figures (m := {}) ⟨by simp, by simp⟩ h

end NodeMemory

namespace Nodes

/-- Figures belong to nodes whose processors are known, and are whole numbers of KiB. -/
structure Sound (n : Nodes) : Prop where
  free_keys : n.free.keys ⊆ n.cpus.keys
  used_keys : n.used.keys ⊆ n.cpus.keys
  free_kib : ∀ id v, n.free.get? id = some v → (1024 : Int) ∣ v.toInt
  used_kib : ∀ id v, n.used.get? id = some v → (1024 : Int) ∣ v.toInt

theorem sound_empty : Sound {} := by
  constructor <;> simp

theorem keys_insertSome_subset {m : SortedMap UInt32 Int64} {cpus : SortedMap UInt32 IdSet}
    (h : m.keys ⊆ cpus.keys) (id : UInt32) (n : Option Int64) (set : IdSet) :
    (insertSome m id n).keys ⊆ (cpus.insert id set).keys := by
  intro k hk
  rw [SortedMap.mem_keys_insert]
  cases n with
  | none => exact .inr (h hk)
  | some n => exact ((SortedMap.mem_keys_insert ..).1 hk).imp_right fun hk => h hk

theorem forall_insertSome {P : Int64 → Prop} {m : SortedMap UInt32 Int64}
    (h : ∀ k v, m.get? k = some v → P v) (id : UInt32) {n : Option Int64} (hn : ∀ v ∈ n, P v) :
    ∀ k v, (insertSome m id n).get? k = some v → P v := by
  cases n with
  | none => exact h
  | some n => exact SortedMap.forall_get?_insert h (hn n rfl)

/-- One more node keeps the nodes sound. -/
theorem sound_add {n : Nodes} (h : n.Sound) (id : UInt32) {r : Reading} (hr : r.memory.WholeKiB) :
    (n.add id r).Sound where
  free_keys := keys_insertSome_subset h.free_keys id _ _
  used_keys := keys_insertSome_subset h.used_keys id _ _
  free_kib := forall_insertSome (P := fun v => (1024 : Int) ∣ v.toInt) h.free_kib id hr.1
  used_kib := forall_insertSome (P := fun v => (1024 : Int) ∣ v.toInt) h.used_kib id hr.2

theorem sound_readEntries {view : Files.Access} {root : String} {names : List String} {n m : Nodes}
    (hn : n.Sound) (h : readEntries view root n names = .ok m) : m.Sound := by
  induction names generalizing n with
  | nil =>
    cases h
    exact hn
  | cons name rest ih =>
    cases hid : id? name with
    | none =>
      rw [readEntries_skip hid] at h
      exact ih hn h
    | some id =>
      rw [readEntries_node hid] at h
      obtain ⟨r, hr, h⟩ := bind_eq_ok_iff.1 h
      obtain ⟨⟨text, -, hp⟩, -⟩ := readNode_eq_ok_iff.1 hr
      exact ih (sound_add hn id (NodeMemory.wholeKiB_of_parse hp)) h

/-- Whatever the directory holds, nodes that were read are sound. -/
theorem sound_of_read {view : Files.Access} {root : String} {n : Nodes} (h : read view root = .ok n) :
    n.Sound := by
  obtain ⟨names, -, h⟩ := read_eq_ok_iff.1 h
  exact sound_readEntries sound_empty h

end Nodes
end PlatformSnapshot
