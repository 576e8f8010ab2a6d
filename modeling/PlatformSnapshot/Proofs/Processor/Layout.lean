import Mathlib.Data.List.Dedup
import PlatformSnapshot.Proofs.SortedMap
import PlatformSnapshot.Processor.Topology
/-!
The layout made from the seats of the processors. Every seat is listed once, on its own core of its
own socket, and nothing else is listed; no socket and no core is listed empty, and the processors of
a core ascend. Nothing here asks the ids to be contiguous.
-/
namespace PlatformSnapshot

open Processor (Seat)
open scoped List

theorem perm_insertId (a : UInt32) (as : List UInt32) : insertId a as ~ a :: as := by
  induction as with
  | nil => exact .refl _
  | cons b bs ih =>
    unfold insertId
    split
    · exact .refl _
    · exact (ih.cons b).trans (.swap ..)

theorem pairwise_insertId (a : UInt32) {as : List UInt32} (h : as.Pairwise (· ≤ ·)) :
    (insertId a as).Pairwise (· ≤ ·) := by
  induction as with
  | nil => simp [insertId]
  | cons b bs ih =>
    obtain ⟨hb, hbs⟩ := List.pairwise_cons.1 h
    unfold insertId
    split
    case isTrue hab =>
      refine List.pairwise_cons.2 ⟨?_, h⟩
      intro c hc
      rcases List.mem_cons.1 hc with rfl | hc
      · exact hab
      · exact UInt32.le_trans hab (hb c hc)
    case isFalse hab =>
      refine List.pairwise_cons.2 ⟨?_, ih hbs⟩
      intro c hc
      rcases List.mem_cons.1 ((perm_insertId a bs).mem_iff.1 hc) with rfl | hc
      · exact UInt32.le_of_lt (UInt32.not_le.1 hab)
      · exact hb c hc

theorem insertId_ne_nil (a : UInt32) (as : List UInt32) : insertId a as ≠ [] := by
  intro h
  have hp := perm_insertId a as
  rw [h] at hp
  exact List.cons_ne_nil _ _ hp.symm.eq_nil

namespace Layout

/-- The processors on one core of one socket; none where there is no such core. -/
def onCore (l : Layout) (socket core : UInt32) : List UInt32 :=
  ((l.get? socket).bind fun cores => cores.get? core).getD []

/-- No socket is without cores, no core without processors, and those of a core ascend. -/
def Tidy (l : Layout) : Prop :=
  ∀ socket cores, l.get? socket = some cores → cores.entries ≠ [] ∧
    ∀ core ids, cores.get? core = some ids → ids ≠ [] ∧ ids.Pairwise (· ≤ ·)

theorem tidy_empty : Tidy ∅ := by
  intro socket cores h
  simp at h

/-- One more seat leaves a tidy layout tidy. -/
theorem tidy_add {l : Layout} (h : l.Tidy) (s : Seat) : (l.add s).Tidy := by
  have hids : ∀ ids : Option (List UInt32), (∀ as, ids = some as → as.Pairwise (· ≤ ·)) →
      insertId s.id (ids.getD []) ≠ [] ∧ (insertId s.id (ids.getD [])).Pairwise (· ≤ ·) := by
    intro ids hp
    refine ⟨insertId_ne_nil _ _, pairwise_insertId _ ?_⟩
    cases ids with
    | none => exact .nil
    | some as => exact hp as rfl
  have hcores : ∀ cores : SortedMap UInt32 (List UInt32),
      (∀ core ids, cores.get? core = some ids → ids ≠ [] ∧ ids.Pairwise (· ≤ ·)) →
      (cores.alter s.core fun ids => insertId s.id (ids.getD [])).entries ≠ [] ∧
        ∀ core ids, (cores.alter s.core fun ids => insertId s.id (ids.getD [])).get? core = some ids →
          ids ≠ [] ∧ ids.Pairwise (· ≤ ·) := by
    intro cores hc
    constructor
    · intro hnil
      have hsame := cores.get?_alter_same s.core fun ids => insertId s.id (ids.getD [])
      rw [SortedMap.get?, hnil] at hsame
      cases hsame
    · exact SortedMap.forall_get?_alter hc (hids none (by simp))
        fun as has => hids (some as) (by rintro _ ⟨⟩; exact has.2)
  exact SortedMap.forall_get?_alter h (hcores ∅ (by simp)) fun cores hold => hcores cores hold.2

theorem tidy_ofSeats (seats : List Seat) : (ofSeats seats).Tidy := by
  suffices ∀ l : Layout, l.Tidy → (seats.foldl add l).Tidy from this ∅ tidy_empty
  induction seats with
  | nil => exact fun _ h => h
  | cons s rest ih => exact fun l h => ih (l.add s) (tidy_add h s)

/-- One more seat lists one more processor. -/
theorem perm_processors_add (l : Layout) (s : Seat) :
    (l.add s).processors ~ s.id :: l.processors := by
  have hflat : ∀ m : Layout, m.processors = m.entries.flatMap fun e => e.2.values.flatten := by
    intro m
    simp [processors, cores, SortedMap.values, List.flatten_eq_flatMap, List.flatMap_assoc, List.flatMap_map]
  have hcore : ∀ cores : SortedMap UInt32 (List UInt32),
      (cores.alter s.core fun ids => insertId s.id (ids.getD [])).values.flatten ~
        [s.id] ++ cores.values.flatten := by
    intro cores
    have h := SortedMap.perm_flatMap_alterEntry id [s.id] s.core
      (fun ids => insertId s.id (ids.getD [])) (perm_insertId _ _) (fun ids => perm_insertId _ _) cores.entries
    simpa [SortedMap.values, SortedMap.alter, List.flatten_eq_flatMap, List.flatMap_map] using h
  rw [hflat, hflat]
  exact SortedMap.perm_flatMap_alterEntry (fun cores : SortedMap UInt32 (List UInt32) => cores.values.flatten)
    [s.id] s.socket _ (by simpa using hcore ∅) hcore l.entries

/-- The listed processors are those of the seats, each as often as it has a seat. -/
theorem perm_processors_ofSeats (seats : List Seat) :
    (ofSeats seats).processors ~ seats.map (·.id) := by
  suffices ∀ l : Layout, (seats.foldl add l).processors ~ seats.map (·.id) ++ l.processors by
    simpa [ofSeats, processors, cores] using this ∅
  induction seats with
  | nil => exact fun l => .refl _
  | cons s rest ih =>
    intro l
    exact (ih (l.add s)).trans (((perm_processors_add l s).append_left _).trans List.perm_middle)

theorem onCore_add (l : Layout) (s : Seat) (socket core : UInt32) :
    (l.add s).onCore socket core =
      if socket = s.socket ∧ core = s.core then insertId s.id (l.onCore socket core)
      else l.onCore socket core := by
  unfold onCore add
  rw [SortedMap.get?_alter]
  by_cases hs : socket = s.socket
  · subst hs
    cases l.get? s.socket <;> by_cases hc : core = s.core <;> simp [SortedMap.get?_alter, hc]
  · simp [hs]

/-- A processor is listed on a core exactly if it has a seat there. -/
theorem mem_onCore_ofSeats (seats : List Seat) (id socket core : UInt32) :
    id ∈ (ofSeats seats).onCore socket core ↔ ⟨id, socket, core⟩ ∈ seats := by
  suffices ∀ l : Layout, id ∈ (seats.foldl add l).onCore socket core ↔
      ⟨id, socket, core⟩ ∈ seats ∨ id ∈ l.onCore socket core by
    simpa [ofSeats, onCore] using this ∅
  induction seats with
  | nil => simp
  | cons s rest ih =>
    intro l
    have hseat : (⟨id, socket, core⟩ : Seat) = s ↔ (socket = s.socket ∧ core = s.core) ∧ id = s.id := by
      cases s; simp [Seat.mk.injEq]; tauto
    rw [List.foldl_cons, ih, onCore_add, List.mem_cons, hseat]
    by_cases h : socket = s.socket ∧ core = s.core
    · simp only [h, and_self, if_true, true_and, (perm_insertId _ _).mem_iff, List.mem_cons]
      tauto
    · simp [h]

/-- The ids of a core are listed where the core is looked up. -/
theorem onCore_eq {l : Layout} {socket core : UInt32} {cores : SortedMap UInt32 (List UInt32)}
    {ids : List UInt32} (hs : l.get? socket = some cores) (hc : cores.get? core = some ids) :
    l.onCore socket core = ids := by
  simp [onCore, hs, hc]

theorem exists_of_mem_onCore {l : Layout} {id socket core : UInt32} (h : id ∈ l.onCore socket core) :
    ∃ cores, l.get? socket = some cores ∧ ∃ ids, cores.get? core = some ids := by
  unfold onCore at h
  cases hs : l.get? socket with
  | none => simp [hs] at h
  | some cores =>
    cases hc : cores.get? core with
    | none => simp [hs, hc] at h
    | some ids => exact ⟨cores, rfl, ids, hc⟩

/-- The cores by their socket and core ids. -/
def coreIds (l : Layout) : List (UInt32 × UInt32) :=
  l.entries.flatMap fun e => e.2.keys.map fun core => (e.1, core)

theorem length_coreIds (l : Layout) : l.coreIds.length = l.cores.length := by
  simp [coreIds, cores, SortedMap.values, SortedMap.keys, List.length_flatMap, List.map_map, Function.comp_def]

theorem mem_coreIds_iff (l : Layout) {socket core : UInt32} :
    (socket, core) ∈ l.coreIds ↔ ∃ cores, l.get? socket = some cores ∧ core ∈ cores.keys := by
  simp only [coreIds, List.mem_flatMap, List.mem_map, Prod.mk.injEq, Prod.exists]
  constructor
  · rintro ⟨s, cores, hs, c, hc, rfl, rfl⟩
    exact ⟨cores, l.mem_entries_iff.1 hs, hc⟩
  · rintro ⟨cores, hs, hc⟩
    exact ⟨socket, cores, l.mem_entries_iff.2 hs, core, hc, rfl, rfl⟩

/-- A layout is known by its sockets, its cores and the processors on them. -/
theorem ext_onCore {l l' : Layout} (hkeys : ∀ socket, socket ∈ l.keys ↔ socket ∈ l'.keys)
    (hcores : ∀ socket core, (socket, core) ∈ l.coreIds ↔ (socket, core) ∈ l'.coreIds)
    (hon : ∀ socket core, l.onCore socket core = l'.onCore socket core) : l = l' := by
  refine SortedMap.ext_get? fun socket => ?_
  have hkey := hkeys socket
  rw [SortedMap.mem_keys_iff, SortedMap.mem_keys_iff] at hkey
  cases hs : l.get? socket with
  | none =>
    cases hs' : l'.get? socket with
    | none => rfl
    | some cores => simp [hs, hs'] at hkey
  | some cores =>
    obtain ⟨cores', hs'⟩ := hkey.1 ⟨cores, hs⟩
    rw [hs']
    refine congrArg some (SortedMap.ext_get? fun core => ?_)
    have hcore := hcores socket core
    simp only [mem_coreIds_iff, hs, hs', Option.some.injEq, exists_eq_left', SortedMap.mem_keys_iff] at hcore
    cases hc : cores.get? core with
    | none =>
      cases hc' : cores'.get? core with
      | none => rfl
      | some ids => simp [hc, hc'] at hcore
    | some ids =>
      obtain ⟨ids', hc'⟩ := hcore.1 ⟨ids, hc⟩
      have heq := hon socket core
      rw [onCore_eq hs hc, onCore_eq hs' hc'] at heq
      rw [hc', heq]

theorem nodup_coreIds (l : Layout) : l.coreIds.Nodup := by
  refine List.nodup_flatMap.2 ⟨?_, ?_⟩
  · intro e _
    exact (e.2.nodup_keys).map fun c d h => (Prod.mk.inj h).2
  · refine (List.pairwise_map.1 l.nodup_keys).imp ?_
    intro e f hne p hp hq
    obtain ⟨c, -, rfl⟩ := List.mem_map.1 hp
    obtain ⟨d, -, he⟩ := List.mem_map.1 hq
    exact hne (Prod.mk.inj he).1.symm

theorem mem_coreIds_ofSeats (seats : List Seat) {socket core : UInt32} :
    (socket, core) ∈ (ofSeats seats).coreIds ↔ ∃ s ∈ seats, (s.socket, s.core) = (socket, core) := by
  rw [mem_coreIds_iff]
  constructor
  · rintro ⟨cores, hs, hc⟩
    obtain ⟨ids, hc⟩ := cores.mem_keys_iff.1 hc
    obtain ⟨id, hid⟩ := List.exists_mem_of_ne_nil _ (((tidy_ofSeats seats) socket cores hs).2 core ids hc).1
    rw [← onCore_eq hs hc, mem_onCore_ofSeats] at hid
    exact ⟨_, hid, rfl⟩
  · rintro ⟨s, hs, he⟩
    obtain ⟨rfl, rfl⟩ := Prod.mk.inj he
    obtain ⟨cores, hs, ids, hc⟩ := exists_of_mem_onCore ((mem_onCore_ofSeats seats s.id s.socket s.core).2 hs)
    exact ⟨cores, hs, cores.mem_keys_iff.2 ⟨ids, hc⟩⟩

theorem mem_keys_ofSeats (seats : List Seat) {socket : UInt32} :
    socket ∈ (ofSeats seats).keys ↔ ∃ s ∈ seats, s.socket = socket := by
  constructor
  · intro h
    obtain ⟨cores, hs⟩ := SortedMap.mem_keys_iff _ |>.1 h
    obtain ⟨⟨core, ids⟩, hc⟩ := List.exists_mem_of_ne_nil _ ((tidy_ofSeats seats) socket cores hs).1
    have hcore : core ∈ cores.keys := List.mem_map.2 ⟨_, hc, rfl⟩
    obtain ⟨s, hs, he⟩ := (mem_coreIds_ofSeats seats).1 ((mem_coreIds_iff _).2 ⟨cores, hs, hcore⟩)
    exact ⟨s, hs, (Prod.mk.inj he).1⟩
  · rintro ⟨s, hs, rfl⟩
    obtain ⟨cores, hs, -⟩ := (mem_coreIds_iff _).1 ((mem_coreIds_ofSeats seats).2 ⟨s, hs, rfl⟩)
    exact (SortedMap.mem_keys_iff _).2 ⟨cores, hs⟩

/-- There are as many sockets as distinct socket ids among the seats. -/
theorem size_ofSeats (seats : List Seat) :
    (ofSeats seats).size = (seats.map (·.socket)).dedup.length := by
  rw [← SortedMap.length_keys]
  refine ((List.perm_ext_iff_of_nodup (SortedMap.nodup_keys _) (List.nodup_dedup _)).2 ?_).length_eq
  intro socket
  simp [mem_keys_ofSeats]

/-- There are as many cores as distinct pairs of socket and core ids among the seats. -/
theorem length_cores_ofSeats (seats : List Seat) :
    (ofSeats seats).cores.length = (seats.map fun s => (s.socket, s.core)).dedup.length := by
  rw [← length_coreIds]
  refine ((List.perm_ext_iff_of_nodup (nodup_coreIds _) (List.nodup_dedup _)).2 ?_).length_eq
  rintro ⟨socket, core⟩
  rw [mem_coreIds_ofSeats, List.mem_dedup, List.mem_map]

/-- Distinct processors ascend strictly on their cores. -/
theorem Tidy.pairwise_lt {l : Layout} (h : l.Tidy) (hd : l.processors.Nodup) {ids : List UInt32}
    (hids : ids ∈ l.cores) : ids ≠ [] ∧ ids.Pairwise (· < ·) := by
  obtain ⟨cores, hcores, hmem⟩ := List.mem_flatMap.1 hids
  obtain ⟨socket, hs⟩ := l.mem_values_iff.1 hcores
  obtain ⟨core, hc⟩ := cores.mem_values_iff.1 hmem
  obtain ⟨hne, hle⟩ := (h socket cores hs).2 core ids hc
  have hnodup : ids.Nodup := hd.sublist (List.sublist_flatten_of_mem hids)
  refine ⟨hne, (hle.and hnodup).imp ?_⟩
  rintro a b ⟨hab, hab'⟩
  exact UInt32.lt_of_le_of_ne hab hab'

theorem Tidy.pairwise_onCore {l : Layout} (h : l.Tidy) (hd : l.processors.Nodup) (socket core : UInt32) :
    (l.onCore socket core).Pairwise (· < ·) := by
  cases hs : l.get? socket with
  | none => simp [onCore, hs]
  | some cores =>
    cases hc : cores.get? core with
    | none => simp [onCore, hs, hc]
    | some ids =>
      have hvalue : cores ∈ l.values := l.mem_values_iff.2 ⟨socket, hs⟩
      have hids : ids ∈ l.cores := List.mem_flatMap.2 ⟨cores, hvalue, cores.mem_values_iff.2 ⟨core, hc⟩⟩
      rw [onCore_eq hs hc]
      exact (h.pairwise_lt hd hids).2

/-- The layout does not depend on the order of the seats. -/
theorem ofSeats_perm {seats seats' : List Seat} (h : seats ~ seats') (hd : (seats.map (·.id)).Nodup) :
    ofSeats seats = ofSeats seats' := by
  have honce : (ofSeats seats).processors.Nodup := (perm_processors_ofSeats seats).nodup_iff.2 hd
  have honce' : (ofSeats seats').processors.Nodup :=
    (perm_processors_ofSeats seats').nodup_iff.2 ((h.map _).nodup_iff.1 hd)
  refine ext_onCore ?_ ?_ ?_
  · intro socket
    simp only [mem_keys_ofSeats, h.mem_iff]
  · intro socket core
    simp only [mem_coreIds_ofSeats, h.mem_iff]
  · intro socket core
    have hlt := (tidy_ofSeats seats).pairwise_onCore honce socket core
    have hlt' := (tidy_ofSeats seats').pairwise_onCore honce' socket core
    have hperm : (ofSeats seats).onCore socket core ~ (ofSeats seats').onCore socket core := by
      refine (List.perm_ext_iff_of_nodup (hlt.imp UInt32.ne_of_lt) (hlt'.imp UInt32.ne_of_lt)).2 fun id => ?_
      rw [mem_onCore_ofSeats, mem_onCore_ofSeats, h.mem_iff]
    exact hperm.eq_of_pairwise (fun a b _ _ hab hba => absurd hba (UInt32.not_lt.2 (UInt32.le_of_lt hab))) hlt hlt'

end Layout
end PlatformSnapshot
