import Mathlib.Algebra.GroupWithZero.Nat
import PlatformSnapshot.Processor.BusyTime
import PlatformSnapshot.Proofs.Reading
import PlatformSnapshot.Proofs.SortedMap
import PlatformSnapshot.Proofs.Text.Numeral
/-!
Lines about processors as they are written: the id right after the key, then ten counters. Reading
gives back the busy time of each, and the lines about anything else add nothing.
-/
namespace PlatformSnapshot.BusyTime

open Text

/-- The counters of one processor in ticks since boot. Its busy time is in range. -/
structure Counters where
  user : UInt64
  nice : UInt64
  system : UInt64
  idle : UInt64
  wait : UInt64
  irq : UInt64
  softirq : UInt64
  steal : UInt64
  guest : UInt64
  guestNice : UInt64
  busy_lt : user.toNat + nice.toNat + system.toNat + irq.toNat + softirq.toNat + steal.toNat < UInt64.size

namespace Counters

def row (c : Counters) : List UInt64 :=
  [c.user, c.nice, c.system, c.idle, c.wait, c.irq, c.softirq, c.steal, c.guest, c.guestNice]

/-- Time that was neither idle nor waiting; guest time is part of user time already. -/
def busy (c : Counters) : Nat :=
  c.user.toNat + c.nice.toNat + c.system.toNat + c.irq.toNat + c.softirq.toNat + c.steal.toNat

end Counters

/-- Numerals, each after a blank. -/
def numerals (ns : List UInt64) : List Char := spaced (ns.map fun n => Numeral.ofNat n.toNat)

def line (id : UInt32) (c : Counters) : List Char :=
  "cpu".toList ++ (Numeral.ofNat id.toNat ++ numerals c.row)

/-- The line about all processors. -/
def totalLine (ns : List UInt64) : List Char := "cpu ".toList ++ numerals ns

/-- The lines of the whole file. -/
def statLines (totals : List UInt64) (rows : List (UInt32 × Counters)) (others : List (List Char)) :
    List (List Char) :=
  totalLine totals :: (rows.map fun e => line e.1 e.2) ++ others

theorem isLine_numerals (ns : List UInt64) : IsLine (numerals ns) := by
  refine isLine_spaced ?_
  intro w hw
  obtain ⟨n, -, rfl⟩ := List.mem_map.1 hw
  exact Numeral.isLine_ofNat _

theorem isLine_of_mem_statLines {totals : List UInt64} {rows : List (UInt32 × Counters)}
    {others : List (List Char)} (ho : ∀ l ∈ others, IsLine l) :
    ∀ l ∈ statLines totals rows others, IsLine l := by
  intro l hl
  rcases List.mem_append.1 hl with hl | hl
  · rcases List.mem_cons.1 hl with rfl | hl
    · exact isLine_append (by decide) (isLine_numerals _)
    · obtain ⟨e, -, rfl⟩ := List.mem_map.1 hl
      exact isLine_append (by decide) (isLine_append (Numeral.isLine_ofNat _) (isLine_numerals _))
  · exact ho l hl

theorem row?_line (id : UInt32) (c : Counters) :
    row? (line id c) = some (Numeral.ofNat id.toNat, c.row.map fun n => Numeral.ofNat n.toNat) := by
  have hwords : words (Numeral.ofNat id.toNat ++ numerals c.row) =
      Numeral.ofNat id.toNat :: c.row.map fun n => Numeral.ofNat n.toNat := by
    have hrow : ∀ w ∈ c.row.map fun n => Numeral.ofNat n.toNat, IsWord w := by
      simp [Numeral.isWord_ofNat]
    simpa [numerals] using words_append_spaced (r := []) (Numeral.isWord_ofNat id.toNat) hrow (by simp)
  have hdigits : (Numeral.ofNat id.toNat).all Numeral.isDigit :=
    List.all_eq_true.2 fun c hc => Numeral.isDigit_of_mem_ofNat hc
  cases hid : Numeral.ofNat id.toNat with
  | nil => exact absurd hid (Numeral.ofNat_ne_nil _)
  | cons d ds =>
    have hd : isBlank d = false := (Numeral.isWord_ofNat id.toNat).2 d (by simp [hid])
    rw [hid] at hwords hdigits
    rw [row?, line, after?_append, hid]
    simp only [List.cons_append] at hwords ⊢
    simp only [hd, hwords, hdigits, if_true, Bool.false_eq_true, if_false]

theorem counters_map_ofNat (id : UInt32) (ns : List UInt64) :
    counters id (ns.map fun n => Numeral.ofNat n.toNat) = .ok ns := by
  induction ns with
  | nil => rfl
  | cons n ns ih => simp [counters, Numeral.word64?_ofNat, ih, Except.map]

theorem plus?_eq_some_iff {a b c : UInt64} : plus? a b = some c ↔ a.toNat + b.toNat = c.toNat := by
  unfold plus?
  constructor
  · intro h
    split at h
    case isTrue hlt =>
      cases h
      rw [UInt64.toNat_add, Nat.mod_eq_of_lt hlt]
    case isFalse => cases h
  · intro h
    have hlt : a.toNat + b.toNat < UInt64.size := h ▸ c.toNat_lt
    rw [if_pos hlt, Option.some.injEq, ← UInt64.toNat_inj, UInt64.toNat_add, Nat.mod_eq_of_lt hlt, h]

/-- Counters added one after the other give their exact sum. No sum on the way is out of range unless
the whole sum is, as each is a part of it. -/
theorem foldlM_plus?_eq_some_iff {ns : List UInt64} {a c : UInt64} :
    ns.foldlM plus? a = some c ↔ a.toNat + (ns.map (·.toNat)).sum = c.toNat := by
  induction ns generalizing a with
  | nil => simp [UInt64.toNat_inj]
  | cons n ns ih =>
    simp only [List.foldlM_cons, Option.bind_eq_bind, Option.bind_eq_some_iff, plus?_eq_some_iff, ih, List.map_cons,
      List.sum_cons]
    constructor
    · rintro ⟨b, hb, hsum⟩
      omega
    · intro hsum
      have hlt : a.toNat + n.toNat < UInt64.size := by
        have hc : c.toNat < UInt64.size := c.toNat_lt
        omega
      have hb : (UInt64.ofNat (a.toNat + n.toNat)).toNat = a.toNat + n.toNat := UInt64.toNat_ofNat_of_lt' hlt
      exact ⟨_, hb.symm, by omega⟩

theorem busy_row (id : UInt32) (c : Counters) : busy id c.row = .ok (.ofNat c.busy) := by
  have hword : (UInt64.ofNat c.busy).toNat = c.busy := UInt64.toNat_ofNat_of_lt' c.busy_lt
  have hadded : [c.user, c.nice, c.system, c.irq, c.softirq, c.steal].foldlM plus? 0 = some (.ofNat c.busy) := by
    rw [foldlM_plus?_eq_some_iff, hword]
    simp [Counters.busy, Nat.add_assoc]
  simp only [busy, Counters.row, hadded]

theorem entry_row (id : UInt32) (c : Counters) :
    entry (Numeral.ofNat id.toNat) (c.row.map fun n => Numeral.ofNat n.toNat) = .ok (id, .ofNat c.busy) := by
  rw [entry, Numeral.word32?_ofNat]
  simp only [counters_map_ofNat]
  exact bind_eq_ok_iff.2 ⟨_, rfl, bind_eq_ok_iff.2 ⟨_, busy_row id c, rfl⟩⟩

theorem row?_totalLine (ns : List UInt64) : row? (totalLine ns) = none := by
  have hafter : after? "cpu".toList (totalLine ns) = some (' ' :: numerals ns) :=
    after?_append "cpu".toList (' ' :: numerals ns)
  rw [row?, hafter]
  rfl

theorem row?_eq_none {l : List Char} (h : startsWith "cpu".toList l = false) : row? l = none := by
  have hafter : after? "cpu".toList l = none := by simpa [startsWith] using h
  rw [row?, hafter]

/-- Lines about anything else add nothing. -/
theorem entriesOf_others {ls : List (List Char)} (h : ∀ l ∈ ls, row? l = none) : entriesOf ls = .ok [] := by
  induction ls with
  | nil => rfl
  | cons l ls ih =>
    obtain ⟨hl, hls⟩ := List.forall_mem_cons.1 h
    rw [entriesOf, hl]
    exact ih hls

theorem entriesOf_lines (rows : List (UInt32 × Counters)) {others : List (List Char)}
    (ho : ∀ l ∈ others, row? l = none) :
    entriesOf ((rows.map fun e => line e.1 e.2) ++ others) =
      .ok (rows.map fun e => (e.1, .ofNat e.2.busy)) := by
  induction rows with
  | nil => exact entriesOf_others ho
  | cons e rows ih =>
    rw [List.map_cons, List.cons_append, entriesOf, row?_line]
    simp only [entry_row]
    exact bind_eq_ok_iff.2 ⟨_, rfl, bind_eq_ok_iff.2 ⟨_, ih, rfl⟩⟩

/-- Reading gives the busy time of every processor that has a line. -/
theorem parse_statLines (totals : List UInt64) (rows : List (UInt32 × Counters))
    {others : List (List Char)} (ho : ∀ l ∈ others, IsLine l ∧ startsWith "cpu".toList l = false) :
    parse (.ofList (unlines (statLines totals rows others))) =
      .ok (.ofList (rows.map fun e => (e.1, .ofNat e.2.busy))) := by
  have hlines : lines (String.ofList (unlines (statLines totals rows others))).toList =
      totalLine totals :: ((rows.map fun e => line e.1 e.2) ++ others) := by
    rw [String.toList_ofList]
    exact lines_unlines (isLine_of_mem_statLines fun l hl => (ho l hl).1)
  rw [parse, hlines, entriesOf, row?_totalLine]
  simp only [entriesOf_lines rows fun l hl => row?_eq_none (ho l hl).2]
  rfl

end PlatformSnapshot.BusyTime
