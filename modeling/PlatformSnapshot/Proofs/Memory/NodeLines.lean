import PlatformSnapshot.Proofs.Memory.Nodes
import PlatformSnapshot.Proofs.Text.Decimal
import PlatformSnapshot.Proofs.Text.Rows
/-!
Which texts give the memory of a node, and how much it is. Only lines of five words about one of the
two figures matter. Each has to hold a number of KiB that is in range in bytes, also one that a later
line overrides; of the lines about one figure the last counts, whatever is said of the other.
-/
namespace PlatformSnapshot.NodeMemory

open Text
open Numeral (FitsInt64 SpellsSigned)

/-- The line is about this figure: it has five words, the third is the key and the fourth is this one. -/
def IsRow (line : List Char) (k : Kind) (w : List Char) : Prop :=
  ∃ a b c, WordsOf line [a, b, k.key.toList, w, c]

/-- The word spells a number of KiB, which are so many bytes. -/
def SpellsKiB (w : List Char) (n : Int64) : Prop := ∃ kib, SpellsSigned w kib ∧ kib.toInt * 1024 = n.toInt

/-- What is wrong with an amount: it is no number, or so large that its bytes are out of range. -/
inductive IsBad (k : Kind) (w : List Char) : Fault → Prop where
  | noNumber (hw : ∀ kib, ¬ SpellsSigned w kib) : IsBad k w (.badAmount (.ofList w) k.key)
  | overflow (hw : SpellsSigned w kib) (h : ¬ FitsInt64 (kib.toInt * 1024)) : IsBad k w (.amountOverflow k.key kib)

def rows : RowFormat Kind Int64 := ⟨IsRow, SpellsKiB, IsBad⟩

def get (m : NodeMemory) : Kind → Option Int64
  | .free => m.free
  | .used => m.used

/-- What some lines tell of the two figures: of each the bytes that the last line about it gives, and
nothing if there is no such line. -/
structure Accounts (ls : List (List Char)) (m : NodeMemory) : Prop where
  sound : ∀ l ∈ ls, rows.Sound l
  get_eq_some : ∀ k n, m.get k = some n ↔ rows.LastGives ls k n
  get_eq_none : ∀ k, m.get k = none ↔ ∀ l ∈ ls, ¬ rows.About l k

variable {line w : List Char} {k : Kind} {n : Int64} {m : NodeMemory} {fault : Fault} {ls : List (List Char)}
  {text : String}

theorem figure?_eq_some_iff : figure? line = some (k, w) ↔ IsRow line k w := by
  simp only [IsRow, ← words_eq_iff]
  constructor
  · intro h
    unfold figure? at h
    split at h
    case h_1 a b key amount c hwords =>
      obtain ⟨_, hk, he⟩ := Option.map_eq_some_iff.1 h
      cases he
      obtain rfl := ofKey?_eq_some_iff.1 hk
      exact ⟨a, b, c, hwords⟩
    case h_2 => cases h
  · rintro ⟨a, b, c, hwords⟩
    rw [figure?, hwords]
    simp only [ofKey?_eq_some_iff.2 rfl, Option.map_some]

theorem amount_eq_ok_iff : amount k w = .ok n ↔ SpellsKiB w n := by
  simp only [SpellsKiB, ← Numeral.int64?_eq_some_iff, ← UsedMemory.bytes?_eq_some_iff]
  unfold amount
  cases Numeral.int64? w with
  | none => simp
  | some kib => cases hbytes : UsedMemory.bytes? kib <;> simp [hbytes]

theorem amount_eq_error_iff : amount k w = .error fault ↔ IsBad k w fault := by
  constructor
  · intro h
    unfold amount at h
    split at h
    case h_1 hword =>
      cases h
      exact .noNumber fun kib hkib => by simp [Numeral.int64?_eq_some_iff.2 hkib] at hword
    case h_2 kib hword =>
      split at h
      case h_1 hbytes =>
        cases h
        exact .overflow (Numeral.int64?_eq_some_iff.1 hword) (UsedMemory.bytes?_eq_none_iff.1 hbytes)
      case h_2 => cases h
  · rintro (hw | ⟨hw, hover⟩)
    · have hword : Numeral.int64? w = none :=
        Option.eq_none_iff_forall_ne_some.2 fun kib hkib => hw kib (Numeral.int64?_eq_some_iff.1 hkib)
      rw [amount, hword]
    · rw [amount, Numeral.int64?_eq_some_iff.2 hw]
      simp only [UsedMemory.bytes?_eq_none_iff.2 hover]

theorem readBy_amount : rows.ReadBy figure? amount :=
  ⟨fun _ _ _ => figure?_eq_some_iff, fun _ _ _ => amount_eq_ok_iff, fun _ _ _ => amount_eq_error_iff⟩

theorem isSlots : IsSlots get set some where
  get_set m n k j := by cases k <;> cases j <;> simp [get, set]
  ext m m' h := by
    obtain ⟨⟩ := m
    obtain ⟨⟩ := m'
    simpa [get] using And.intro (h .free) (h .used)

instance (line : List Char) (k : Kind) : Decidable (rows.About line k) := decidable_of_iff _ readBy_amount.about_iff

instance (line : List Char) : Decidable (rows.Matters line) := decidable_of_iff _ readBy_amount.matters_iff

instance (line : List Char) : Decidable (rows.Sound line) := decidable_of_iff _ readBy_amount.isOk_iff

theorem figures_eq_fill (m : NodeMemory) (ls : List (List Char)) : figures m ls = fill set figure? amount m ls := by
  refine eq_fill (fun _ => rfl) (fun m line ls => ?_) m ls
  rw [figures]
  cases figure? line with
  | none => rfl
  | some e =>
    dsimp only
    cases amount e.1 e.2 <;> rfl

theorem parse_eq_fill (text : String) : parse text = fill set figure? amount {} (lines text.toList) :=
  figures_eq_fill {} (lines text.toList)

theorem accounts_iff : Accounts ls m ↔ (∀ l ∈ ls, rows.Sound l) ∧ ∀ k u, m.get k = u ↔
    (∃ n, rows.LastGives ls k n ∧ some n = u) ∨ (∀ l ∈ ls, ¬ rows.About l k) ∧ none = u := by
  constructor
  · intro h
    refine ⟨h.sound, fun k u => ?_⟩
    cases u with
    | none => simp [h.get_eq_none]
    | some n => simp [h.get_eq_some]
  · intro h
    exact ⟨h.1, fun k n => by simp [h.2], fun k => by simp [h.2]⟩

theorem parse_eq_ok_iff : parse text = .ok m ↔ Accounts (lines text.toList) m := by
  have hempty : ∀ k, get {} k = none := by
    intro k
    cases k <;> rfl
  rw [parse_eq_fill, fill_eq_ok_iff readBy_amount isSlots, accounts_iff]
  simp only [hempty]

/-- A text is accepted if each of its lines about a figure holds an amount that is in range in bytes, and
then tells of each figure what the last line about it gives. Otherwise it is refused for the first line
that does not. Other lines do not matter, nor do the lines about one figure for the other. -/
theorem tells_or_firstFault (text : String) :
    ((∃ m, parse text = .ok m) ↔ ∀ l ∈ lines text.toList, rows.Sound l) ∧
    (∀ m, parse text = .ok m ↔ Accounts (lines text.toList) m) ∧
    (∀ fault, parse text = .error fault ↔ FirstFailure rows.FaultOf (lines text.toList) fault) ∧
    (∀ other, (lines other.toList).filter rows.Matters = (lines text.toList).filter rows.Matters →
      parse other = parse text) ∧
    ∀ other m m' k, (lines other.toList).filter (rows.About · k) = (lines text.toList).filter (rows.About · k) →
      parse text = .ok m → parse other = .ok m' → m'.get k = m.get k := by
  refine ⟨?_, fun m => parse_eq_ok_iff, fun fault => ?_, fun other hsame => ?_, fun other m m' k hsame hm hm' => ?_⟩
  · simp only [parse_eq_fill, exists_fill_iff readBy_amount]
  · rw [parse_eq_fill, fill_eq_error_iff readBy_amount]
  · rw [parse_eq_fill, parse_eq_fill, ← fill_filter readBy_amount, hsame, fill_filter readBy_amount]
  · rw [parse_eq_fill] at hm hm'
    exact get_fill_congr readBy_amount isSlots hsame hm' hm

/-- Two lines about the free memory, one about the used, and one that does not matter. -/
def mixedNode : String :=
  "Node 0 MemFree: 9 kB\nNode 0 MemUsed: -9007199254740992 kB\nNode 0 MemTotal: x kB\nNode 0 MemFree:\t+12 kB\n"

/-- The same free memory after a different line about the used. -/
def otherUsed : String := "Node 0 MemUsed: 5 kB\nNode 0 MemFree: 9 kB\nNode 0 MemFree:\t+12 kB\n"

/-- The same rows as the first without the line that does not matter. -/
def rowsOnly : String := "Node 0 MemFree: 9 kB\nNode 0 MemUsed: -9007199254740992 kB\nNode 0 MemFree:\t+12 kB\n"

theorem tells_mixedNode :
    (lines rowsOnly.toList).filter rows.Matters = (lines mixedNode.toList).filter rows.Matters ∧
    (lines otherUsed.toList).filter (rows.About · .free) = (lines mixedNode.toList).filter (rows.About · .free) ∧
    parse rowsOnly = parse mixedNode ∧
    ∃ m m', parse mixedNode = .ok m ∧ Accounts (lines mixedNode.toList) m ∧ parse otherUsed = .ok m' ∧
      m'.get .free = m.get .free := by
  have hrows : (lines rowsOnly.toList).filter rows.Matters = (lines mixedNode.toList).filter rows.Matters := by
    decide +kernel
  have hfree : (lines otherUsed.toList).filter (rows.About · .free) =
      (lines mixedNode.toList).filter (rows.About · .free) := by
    decide +kernel
  obtain ⟨hok, haccounts, -, hmatters, hslot⟩ := tells_or_firstFault mixedNode
  obtain ⟨m, hm⟩ := hok.2 (by decide +kernel)
  obtain ⟨m', hm'⟩ := (tells_or_firstFault otherUsed).1.2 (by decide +kernel)
  exact ⟨hrows, hfree, hmatters rowsOnly hrows, m, m', hm, (haccounts m).1 hm, hm',
    hslot otherUsed m m' .free hfree hm hm'⟩

-- an amount out of range is refused even if a later line overrides it
example : parse "Node 0 MemFree: 9007199254740992 kB\nNode 0 MemFree: 1 kB\n" =
    .error (.amountOverflow "MemFree:" 9007199254740992) := by decide +kernel

end PlatformSnapshot.NodeMemory
