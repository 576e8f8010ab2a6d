import PlatformSnapshot.Memory.Nodes
import PlatformSnapshot.Proofs.IdList
import PlatformSnapshot.Proofs.Memory.Used
import PlatformSnapshot.Proofs.Reading
import PlatformSnapshot.Proofs.SortedMap
/-!
Memory nodes from their directories as they are written. What is known about a node depends on its
own directory only, so the order in which the directories are listed does not matter.
-/
namespace PlatformSnapshot

open Text
open Numeral (FitsInt64)

/-- A node with its free and used memory in KiB and its processors. In bytes both amounts are in the
range of a signed word. -/
structure MemoryNode where
  free : Int
  used : Int
  cpus : IdSet
  free_fits : FitsInt64 (free * 1024)
  used_fits : FitsInt64 (used * 1024)

namespace NodeMemory

def line (id : UInt32) (key : String) (gap : Nat) (kib : Int) : List Char :=
  "Node".toList ++ (spaced [Numeral.ofNat id.toNat, key.toList] ++ kibText gap kib)

/-- A line that has no word in common with those that give a figure. -/
def IsOther (l : List Char) : Prop := IsLine l ∧ ∀ k : Kind, k.key.toList ∉ words l

theorem words_line (id : UInt32) {key : String} (hk : IsWord key.toList) (gap : Nat) (kib : Int) :
    words (line id key gap kib) =
      ["Node".toList, Numeral.ofNat id.toNat, key.toList, Numeral.ofInt kib, "kB".toList] := by
  have hnode : IsWord "Node".toList := by simp [IsWord, isBlank]
  have hkey : ∀ w ∈ [Numeral.ofNat id.toNat, key.toList], IsWord w := by
    simpa using ⟨Numeral.isWord_ofNat id.toNat, hk⟩
  have hblank : ∀ c ∈ (kibText gap kib).head?, isBlank c := by
    rintro c ⟨⟩
    decide
  rw [line, words_append_spaced hnode hkey hblank, words_kibText]
  rfl

theorem isLine_line (id : UInt32) {key : String} (hk : IsLine key.toList) (gap : Nat) (kib : Int) :
    IsLine (line id key gap kib) := by
  have hkey : ∀ w ∈ [Numeral.ofNat id.toNat, key.toList], IsLine w := by
    simpa using ⟨Numeral.isLine_ofNat id.toNat, hk⟩
  exact isLine_append (by decide) (isLine_append (isLine_spaced hkey) (isLine_kibText gap kib))

theorem isWord_key (k : Kind) : IsWord k.key.toList := by
  cases k <;> simp [IsWord, isBlank, Kind.key]

theorem ofKey?_eq_some_iff {key : List Char} {k : Kind} : Kind.ofKey? key = some k ↔ key = k.key.toList := by
  constructor
  · intro h
    have hkey : k.key.toList = key := by simpa using List.find?_some h
    exact hkey.symm
  · rintro rfl
    cases k <;> decide

theorem figure?_line (id : UInt32) (k : Kind) (gap : Nat) (kib : Int) :
    figure? (line id k.key gap kib) = some (k, Numeral.ofInt kib) := by
  rw [figure?, words_line id (isWord_key k)]
  simp only [ofKey?_eq_some_iff.2 rfl]
  rfl

theorem figure?_eq_none {l : List Char} (h : ∀ k : Kind, k.key.toList ∉ words l) : figure? l = none := by
  unfold figure?
  split
  case h_2 => rfl
  case h_1 key amount _ hwords =>
    cases hk : Kind.ofKey? key with
    | none => rfl
    | some k =>
      obtain rfl := ofKey?_eq_some_iff.1 hk
      exact absurd (by simp [hwords]) (h k)

theorem amount_ofInt (k : Kind) {kib : Int} (h : FitsInt64 (kib * 1024)) :
    amount k (Numeral.ofInt kib) = .ok (.ofInt (kib * 1024)) := by
  have hkib : FitsInt64 kib := by
    obtain ⟨hlow, hhigh⟩ := h
    simp only [Int64.toInt_minValue, Int64.toInt_maxValue] at hlow hhigh
    constructor <;> simp only [Int64.toInt_minValue, Int64.toInt_maxValue] <;> omega
  have hbytes : UsedMemory.bytes? (.ofInt kib) = some (.ofInt (kib * 1024)) := by
    rw [UsedMemory.bytes?, Numeral.toInt_ofInt_of_fits hkib, Numeral.inInt64?_of_fits h]
  rw [amount, Numeral.int64?_ofInt, Numeral.inInt64?_of_fits hkib]
  simp only [hbytes]

theorem figures_line (m : NodeMemory) (id : UInt32) (k : Kind) (gap : Nat) {kib : Int}
    (h : FitsInt64 (kib * 1024)) (rest : List (List Char)) :
    figures m (line id k.key gap kib :: rest) = figures (m.set (.ofInt (kib * 1024)) k) rest := by
  rw [figures, figure?_line]
  simp only [amount_ofInt k h]

theorem figures_others {ls : List (List Char)} (h : ∀ l ∈ ls, figure? l = none) (m : NodeMemory) :
    figures m ls = .ok m := by
  induction ls with
  | nil => rfl
  | cons l ls ih =>
    obtain ⟨hl, hls⟩ := List.forall_mem_cons.1 h
    rw [figures, hl]
    exact ih hls

end NodeMemory

namespace MemoryNode

open NodeMemory (IsOther)

/-- The lines of a node's memory file: the total, both figures, and others. -/
def memoryLines (n : MemoryNode) (id : UInt32) (gap : String → Nat) (others : List (List Char)) :
    List (List Char) :=
  NodeMemory.line id "MemTotal:" (gap "MemTotal:") (n.free + n.used) ::
    NodeMemory.line id "MemFree:" (gap "MemFree:") n.free ::
    NodeMemory.line id "MemUsed:" (gap "MemUsed:") n.used :: others

/-- What is to be read of the node. -/
def reading (n : MemoryNode) : Nodes.Reading :=
  ⟨⟨some (.ofInt (n.free * 1024)), some (.ofInt (n.used * 1024))⟩, n.cpus⟩

theorem parse_memoryLines (n : MemoryNode) (id : UInt32) (gap : String → Nat) {others : List (List Char)}
    (ho : ∀ l ∈ others, IsOther l) :
    NodeMemory.parse (.ofList (unlines (n.memoryLines id gap others))) = .ok n.reading.memory := by
  have hline : ∀ l ∈ n.memoryLines id gap others, IsLine l := by
    simp only [memoryLines, List.mem_cons]
    rintro l (rfl | rfl | rfl | hl)
    · exact NodeMemory.isLine_line id (by decide) _ _
    · exact NodeMemory.isLine_line id (by decide) _ _
    · exact NodeMemory.isLine_line id (by decide) _ _
    · exact (ho l hl).1
  have htotal : NodeMemory.figure? (NodeMemory.line id "MemTotal:" (gap "MemTotal:") (n.free + n.used)) = none := by
    rw [NodeMemory.figure?, NodeMemory.words_line id (by simp [IsWord, isBlank])]
    rfl
  have hothers : ∀ l ∈ others, NodeMemory.figure? l = none :=
    fun l hl => NodeMemory.figure?_eq_none (ho l hl).2
  rw [NodeMemory.parse, String.toList_ofList, lines_unlines hline, memoryLines, NodeMemory.figures, htotal]
  exact (NodeMemory.figures_line {} id .free _ n.free_fits _).trans
    ((NodeMemory.figures_line _ id .used _ n.used_fits _).trans (NodeMemory.figures_others hothers _))

end MemoryNode

namespace Nodes

variable {view : Files.Access} {root : String} {f : UInt32 → Reading}

/-- The name of a node's directory. -/
def name (id : UInt32) : String := .ofList ("node".toList ++ Numeral.ofNat id.toNat)

theorem toList_name (id : UInt32) : (name id).toList = "node".toList ++ Numeral.ofNat id.toNat :=
  String.toList_ofList

theorem id?_name (id : UInt32) : id? (name id) = some id := by
  have hafter : after? "node".toList (name id).toList = some (Numeral.ofNat id.toNat) := by
    rw [toList_name, after?_append]
  have hid : id.toNat < UInt32.size := id.toNat_lt
  rw [id?, hafter]
  simp only [Numeral.digits?_ofNat, Option.bind_some, if_pos hid]
  exact congrArg some (UInt32.ofNat_toNat)

/-- The readings are those of the nodes seen so far. -/
structure Given (n : Nodes) (f : UInt32 → Reading) (seen : List UInt32) : Prop where
  free : ∀ id, n.free.get? id = if id ∈ seen then (f id).memory.free else none
  used : ∀ id, n.used.get? id = if id ∈ seen then (f id).memory.used else none
  cpus : ∀ id, n.cpus.get? id = if id ∈ seen then some (f id).cpus else none

theorem given_empty : Given {} f [] := by
  constructor <;> simp

theorem get?_insertSome {m : SortedMap UInt32 Int64} {v : UInt32 → Option Int64} {seen : List UInt32}
    (h : ∀ id, m.get? id = if id ∈ seen then v id else none) (new id : UInt32) :
    (insertSome m new (v new)).get? id = if id ∈ new :: seen then v id else none := by
  by_cases hid : id = new
  · subst hid
    cases hv : v id <;> simp [insertSome, SortedMap.get?_insert, h, hv]
  · cases hv : v new <;> simp [insertSome, SortedMap.get?_insert, h, hid]

/-- One more node, new or seen before. -/
theorem given_add {n : Nodes} {seen : List UInt32} (h : n.Given f seen) (new : UInt32) :
    (n.add new (f new)).Given f (new :: seen) where
  free := get?_insertSome h.free new
  used := get?_insertSome h.used new
  cpus id := by
    by_cases hid : id = new <;> simp [add, SortedMap.get?_insert, h.cpus, hid]

/-- Entries that are nodes and can be read are all read; the others are passed over. -/
theorem readEntries_given {names : List String} {n : Nodes} {seen : List UInt32} (hn : n.Given f seen)
    (h : ∀ name ∈ names, ∀ id, id? name = some id → readNode view (Path.join root name) = .ok (f id)) :
    ∃ m seen', readEntries view root n names = .ok m ∧ m.Given f seen' ∧
      ∀ id, id ∈ seen' ↔ id ∈ seen ∨ some id ∈ names.map id? := by
  induction names generalizing n seen with
  | nil => exact ⟨n, seen, rfl, hn, by simp⟩
  | cons name names ih =>
    obtain ⟨hname, hnames⟩ := List.forall_mem_cons.1 h
    cases hid : id? name with
    | none =>
      obtain ⟨m, seen', hm, hgiven, hseen⟩ := ih hn hnames
      exact ⟨m, seen', by rw [readEntries_skip hid, hm], hgiven, fun id => by simp [hseen, hid]⟩
    | some new =>
      obtain ⟨m, seen', hm, hgiven, hseen⟩ := ih (given_add hn new) hnames
      refine ⟨m, seen', ?_, hgiven, fun id => ?_⟩
      · rw [readEntries_node hid, hname new hid, ← hm]
        rfl
      · rw [hseen, List.map_cons, List.mem_cons, List.mem_cons, hid, Option.some.injEq]
        exact or_assoc.trans or_left_comm

end Nodes
end PlatformSnapshot
