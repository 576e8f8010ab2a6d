import Mathlib.Data.List.Forall2
import Mathlib.Data.List.Perm.Basic
import PlatformSnapshot.Proofs.Processor.Descriptor
/-!
The arrangement of a processor descriptor does not show in its topology. Its records may come in any
order, with as many blank lines around them as one likes, and the lines of a record in any order as
long as no key is given twice. A last line need not end in a line feed.
-/
namespace PlatformSnapshot.Processor

open Text
open scoped List

/-- Blocks of lines under one another, set apart by blank lines. -/
structure Arrangement where
  /-- The blank lines before the first block. -/
  lead : List (List Char)
  /-- The blocks, each with the blank lines after it. -/
  rows : List (List (List Char) × List (List Char))
  /-- Whether the last line ends in a line feed. -/
  ended : Bool
  lead_blank : ∀ l ∈ lead, isBlankLine l = true
  gaps_blank : ∀ r ∈ rows, ∀ l ∈ r.2, isBlankLine l = true
  blocks_written : ∀ r ∈ rows, r.1 ≠ [] ∧ ∀ l ∈ r.1, isBlankLine l = false
  apart : ∀ r ∈ rows.dropLast, r.2 ≠ []
  one_line : ∀ l ∈ lead ++ rows.flatMap (fun r => r.1 ++ r.2), '\n' ∉ l

namespace Arrangement

def lines (a : Arrangement) : List (List Char) := a.lead ++ a.rows.flatMap fun r => r.1 ++ r.2

def blocks (a : Arrangement) : List (List (List Char)) := a.rows.map (·.1)

def text (a : Arrangement) : String :=
  .ofList (IdList.joinWith '\n' a.lines ++ if a.ended then ['\n'] else [])

end Arrangement

/-- No two of the lines give a value for one key. -/
def DistinctKeys (block : List (List Char)) : Prop :=
  block.Pairwise fun l m => ∀ key v w, Gives l key v → ¬ Gives m key w

/-- The same lines, in another order only if their keys are distinct. -/
def Reordered (block block' : List (List Char)) : Prop := block = block' ∨ block ~ block' ∧ DistinctKeys block

/-- The same blocks in any order, each of them reordered. -/
def Rearranged (blocks blocks' : List (List (List Char))) : Prop :=
  ∃ middle, List.Forall₂ Reordered blocks middle ∧ middle ~ blocks'

/-- The same processors on the same cores; the model is left open. -/
structure SameTopology (t u : Topology) : Prop where
  cpus : t.cpus = u.cpus
  cores : t.cores = u.cores
  sockets : t.sockets = u.sockets
  layout : t.layout = u.layout

variable {a b : Arrangement} {block block' ls : List (List Char)} {blocks blocks' : List (List (List Char))}
  {l : List Char} {rs rs' : List Record} {ss : List Seat} {t u : Topology}

theorem runs_rows {rows : List (List (List Char) × List (List Char))}
    (hgaps : ∀ r ∈ rows, ∀ l ∈ r.2, isBlankLine l = true)
    (hblocks : ∀ r ∈ rows, r.1 ≠ [] ∧ ∀ l ∈ r.1, isBlankLine l = false)
    (hapart : ∀ r ∈ rows.dropLast, r.2 ≠ []) :
    Runs (rows.flatMap fun r => r.1 ++ r.2) (rows.map (·.1)) := by
  induction rows with
  | nil => exact .none
  | cons r rows ih =>
    obtain ⟨hgap, hgaps⟩ := List.forall_mem_cons.1 hgaps
    obtain ⟨⟨hne, hblock⟩, hblocks⟩ := List.forall_mem_cons.1 hblocks
    rw [List.flatMap_cons, List.map_cons, List.append_assoc]
    cases rows with
    | nil =>
      refine .run hne hblock ?_ (Runs.blanks_append hgap .none)
      simpa using fun l hl => hgap l (List.mem_of_head? hl)
    | cons r' rows =>
      obtain ⟨hgap_ne, hapart⟩ := List.forall_mem_cons.1 hapart
      refine .run hne hblock ?_ (Runs.blanks_append hgap (ih hgaps hblocks hapart))
      rw [List.head?_append_of_ne_nil _ hgap_ne]
      exact fun l hl => hgap l (List.mem_of_head? hl)

namespace Arrangement

/-- The blocks are the runs of the lines. -/
theorem runs_lines (a : Arrangement) : Runs a.lines a.blocks :=
  Runs.blanks_append a.lead_blank (runs_rows a.gaps_blank a.blocks_written a.apart)

/-- The text is cut into the lines again; blank ones may be added at the end. -/
theorem exists_pieces (a : Arrangement) :
    ∃ pieces, Text.lines a.text.toList = closeLines pieces ∧ Runs pieces a.blocks := by
  have hblank : isBlankLine [] = true := rfl
  have hjoin : ∃ pieces, splitOn '\n' (IdList.joinWith '\n' a.lines) = pieces ∧ Runs pieces a.blocks := by
    cases hlines : a.lines with
    | nil =>
      have hruns := a.runs_lines.append_blank hblank
      rw [hlines] at hruns
      exact ⟨[[]], rfl, hruns⟩
    | cons l ls =>
      have hne : a.lines ≠ [] := by simp [hlines]
      rw [← hlines]
      exact ⟨_, splitOn_joinWith hne a.one_line, a.runs_lines⟩
  obtain ⟨pieces, hpieces, hruns⟩ := hjoin
  rw [text, String.toList_ofList, Text.lines]
  cases a.ended with
  | false =>
    refine ⟨pieces, ?_, hruns⟩
    rw [if_neg (by decide), List.append_nil, hpieces]
  | true =>
    refine ⟨pieces ++ [[]], ?_, hruns.append_blank hblank⟩
    rw [if_pos rfl, splitOn_append_cons, hpieces]
    rfl

end Arrangement

theorem records_text (a : Arrangement) : records a.text = .ok rs ↔
    (∀ block ∈ a.blocks, Paired block) ∧ a.blocks.map (fun block => .ofList (pairs block)) = rs := by
  obtain ⟨pieces, hpieces, hruns⟩ := a.exists_pieces
  exact records_eq_ok_iff hpieces hruns

theorem distinctKeys_iff : DistinctKeys block ↔ ((pairs block).map (·.1)).Nodup := by
  rw [DistinctKeys, List.Nodup, List.pairwise_map, pairs, List.pairwise_filterMap]
  refine List.Pairwise.iff fun {l m} => ?_
  simp only [pair?_eq_some_iff, Prod.forall]
  constructor
  · rintro h key v hl _ w hm rfl
    exact h key v w hl hm
  · intro h key v w hl hm
    exact h key v hl key w hm rfl

/-- A block makes the same record in any order of its lines if their keys are distinct. -/
theorem Reordered.ofList_pairs (h : Reordered block block') :
    SortedMap.ofList (pairs block) = .ofList (pairs block') := by
  rcases h with rfl | ⟨hperm, hkeys⟩
  · rfl
  · exact SortedMap.ofList_perm (hperm.filterMap _) (distinctKeys_iff.1 hkeys)

theorem Reordered.mem_iff (h : Reordered block block') : l ∈ block ↔ l ∈ block' := by
  rcases h with rfl | ⟨hperm, -⟩
  · rfl
  · exact hperm.mem_iff

theorem Rearranged.paired_iff (h : Rearranged blocks blocks') :
    (∀ block ∈ blocks, Paired block) ↔ ∀ block ∈ blocks', Paired block := by
  obtain ⟨middle, hreordered, hperm⟩ := h
  have hpaired : ∀ block block', Reordered block block' → (Paired block ↔ Paired block') := by
    intro block block' h
    simp only [Paired, h.mem_iff]
  have hmiddle : (∀ block ∈ blocks, Paired block) ↔ ∀ block ∈ middle, Paired block := by
    clear hperm
    induction hreordered with
    | nil => rfl
    | cons h _ ih => rw [List.forall_mem_cons, List.forall_mem_cons, hpaired _ _ h, ih]
  rw [hmiddle]
  simp only [hperm.mem_iff]

theorem Rearranged.perm_records (h : Rearranged blocks blocks') :
    blocks.map (fun block => (.ofList (pairs block) : Record)) ~ blocks'.map fun block => .ofList (pairs block) := by
  obtain ⟨middle, hreordered, hperm⟩ := h
  have hmiddle : blocks.map (fun block => (.ofList (pairs block) : Record)) =
      middle.map fun block => .ofList (pairs block) := by
    clear hperm
    induction hreordered with
    | nil => rfl
    | cons h _ ih => rw [List.map_cons, List.map_cons, h.ofList_pairs, ih]
  rw [hmiddle]
  exact hperm.map _

theorem exists_seats_of_perm (h : rs ~ rs') (hss : List.Forall₂ Sits rs ss) :
    ∃ ss', List.Forall₂ Sits rs' ss' ∧ ss ~ ss' := by
  obtain ⟨ss', hss', hperm⟩ := List.perm_comp_forall₂ h.symm hss
  exact ⟨ss', hss', hperm.symm⟩

/-- What is accepted, and as what, depends on the records of the blocks alone, but for the model. -/
theorem parse_text_eq_ok_iff (a : Arrangement) : Topology.parse a.text = .ok t ↔
    (∀ block ∈ a.blocks, Paired block) ∧
      ∃ ss, List.Forall₂ Sits (a.blocks.map fun block => .ofList (pairs block)) ss ∧ ss ≠ [] ∧
        (ss.map (·.id)).Nodup ∧ Topology.ofSeats ss (model a.text) = t := by
  simp only [Topology.parse_eq_ok_iff, records_text, seats_eq_ok_iff]
  constructor
  · rintro ⟨_, ss, ⟨hpaired, rfl⟩, hss, h⟩
    exact ⟨hpaired, ss, hss, h⟩
  · rintro ⟨hpaired, ss, hss, h⟩
    exact ⟨_, ss, ⟨hpaired, rfl⟩, hss, h⟩

theorem exists_parse_text (hpaired : (∀ block ∈ a.blocks, Paired block) → ∀ block ∈ b.blocks, Paired block)
    (hrecords : a.blocks.map (fun block => (.ofList (pairs block) : Record)) ~
      b.blocks.map fun block => .ofList (pairs block))
    (h : Topology.parse a.text = .ok t) : ∃ u, Topology.parse b.text = .ok u ∧ SameTopology t u := by
  obtain ⟨hc, ss, hss, hne, hd, rfl⟩ := (parse_text_eq_ok_iff a).1 h
  obtain ⟨ss', hss', hperm⟩ := exists_seats_of_perm hrecords hss
  have hne' : ss' ≠ [] := fun hnil => hne (hnil ▸ hperm).eq_nil
  have hd' : (ss'.map (·.id)).Nodup := (hperm.map _).nodup_iff.1 hd
  have hlayout : Layout.ofSeats ss = Layout.ofSeats ss' := Layout.ofSeats_perm hperm hd
  refine ⟨_, (parse_text_eq_ok_iff b).2 ⟨hpaired hc, ss', hss', hne', hd', rfl⟩, ?_⟩
  exact ⟨hperm.length_eq, congrArg (·.cores.length) hlayout, congrArg (·.size) hlayout, hlayout⟩

/-- Two arrangements of the same blocks are both refused, or both accepted with one processor for each
block and the same topology. -/
theorem parse_of_rearranged (h : Rearranged a.blocks b.blocks) :
    (∃ t u, Topology.parse a.text = .ok t ∧ Topology.parse b.text = .ok u ∧ t.cpus = a.blocks.length ∧
      SameTopology t u) ∨
      ∃ d e, Topology.parse a.text = .error d ∧ Topology.parse b.text = .error e := by
  cases ha : Topology.parse a.text with
  | ok t =>
    obtain ⟨u, hu, hsame⟩ := exists_parse_text h.paired_iff.1 h.perm_records ha
    obtain ⟨-, ss, hss, -, -, rfl⟩ := (parse_text_eq_ok_iff a).1 ha
    have hcpus : ss.length = a.blocks.length := by simpa using hss.length_eq.symm
    exact .inl ⟨_, u, rfl, hu, hcpus, hsame⟩
  | error d =>
    cases hb : Topology.parse b.text with
    | error e => exact .inr ⟨d, e, rfl, rfl⟩
    | ok u =>
      obtain ⟨t, ht, -⟩ := exists_parse_text h.paired_iff.2 h.perm_records.symm hb
      rw [ha] at ht
      cases ht

def firstBlock : List (List Char) := ["processor : 4", "physical id : 0", "core id : 1"].map String.toList

def secondBlock : List (List Char) := ["processor : 2", "physical id\t: 0", "core id : 1 "].map String.toList

def tightArrangement : Arrangement where
  lead := []
  rows := [(firstBlock, [[]]), (secondBlock, [])]
  ended := false
  lead_blank := by decide +kernel
  gaps_blank := by decide +kernel
  blocks_written := by decide +kernel
  apart := by decide +kernel
  one_line := by decide +kernel

def looseArrangement : Arrangement where
  lead := [[' ', '\r']]
  rows := [(secondBlock.reverse, [[], ['\t']]), (firstBlock, [[], []])]
  ended := true
  lead_blank := by decide +kernel
  gaps_blank := by decide +kernel
  blocks_written := by decide +kernel
  apart := by decide +kernel
  one_line := by decide +kernel

theorem parse_looseArrangement : Rearranged tightArrangement.blocks looseArrangement.blocks ∧
    ∃ t u, Topology.parse tightArrangement.text = .ok t ∧ Topology.parse looseArrangement.text = .ok u ∧
      t.cpus = 2 ∧ SameTopology t u := by
  have hreversed : Reordered secondBlock secondBlock.reverse :=
    .inr ⟨(List.reverse_perm _).symm, distinctKeys_iff.2 (by decide +kernel)⟩
  have hrearranged : Rearranged tightArrangement.blocks looseArrangement.blocks :=
    ⟨[firstBlock, secondBlock.reverse], .cons (.inl rfl) (.cons hreversed .nil), .swap ..⟩
  refine ⟨hrearranged, ?_⟩
  rcases parse_of_rearranged hrearranged with h | ⟨d, -, hd, -⟩
  · exact h
  · obtain ⟨t, ht⟩ := exists_ok_of_isOk (x := Topology.parse tightArrangement.text) (by decide +kernel)
    rw [ht] at hd
    cases hd

end PlatformSnapshot.Processor
