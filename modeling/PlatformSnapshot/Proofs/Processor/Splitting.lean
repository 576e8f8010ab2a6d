import Mathlib.Data.List.Forall2
import Mathlib.Data.List.Perm.Basic
import PlatformSnapshot.Proofs.Processor.Runs
/-!
The splitting of a descriptor into records, said of its text as a whole. A stretch of lines is a maximal
run if none of them is blank and the lines next to it, where there are any, are. A text has one record
for each maximal run, in the order in which they stand, so a blank line put between two texts keeps
their records apart.
-/
namespace PlatformSnapshot.Processor

open Text

/-- Some lines of a text, with those before them and those after them. -/
structure Stretch where
  before : List (List Char)
  run : List (List Char)
  after : List (List Char)

namespace Stretch

/-- A maximal run of lines that are not blank. It may begin with the first line or end with the last. -/
structure IsRunOf (s : Stretch) (ls : List (List Char)) : Prop where
  lines_eq : ls = s.before ++ (s.run ++ s.after)
  ne_nil : s.run ≠ []
  written : ∀ l ∈ s.run, isBlankLine l = false
  starts : ∀ l ∈ s.before.getLast?, isBlankLine l = true
  ends : ∀ l ∈ s.after.head?, isBlankLine l = true

/-- The same stretch with more lines before it. -/
def under (lead : List (List Char)) (s : Stretch) : Stretch := { s with before := lead ++ s.before }

end Stretch

/-- All maximal runs of the lines, from the first to the last. -/
structure AllRuns (ls : List (List Char)) (ss : List Stretch) : Prop where
  mem_iff : ∀ s : Stretch, s ∈ ss ↔ s.IsRunOf ls
  ascending : ss.Pairwise fun s t => s.before.length < t.before.length

/-- The text has these records: one for each maximal run of its lines, in order. -/
def SplitsInto (text : String) (rs : List Record) : Prop :=
  ∃ ss, AllRuns (lines text.toList) ss ∧ List.Forall₂ (fun s r => IsRecord s.run r) ss rs

variable {ls run lead before : List (List Char)} {runs : List (List (List Char))} {l : List Char} {s t : Stretch}
  {ss ss' : List Stretch} {r : Record} {rs : List Record} {text : String}

namespace Stretch

theorem not_isRunOf_nil : ¬ s.IsRunOf [] := by
  intro h
  have hnil : s.run ++ s.after = [] := (List.append_eq_nil_iff.1 h.lines_eq.symm).2
  exact h.ne_nil (List.append_eq_nil_iff.1 hnil).1

/-- Where a text begins with a blank line, no run begins. -/
theorem IsRunOf.before_ne_nil (h : s.IsRunOf ls) (hhead : ∀ l ∈ ls.head?, isBlankLine l = true) :
    s.before ≠ [] := by
  intro hbefore
  obtain ⟨l, rest, hrun⟩ := List.exists_cons_of_ne_nil h.ne_nil
  have hlines := h.lines_eq
  rw [hbefore, hrun] at hlines
  have hblank : isBlankLine l = true := hhead l (by rw [hlines]; rfl)
  have hwritten : isBlankLine l = false := h.written l (hrun ▸ List.mem_cons_self)
  rw [hblank] at hwritten
  cases hwritten

/-- Before a run stands a blank line or nothing. -/
theorem IsRunOf.before_eq_nil (h : s.IsRunOf ls) (hbefore : ∀ l ∈ s.before, isBlankLine l = false) :
    s.before = [] := by
  by_contra hnil
  have hlast : isBlankLine (s.before.getLast hnil) = true := h.starts _ (List.getLast?_eq_some_getLast hnil)
  rw [hbefore _ (List.getLast_mem hnil)] at hlast
  cases hlast

/-- A run is known by the place where it begins. -/
theorem IsRunOf.eq_of_before (h : s.IsRunOf ls) (h' : t.IsRunOf ls) (hbefore : s.before = t.before) : s = t := by
  have hlines : s.before ++ (s.run ++ s.after) = s.before ++ (t.run ++ t.after) := by
    rw [← h.lines_eq, hbefore, ← h'.lines_eq]
  have hs := takeWhile_append (p := fun l => !isBlankLine l) (by simpa using h.written) (by simpa using h.ends)
  have ht := takeWhile_append (p := fun l => !isBlankLine l) (by simpa using h'.written) (by simpa using h'.ends)
  rw [List.append_cancel_left hlines] at hs
  cases s
  cases t
  congr
  · exact hs.1.symm.trans ht.1
  · exact hs.2.symm.trans ht.2

/-- A run is one of a longer text too if the lines put before it do not lengthen it. -/
theorem IsRunOf.under (h : s.IsRunOf ls) (hlead : s.before = [] → ∀ l ∈ lead.getLast?, isBlankLine l = true) :
    (s.under lead).IsRunOf (lead ++ ls) := by
  refine ⟨?_, h.ne_nil, h.written, ?_, h.ends⟩
  · rw [h.lines_eq, Stretch.under, List.append_assoc]
  · intro l hl
    cases hbefore : s.before with
    | nil =>
      apply hlead hbefore l
      simpa [Stretch.under, hbefore] using hl
    | cons m before =>
      apply h.starts l
      simpa [Stretch.under, hbefore] using hl

theorem IsRunOf.exists_under (h : s.IsRunOf (lead ++ ls)) (hbefore : s.before = lead ++ before) :
    ∃ t : Stretch, t.IsRunOf ls ∧ t.under lead = s := by
  refine ⟨{ s with before }, ⟨?_, h.ne_nil, h.written, ?_, h.ends⟩, ?_⟩
  · have hlines := h.lines_eq
    rw [hbefore, List.append_assoc] at hlines
    exact List.append_cancel_left hlines
  · intro l hl
    apply h.starts l
    rw [hbefore, Option.mem_def, List.getLast?_append, Option.mem_def.1 hl]
    rfl
  · rw [Stretch.under, ← hbefore]

/-- The runs below a blank line are those without it. -/
theorem isRunOf_cons_blank_iff (hl : isBlankLine l = true) :
    s.IsRunOf (l :: ls) ↔ ∃ t : Stretch, t.IsRunOf ls ∧ t.under [l] = s := by
  constructor
  · intro h
    cases hbefore : s.before with
    | nil => exact absurd hbefore (h.before_ne_nil (by simpa using hl))
    | cons m before =>
      have hlines := h.lines_eq
      rw [hbefore] at hlines
      cases hlines
      exact IsRunOf.exists_under h hbefore
  · rintro ⟨t, ht, rfl⟩
    apply ht.under
    intro _
    simpa using hl

/-- A text that begins with a run up to a blank line has this run and those of the rest. -/
theorem isRunOf_append_iff (hne : run ≠ []) (hrun : ∀ l ∈ run, isBlankLine l = false)
    (hend : ∀ l ∈ ls.head?, isBlankLine l = true) :
    s.IsRunOf (run ++ ls) ↔ s = ⟨[], run, ls⟩ ∨ ∃ t : Stretch, t.IsRunOf ls ∧ t.under run = s := by
  have hfirst : IsRunOf ⟨[], run, ls⟩ (run ++ ls) := ⟨rfl, hne, hrun, by simp, hend⟩
  constructor
  · intro h
    rcases List.append_eq_append_iff.1 h.lines_eq with ⟨before, hbefore, -⟩ | ⟨rest, hsplit, -⟩
    · exact .inr (h.exists_under hbefore)
    · -- what stands before it are lines of the first run, so it begins with that
      have hbefore : s.before = [] := by
        apply h.before_eq_nil
        intro l hl
        exact hrun l (hsplit ▸ List.mem_append_left rest hl)
      exact .inl (h.eq_of_before hfirst hbefore)
  · rintro (rfl | ⟨t, ht, rfl⟩)
    · exact hfirst
    · apply ht.under
      intro hbefore
      exact absurd hbefore (ht.before_ne_nil hend)

end Stretch

theorem AllRuns.unique (h : AllRuns ls ss) (h' : AllRuns ls ss') : ss = ss' := by
  have hnodup : ∀ {ss}, AllRuns ls ss → ss.Nodup := by
    intro ss h
    apply h.ascending.imp
    intro s t hlt he
    subst he
    omega
  have hperm : ss.Perm ss' := by
    apply (List.perm_ext_iff_of_nodup (hnodup h) (hnodup h')).2
    intro s
    rw [h.mem_iff, h'.mem_iff]
  apply hperm.eq_of_pairwise _ h.ascending h'.ascending
  intro s t _ _ hst hts
  omega

theorem AllRuns.pairwise_under (h : AllRuns ls ss) (lead : List (List Char)) :
    (ss.map (Stretch.under lead)).Pairwise fun s t => s.before.length < t.before.length := by
  apply List.pairwise_map.2
  apply h.ascending.imp
  intro s t hlt
  simp only [Stretch.under, List.length_append]
  omega

/-- The runs that are found going down the lines are all maximal runs. -/
theorem exists_allRuns (h : Runs ls runs) : ∃ ss, AllRuns ls ss ∧ ss.map Stretch.run = runs := by
  induction h with
  | none =>
    refine ⟨[], ⟨?_, .nil⟩, rfl⟩
    intro s
    simp [Stretch.not_isRunOf_nil]
  | @blank l ls runs hl _ ih =>
    obtain ⟨ss, hss, rfl⟩ := ih
    refine ⟨ss.map (Stretch.under [l]), ⟨?_, hss.pairwise_under [l]⟩, ?_⟩
    · intro s
      simp only [List.mem_map, hss.mem_iff, Stretch.isRunOf_cons_blank_iff hl]
    · rw [List.map_map]
      rfl
  | @run run ls runs hne hrun hend _ ih =>
    obtain ⟨ss, hss, rfl⟩ := ih
    refine ⟨⟨[], run, ls⟩ :: ss.map (Stretch.under run), ⟨?_, ?_⟩, ?_⟩
    · intro s
      simp only [List.mem_cons, List.mem_map, hss.mem_iff, Stretch.isRunOf_append_iff hne hrun hend]
    · apply List.pairwise_cons.2
      refine ⟨?_, hss.pairwise_under run⟩
      intro s hs
      obtain ⟨t, -, rfl⟩ := List.mem_map.1 hs
      have hpos : 0 < run.length := List.length_pos_iff.2 hne
      simp only [Stretch.under, List.length_nil, List.length_append]
      omega
    · rw [List.map_cons, List.map_map]
      rfl

/-- Whether the runs are found one by one or said all at once, the records are the same. -/
theorem splitsInto_iff : SplitsInto text rs ↔ AreRecords text rs := by
  constructor
  · rintro ⟨ss, hss, hrs⟩
    obtain ⟨runs, hruns⟩ := exists_runs (lines text.toList)
    obtain ⟨ss', hss', hmap⟩ := exists_allRuns hruns
    obtain rfl := hss.unique hss'
    refine ⟨runs, hruns, ?_⟩
    rwa [← hmap, List.forall₂_map_left_iff]
  · rintro ⟨runs, hruns, hrs⟩
    obtain ⟨ss, hss, rfl⟩ := exists_allRuns hruns
    exact ⟨ss, hss, List.forall₂_map_left_iff.1 hrs⟩

theorem IsRecord.ne_empty (h : IsRecord run r) (hne : run ≠ []) (hrun : ∀ l ∈ run, isBlankLine l = false)
    (hc : Paired run) : r ≠ ∅ := by
  have hpairs := entries_ofList_ne_nil (pairs_ne_nil hne hrun hc)
  rw [(isRecord_pairs run).unique h] at hpairs
  intro hempty
  rw [hempty] at hpairs
  cases hpairs

/-- No record is empty, since its run has a line and the line a key. -/
theorem SplitsInto.ne_empty (h : SplitsInto text rs) (hc : Paired (lines text.toList)) : ∀ r ∈ rs, r ≠ ∅ := by
  obtain ⟨ss, hss, hrs⟩ := h
  have hruns : ∀ s ∈ ss, s.IsRunOf (lines text.toList) := fun s hs => (hss.mem_iff s).1 hs
  clear hss
  induction hrs with
  | nil => simp
  | @cons s r ss rs hr _ ih =>
    obtain ⟨hs, hruns⟩ := List.forall_mem_cons.1 hruns
    have hpaired : Paired s.run := by
      intro l hl
      apply hc l
      rw [hs.lines_eq]
      simp [hl]
    exact List.forall_mem_cons.2 ⟨hr.ne_empty hs.ne_nil hs.written hpaired, ih hruns⟩

/-- Two texts with a blank line between them have the records of both, and are read if both are. -/
theorem records_append_eq_ok_iff (text next : String) {gap : String} (hblank : isBlankLine gap.toList = true)
    (hgap : '\n' ∉ gap.toList) : records (text ++ "\n" ++ gap ++ "\n" ++ next) = .ok rs ↔
      ∃ left right, records text = .ok left ∧ records next = .ok right ∧ left ++ right = rs := by
  obtain ⟨runs, hruns⟩ := exists_runs (splitOn '\n' text.toList)
  obtain ⟨runs', hruns'⟩ := exists_runs (splitOn '\n' next.toList)
  have htext : (text ++ "\n" ++ gap ++ "\n" ++ next).toList =
      text.toList ++ '\n' :: (gap.toList ++ '\n' :: next.toList) := by simp
  have hpieces : splitOn '\n' (text ++ "\n" ++ gap ++ "\n" ++ next).toList =
      splitOn '\n' text.toList ++ gap.toList :: splitOn '\n' next.toList := by
    rw [htext, splitOn_append_cons, splitOn_append hgap]
  have hjoin : Runs (splitOn '\n' text.toList ++ gap.toList :: splitOn '\n' next.toList) (runs ++ runs') := by
    apply hruns.append (.blank hblank hruns')
    simpa using hblank
  rw [records_eq_ok_iff (congrArg closeLines hpieces) hjoin, List.forall_mem_append, List.map_append]
  simp only [records_eq_ok_iff rfl hruns, records_eq_ok_iff rfl hruns']
  constructor
  · rintro ⟨⟨hleft, hright⟩, hrs⟩
    exact ⟨_, _, ⟨hleft, rfl⟩, ⟨hright, rfl⟩, hrs⟩
  · rintro ⟨_, _, ⟨hleft, rfl⟩, ⟨hright, rfl⟩, hrs⟩
    exact ⟨⟨hleft, hright⟩, hrs⟩

/-- A text whose lines are pairs or blank is split into the records of its maximal runs, none of them
empty. A blank line between it and another text keeps the records of the two apart, and a line that is
neither is reported by its number, the first if there are several. -/
theorem records_split (text : String) :
    (Paired (lines text.toList) →
      ∃ rs, records text = .ok rs ∧ (∀ rs', SplitsInto text rs' ↔ rs' = rs) ∧ ∀ r ∈ rs, r ≠ ∅) ∧
    (∀ gap next : String, isBlankLine gap.toList = true → '\n' ∉ gap.toList → ∀ rs,
      records (text ++ "\n" ++ gap ++ "\n" ++ next) = .ok rs ↔
        ∃ left right, records text = .ok left ∧ records next = .ok right ∧ left ++ right = rs) ∧
    ∀ before line after, lines text.toList = before ++ line :: after → Paired before →
      isBlankLine line = false → ':' ∉ line →
        records text = .error (.notAPair (before.length + 1) (.ofList line)) := by
  refine ⟨?_, ?_, ?_⟩
  · intro hc
    obtain ⟨runs, hruns⟩ := exists_runs (lines text.toList)
    have hread := recordsFrom_of_runs hruns hc 1
    have hiff : ∀ rs', SplitsInto text rs' ↔ rs' = runs.map fun run => .ofList (pairs run) := by
      intro rs'
      rw [splitsInto_iff, areRecords_iff hc, records, hread, Except.ok.injEq, eq_comm]
    exact ⟨_, hread, hiff, ((hiff _).2 rfl).ne_empty hc⟩
  · intro gap next hblank hgap rs
    exact records_append_eq_ok_iff text next hblank hgap
  · intro before line after hlines hbefore hline hcolon
    exact records_notAPair hlines hbefore hline hcolon

/-- Two records of a descriptor, loosely written. -/
def looseRecords : String := "\n processor : 0\r\ncore id : 1\ncore id : 2 : 3\n\t\n\nprocessor : 4"

/-- A descriptor whose third line is no pair. -/
def brokenRecord : String := "processor : 0\n \nprocessor 1\n"

theorem records_looseRecords :
    (Paired (lines looseRecords.toList) ∧ ∃ rs, records looseRecords = .ok rs ∧
      (∀ rs', SplitsInto looseRecords rs' ↔ rs' = rs) ∧ ∀ r ∈ rs, r ≠ ∅) ∧
    (isBlankLine " \t".toList = true ∧ '\n' ∉ " \t".toList ∧ ∀ rs,
      records (looseRecords ++ "\n" ++ " \t" ++ "\n" ++ "core id : 7") = .ok rs ↔
        ∃ left right, records looseRecords = .ok left ∧ records "core id : 7" = .ok right ∧
          left ++ right = rs) ∧
    (lines brokenRecord.toList = ["processor : 0".toList, [' ']] ++ "processor 1".toList :: [] ∧
      Paired ["processor : 0".toList, [' ']] ∧ isBlankLine "processor 1".toList = false ∧
      ':' ∉ "processor 1".toList ∧ records brokenRecord = .error (.notAPair 3 "processor 1")) := by
  have hpaired : Paired (lines looseRecords.toList) := by
    unfold Paired
    decide +kernel
  have hgap : isBlankLine " \t".toList = true ∧ '\n' ∉ " \t".toList := by decide +kernel
  have hlines : lines brokenRecord.toList = ["processor : 0".toList, [' ']] ++ "processor 1".toList :: [] := by
    decide +kernel
  have hbefore : Paired ["processor : 0".toList, [' ']] := by
    unfold Paired
    decide +kernel
  have hline : isBlankLine "processor 1".toList = false ∧ ':' ∉ "processor 1".toList := by decide +kernel
  have herror := (records_split brokenRecord).2.2 _ _ _ hlines hbefore hline.1 hline.2
  refine ⟨⟨hpaired, (records_split looseRecords).1 hpaired⟩, ?_, hlines, hbefore, hline.1, hline.2, ?_⟩
  · exact ⟨hgap.1, hgap.2, (records_split looseRecords).2.1 _ _ hgap.1 hgap.2⟩
  · simpa using herror

-- of two lines with one key the later counts, and a value may hold a colon
example : records looseRecords =
    .ok [.ofList [("processor", "0"), ("core id", "2 : 3")], .ofList [("processor", "4")]] := by decide +kernel

end PlatformSnapshot.Processor
