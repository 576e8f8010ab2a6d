import Mathlib.Data.List.Forall2
import Mathlib.Data.List.TakeWhile
import PlatformSnapshot.Processor.Record
import PlatformSnapshot.Proofs.Reading
import PlatformSnapshot.Proofs.SortedMap
import PlatformSnapshot.Proofs.Text.Blank
/-!
The records of a processor descriptor as runs of its lines. A maximal run of lines that are not blank
makes one record, and of the lines of a run that give a value for one key the last counts. Reading
finds just these records if every line of a run has a colon, and otherwise the first line without one.
-/
namespace PlatformSnapshot.Processor

open Text

/-- The line gives a value for a key: they are what stands around its first colon, but for blanks. -/
def Gives (line : List Char) (key value : String) : Prop :=
  ∃ k v, line = k ++ ':' :: v ∧ ':' ∉ k ∧ TrimsTo k key.toList ∧ TrimsTo v value.toList

/-- The maximal runs of lines that are not blank, in order. A run ends at a blank line or with the
last line. -/
inductive Runs : List (List Char) → List (List (List Char)) → Prop where
  | none : Runs [] []
  | blank (hl : isBlankLine l = true) (h : Runs ls runs) : Runs (l :: ls) runs
  | run (hne : run ≠ []) (hrun : ∀ l ∈ run, isBlankLine l = false)
      (hend : ∀ l ∈ ls.head?, isBlankLine l = true) (h : Runs ls runs) : Runs (run ++ ls) (run :: runs)

/-- The last of the lines that give a value for the key gives this one. -/
def LastGives (run : List (List Char)) (key value : String) : Prop :=
  ∃ before line after, run = before ++ line :: after ∧ Gives line key value ∧
    ∀ l ∈ after, ∀ v, ¬ Gives l key v

/-- A record has for each key the value that the last line with this key gives, and nothing else. -/
def IsRecord (run : List (List Char)) (r : Record) : Prop :=
  ∀ key value, r.get? key = some value ↔ LastGives run key value

/-- The records of a text, one for each run of its lines. -/
def AreRecords (text : String) (rs : List Record) : Prop :=
  ∃ runs, Runs (lines text.toList) runs ∧ List.Forall₂ IsRecord runs rs

/-- Every line that is not blank has a colon. -/
def Paired (ls : List (List Char)) : Prop := ∀ l ∈ ls, isBlankLine l = false → ':' ∈ l

variable {line l : List Char} {ls run before after : List (List Char)} {runs : List (List (List Char))}
  {key value : String} {r : Record} {rs : List Record} {text : String}

theorem pair?_eq_some_iff : pair? line = some (key, value) ↔ Gives line key value := by
  simp only [pair?, Option.map_eq_some_iff, Prod.exists, splitOnce?_eq_some_iff, Prod.mk.injEq, ofList_trim_eq_iff,
    Gives, and_assoc]

theorem exists_gives (h : ':' ∈ line) : ∃ key value, Gives line key value := by
  cases hpair : pair? line with
  | none => exact absurd h (splitOnce?_eq_none_iff.1 (Option.map_eq_none_iff.1 hpair))
  | some e => exact ⟨e.1, e.2, pair?_eq_some_iff.1 hpair⟩

theorem pair?_eq_none (h : ':' ∉ line) : pair? line = none := by
  rw [pair?, splitOnce?_eq_none h]
  rfl

/-- The keys and values that some lines give. -/
def pairs (run : List (List Char)) : List (String × String) := run.filterMap pair?

/-- The lines of a run put their pairs into the record that is open. -/
theorem recordsFrom_run (hrun : ∀ l ∈ run, isBlankLine l = false) (hc : Paired run) (n : Nat) (current : Record)
    (ls : List (List Char)) :
    recordsFrom n current (run ++ ls) =
      recordsFrom (n + run.length) ((pairs run).foldl (fun r e => r.insert e.1 e.2) current) ls := by
  induction run generalizing n current with
  | nil => rfl
  | cons line run ih =>
    obtain ⟨hline, hrun⟩ := List.forall_mem_cons.1 hrun
    obtain ⟨hcolon, hc⟩ := List.forall_mem_cons.1 hc
    obtain ⟨key, value, hgives⟩ := exists_gives (hcolon hline)
    have hpair : pair? line = some (key, value) := pair?_eq_some_iff.2 hgives
    have hcount : n + 1 + run.length = n + (line :: run).length := by
      rw [List.length_cons]
      omega
    rw [List.cons_append, recordsFrom, hline, hpair, pairs, List.filterMap_cons_some hpair, List.foldl_cons,
      ← hcount]
    exact ih hrun hc (n + 1) (current.insert key value)

/-- Where a run ends, the record that is open is closed. -/
theorem recordsFrom_end (hend : ∀ l ∈ ls.head?, isBlankLine l = true) (n : Nat) (current : Record) :
    recordsFrom n current ls = (recordsFrom n ∅ ls).map (close current) := by
  cases ls with
  | nil => rfl
  | cons l ls =>
    have hl : isBlankLine l = true := hend l rfl
    have hclose : close (∅ : Record) = id := rfl
    have hid : ∀ x : Except Fault (List Record), x.map id = x := by
      intro x
      cases x <;> rfl
    rw [recordsFrom, recordsFrom, if_pos hl, if_pos hl, hclose, hid]

theorem entries_ofList_ne_nil {es : List (String × String)} (h : es ≠ []) :
    (SortedMap.ofList es).entries.isEmpty = false := by
  obtain ⟨e, he⟩ := List.exists_mem_of_ne_nil es h
  have hkey : e.1 ∈ (SortedMap.ofList es).keys := SortedMap.mem_keys_ofList.2 (List.mem_map_of_mem he)
  obtain ⟨f, hf, -⟩ := List.mem_map.1 hkey
  exact List.isEmpty_eq_false_iff_exists_mem.2 ⟨f, hf⟩

theorem pairs_ne_nil (hne : run ≠ []) (hrun : ∀ l ∈ run, isBlankLine l = false) (hc : Paired run) :
    pairs run ≠ [] := by
  obtain ⟨line, hline⟩ := List.exists_mem_of_ne_nil run hne
  obtain ⟨key, value, hgives⟩ := exists_gives (hc line hline (hrun line hline))
  exact List.ne_nil_of_mem (List.mem_filterMap.2 ⟨line, hline, pair?_eq_some_iff.2 hgives⟩)

/-- Reading makes one record of each run. -/
theorem recordsFrom_of_runs (h : Runs ls runs) (hc : Paired ls) (n : Nat) :
    recordsFrom n ∅ ls = .ok (runs.map fun run => .ofList (pairs run)) := by
  induction h generalizing n with
  | none => rfl
  | blank hl h ih =>
    rw [recordsFrom, if_pos hl, ih (List.forall_mem_cons.1 hc).2]
    rfl
  | run hne hrun hend h ih =>
    obtain ⟨hcrun, hcrest⟩ := List.forall_mem_append.1 hc
    have hnonempty := entries_ofList_ne_nil (pairs_ne_nil hne hrun hcrun)
    rw [recordsFrom_run hrun hcrun, recordsFrom_end hend, ih hcrest]
    exact congrArg Except.ok (if_neg (by simpa [SortedMap.ofList] using hnonempty))

/-- The first line that is neither blank nor a pair is reported, wherever it stands. -/
theorem recordsFrom_notAPair (hbefore : Paired before) (hl : isBlankLine line = false) (hcolon : ':' ∉ line) (n : Nat)
    (current : Record) (after : List (List Char)) :
    recordsFrom n current (before ++ line :: after) = .error (.notAPair (n + before.length) (.ofList line)) := by
  induction before generalizing n current with
  | nil =>
    rw [List.nil_append, recordsFrom, hl, pair?_eq_none hcolon]
    rfl
  | cons l before ih =>
    obtain ⟨hpaired, hbefore⟩ := List.forall_mem_cons.1 hbefore
    have hcount : n + 1 + before.length = n + (l :: before).length := by
      rw [List.length_cons]
      omega
    rw [List.cons_append, recordsFrom, ← hcount]
    cases hblank : isBlankLine l with
    | true =>
      rw [if_pos rfl, ih hbefore]
      rfl
    | false =>
      obtain ⟨key, value, hgives⟩ := exists_gives (hpaired hblank)
      rw [if_neg (by decide), pair?_eq_some_iff.2 hgives]
      exact ih hbefore (n + 1) (current.insert key value)

theorem records_notAPair (hlines : lines text.toList = before ++ line :: after) (hbefore : Paired before)
    (hl : isBlankLine line = false) (hcolon : ':' ∉ line) :
    records text = .error (.notAPair (before.length + 1) (.ofList line)) := by
  rw [records, hlines, recordsFrom_notAPair hbefore hl hcolon, Nat.add_comm]

theorem isBlankLine_of_colon (h : ':' ∈ line) : isBlankLine line = false :=
  List.all_eq_false.2 ⟨':', h, by decide⟩

/-- One after the other the runs are the lines that are not blank. -/
theorem Runs.flatten_eq (h : Runs ls runs) : runs.flatten = ls.filter fun l => !isBlankLine l := by
  induction h with
  | none => rfl
  | blank hl _ ih => rw [ih, List.filter_cons_of_neg (by simp [hl])]
  | run _ hrun _ _ ih =>
    have hkept := List.filter_eq_self.2 fun l hl => show (!isBlankLine l) = true by rw [hrun l hl]; rfl
    rw [List.flatten_cons, ih, List.filter_append, hkept]

/-- Blank lines before the others belong to no run. -/
theorem Runs.blanks_append {blanks : List (List Char)} (hb : ∀ l ∈ blanks, isBlankLine l = true)
    (h : Runs ls runs) : Runs (blanks ++ ls) runs := by
  induction blanks with
  | nil => exact h
  | cons l blanks ih =>
    obtain ⟨hl, hb⟩ := List.forall_mem_cons.1 hb
    exact .blank hl (ih hb)

/-- Lines under others add their own runs if they do not begin in the middle of one. -/
theorem Runs.append {ms : List (List Char)} {runs' : List (List (List Char))} (h : Runs ls runs) (h' : Runs ms runs')
    (hseam : ∀ m ∈ ms.head?, isBlankLine m = true) : Runs (ls ++ ms) (runs ++ runs') := by
  induction h with
  | none => exact h'
  | blank hl _ ih => exact .blank hl ih
  | @run run ls runs hne hrun hend _ ih =>
    rw [List.append_assoc]
    apply Runs.run hne hrun _ ih
    cases ls with
    | nil => exact hseam
    | cons m ls => exact hend

/-- A blank line at the end belongs to no run either. -/
theorem Runs.append_blank (h : Runs ls runs) (hl : isBlankLine l = true) : Runs (ls ++ [l]) runs := by
  have happend := h.append (.blank hl .none) (by simpa using hl)
  rwa [List.append_nil] at happend

theorem Runs.paired_iff (h : Runs ls runs) : Paired ls ↔ ∀ run ∈ runs, Paired run := by
  induction h with
  | none => simp [Paired]
  | blank hb _ ih =>
    rw [← ih, Paired, List.forall_mem_cons]
    simp [hb, Paired]
  | run _ _ _ _ ih =>
    rw [List.forall_mem_cons, ← ih, Paired, List.forall_mem_append]
    rfl

theorem recordsFrom_eq_ok_iff (h : Runs ls runs) (n : Nat) {rs : List Record} :
    recordsFrom n ∅ ls = .ok rs ↔
      (∀ run ∈ runs, Paired run) ∧ runs.map (fun run => .ofList (pairs run)) = rs := by
  rw [← h.paired_iff]
  rcases all_or_first (fun l => isBlankLine l = false → ':' ∈ l) ls with hc |
    ⟨before, line, after, rfl, hbefore, hline⟩
  · have hpaired : Paired ls := hc
    rw [recordsFrom_of_runs h hpaired]
    simp [hpaired]
  · have hnot : ¬ Paired (before ++ line :: after) := fun hc => hline (hc line (by simp))
    rw [Classical.not_imp] at hline
    rw [recordsFrom_notAPair hbefore hline.1 hline.2]
    simp [hnot]

theorem pair?_append_return (l : List Char) : pair? (l ++ ['\r']) = pair? l := by
  by_cases hcolon : ':' ∈ l
  · obtain ⟨key, value, rfl, hkey⟩ := List.eq_append_cons_of_mem hcolon
    have hblank : ∀ c ∈ ['\r'], isBlank c = true := List.forall_mem_singleton.2 rfl
    have htrim : trim (value ++ ['\r']) = trim value := trim_append hblank
    rw [List.append_assoc, List.cons_append, pair?, pair?, splitOnce?_append hkey, splitOnce?_append hkey]
    simp only [Option.map_some, htrim]
  · rw [pair?_eq_none hcolon, pair?_eq_none (by simpa using hcolon)]

/-- What a record takes from a line does not change with the carriage return at its end. -/
theorem dropReturn_alike (l : List Char) :
    isBlankLine (dropReturn l) = isBlankLine l ∧ pair? (dropReturn l) = pair? l := by
  rcases eq_or_eq_dropReturn_append l with h | h
  · rw [h]
    exact ⟨rfl, rfl⟩
  · have hblank : isBlank '\r' = true := rfl
    constructor
    · conv_rhs => rw [h]
      simp [isBlankLine, hblank]
    · conv_rhs => rw [h, pair?_append_return]

/-- Lines are read as the pieces between line feeds are, but for the text that a fault shows. -/
theorem recordsFrom_closeLines (n : Nat) (current : Record) (pieces : List (List Char)) :
    (recordsFrom n current (closeLines pieces)).toOption = (recordsFrom n current pieces).toOption := by
  induction pieces generalizing n current with
  | nil => rfl
  | cons piece pieces ih =>
    cases pieces with
    | nil =>
      by_cases hnil : piece = []
      · subst hnil
        rfl
      · have hlast : closeLines [piece] = [piece] := if_neg (by simpa using hnil)
        rw [hlast]
    | cons next pieces =>
      have hfirst : closeLines (piece :: next :: pieces) = dropReturn piece :: closeLines (next :: pieces) := rfl
      obtain ⟨hblank, hpair⟩ := dropReturn_alike piece
      rw [hfirst, recordsFrom, recordsFrom, hblank, hpair]
      cases isBlankLine piece with
      | true =>
        have hmap : ∀ x : Except Fault (List Record),
            (x.map (close current)).toOption = x.toOption.map (close current) := by
          intro x
          cases x <;> rfl
        rw [if_pos rfl, if_pos rfl, hmap, hmap, ih]
      | false =>
        cases pair? piece with
        | none => rfl
        | some e => exact ih (n + 1) (current.insert e.1 e.2)

/-- The records are those of the runs of the pieces between line feeds. -/
theorem records_eq_ok_iff {pieces : List (List Char)} (hlines : lines text.toList = closeLines pieces)
    (h : Runs pieces runs) : records text = .ok rs ↔
      (∀ run ∈ runs, Paired run) ∧ runs.map (fun run => .ofList (pairs run)) = rs := by
  have hoption : ∀ x : Except Fault (List Record), x = .ok rs ↔ x.toOption = some rs := by
    intro x
    cases x <;> simp [Except.toOption]
  rw [records, hlines, hoption, recordsFrom_closeLines, ← hoption, recordsFrom_eq_ok_iff h]

theorem exists_runs (ls : List (List Char)) : ∃ runs, Runs ls runs := by
  -- by the number of lines, since a run takes several at once
  induction hn : ls.length using Nat.strongRecOn generalizing ls with
  | ind n ih =>
    cases ls with
    | nil => exact ⟨[], .none⟩
    | cons l ls =>
      subst hn
      cases hl : isBlankLine l with
      | true =>
        obtain ⟨runs, h⟩ := ih ls.length (by simp) ls rfl
        exact ⟨runs, .blank hl h⟩
      | false =>
        let isText : List Char → Bool := fun l => !isBlankLine l
        have hshort : (ls.dropWhile isText).length < (l :: ls).length :=
          Nat.lt_succ_of_le (List.dropWhile_sublist isText).length_le
        obtain ⟨runs, h⟩ := ih _ hshort (ls.dropWhile isText) rfl
        have hsplit : l :: ls = (l :: ls.takeWhile isText) ++ ls.dropWhile isText := by
          rw [List.cons_append, List.takeWhile_append_dropWhile]
        rw [hsplit]
        refine ⟨_, .run (List.cons_ne_nil _ _) ?_ ?_ h⟩
        · refine List.forall_mem_cons.2 ⟨hl, fun m hm => ?_⟩
          simpa [isText] using List.mem_takeWhile_imp hm
        · intro m hm
          have hstop := List.head?_dropWhile_not isText ls
          rw [hm] at hstop
          simpa [isText] using hstop

theorem isRecord_pairs (run : List (List Char)) : IsRecord run (.ofList (pairs run)) := by
  intro key value
  rw [pairs, SortedMap.get?_ofList_filterMap]
  simp only [SortedMap.LastBinds, ne_eq, pair?_eq_some_iff, LastGives]

theorem LastGives.unique {value' : String} (h : LastGives run key value) (h' : LastGives run key value') :
    value = value' :=
  Option.some.inj (((isRecord_pairs run key value).2 h).symm.trans ((isRecord_pairs run key value').2 h'))

theorem IsRecord.unique {r' : Record} (h : IsRecord run r) (h' : IsRecord run r') : r = r' := by
  apply SortedMap.ext_get?
  intro key
  apply Option.ext
  intro value
  rw [h key value, h' key value]

/-- If every line that is not blank has a colon, the records of a text are just those that are read. -/
theorem areRecords_iff (hc : Paired (lines text.toList)) : AreRecords text rs ↔ records text = .ok rs := by
  have hread : ∀ {runs}, Runs (lines text.toList) runs →
      records text = .ok (runs.map fun run => .ofList (pairs run)) := fun h => recordsFrom_of_runs h hc 1
  have hrecords : ∀ runs : List (List (List Char)),
      List.Forall₂ IsRecord runs (runs.map fun run => .ofList (pairs run)) := by
    intro runs
    induction runs with
    | nil => exact .nil
    | cons run runs ih => exact .cons (isRecord_pairs run) ih
  constructor
  · rintro ⟨runs, hruns, h⟩
    rw [hread hruns]
    refine congrArg Except.ok ?_
    exact List.right_unique_forall₂' (fun _ _ _ h h' => h.unique h') (hrecords runs) h
  · intro h
    obtain ⟨runs, hruns⟩ := exists_runs (lines text.toList)
    rw [hread hruns] at h
    obtain rfl := Except.ok.inj h
    exact ⟨runs, hruns, hrecords runs⟩

end PlatformSnapshot.Processor
