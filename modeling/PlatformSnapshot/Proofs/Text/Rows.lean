import PlatformSnapshot.Proofs.Reading
import PlatformSnapshot.Proofs.SortedMap
/-!
Rows among the lines of a text. Lines that are no rows are passed over, and a text is read if each of
its rows is; otherwise it fails with what is wrong with the first that is not. Where rows set slots,
the last row about a slot counts, and neither the rows about other slots nor their order do.
-/
namespace PlatformSnapshot

/-- The entries of the rows among some things, in order. -/
def readRows (row? : γ → Option ρ) (read : ρ → Except ε β) (cs : List γ) : Except ε (List β) :=
  (cs.filterMap row?).mapM read

/-- What a thing adds that is a row and can be read. -/
def readRow? (row? : γ → Option ρ) (read : ρ → Except ε β) (c : γ) : Option β :=
  (row? c).bind fun r => (read r).toOption

section Rows

variable {γ : Type t} {ρ : Type u} {ε : Type v} {β : Type w} {row? : γ → Option ρ} {read : ρ → Except ε β}
  {c : γ} {cs : List γ} {b : β} {bs : List β} {e : ε}

theorem readRow?_eq_some_iff : readRow? row? read c = some b ↔ ∃ r, row? c = some r ∧ read r = .ok b := by
  have htoOption : ∀ x : Except ε β, x.toOption = some b ↔ x = .ok b := by
    intro x
    cases x <;> simp [Except.toOption]
  simp only [readRow?, Option.bind_eq_some_iff, htoOption]

theorem readRows_cons_none (h : row? c = none) (cs : List γ) : readRows row? read (c :: cs) = readRows row? read cs :=
  congrArg (List.mapM read) (List.filterMap_cons_none h)

theorem readRows_cons_some {r : ρ} (h : row? c = some r) (cs : List γ) :
    readRows row? read (c :: cs) = (do return (← read r) :: (← readRows row? read cs)) := by
  rw [readRows, List.filterMap_cons_some h, List.mapM_cons]
  rfl

theorem readRows_eq_ok_iff : readRows row? read cs = .ok bs ↔
    (∀ c ∈ cs, ∀ r, row? c = some r → ∃ b, read r = .ok b) ∧ cs.filterMap (readRow? row? read) = bs := by
  induction cs generalizing bs with
  | nil => simp [readRows, pure, Except.pure]
  | cons c cs ih =>
    rw [List.forall_mem_cons]
    cases hrow : row? c with
    | none =>
      have hentry : readRow? row? read c = none := by rw [readRow?, hrow]; rfl
      rw [readRows_cons_none hrow, List.filterMap_cons_none hentry, ih]
      simp
    | some r =>
      rw [readRows_cons_some hrow]
      cases hread : read r with
      | error e => simp [hread, bind_eq_ok_iff]
      | ok b =>
        rw [List.filterMap_cons_some (readRow?_eq_some_iff.2 ⟨r, hrow, hread⟩)]
        simp only [bind_eq_ok_iff, ih, pure, Except.pure, Except.ok.injEq]
        grind

/-- A row can be read if there is nothing wrong with it. -/
theorem forall_row_iff_forall_not : (∀ r, row? c = some r → ∃ b, read r = .ok b) ↔
    ∀ e, ¬ ∃ r, row? c = some r ∧ read r = .error e := by
  simp only [exists_ok_iff, not_exists, not_and]
  exact ⟨fun h e r hr => h r hr e, fun h r hr e => h e r hr⟩

theorem readRows_eq_error_iff : readRows row? read cs = .error e ↔
    FirstFailure (fun c e => ∃ r, row? c = some r ∧ read r = .error e) cs e := by
  induction cs with
  | nil => simp [readRows, pure, Except.pure, firstFailure_nil]
  | cons c cs ih =>
    rw [firstFailure_cons, ← ih]
    cases hrow : row? c with
    | none => simp [readRows_cons_none hrow]
    | some r =>
      rw [readRows_cons_some hrow]
      cases hread : read r with
      | error d => simp [bind_eq_error_iff, hread]
      | ok b => simp [bind_eq_error_iff, hread, pure, Except.pure]

/-- Only rows matter. -/
theorem readRows_filter {p : γ → Bool} (h : ∀ c, p c = false → row? c = none) (cs : List γ) :
    readRows row? read (cs.filter p) = readRows row? read cs := by
  induction cs with
  | nil => rfl
  | cons c cs ih =>
    cases hp : p c with
    | false => rw [List.filter_cons_of_neg (by simp [hp]), ih, readRows_cons_none (h c hp)]
    | true =>
      rw [List.filter_cons_of_pos hp]
      cases hrow : row? c with
      | none => rw [readRows_cons_none hrow, readRows_cons_none hrow, ih]
      | some r => rw [readRows_cons_some hrow, readRows_cons_some hrow, ih]

end Rows

/-- How the rows of a text set slots: which slot a row is about and with which word, which value a word
means, and what is wrong with a word that means none. -/
structure RowFormat (κ : Type u) (ν : Type v) where
  IsRow : List Char → κ → List Char → Prop
  Means : List Char → ν → Prop
  Wrong : κ → List Char → Fault → Prop

namespace RowFormat

variable {κ : Type u} {ν : Type v} (r : RowFormat κ ν)

def About (line : List Char) (k : κ) : Prop := ∃ w, r.IsRow line k w

/-- The line is a row, about whatever slot. -/
def Matters (line : List Char) : Prop := ∃ k, r.About line k

def Gives (line : List Char) (k : κ) (n : ν) : Prop := ∃ w, r.IsRow line k w ∧ r.Means w n

/-- If the line is a row, its word means a value. -/
def Sound (line : List Char) : Prop := ∀ k w, r.IsRow line k w → ∃ n, r.Means w n

def FaultOf (line : List Char) (f : Fault) : Prop := ∃ k w, r.IsRow line k w ∧ r.Wrong k w f

/-- The last of the lines about the slot gives this value. -/
def LastGives (ls : List (List Char)) (k : κ) (n : ν) : Prop :=
  ∃ before line after, ls = before ++ line :: after ∧ r.Gives line k n ∧ ∀ l ∈ after, ¬ r.About l k

/-- The functions tell rows and the meaning of words as the format does. -/
structure ReadBy (row? : List Char → Option (κ × List Char)) (value : κ → List Char → Except Fault ν) :
    Prop where
  row : ∀ line k w, row? line = some (k, w) ↔ r.IsRow line k w
  ok : ∀ k w n, value k w = .ok n ↔ r.Means w n
  error : ∀ k w f, value k w = .error f ↔ r.Wrong k w f

end RowFormat

/-- Slots that are set one at a time, each value as `put` keeps it. They are known by what is in them. -/
structure IsSlots (get : σ → κ → μ) (set : σ → ν → κ → σ) (put : ν → μ) : Prop where
  get_set : ∀ s v k j [Decidable (j = k)], get (set s v k) j = if j = k then put v else get s j
  ext : ∀ s t, (∀ k, get s k = get t k) → s = t

/-- The slot of a row, with the value that its word means. -/
def setting (value : κ → List Char → Except Fault ν) (e : κ × List Char) : Except Fault (κ × ν) :=
  (value e.1 e.2).map fun n => (e.1, n)

/-- Sets the slots that rows are about, one row after the other. -/
def fill (set : σ → ν → κ → σ) (row? : List Char → Option (κ × List Char))
    (value : κ → List Char → Except Fault ν) (s : σ) (ls : List (List Char)) : Except Fault σ :=
  (readRows row? (setting value) ls).map fun es => es.foldl (fun s e => set s e.2 e.1) s

section Fill

variable {κ : Type u} {ν : Type v} {σ : Type w} {μ : Type x} {row? : List Char → Option (κ × List Char)}
  {value : κ → List Char → Except Fault ν} {set : σ → ν → κ → σ} {s : σ}
  {line w : List Char} {ls : List (List Char)} {k : κ} {n : ν} {f : Fault}

/-- A reader that goes line by line, and ends at the first row whose word means nothing, sets the slots
that rows are about. -/
theorem eq_fill {run : σ → List (List Char) → Except Fault σ} (hnil : ∀ s, run s [] = .ok s)
    (hcons : ∀ s line ls, run s (line :: ls) =
      match row? line with
      | none => run s ls
      | some (k, w) => (value k w).bind fun n => run (set s n k) ls) (s : σ) (ls : List (List Char)) :
    run s ls = fill set row? value s ls := by
  induction ls generalizing s with
  | nil => exact hnil s
  | cons line ls ih =>
    rw [hcons, fill]
    cases hrow : row? line with
    | none =>
      rw [readRows_cons_none hrow]
      exact ih s
    | some e =>
      rw [readRows_cons_some hrow, setting]
      cases hvalue : value e.1 e.2 with
      | error f => simp only [hvalue]; rfl
      | ok n =>
        simp only [hvalue]
        refine (ih (set s n e.1)).trans ?_
        rw [fill]
        cases readRows row? (setting value) ls <;> rfl

variable {r : RowFormat κ ν} (h : r.ReadBy row? value)

include h

theorem RowFormat.ReadBy.readRow?_eq_some_iff :
    readRow? row? (setting value) line = some (k, n) ↔ r.Gives line k n := by
  simp only [PlatformSnapshot.readRow?_eq_some_iff, setting, map_eq_ok_iff, Prod.exists, Prod.mk.injEq, h.row, h.ok,
    RowFormat.Gives]
  grind

theorem RowFormat.ReadBy.forall_row_iff :
    (∀ e, row? line = some e → ∃ b, setting value e = .ok b) ↔ r.Sound line := by
  simp only [Prod.forall, h.row, setting, map_eq_ok_iff, h.ok, RowFormat.Sound]
  grind

theorem RowFormat.ReadBy.exists_row_iff :
    (∃ e, row? line = some e ∧ setting value e = .error f) ↔ r.FaultOf line f := by
  simp only [Prod.exists, h.row, setting, map_eq_error_iff, h.error, RowFormat.FaultOf]

omit h in
/-- A line in order is about a slot if it gives a value for it. -/
theorem RowFormat.Sound.about_iff (hs : r.Sound line) : r.About line k ↔ ∃ n, r.Gives line k n := by
  constructor
  · rintro ⟨w, hrow⟩
    obtain ⟨n, hn⟩ := hs k w hrow
    exact ⟨n, w, hrow, hn⟩
  · rintro ⟨n, w, hrow, -⟩
    exact ⟨w, hrow⟩

theorem RowFormat.ReadBy.about_iff : (row? line).map (·.1) = some k ↔ r.About line k := by
  simp [RowFormat.About, ← h.row]

theorem RowFormat.ReadBy.matters_iff : (row? line).isSome ↔ r.Matters line := by
  simp [RowFormat.Matters, RowFormat.About, ← h.row, Option.isSome_iff_exists]

theorem RowFormat.ReadBy.isOk_iff : ((row? line).all fun e => (value e.1 e.2).isOk) ↔ r.Sound line := by
  have hisOk : ∀ x : Except Fault ν, x.isOk = true ↔ ∃ n, x = .ok n := by
    intro x
    cases x <;> simp [Except.isOk, Except.toBool]
  simp only [RowFormat.Sound, ← h.row, h.ok, Option.all_eq_true, hisOk, Prod.forall]

theorem fill_eq_error_iff : fill set row? value s ls = .error f ↔ FirstFailure r.FaultOf ls f := by
  simp only [fill, map_eq_error_iff, readRows_eq_error_iff, h.exists_row_iff]

theorem RowFormat.ReadBy.sound_iff : r.Sound line ↔ ∀ f, ¬ r.FaultOf line f := by
  simp only [← h.forall_row_iff, ← h.exists_row_iff, forall_row_iff_forall_not]

theorem exists_fill_iff : (∃ t, fill set row? value s ls = .ok t) ↔ ∀ l ∈ ls, r.Sound l := by
  rw [← not_iff_not, ← exists_error_iff]
  simp only [fill_eq_error_iff h, exists_firstFailure_iff, h.sound_iff, not_forall, not_not, exists_prop]

variable {get : σ → κ → μ} {put : ν → μ} {t : σ}

/-- What rows leave in the slots: the value that the last row about each of them gives, and what was
there before if there is none. -/
theorem fill_eq_ok_iff (hslots : IsSlots get set put) : fill set row? value s ls = .ok t ↔
    (∀ l ∈ ls, r.Sound l) ∧ ∀ k u, get t k = u ↔
      (∃ n, r.LastGives ls k n ∧ put n = u) ∨ (∀ l ∈ ls, ¬ r.About l k) ∧ get s k = u := by
  classical
  simp only [fill, map_eq_ok_iff, readRows_eq_ok_iff, h.forall_row_iff, and_assoc, exists_and_left, exists_eq_left']
  refine and_congr_right fun hsound => ?_
  have habout : ∀ k, ∀ l ∈ ls, r.About l k ↔ ∃ n, readRow? row? (setting value) l = some (k, n) := by
    intro k l hl
    simp only [(hsound l hl).about_iff, h.readRow?_eq_some_iff]
  have hget : ∀ k u, get ((ls.filterMap (readRow? row? (setting value))).foldl (fun s e => set s e.2 e.1) s) k = u ↔
      (∃ n, r.LastGives ls k n ∧ put n = u) ∨ (∀ l ∈ ls, ¬ r.About l k) ∧ get s k = u := by
    intro k u
    have hnone : (∀ l ∈ ls, ∀ n, readRow? row? (setting value) l ≠ some (k, n)) ↔
        ∀ l ∈ ls, ¬ r.About l k :=
      forall₂_congr fun l hl => by rw [habout k l hl, not_exists]
    rw [SortedMap.get_foldl_filterMap (fun s v k j => hslots.get_set s v k j), hnone]
    simp only [SortedMap.lastBinds_iff (habout k), h.readRow?_eq_some_iff, RowFormat.LastGives]
  constructor
  · rintro rfl
    exact hget
  · intro ht
    refine hslots.ext _ _ fun k => ?_
    rw [hget, ← ht]

/-- Lines that are no rows do not matter. -/
theorem fill_filter [DecidablePred r.Matters] :
    fill set row? value s (ls.filter r.Matters) = fill set row? value s ls := by
  have hnone : ∀ line, decide (r.Matters line) = false → row? line = none := by
    intro line hline
    rw [← Option.not_isSome_iff_eq_none, h.matters_iff]
    exact of_decide_eq_false hline
  rw [fill, readRows_filter hnone, fill]

end Fill

section Same

variable {κ : Type u} {ν : Type v} {r : RowFormat κ ν} {ls ls' : List (List Char)} {k : κ} {n : ν}

/-- Other lines do not count for a slot. -/
theorem RowFormat.lastGives_filter [DecidablePred (r.About · k)] :
    r.LastGives (ls.filter (r.About · k)) k n ↔ r.LastGives ls k n := by
  constructor
  · rintro ⟨before, line, after, hsplit, hgives, hlast⟩
    obtain ⟨front, back, rfl, -, hback⟩ := List.filter_eq_append_iff.1 hsplit
    obtain ⟨gap, rest, rfl, -, -, rfl⟩ := List.filter_eq_cons_iff.1 hback
    refine ⟨front ++ gap, line, rest, by simp, hgives, fun l hl habout => ?_⟩
    exact hlast l (List.mem_filter.2 ⟨hl, by simpa using habout⟩) habout
  · rintro ⟨before, line, after, rfl, hgives, hlast⟩
    have habout : r.About line k := hgives.imp fun _ hw => hw.1
    refine ⟨before.filter (r.About · k), line, after.filter (r.About · k), ?_, hgives, ?_⟩
    · rw [List.filter_append, List.filter_cons_of_pos (by simpa using habout)]
    · exact fun l hl => hlast l (List.mem_filter.1 hl).1

theorem RowFormat.forall_sound_iff [∀ k, DecidablePred (r.About · k)] :
    (∀ l ∈ ls, r.Sound l) ↔ ∀ k, ∀ l ∈ ls.filter (r.About · k), r.Sound l := by
  constructor
  · exact fun h k l hl => h l (List.mem_filter.1 hl).1
  · intro h l hl k w hrow
    exact h k l (List.mem_filter.2 ⟨hl, by simpa using ⟨w, hrow⟩⟩) k w hrow

variable {σ : Type w} {μ : Type x} {row? : List Char → Option (κ × List Char)}
  {value : κ → List Char → Except Fault ν} {get : σ → κ → μ} {set : σ → ν → κ → σ}
  {put : ν → μ} {s t t' : σ}

/-- What is left in a slot depends on the lines about this slot only. -/
theorem get_fill_congr (h : r.ReadBy row? value) (hslots : IsSlots get set put) [DecidablePred (r.About · k)]
    (hsame : ls.filter (r.About · k) = ls'.filter (r.About · k))
    (ht : fill set row? value s ls = .ok t) (ht' : fill set row? value s ls' = .ok t') : get t k = get t' k := by
  -- the lines about the slot decide what the last of them gives, and also whether there is any
  have hnone : ∀ ls : List (List Char), (∀ l ∈ ls, ¬ r.About l k) ↔ ls.filter (r.About · k) = [] := by
    simp [List.filter_eq_nil_iff]
  refine (((fill_eq_ok_iff h hslots).1 ht).2 k (get t' k)).2 ?_
  have hget := (((fill_eq_ok_iff h hslots).1 ht').2 k (get t' k)).1 rfl
  have hlast : ∀ n, r.LastGives ls k n ↔ r.LastGives (ls.filter (r.About · k)) k n :=
    fun _ => RowFormat.lastGives_filter.symm
  have hlast' : ∀ n, r.LastGives ls' k n ↔ r.LastGives (ls'.filter (r.About · k)) k n :=
    fun _ => RowFormat.lastGives_filter.symm
  simpa only [hnone, hlast, hlast', hsame] using hget

/-- Whether the rows are accepted and what they leave does not depend on the order of rows about
different slots. -/
theorem fill_congr (h : r.ReadBy row? value) (hslots : IsSlots get set put) [∀ k, DecidablePred (r.About · k)]
    (hsame : ∀ k, ls.filter (r.About · k) = ls'.filter (r.About · k)) (ht : fill set row? value s ls = .ok t) :
    fill set row? value s ls' = .ok t := by
  have hsound := RowFormat.forall_sound_iff.1 ((fill_eq_ok_iff h hslots).1 ht).1
  simp only [hsame] at hsound
  obtain ⟨t', ht'⟩ := (exists_fill_iff h).2 (RowFormat.forall_sound_iff.2 hsound)
  rw [ht', hslots.ext t' t fun k => get_fill_congr h hslots (hsame k).symm ht' ht]

end Same

end PlatformSnapshot
