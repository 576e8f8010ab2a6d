import PlatformSnapshot.IdList
import PlatformSnapshot.Text.Split
/-!
Cutting undoes joining. Pieces without the separator that are joined by it are the pieces that the
cut gives back, and lines put one under the other are the lines that are read, as long as none of
them holds a line feed or ends in a carriage return.
-/
namespace PlatformSnapshot.Text

variable {sep : Char} {a b cs : List Char} {ts : List (List Char)}

/-- A run ends at the first thing of another kind. -/
theorem takeWhile_append {a b : List α} {p : α → Bool} (ha : ∀ c ∈ a, p c)
    (hb : ∀ c ∈ b.head?, p c = false) :
    (a ++ b).takeWhile p = a ∧ (a ++ b).dropWhile p = b := by
  rw [List.takeWhile_append_of_pos ha, List.dropWhile_append_of_pos ha]
  cases b with
  | nil => simp
  | cons c b => simp [hb c rfl]

/-- Pieces of some length each make up as long a text. -/
theorem mul_length_le_flatMap {f : α → List β} {k : Nat} (as : List α) (h : ∀ a ∈ as, k ≤ (f a).length) :
    k * as.length ≤ (as.flatMap f).length := by
  induction as with
  | nil => exact Nat.le_refl 0
  | cons a as ih =>
    obtain ⟨ha, has⟩ := List.forall_mem_cons.1 h
    rw [List.flatMap_cons, List.length_append, List.length_cons, Nat.mul_succ, Nat.add_comm]
    exact Nat.add_le_add ha (ih has)

theorem splitOn_of_not_mem (h : sep ∉ a) : splitOn sep a = [a] := by
  induction a with
  | nil => rfl
  | cons c r ih =>
    obtain ⟨hc, hr⟩ := not_or.1 (mt List.mem_cons.2 h)
    simp [splitOn, Ne.symm hc, ih hr]

theorem splitOn_append_cons (sep : Char) (a b : List Char) :
    splitOn sep (a ++ sep :: b) = splitOn sep a ++ splitOn sep b := by
  induction a with
  | nil => simp [splitOn]
  | cons c r ih =>
    by_cases hc : c = sep
    · simp [splitOn, hc, ih]
    · obtain ⟨p, ps, hp⟩ := List.exists_cons_of_ne_nil (splitOn_ne_nil sep r)
      simp [splitOn, hc, ih, hp]

theorem splitOn_append (h : sep ∉ a) : splitOn sep (a ++ sep :: b) = a :: splitOn sep b := by
  rw [splitOn_append_cons, splitOn_of_not_mem h]
  rfl

theorem splitOnce?_append (h : sep ∉ a) : splitOnce? sep (a ++ sep :: b) = some (a, b) := by
  induction a with
  | nil => simp [splitOnce?]
  | cons c r ih =>
    obtain ⟨hc, hr⟩ := not_or.1 (mt List.mem_cons.2 h)
    simp [splitOnce?, Ne.symm hc, ih hr]

theorem splitOnce?_eq_none (h : sep ∉ a) : splitOnce? sep a = none := by
  induction a with
  | nil => rfl
  | cons c r ih =>
    obtain ⟨hc, hr⟩ := not_or.1 (mt List.mem_cons.2 h)
    simp [splitOnce?, Ne.symm hc, ih hr]

theorem splitOn_joinWith {ws : List (List Char)} (hne : ws ≠ []) (h : ∀ w ∈ ws, sep ∉ w) :
    splitOn sep (IdList.joinWith sep ws) = ws := by
  induction ws with
  | nil => exact absurd rfl hne
  | cons w ws ih =>
    obtain ⟨hw, hws⟩ := List.forall_mem_cons.1 h
    cases ws with
    | nil => exact splitOn_of_not_mem hw
    | cons v vs => exact (splitOn_append hw).trans (congrArg (w :: ·) (ih (by simp) hws))

theorem joinWith_eq_intercalate (sep : Char) (ws : List (List Char)) :
    IdList.joinWith sep ws = [sep].intercalate ws := by
  induction ws with
  | nil => rfl
  | cons w ws ih =>
    cases ws with
    | nil => simp [IdList.joinWith]
    | cons v vs => simp [IdList.joinWith, ih]

theorem intercalate_splitOn (sep : Char) (cs : List Char) : [sep].intercalate (splitOn sep cs) = cs := by
  induction cs with
  | nil => simp
  | cons c r ih =>
    obtain ⟨p, ps, hp⟩ := List.exists_cons_of_ne_nil (splitOn_ne_nil sep r)
    rw [hp] at ih
    by_cases hc : c = sep
    · simp [splitOn, hc, hp, ih]
    · cases ps with
      | nil => simpa [splitOn, hc, hp] using ih
      | cons q qs => simpa [splitOn, hc, hp] using ih

theorem not_mem_of_mem_splitOn {p : List Char} (h : p ∈ splitOn sep cs) : sep ∉ p := by
  induction cs generalizing p with
  | nil => simp_all
  | cons c r ih =>
    obtain ⟨q, qs, hq⟩ := List.exists_cons_of_ne_nil (splitOn_ne_nil sep r)
    by_cases hc : c = sep
    · simp only [splitOn, hc, if_true, List.mem_cons] at h
      rcases h with rfl | h
      · simp
      · exact ih h
    · simp only [splitOn, hc, if_false, hq, List.mem_cons] at h
      rcases h with rfl | h
      · simpa [Ne.symm hc] using ih (hq ▸ List.mem_cons_self)
      · exact ih (hq ▸ List.mem_cons_of_mem _ h)

/-- The pieces of a text are the only ones without the separator that make the text again. -/
theorem splitOn_eq_iff : splitOn sep cs = ts ↔
    ts ≠ [] ∧ (∀ t ∈ ts, sep ∉ t) ∧ [sep].intercalate ts = cs := by
  constructor
  · rintro rfl
    exact ⟨splitOn_ne_nil sep cs, fun _ => not_mem_of_mem_splitOn, intercalate_splitOn sep cs⟩
  · rintro ⟨hne, hts, rfl⟩
    rw [← joinWith_eq_intercalate]
    exact splitOn_joinWith hne hts

theorem splitOnce?_eq_none_iff : splitOnce? sep cs = none ↔ sep ∉ cs := by
  constructor
  · intro h hmem
    obtain ⟨l, r, rfl, hl⟩ := List.eq_append_cons_of_mem hmem
    rw [splitOnce?_append hl] at h
    cases h
  · exact splitOnce?_eq_none

theorem splitOnce?_eq_some_iff : splitOnce? sep cs = some (a, b) ↔ cs = a ++ sep :: b ∧ sep ∉ a := by
  constructor
  · intro h
    have hmem : sep ∈ cs := by simp [splitOnce?_eq_some h]
    obtain ⟨l, r, rfl, hl⟩ := List.eq_append_cons_of_mem hmem
    rw [splitOnce?_append hl] at h
    cases h
    exact ⟨rfl, hl⟩
  · rintro ⟨rfl, ha⟩
    exact splitOnce?_append ha

theorem after?_append (lead r : List Char) : after? lead (lead ++ r) = some r := by
  induction lead with
  | nil => rfl
  | cons c lead ih => simpa [after?] using ih

theorem after?_eq_some_iff {lead : List Char} : after? lead cs = some b ↔ cs = lead ++ b := by
  constructor
  · intro h
    induction lead generalizing cs with
    | nil => exact Option.some.inj h
    | cons l lead ih =>
      cases cs with
      | nil => cases h
      | cons c cs =>
        simp only [after?] at h
        split at h
        case isTrue hc => rw [ih h, hc, List.cons_append]
        case isFalse => cases h
  · rintro rfl
    exact after?_append lead b

theorem startsWith_iff {lead : List Char} : startsWith lead cs ↔ lead <+: cs := by
  simp only [startsWith, Option.isSome_iff_exists, after?_eq_some_iff]
  exact ⟨fun ⟨b, hb⟩ => ⟨b, hb.symm⟩, fun ⟨b, hb⟩ => ⟨b, hb.symm⟩⟩

theorem contains_iff {part : List Char} : contains part cs ↔ part <:+: cs := by
  induction cs with
  | nil =>
    rw [contains, startsWith_iff, List.prefix_nil, List.infix_nil]
  | cons c r ih => rw [contains, Bool.or_eq_true, startsWith_iff, ih, List.infix_cons_iff]

/-- One line as it can stand in a file. -/
def IsLine (l : List Char) : Prop := '\n' ∉ l ∧ l.getLast? ≠ some '\r'

instance (l : List Char) : Decidable (IsLine l) := inferInstanceAs (Decidable (_ ∧ _))

theorem isLine_append (ha : IsLine a) (hb : IsLine b) : IsLine (a ++ b) := by
  constructor
  · simp [ha.1, hb.1]
  · rw [List.getLast?_append]
    cases h : b.getLast? with
    | none => simpa using ha.2
    | some c => simpa [h] using hb.2

theorem isLine_cons {c : Char} (hc : c ≠ '\n') (hr : c ≠ '\r') (hb : IsLine b) : IsLine (c :: b) :=
  isLine_append (a := [c]) ⟨by simpa using hc.symm, by simpa using hr⟩ hb

/-- Lines put one under the other, each with its line feed. -/
def unlines (ls : List (List Char)) : List Char := ls.flatMap fun l => l ++ ['\n']

theorem splitOn_unlines {ls : List (List Char)} (h : ∀ l ∈ ls, '\n' ∉ l) :
    splitOn '\n' (unlines ls) = ls ++ [[]] := by
  induction ls with
  | nil => rfl
  | cons l ls ih =>
    obtain ⟨hl, hls⟩ := List.forall_mem_cons.1 h
    have hcons : unlines (l :: ls) = l ++ '\n' :: unlines ls := by simp [unlines]
    rw [hcons, splitOn_append hl, ih hls, List.cons_append]

theorem dropReturn_eq_self {l : List Char} (h : l.getLast? ≠ some '\r') : dropReturn l = l := by
  induction l with
  | nil => rfl
  | cons c r ih =>
    cases r with
    | nil => simpa [dropReturn] using h
    | cons d r => simpa [dropReturn] using ih (by simpa using h)

theorem eq_or_eq_dropReturn_append (l : List Char) : dropReturn l = l ∨ l = dropReturn l ++ ['\r'] := by
  induction l with
  | nil => exact .inl rfl
  | cons c r ih =>
    cases r with
    | nil =>
      by_cases hc : c = '\r'
      · subst hc
        exact .inr rfl
      · exact .inl (by simp [dropReturn, hc])
    | cons d r => simpa [dropReturn] using ih

theorem closeLines_append (ls : List (List Char)) : closeLines (ls ++ [[]]) = ls.map dropReturn := by
  induction ls with
  | nil => rfl
  | cons l ls ih =>
    cases ls with
    | nil => rfl
    | cons m ls => exact congrArg (dropReturn l :: ·) ih

theorem lines_unlines {ls : List (List Char)} (h : ∀ l ∈ ls, IsLine l) : lines (unlines ls) = ls := by
  rw [lines, splitOn_unlines fun l hl => (h l hl).1, closeLines_append]
  calc ls.map dropReturn = ls.map id := List.map_congr_left fun l hl => dropReturn_eq_self (h l hl).2
    _ = ls := List.map_id ls

end PlatformSnapshot.Text
