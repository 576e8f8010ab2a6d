import PlatformSnapshot.IdList
import PlatformSnapshot.Proofs.Text.Numeral
/-!
The list format gives back the set it was written from. A set is known by its members, so nothing
depends on how its list was made.
-/
namespace PlatformSnapshot

open Text
open scoped List

theorem eq_of_ascending {as bs : List UInt32} (ha : as.Pairwise (· < ·)) (hb : bs.Pairwise (· < ·))
    (h : ∀ a, a ∈ as ↔ a ∈ bs) : as = bs := by
  have hperm : as ~ bs :=
    (List.perm_ext_iff_of_nodup (ha.imp UInt32.ne_of_lt) (hb.imp UInt32.ne_of_lt)).2 h
  exact hperm.eq_of_pairwise (fun a b _ _ hab hba => absurd hba (UInt32.lt_asymm hab)) ha hb

theorem IdSet.eq_of_mem_iff {s t : IdSet} (h : ∀ a, a ∈ s ↔ a ∈ t) : s = t := by
  have hids : s.ids = t.ids := eq_of_ascending s.ascending t.ascending h
  cases s
  cases t
  cases hids
  rfl

/-- The members of a set make the same set again. -/
theorem IdSet.ofList_ids (s : IdSet) : IdSet.ofList s.ids = s :=
  IdSet.eq_of_mem_iff fun _ => IdSet.mem_ofList

theorem IdSet.interval_self (a : UInt32) : IdSet.interval a a = [a] := by
  simp [IdSet.interval]

/-- The greatest word can be the last of an interval: the ids are counted beyond the words. -/
theorem IdSet.mem_interval {a b x : UInt32} : x ∈ IdSet.interval a b ↔ a ≤ x ∧ x ≤ b := by
  simp only [IdSet.interval, List.mem_map, List.mem_range, UInt32.le_iff_toNat_le]
  constructor
  · rintro ⟨i, hi, rfl⟩
    have hb : b.toNat < UInt32.size := b.toNat_lt
    have hnat : (UInt32.ofNat (a.toNat + i)).toNat = a.toNat + i := UInt32.toNat_ofNat_of_lt' (by omega)
    omega
  · rintro ⟨hax, hxb⟩
    have hsum : a.toNat + (x.toNat - a.toNat) = x.toNat := by omega
    exact ⟨x.toNat - a.toNat, by omega, by rw [hsum, UInt32.ofNat_toNat]⟩

namespace IdList

theorem token_ofNat (a : UInt32) : token (Numeral.ofNat a.toNat) = .ok [a] := by
  have hdash : splitOnce? '-' (Numeral.ofNat a.toNat) = none :=
    splitOnce?_eq_none (Numeral.not_mem_ofNat (by decide) _)
  have hbound : bound? (Numeral.ofNat a.toNat) = some a := by
    rw [bound?, (Numeral.isWord_ofNat _).isPhrase.trim_eq, Numeral.word32?_ofNat]
  simp [token, hdash, hbound]

theorem tokens_map_ofNat (as : List UInt32) :
    tokens (as.map fun a => Numeral.ofNat a.toNat) = .ok as := by
  induction as with
  | nil => rfl
  | cons a as ih => simp [tokens, token_ofNat, ih]

theorem isBlank_of_mem_joinWith {ws : List (List Char)} (hws : ∀ w ∈ ws, IsWord w) {c : Char}
    (hc : c ∈ joinWith ',' ws) : isBlank c = false := by
  induction ws with
  | nil => cases hc
  | cons w ws ih =>
    obtain ⟨hw, hws⟩ := List.forall_mem_cons.1 hws
    cases ws with
    | nil => exact hw.2 c hc
    | cons v vs =>
      rcases List.mem_append.1 hc with hc | hc
      · exact hw.2 c hc
      · rcases List.mem_cons.1 hc with rfl | hc
        · decide
        · exact ih hws hc

/-- Words with commas between them are one phrase. -/
theorem isPhrase_joinWith {ws : List (List Char)} (hws : ∀ w ∈ ws, IsWord w) : IsPhrase (joinWith ',' ws) :=
  ⟨fun _ hc => isBlank_of_mem_joinWith hws (List.mem_of_head? hc),
    fun _ hc => isBlank_of_mem_joinWith hws (List.mem_of_getLast? hc)⟩

theorem toList_encode (s : IdSet) :
    (encode s).toList = joinWith ',' (s.ids.map fun a => Numeral.ofNat a.toNat) := by
  simp [encode]

theorem isPhrase_encode (s : IdSet) : IsPhrase (encode s).toList := by
  rw [toList_encode]
  refine isPhrase_joinWith fun w hw => ?_
  obtain ⟨a, -, rfl⟩ := List.mem_map.1 hw
  exact Numeral.isWord_ofNat _

/-- A text that is a written set, but for the blanks around it, is read as that set. -/
theorem decode_of_trim {s : IdSet} {text : String} (h : trim text.toList = (encode s).toList) :
    decode text = .ok s := by
  unfold decode
  rw [h, toList_encode]
  split
  case h_1 hnil =>
    cases hids : s.ids with
    | nil =>
      have hempty : s = ∅ := by
        cases s
        cases hids
        rfl
      rw [hempty]
    | cons a as =>
      have hne := Numeral.ofNat_ne_nil a.toNat
      cases as <;> simp [hids, joinWith, hne] at hnil
  case h_2 hne =>
    have hids : s.ids.map (fun a => Numeral.ofNat a.toNat) ≠ [] := by
      intro hids
      exact hne (by rw [hids]; rfl)
    rw [splitOn_joinWith hids, tokens_map_ofNat]
    · exact congrArg Except.ok (IdSet.ofList_ids s)
    · intro w hw
      obtain ⟨a, -, rfl⟩ := List.mem_map.1 hw
      exact Numeral.not_mem_ofNat (by decide) _

theorem decode_encode (s : IdSet) : decode (encode s) = .ok s :=
  decode_of_trim (isPhrase_encode s).trim_eq

/-- The kernel ends the list with a line feed. -/
theorem decode_encode_line (s : IdSet) : decode (encode s ++ "\n") = .ok s := by
  have hfeed : ∀ c ∈ ['\n'], isBlank c := List.forall_mem_singleton.2 (by decide)
  refine decode_of_trim ?_
  simpa using trim_surround [] ['\n'] (by simp) hfeed (isPhrase_encode s)

end IdList
end PlatformSnapshot
