import Mathlib.Data.Set.List
import PlatformSnapshot.Proofs.IdList.Grammar
/-!
The canonical form of the list format. Writing a set gives a canonical text, and no other canonical
text is read as that set; so to write what was read is to bring a text into its normal form, and the
canonical texts are those that stay as they are.
-/
namespace PlatformSnapshot.IdList

open Text (IsPhrase IsWord TrimsTo)
open Numeral (IsShortest Spells decimal)

/-- Numerals without zeros in front, in strictly ascending order, with single commas between them and
nothing else; the text may be empty. -/
def Canonical (text : String) : Prop :=
  text = "" ∨ ∃ ws : List (List Char), ws ≠ [] ∧ (∀ w ∈ ws, IsShortest w) ∧
    (ws.map decimal).Pairwise (· < ·) ∧ text.toList = [','].intercalate ws

/-- What is written of the set that a text is read as. -/
def normalForm (text : String) : Except Error String := (decode text).map encode

variable {text : String} {w : List Char} {ws : List (List Char)} {a b : UInt32} {s : IdSet}

theorem canonical_encode (s : IdSet) : Canonical (encode s) := by
  by_cases hids : s.ids = []
  · left
    simp [encode, hids, joinWith]
  · refine .inr ⟨s.ids.map fun a => Numeral.ofNat a.toNat, by simpa using hids, ?_, ?_, ?_⟩
    · intro w hw
      obtain ⟨a, -, rfl⟩ := List.mem_map.1 hw
      exact Numeral.isShortest_ofNat _
    · simp only [List.map_map, List.pairwise_map, Function.comp_apply, Numeral.decimal_ofNat]
      exact s.ascending.imp UInt32.lt_iff_toNat_lt.1
    · rw [toList_encode, Text.joinWith_eq_intercalate]

theorem isWord_of_isShortest (h : IsShortest w) : IsWord w :=
  ⟨h.1.1, fun c hc => Numeral.isBlank_of_isDigit (h.1.2 c hc)⟩

/-- Of the tokens without zeros in front only one stands for a single id, and none for a range. -/
theorem eq_ofNat_of_valid (hw : IsShortest w) (h : Valid w a b) : w = Numeral.ofNat a.toNat := by
  cases h with
  | single hdash ha =>
    obtain ⟨v, hv, ds, hds, -, ha⟩ := ha
    obtain rfl : w = v := (isWord_of_isShortest hw).isPhrase.trim_eq.symm.trans (Text.trim_eq_iff.2 hv)
    rcases hds with rfl | rfl
    · rw [← ha, Numeral.ofNat_decimal hw]
    · exact absurd List.mem_cons_self (Numeral.plus_not_mem_of_isRow hw.1)
  | range hdash ha hb hab => exact absurd (hw.1.2 '-' (by simp)) (by decide)

theorem isCut_intercalate (hne : ws ≠ []) (hws : ∀ w ∈ ws, IsShortest w)
    (htext : text.toList = [','].intercalate ws) : IsCut text ws := by
  have hphrase : IsPhrase text.toList := by
    rw [htext, ← Text.joinWith_eq_intercalate]
    exact isPhrase_joinWith fun w hw => isWord_of_isShortest (hws w hw)
  have hcomma : ∀ w ∈ ws, ',' ∉ w := fun w hw hmem => absurd ((hws w hw).1.2 ',' hmem) (by decide)
  have hcut := Text.splitOn_eq_iff.2 ⟨hne, hcomma, htext.symm⟩
  refine ⟨text.toList, Text.trim_eq_iff.1 hphrase.trim_eq, ?_, hne, hcomma, htext.symm⟩
  intro hnil
  rw [hnil] at hcut
  exact (hws [] (by simp [← hcut])).1.1 rfl

/-- A canonical text is what is written of some set, if its numerals are words at all. -/
theorem exists_encode_eq (hc : Canonical text) (h : decode text = .ok s) : ∃ t, encode t = text := by
  rcases hc with rfl | ⟨ws, hne, hws, hascending, htext⟩
  · exact ⟨∅, rfl⟩
  · have hcut := isCut_intercalate hne hws htext
    have hvalid : ∀ w ∈ ws, ∃ a b, Valid w a b := by
      rcases valid_or_first_wrong ws with hv | ⟨before, t, after, e, rfl, hbefore, he⟩
      · exact hv
      · rw [decode_of_reads (.wrong hcut hbefore he)] at h
        cases h
    have hrange : ws ∈ Set.range (List.map fun a : UInt32 => Numeral.ofNat a.toNat) := by
      rw [Set.range_list_map]
      intro w hw
      obtain ⟨a, b, hab⟩ := hvalid w hw
      exact ⟨a, (eq_ofNat_of_valid (hws w hw) hab).symm⟩
    obtain ⟨ids, rfl⟩ := hrange
    have hids : ids.Pairwise (· < ·) := by
      simp only [List.map_map, List.pairwise_map, Function.comp_apply, Numeral.decimal_ofNat] at hascending
      exact hascending.imp UInt32.lt_iff_toNat_lt.2
    refine ⟨⟨ids, hids⟩, String.toList_inj.1 ?_⟩
    rw [toList_encode, htext, Text.joinWith_eq_intercalate]

theorem encode_eq_iff_canonical (h : decode text = .ok s) : encode s = text ↔ Canonical text := by
  constructor
  · rintro rfl
    exact canonical_encode s
  · intro hc
    obtain ⟨t, rfl⟩ := exists_encode_eq hc h
    rw [decode_encode] at h
    rw [Except.ok.inj h]

theorem encode_injective : Function.Injective encode := by
  intro s t h
  have hdecode := congrArg decode h
  rw [decode_encode, decode_encode] at hdecode
  exact Except.ok.inj hdecode

/-- Writing and reading undo each other up to the canonical form. -/
theorem decode_encode_normal :
    (∀ ids : List UInt32, ∃ s, decode (encode (.ofList ids)) = .ok s ∧ ∀ a, a ∈ s ↔ a ∈ ids) ∧
    (∀ text s, decode text = .ok s → (encode s = text ↔ Canonical text)) ∧
    (∀ text u, normalForm text = .ok u → Canonical u ∧ decode u = decode text ∧ normalForm u = .ok u) ∧
    Function.Injective encode := by
  refine ⟨?_, fun _ _ h => encode_eq_iff_canonical h, ?_, encode_injective⟩
  · intro ids
    exact ⟨.ofList ids, decode_encode _, fun a => IdSet.mem_ofList⟩
  · intro text u h
    cases hs : decode text with
    | error e =>
      rw [normalForm, hs] at h
      cases h
    | ok s =>
      obtain rfl : encode s = u := by
        rw [normalForm, hs] at h
        exact Except.ok.inj h
      have hread := decode_encode s
      exact ⟨canonical_encode s, hread, by rw [normalForm, hread]; rfl⟩

def zeroOneThree : IdSet := ⟨[0, 1, 3], by decide⟩

theorem decode_unsortedList : decode " 3,0-1,+1\n" = .ok zeroOneThree := by
  have hread : decode " 3,0-1,+1\n" = .ok (.ofList [3, 0, 1, 1]) := rfl
  rw [hread]
  refine congrArg Except.ok (IdSet.eq_of_mem_iff fun a => ?_)
  have hsame : a ∈ [3, 0, 1, 1] ↔ a ∈ [0, 1, 3] := by grind
  exact IdSet.mem_ofList.trans hsame

/-- Blanks, a range, a plus sign and the order all go, and then nothing is left to change. -/
theorem normalForm_unsortedList :
    normalForm " 3,0-1,+1\n" = .ok "0,1,3" ∧ normalForm "0,1,3" = .ok "0,1,3" ∧
    Canonical "0,1,3" ∧ ¬ Canonical " 3,0-1,+1\n" := by
  obtain ⟨-, hcanonical, hnormal, -⟩ := decode_encode_normal
  have hwritten : encode zeroOneThree = "0,1,3" := by decide +kernel
  have hform : normalForm " 3,0-1,+1\n" = .ok "0,1,3" := by
    rw [normalForm, decode_unsortedList, ← hwritten]
    rfl
  have hchanged : encode zeroOneThree ≠ " 3,0-1,+1\n" := by decide +kernel
  obtain ⟨hc, -, hstays⟩ := hnormal _ _ hform
  exact ⟨hform, hstays, hc, fun h => hchanged ((hcanonical _ _ decode_unsortedList).2 h)⟩

end PlatformSnapshot.IdList
