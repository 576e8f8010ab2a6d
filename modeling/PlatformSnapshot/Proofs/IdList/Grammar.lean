import PlatformSnapshot.Proofs.IdList
import PlatformSnapshot.Proofs.Reading
import PlatformSnapshot.Proofs.Text.Decimal
/-!
The grammar of the list format, and that reading follows it. Commas cut the text into tokens, and a
valid token is a bound or two bounds around its first dash, the first not greater than the second.
If all tokens are valid, the text is read as the union of their intervals; otherwise the leftmost
token that is not valid gives the error.
-/
namespace PlatformSnapshot.IdList

open Text (TrimsTo splitOnce? trim)
open Numeral (Spells)

/-- An id as it stands in a token: a numeral with blanks around it. -/
def IsBound (cs : List Char) (a : UInt32) : Prop := ∃ w, TrimsTo cs w ∧ Spells w a

/-- A valid token, with the first and the last of the ids that it stands for. -/
inductive Valid : List Char → UInt32 → UInt32 → Prop where
  | single (hdash : '-' ∉ t) (ha : IsBound t a) : Valid t a a
  | range (hdash : '-' ∉ l) (ha : IsBound l a) (hb : IsBound r b) (hab : a ≤ b) :
      Valid (l ++ '-' :: r) a b

/-- A token whose two bounds are in the wrong order. -/
inductive Reversed : List Char → UInt32 → UInt32 → Prop where
  | mk (hdash : '-' ∉ l) (ha : IsBound l a) (hb : IsBound r b) (hba : b < a) :
      Reversed (l ++ '-' :: r) a b

/-- What is wrong with a token that is not valid. -/
inductive Wrong (t : List Char) : Error → Prop where
  | reversed (h : Reversed t a b) : Wrong t (.reversedRange a b)
  | other (hv : ∀ a b, ¬ Valid t a b) (hr : ∀ a b, ¬ Reversed t a b) (hw : TrimsTo t w) :
      Wrong t (.invalidToken (.ofList w))

/-- The pieces between the commas of a text that has more than blanks. -/
def IsCut (text : String) (ts : List (List Char)) : Prop :=
  ∃ v, TrimsTo text.toList v ∧ v ≠ [] ∧ ts ≠ [] ∧ (∀ t ∈ ts, ',' ∉ t) ∧ [','].intercalate ts = v

/-- What a text says in the list format. -/
inductive Reads (text : String) : Except Error IdSet → Prop where
  | nothing (h : TrimsTo text.toList []) : Reads text (.ok ∅)
  | ids (hcut : IsCut text ts) (hv : ∀ t ∈ ts, ∃ a b, Valid t a b)
      (hs : ∀ x, x ∈ s ↔ ∃ t ∈ ts, ∃ a b, Valid t a b ∧ a ≤ x ∧ x ≤ b) : Reads text (.ok s)
  | wrong (hcut : IsCut text (before ++ t :: after)) (hv : ∀ u ∈ before, ∃ a b, Valid u a b)
      (he : Wrong t e) : Reads text (.error e)

variable {t : List Char} {ts : List (List Char)} {a b : UInt32} {e : Error} {text : String}

theorem bound?_eq_some_iff : bound? t = some a ↔ IsBound t a := by
  simp only [bound?, Numeral.word32?_eq_some_iff, IsBound, ← Text.trim_eq_iff, exists_eq_left']

theorem valid_iff : Valid t a b ↔
    (splitOnce? '-' t = none ∧ bound? t = some a ∧ b = a) ∨
    ∃ l r, splitOnce? '-' t = some (l, r) ∧ bound? l = some a ∧ bound? r = some b ∧ a ≤ b := by
  simp only [Text.splitOnce?_eq_none_iff, Text.splitOnce?_eq_some_iff, bound?_eq_some_iff]
  constructor
  · rintro (⟨hdash, ha⟩ | ⟨hdash, ha, hb, hab⟩)
    · exact .inl ⟨hdash, ha, rfl⟩
    · exact .inr ⟨_, _, ⟨rfl, hdash⟩, ha, hb, hab⟩
  · rintro (⟨hdash, ha, rfl⟩ | ⟨l, r, ⟨rfl, hdash⟩, ha, hb, hab⟩)
    · exact .single hdash ha
    · exact .range hdash ha hb hab

theorem reversed_iff : Reversed t a b ↔
    ∃ l r, splitOnce? '-' t = some (l, r) ∧ bound? l = some a ∧ bound? r = some b ∧ b < a := by
  simp only [Text.splitOnce?_eq_some_iff, bound?_eq_some_iff]
  constructor
  · rintro ⟨hdash, ha, hb, hba⟩
    exact ⟨_, _, ⟨rfl, hdash⟩, ha, hb, hba⟩
  · rintro ⟨l, r, ⟨rfl, hdash⟩, ha, hb, hba⟩
    exact ⟨hdash, ha, hb, hba⟩

theorem token_of_valid (h : Valid t a b) : token t = .ok (IdSet.interval a b) := by
  rcases valid_iff.1 h with ⟨hnone, ha, rfl⟩ | ⟨l, r, hsome, ha, hb, hab⟩
  · simp only [token, hnone, ha, IdSet.interval_self]
  · simp only [token, hsome, ha, hb, if_neg (UInt32.not_lt.2 hab)]

theorem token_of_wrong (h : Wrong t e) : token t = .error e := by
  cases h with
  | reversed h =>
    obtain ⟨l, r, hsome, ha, hb, hba⟩ := reversed_iff.1 h
    simp only [token, hsome, ha, hb, if_pos hba]
  | other hv hr hw =>
    obtain rfl := Text.trim_eq_iff.2 hw
    unfold token
    split
    case h_1 hnone =>
      split
      case h_1 a ha => exact absurd (valid_iff.2 (.inl ⟨hnone, ha, rfl⟩)) (hv a a)
      case h_2 => rfl
    case h_2 l r hsome =>
      split
      case h_1 a b ha hb =>
        split
        case isTrue hba => exact absurd (reversed_iff.2 ⟨l, r, hsome, ha, hb, hba⟩) (hr a b)
        case isFalse hab =>
          exact absurd (valid_iff.2 (.inr ⟨l, r, hsome, ha, hb, UInt32.not_lt.1 hab⟩)) (hv a b)
      case h_2 => rfl

/-- Every token is either valid or wrong in one of the two ways. -/
theorem valid_or_wrong (t : List Char) : (∃ a b, Valid t a b) ∨ ∃ e, Wrong t e := by
  by_cases hv : ∃ a b, Valid t a b
  · exact .inl hv
  · refine .inr ?_
    simp only [not_exists] at hv
    by_cases hr : ∃ a b, Reversed t a b
    · obtain ⟨a, b, hr⟩ := hr
      exact ⟨_, .reversed hr⟩
    · simp only [not_exists] at hr
      exact ⟨_, .other hv hr (Text.trimsTo_trim t)⟩

/-- All tokens are valid, or one is wrong and those before it are valid. -/
theorem valid_or_first_wrong (ts : List (List Char)) : (∀ t ∈ ts, ∃ a b, Valid t a b) ∨
    ∃ before t after e, ts = before ++ t :: after ∧ (∀ u ∈ before, ∃ a b, Valid u a b) ∧ Wrong t e := by
  rcases all_or_first (fun t => ∃ a b, Valid t a b) ts with hv | ⟨before, t, after, hts, hbefore, hnot⟩
  · exact .inl hv
  · obtain ⟨e, he⟩ := (valid_or_wrong t).resolve_left hnot
    exact .inr ⟨before, t, after, e, hts, hbefore, he⟩

theorem tokens_of_valid (h : ∀ t ∈ ts, ∃ a b, Valid t a b) : ∃ ids, tokens ts = .ok ids ∧
    ∀ x, x ∈ ids ↔ ∃ t ∈ ts, ∃ a b, Valid t a b ∧ a ≤ x ∧ x ≤ b := by
  induction ts with
  | nil => exact ⟨[], rfl, by simp⟩
  | cons t ts ih =>
    obtain ⟨⟨a, b, ht⟩, hts⟩ := List.forall_mem_cons.1 h
    obtain ⟨ids, hids, hmem⟩ := ih hts
    refine ⟨IdSet.interval a b ++ ids, ?_, ?_⟩
    · simp only [tokens, token_of_valid ht, hids]
    · intro x
      have hfirst : x ∈ IdSet.interval a b ↔ ∃ a b, Valid t a b ∧ a ≤ x ∧ x ≤ b := by
        constructor
        · exact fun hx => ⟨a, b, ht, IdSet.mem_interval.1 hx⟩
        · rintro ⟨c, d, hcd, hx⟩
          have hsame := (token_of_valid ht).symm.trans (token_of_valid hcd)
          rw [Except.ok.inj hsame]
          exact IdSet.mem_interval.2 hx
      rw [List.mem_append, hfirst, hmem]
      simp only [List.mem_cons, exists_eq_or_imp]

theorem tokens_of_wrong {before after : List (List Char)} (h : ∀ u ∈ before, ∃ a b, Valid u a b)
    (he : Wrong t e) : tokens (before ++ t :: after) = .error e := by
  induction before with
  | nil => simp only [List.nil_append, tokens, token_of_wrong he]
  | cons u before ih =>
    obtain ⟨⟨a, b, hu⟩, hbefore⟩ := List.forall_mem_cons.1 h
    simp only [List.cons_append, tokens, token_of_valid hu, ih hbefore]

theorem decode_of_isCut (h : IsCut text ts) : decode text = (tokens ts).map IdSet.ofList := by
  obtain ⟨v, hv, hne, hcut⟩ := h
  have htrim : trim text.toList = v := Text.trim_eq_iff.2 hv
  have hsplit : Text.splitOn ',' v = ts := Text.splitOn_eq_iff.2 hcut
  unfold decode
  rw [htrim]
  split
  case h_1 => exact absurd rfl hne
  case h_2 => rw [hsplit]

theorem decode_of_reads {r : Except Error IdSet} (h : Reads text r) : decode text = r := by
  cases h with
  | nothing h =>
    have htrim : trim text.toList = [] := Text.trim_eq_iff.2 h
    simp only [decode, htrim]
  | ids hcut hv hs =>
    obtain ⟨ids, hids, hmem⟩ := tokens_of_valid hv
    rw [decode_of_isCut hcut, hids]
    refine congrArg Except.ok (IdSet.eq_of_mem_iff fun x => ?_)
    rw [IdSet.mem_ofList, hmem, hs]
  | wrong hcut hv he =>
    rw [decode_of_isCut hcut, tokens_of_wrong hv he]
    rfl

theorem exists_reads (text : String) : ∃ r, Reads text r := by
  have htrim := Text.trimsTo_trim text.toList
  by_cases hnil : trim text.toList = []
  · exact ⟨_, .nothing (hnil ▸ htrim)⟩
  · have hcut : IsCut text (Text.splitOn ',' (trim text.toList)) := ⟨_, htrim, hnil, Text.splitOn_eq_iff.1 rfl⟩
    rcases valid_or_first_wrong (Text.splitOn ',' (trim text.toList)) with hv |
      ⟨before, t, after, e, hts, hbefore, he⟩
    · obtain ⟨ids, -, hmem⟩ := tokens_of_valid hv
      exact ⟨_, .ids (s := .ofList ids) hcut hv fun x => IdSet.mem_ofList.trans (hmem x)⟩
    · exact ⟨_, .wrong (hts ▸ hcut) hbefore he⟩

/-- Reading gives what the text says in the list format, be it a set or an error. -/
theorem decode_eq_iff_reads (text : String) (r : Except Error IdSet) : decode text = r ↔ Reads text r := by
  constructor
  · rintro rfl
    obtain ⟨r, hr⟩ := exists_reads text
    rwa [decode_of_reads hr]
  · exact decode_of_reads

end PlatformSnapshot.IdList
