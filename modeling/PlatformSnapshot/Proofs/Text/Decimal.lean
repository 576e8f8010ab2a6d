import Mathlib.Data.List.Basic
import Mathlib.Data.List.Induction
import Mathlib.Data.Nat.Digits.Defs
import PlatformSnapshot.Proofs.Text.Numeral
/-!
Numerals and what they spell. A row of digits spells a number in the decimal system; reading accepts
just the numerals whose number is in range and gives that number, and of all rows that spell it,
writing gives the one without zeros in front.
-/
namespace PlatformSnapshot.Numeral

variable {cs ds : List Char} {n : Nat} {a : UInt32}

/-- One or more digits. -/
def IsRow (ds : List Char) : Prop := ds ≠ [] ∧ ∀ c ∈ ds, isDigit c

/-- The number that a row of digits spells in the decimal system. -/
def decimal (ds : List Char) : Nat := Nat.ofDigits 10 (ds.reverse.map digitValue)

@[simp] theorem decimal_nil : decimal [] = 0 := rfl

theorem decimal_append_singleton (ds : List Char) (c : Char) :
    decimal (ds ++ [c]) = 10 * decimal ds + digitValue c := by
  simp [decimal, Nat.ofDigits_cons, Nat.add_comm]

theorem valueFrom_zero (ds : List Char) : valueFrom 0 ds = decimal ds := by
  induction ds using List.reverseRecOn with
  | nil => rfl
  | append_singleton ds c ih =>
    calc valueFrom 0 (ds ++ [c]) = valueFrom (valueFrom 0 ds) [c] := valueFrom_append 0 ds [c]
      _ = 10 * valueFrom 0 ds + digitValue c := rfl
      _ = decimal (ds ++ [c]) := by rw [ih, decimal_append_singleton]

theorem decimal_ofNat (n : Nat) : decimal (ofNat n) = n := by rw [← valueFrom_zero, valueFrom_ofNat]

theorem digits?_eq_some_iff : digits? cs = some n ↔ IsRow cs ∧ decimal cs = n := by
  by_cases h : IsRow cs
  · have hcond : (!cs.isEmpty && cs.all isDigit) = true := by simpa [IsRow] using h
    rw [digits?, if_pos hcond, valueFrom_zero]
    simp [h]
  · have hcond : ¬ (!cs.isEmpty && cs.all isDigit) = true := by simpa [IsRow] using h
    rw [digits?, if_neg hcond]
    simp [h]

theorem plus_not_mem_of_isRow (h : IsRow ds) : '+' ∉ ds := fun hmem => absurd (h.2 _ hmem) (by decide)

/-- A numeral without a minus sign: a row of digits, after a plus sign or not. -/
theorem natural?_eq_some_iff :
    natural? cs = some n ↔ ∃ ds, (cs = ds ∨ cs = '+' :: ds) ∧ IsRow ds ∧ decimal ds = n := by
  unfold natural?
  split
  case h_1 r =>
    rw [digits?_eq_some_iff]
    constructor
    · rintro ⟨hr, rfl⟩
      exact ⟨r, .inr rfl, hr, rfl⟩
    · rintro ⟨ds, rfl | hds, hrow, hn⟩
      · exact absurd List.mem_cons_self (plus_not_mem_of_isRow hrow)
      · cases hds
        exact ⟨hrow, hn⟩
  case h_2 hplus =>
    rw [digits?_eq_some_iff]
    constructor
    · rintro ⟨hrow, rfl⟩
      exact ⟨cs, .inl rfl, hrow, rfl⟩
    · rintro ⟨ds, rfl | rfl, hrow, hn⟩
      · exact ⟨hrow, hn⟩
      · exact absurd rfl (hplus ds)

/-- The numeral spells a word of 32 bits: a number up to 4294967295. -/
def Spells (cs : List Char) (a : UInt32) : Prop :=
  ∃ ds, (cs = ds ∨ cs = '+' :: ds) ∧ IsRow ds ∧ decimal ds = a.toNat

theorem ofNat_word_eq_some_iff {n : Nat} :
    (if n < UInt32.size then some (UInt32.ofNat n) else none) = some a ↔ n = a.toNat := by
  constructor
  · intro h
    split at h
    case isTrue hn =>
      obtain rfl := Option.some.inj h
      exact (UInt32.toNat_ofNat_of_lt' hn).symm
    case isFalse => cases h
  · rintro rfl
    have ha : a.toNat < UInt32.size := a.toNat_lt
    rw [if_pos ha, UInt32.ofNat_toNat]

theorem word32?_eq_some_iff : word32? cs = some a ↔ Spells cs a := by
  simp only [word32?, Option.bind_eq_some_iff, natural?_eq_some_iff, ofNat_word_eq_some_iff, Spells]
  constructor
  · rintro ⟨n, ⟨ds, hcs, hrow, rfl⟩, hn⟩
    exact ⟨ds, hcs, hrow, hn⟩
  · rintro ⟨ds, hcs, hrow, hn⟩
    exact ⟨_, ⟨ds, hcs, hrow, rfl⟩, hn⟩

/-- The numeral spells a word of 64 bits: a number up to 18446744073709551615. -/
def Spells64 (cs : List Char) (a : UInt64) : Prop :=
  ∃ ds, (cs = ds ∨ cs = '+' :: ds) ∧ IsRow ds ∧ decimal ds = a.toNat

theorem ofNat_word64_eq_some_iff {n : Nat} {a : UInt64} :
    (if n < UInt64.size then some (UInt64.ofNat n) else none) = some a ↔ n = a.toNat := by
  constructor
  · intro h
    split at h
    case isTrue hn =>
      obtain rfl := Option.some.inj h
      exact (UInt64.toNat_ofNat_of_lt' hn).symm
    case isFalse => cases h
  · rintro rfl
    have ha : a.toNat < UInt64.size := a.toNat_lt
    rw [if_pos ha, UInt64.ofNat_toNat]

theorem word64?_eq_some_iff {a : UInt64} : word64? cs = some a ↔ Spells64 cs a := by
  simp only [word64?, Option.bind_eq_some_iff, natural?_eq_some_iff, ofNat_word64_eq_some_iff, Spells64]
  constructor
  · rintro ⟨n, ⟨ds, hcs, hrow, rfl⟩, hn⟩
    exact ⟨ds, hcs, hrow, hn⟩
  · rintro ⟨ds, hcs, hrow, hn⟩
    exact ⟨_, ⟨ds, hcs, hrow, rfl⟩, hn⟩

/-- The numeral spells a signed word of 64 bits: a number from -9223372036854775808 to
9223372036854775807, with a sign or without. -/
def SpellsSigned (cs : List Char) (a : Int64) : Prop :=
  ∃ ds, IsRow ds ∧
    ((cs = ds ∨ cs = '+' :: ds) ∧ (decimal ds : Int) = a.toInt ∨ cs = '-' :: ds ∧ -(decimal ds : Int) = a.toInt)

theorem integer?_eq_some_iff {n : Int} : integer? cs = some n ↔ ∃ ds, IsRow ds ∧
    ((cs = ds ∨ cs = '+' :: ds) ∧ (decimal ds : Int) = n ∨ cs = '-' :: ds ∧ -(decimal ds : Int) = n) := by
  unfold integer?
  split
  case h_1 r =>
    have hnegated : ((digits? r).map fun n => -(n : Int)) = (digits? r).map fun n : Nat => -(n : Int) := by
      cases digits? r <;> rfl
    simp only [hnegated, Option.map_eq_some_iff, digits?_eq_some_iff]
    constructor
    · rintro ⟨_, ⟨hrow, rfl⟩, rfl⟩
      exact ⟨r, hrow, .inr ⟨rfl, rfl⟩⟩
    · rintro ⟨ds, hrow, ⟨rfl | hds, -⟩ | ⟨hds, rfl⟩⟩
      · exact absurd (hrow.2 '-' List.mem_cons_self) (by decide)
      · cases hds
      · cases hds
        exact ⟨_, ⟨hrow, rfl⟩, rfl⟩
  case h_2 hminus =>
    simp only [Option.map_eq_some_iff, natural?_eq_some_iff]
    constructor
    · rintro ⟨_, ⟨ds, hcs, hrow, rfl⟩, rfl⟩
      exact ⟨ds, hrow, .inl ⟨hcs, rfl⟩⟩
    · rintro ⟨ds, hrow, ⟨hcs, rfl⟩ | ⟨rfl, -⟩⟩
      · exact ⟨_, ⟨ds, hcs, hrow, rfl⟩, rfl⟩
      · exact absurd rfl (hminus ds)

theorem int64?_eq_some_iff {a : Int64} : int64? cs = some a ↔ SpellsSigned cs a := by
  simp only [int64?, Option.bind_eq_some_iff, inInt64?_eq_some_iff, exists_eq_right, integer?_eq_some_iff, SpellsSigned]

/-- A row of digits without zeros in front; zero itself is one digit. -/
def IsShortest (ds : List Char) : Prop := IsRow ds ∧ (ds.head? = some '0' → ds = ['0'])

theorem isRow_ofNat (n : Nat) : IsRow (ofNat n) := ⟨ofNat_ne_nil n, fun _ => isDigit_of_mem_ofNat⟩

theorem digitValue_lt {c : Char} (h : isDigit c) : digitValue c < 10 := by
  rw [isDigit_iff] at h
  unfold digitValue
  omega

theorem digitChar_digitValue {c : Char} (h : isDigit c) {n : Nat} (hn : n % 10 = digitValue c) :
    digitChar n = c := by
  rw [isDigit_iff] at h
  have hsum : 48 + n % 10 = c.toNat := by
    unfold digitValue at hn
    omega
  rw [digitChar, hsum, Char.ofNat_toNat]

theorem ofNat_of_lt (h : n < 10) : ofNat n = [digitChar n] := by rw [ofNat, if_pos h]

theorem ofNat_of_le (h : 10 ≤ n) : ofNat n = ofNat (n / 10) ++ [digitChar n] := by
  rw [ofNat, if_neg (Nat.not_lt.2 h)]

theorem head?_ofNat_ne {n : Nat} (h : 0 < n) : (ofNat n).head? ≠ some '0' := by
  induction n using ofNat.induct with
  | case1 n hn =>
    rw [ofNat_of_lt hn]
    intro hzero
    have hvalue : digitValue (digitChar n) = digitValue '0' := congrArg digitValue (Option.some.inj hzero)
    have hzero : digitValue '0' = 0 := rfl
    rw [digitValue_digitChar] at hvalue
    omega
  | case2 n hn ih =>
    rw [ofNat_of_le (Nat.not_lt.1 hn), List.head?_append_of_ne_nil _ (ofNat_ne_nil _)]
    exact ih (by omega)

theorem isShortest_ofNat (n : Nat) : IsShortest (ofNat n) := by
  refine ⟨isRow_ofNat n, fun hzero => ?_⟩
  by_cases hn : 0 < n
  · exact absurd hzero (head?_ofNat_ne hn)
  · obtain rfl : n = 0 := by omega
    rw [ofNat_of_lt (by decide)]
    rfl

/-- A number has only one shortest numeral. -/
theorem ofNat_decimal (h : IsShortest ds) : ofNat (decimal ds) = ds := by
  induction ds using List.reverseRecOn with
  | nil => exact absurd rfl h.1.1
  | append_singleton ds c ih =>
    obtain ⟨⟨-, hdigit⟩, hzero⟩ := h
    have hc : isDigit c := hdigit c (by simp)
    have hvalue : digitValue c < 10 := digitValue_lt hc
    have hlast : (10 * decimal ds + digitValue c) % 10 = digitValue c := by omega
    have hfront : (10 * decimal ds + digitValue c) / 10 = decimal ds := by omega
    rw [decimal_append_singleton]
    by_cases hnil : ds = []
    · subst hnil
      rw [ofNat_of_lt (by simpa using hvalue), digitChar_digitValue hc hlast]
      rfl
    · have hhead : ds.head? ≠ some '0' := by
        intro hds
        have hone := hzero (by rw [List.head?_append_of_ne_nil _ hnil, hds])
        have hlength := congrArg List.length hone
        simp at hlength
        exact hnil hlength
      have hds := ih ⟨⟨hnil, fun d hd => hdigit d (by simp [hd])⟩, fun h => absurd h hhead⟩
      have hpos : 0 < decimal ds := by
        by_contra hle
        have hdecimal : decimal ds = 0 := by omega
        rw [hdecimal, ofNat_of_lt (by decide)] at hds
        exact hhead (by rw [← hds]; rfl)
      rw [ofNat_of_le (by omega), hfront, hds, digitChar_digitValue hc hlast]

end PlatformSnapshot.Numeral
