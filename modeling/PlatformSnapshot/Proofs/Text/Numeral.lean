import PlatformSnapshot.Proofs.Text.Blank
import PlatformSnapshot.Proofs.Text.Split
import PlatformSnapshot.Text.Numeral
/-!
Reading a numeral gives back the number that was written, for every number that the type read has.
A written numeral is one word of digits, so no separator and no sign is found in it.
-/
namespace PlatformSnapshot.Numeral

open Text (IsLine IsWord isBlank)

theorem isDigit_iff {c : Char} : isDigit c ↔ 48 ≤ c.toNat ∧ c.toNat ≤ 57 := by
  simp only [isDigit, Bool.and_eq_true, decide_eq_true_eq]
  rfl

theorem isDigit_digitChar (n : Nat) : isDigit (digitChar n) := by
  have h : ∀ d < 10, isDigit (Char.ofNat (48 + d)) := by decide
  exact h (n % 10) (Nat.mod_lt n (by decide))

theorem digitValue_digitChar (n : Nat) : digitValue (digitChar n) = n % 10 := by
  have h : ∀ d < 10, digitValue (Char.ofNat (48 + d)) = d := by decide
  exact h (n % 10) (Nat.mod_lt n (by decide))

/-- The numeral is made digit by digit: what holds of one digit and survives one more holds of it. -/
theorem ofNat_induction {P : Nat → List Char → Prop} (hone : ∀ n < 10, P n [digitChar n])
    (hmore : ∀ n ds, 10 ≤ n → P (n / 10) ds → P n (ds ++ [digitChar n])) (n : Nat) : P n (ofNat n) := by
  induction n using ofNat.induct with
  | case1 n h =>
    rw [ofNat, if_pos h]
    exact hone n h
  | case2 n h ih =>
    rw [ofNat, if_neg h]
    exact hmore n _ (Nat.not_lt.1 h) ih

theorem ofNat_ne_nil (n : Nat) : ofNat n ≠ [] :=
  ofNat_induction (P := fun _ ds => ds ≠ []) (by simp) (by simp) n

theorem length_ofNat_le {n k : Nat} (h : n < Nat.pow 10 (k + 1)) : (ofNat n).length ≤ k + 1 := by
  refine ofNat_induction (P := fun n ds => ∀ k, n < Nat.pow 10 (k + 1) → ds.length ≤ k + 1) ?_ ?_ n k h
  · intro m _ k _
    simp
  · intro m ds hm ih k hk
    cases k with
    | zero =>
      have hten : Nat.pow 10 (0 + 1) = 10 := rfl
      omega
    | succ k =>
      have hpow : Nat.pow 10 (k + 1 + 1) = Nat.pow 10 (k + 1) * 10 := rfl
      have hlength := ih k (by omega)
      rw [List.length_append, List.length_singleton]
      omega

theorem isDigit_of_mem_ofNat {n : Nat} {c : Char} (hc : c ∈ ofNat n) : isDigit c := by
  have h : ∀ c ∈ ofNat n, isDigit c := by
    refine ofNat_induction (P := fun _ ds => ∀ c ∈ ds, isDigit c) ?_ ?_ n
    · intro m _
      simpa using isDigit_digitChar m
    · intro m ds _ ih
      simpa [or_imp, forall_and] using ⟨ih, isDigit_digitChar m⟩
  exact h c hc

/-- Digits are found as a run, up to the first character that is none. -/
theorem takeWhile_digits {ds r : List Char} (hds : ∀ c ∈ ds, isDigit c)
    (hr : ∀ c ∈ r.head?, isDigit c = false) :
    (ds ++ r).takeWhile isDigit = ds ∧ (ds ++ r).dropWhile isDigit = r :=
  Text.takeWhile_append hds hr

theorem valueFrom_append (acc : Nat) (as bs : List Char) :
    valueFrom acc (as ++ bs) = valueFrom (valueFrom acc as) bs := by
  induction as generalizing acc with
  | nil => rfl
  | cons c as ih => exact ih _

theorem valueFrom_ofNat (n : Nat) : valueFrom 0 (ofNat n) = n := by
  have hone : ∀ acc m, valueFrom acc [digitChar m] = 10 * acc + m % 10 :=
    fun acc m => congrArg (10 * acc + ·) (digitValue_digitChar m)
  refine ofNat_induction (P := fun n ds => valueFrom 0 ds = n) ?_ ?_ n
  · intro m hm
    rw [hone]
    omega
  · intro m ds _ ih
    rw [valueFrom_append, ih, hone]
    omega

theorem digits?_ofNat (n : Nat) : digits? (ofNat n) = some n := by
  have hall : (ofNat n).all isDigit := List.all_eq_true.2 fun c hc => isDigit_of_mem_ofNat hc
  have hne : (ofNat n).isEmpty = false := by simpa using ofNat_ne_nil n
  simp [digits?, hall, hne, valueFrom_ofNat]

theorem not_mem_ofNat {c : Char} (hc : isDigit c = false) (n : Nat) : c ∉ ofNat n := by
  intro h
  rw [isDigit_of_mem_ofNat h] at hc
  cases hc

theorem natural?_ofNat (n : Nat) : natural? (ofNat n) = some n := by
  unfold natural?
  split
  case h_1 r h => exact absurd (h ▸ List.mem_cons_self) (not_mem_ofNat (c := '+') (by decide) n)
  case h_2 => exact digits?_ofNat n

theorem word32?_ofNat (a : UInt32) : word32? (ofNat a.toNat) = some a := by
  have ha : a.toNat < UInt32.size := a.toNat_lt
  simp [word32?, natural?_ofNat, ha]

theorem word64?_ofNat (a : UInt64) : word64? (ofNat a.toNat) = some a := by
  have ha : a.toNat < UInt64.size := a.toNat_lt
  simp [word64?, natural?_ofNat, ha]

theorem integer?_ofInt (n : Int) : integer? (ofInt n) = some n := by
  cases n with
  | negSucc n =>
    simp only [ofInt, integer?, digits?_ofNat]
    rfl
  | ofNat n =>
    unfold integer?
    split
    case h_1 r h =>
      have h : ofNat n = '-' :: r := h
      exact absurd (h ▸ List.mem_cons_self) (not_mem_ofNat (c := '-') (by decide) n)
    case h_2 => exact congrArg (Option.map Int.ofNat) (natural?_ofNat n)

theorem int64?_ofInt (n : Int) : int64? (ofInt n) = inInt64? n := by
  simp [int64?, integer?_ofInt]

/-- Signed words of 64 bits hold the integer. -/
def FitsInt64 (n : Int) : Prop := Int64.minValue.toInt ≤ n ∧ n ≤ Int64.maxValue.toInt

instance (n : Int) : Decidable (FitsInt64 n) := inferInstanceAs (Decidable (_ ∧ _))

theorem fitsInt64_toInt (a : Int64) : FitsInt64 a.toInt := ⟨Int64.minValue_le_toInt a, Int64.toInt_le a⟩

theorem inInt64?_of_fits {n : Int} (h : FitsInt64 n) : inInt64? n = some (.ofInt n) := if_pos h

theorem toInt_ofInt_of_fits {n : Int} (h : FitsInt64 n) : (Int64.ofInt n).toInt = n :=
  toInt_of_inInt64? (inInt64?_of_fits h)

theorem inInt64?_toInt (a : Int64) : inInt64? a.toInt = some a := by
  rw [inInt64?_of_fits (fitsInt64_toInt a), Int64.ofInt_toInt]

theorem inInt64?_eq_some_iff {n : Int} {a : Int64} : inInt64? n = some a ↔ n = a.toInt := by
  constructor
  · exact fun h => (toInt_of_inInt64? h).symm
  · rintro rfl
    exact inInt64?_toInt a

theorem fitsInt64_iff {n : Int} : FitsInt64 n ↔ ∃ a : Int64, n = a.toInt := by
  constructor
  · exact fun h => ⟨.ofInt n, (toInt_ofInt_of_fits h).symm⟩
  · rintro ⟨a, rfl⟩
    exact fitsInt64_toInt a

theorem isBlank_of_isDigit {c : Char} (h : isDigit c) : isBlank c = false := by
  rw [isDigit_iff] at h
  simp [isBlank]
  omega

theorem isWord_ofNat (n : Nat) : IsWord (ofNat n) :=
  ⟨ofNat_ne_nil n, fun _ hc => isBlank_of_isDigit (isDigit_of_mem_ofNat hc)⟩

theorem isLine_ofNat (n : Nat) : IsLine (ofNat n) :=
  ⟨not_mem_ofNat (by decide) n, fun h => not_mem_ofNat (c := '\r') (by decide) n (List.mem_of_getLast? h)⟩

theorem isWord_ofInt (n : Int) : IsWord (ofInt n) := by
  cases n with
  | ofNat n => exact isWord_ofNat n
  | negSucc n =>
    refine ⟨by simp [ofInt], ?_⟩
    intro c hc
    rcases List.mem_cons.1 hc with rfl | hc
    · decide
    · exact (isWord_ofNat _).2 c hc

theorem isLine_ofInt (n : Int) : IsLine (ofInt n) := by
  cases n with
  | ofNat n => exact isLine_ofNat n
  | negSucc n => exact Text.isLine_cons (by decide) (by decide) (isLine_ofNat _)

end PlatformSnapshot.Numeral
