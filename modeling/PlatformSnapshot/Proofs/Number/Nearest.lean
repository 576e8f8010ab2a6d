import Mathlib.Algebra.Order.Field.Power
import Mathlib.Algebra.Ring.Parity
import Mathlib.Tactic.FieldSimp
import Mathlib.Tactic.Linarith
import Mathlib.Tactic.Positivity
import Mathlib.Tactic.Ring
import PlatformSnapshot.Number.Binary64
/-!
The conversion of integers to binary floating-point numbers. It gives the nearest number that can be
represented, and of two equally near the one with an even significand. A number that can be
represented stays as it is when it is rounded, so adding it to zero gives it back.
-/
namespace PlatformSnapshot.Binary64

/-- A significand and an exponent as every finite number has them: 53 bits, of which the highest is
set unless the exponent is the least. -/
structure IsNormal (m : Nat) (e : Int) : Prop where
  significand : m < 2 * leadingBit
  leading : leadingBit ≤ m ∨ e = minExponent
  least : minExponent ≤ e
  greatest : e ≤ maxExponent

/-- The absolute value of a finite number. -/
def size (m : Nat) (e : Int) : ℚ := m * 2 ^ e

/-- Of all that can be represented, `m · 2 ^ e` is the nearest to a number; if another one is as near,
then `m` is even. -/
structure IsNearestSize (n m : Nat) (e : Int) : Prop where
  normal : IsNormal m e
  nearest : ∀ k f, IsNormal k f → |size m e - n| ≤ |size k f - n|
  even_of_tie : ∀ k f, IsNormal k f → |size m e - n| = |size k f - n| → size k f = size m e ∨ Even m

/-- The finite number with the sign of an integer that is nearest to it. -/
def IsNearest (n : Int) (x : Binary64) : Prop := ∃ m e, x = .finite (n < 0) m e ∧ IsNearestSize n.natAbs m e

variable {negative : Bool} {m k s : Nat} {e f : Int}

theorem leadingBit_eq : leadingBit = 2 ^ 52 := rfl

theorem isNormal_zero : IsNormal 0 minExponent := ⟨by decide, .inr rfl, le_refl _, by decide⟩

/-- The quotient by a power of two, in the three cases of what is left over. -/
theorem shiftRightToEven_cases (m s : Nat) : ∃ q r, m = q * 2 ^ s + r ∧ r < 2 ^ s ∧
    (2 * r < 2 ^ s ∧ shiftRightToEven m s = q ∨ 2 ^ s < 2 * r ∧ shiftRightToEven m s = q + 1 ∨
      2 * r = 2 ^ s ∧ shiftRightToEven m s = q + q % 2) := by
  refine ⟨m / 2 ^ s, m % 2 ^ s, (Nat.div_add_mod' m _).symm, Nat.mod_lt _ (Nat.two_pow_pos s), ?_⟩
  simp only [shiftRightToEven, Nat.one_shiftLeft, Nat.shiftRight_eq_div_pow]
  split
  case isTrue h => exact .inl ⟨h, rfl⟩
  case isFalse h =>
    split
    case isTrue h' => exact .inr (.inl ⟨h', rfl⟩)
    case isFalse h' => exact .inr (.inr ⟨by omega, rfl⟩)

/-- A multiple of a number is one of two neighbouring ones or lies beyond them. -/
theorem multiple_cases (k q u : Nat) :
    k * u + u ≤ q * u ∨ k = q ∨ k = q + 1 ∨ q * u + 2 * u ≤ k * u := by
  rcases Nat.lt_or_ge k q with h | h
  · have hle := Nat.mul_le_mul_right u (Nat.succ_le_of_lt h)
    rw [Nat.succ_mul] at hle
    exact .inl hle
  · rcases Nat.lt_or_ge k (q + 2) with h' | h'
    · omega
    · have hle := Nat.mul_le_mul_right u h'
      rw [Nat.add_mul] at hle
      exact .inr (.inr (.inr hle))

/-- No multiple of the power is nearer than that by the quotient, and where another one is as near, the
quotient is even. -/
theorem shiftRightToEven_nearest (m s k : Nat) :
    ((shiftRightToEven m s * 2 ^ s : Nat) - m : Int).natAbs ≤ ((k * 2 ^ s : Nat) - m : Int).natAbs ∧
    (((shiftRightToEven m s * 2 ^ s : Nat) - m : Int).natAbs = ((k * 2 ^ s : Nat) - m : Int).natAbs →
      k = shiftRightToEven m s ∨ Even (shiftRightToEven m s)) := by
  obtain ⟨q, r, hm, hr, hcases⟩ := shiftRightToEven_cases m s
  have hq : (q + 1) * 2 ^ s = q * 2 ^ s + 2 ^ s := Nat.succ_mul _ _
  have hk := multiple_cases k q (2 ^ s)
  rcases hcases with ⟨h, hshift⟩ | ⟨h, hshift⟩ | ⟨h, hshift⟩
  · rw [hshift]
    rcases hk with hk | rfl | rfl | hk <;> omega
  · rw [hshift]
    rcases hk with hk | rfl | rfl | hk <;> omega
  · have heven : Even (shiftRightToEven m s) := by
      rw [hshift, Nat.even_iff]
      omega
    have hnext : shiftRightToEven m s = q ∨ shiftRightToEven m s = q + 1 := by omega
    refine ⟨?_, fun _ => .inr heven⟩
    rcases hnext with hnext | hnext <;> rw [hnext] <;> rcases hk with hk | rfl | rfl | hk <;> omega

/-- With 53 bits left the quotient has 53 bits, or is the next power of two. -/
theorem shiftRightToEven_bounds (hm : 2 ^ (52 + s) ≤ m) (hlt : m < 2 ^ (53 + s)) :
    leadingBit ≤ shiftRightToEven m s ∧ shiftRightToEven m s ≤ 2 * leadingBit := by
  obtain ⟨q, r, hsum, hr, hcases⟩ := shiftRightToEven_cases m s
  rw [Nat.pow_add] at hm hlt
  have hlow : 2 ^ 52 ≤ q := by
    by_contra h
    have hle : (q + 1) * 2 ^ s ≤ 2 ^ 52 * 2 ^ s := Nat.mul_le_mul_right _ (by omega)
    rw [Nat.succ_mul] at hle
    omega
  have hhigh : q < 2 ^ 53 := by
    by_contra h
    have hle : 2 ^ 53 * 2 ^ s ≤ q * 2 ^ s := Nat.mul_le_mul_right _ (by omega)
    omega
  rw [leadingBit_eq]
  omega

/-- A number with a greater exponent is a multiple of the power. -/
theorem exists_size_eq (h : (s : Int) ≤ e) (m : Nat) : ∃ k : Nat, size m e = ((k * 2 ^ s : Nat) : ℚ) := by
  obtain ⟨j, hj⟩ := Int.le.dest h
  refine ⟨m * 2 ^ j, ?_⟩
  rw [size, ← hj, ← Nat.cast_add, zpow_natCast]
  push_cast
  ring

/-- A number with a lesser exponent lies below all that have 53 bits before the power. -/
theorem size_lt (h : m < 2 * leadingBit) (hs : e < s) : size m e < ((2 ^ (52 + s) : Nat) : ℚ) := by
  have hpow : (2 : ℚ) ^ e ≤ 2 ^ ((s : Int) - 1) := zpow_le_zpow_right₀ one_le_two (by omega)
  have hm : (m : ℚ) < 2 ^ 53 := by
    have hlt : m < 2 ^ 53 := h
    exact_mod_cast hlt
  calc size m e < 2 ^ 53 * 2 ^ e := mul_lt_mul_of_pos_right hm (by positivity)
    _ ≤ 2 ^ 53 * 2 ^ ((s : Int) - 1) := mul_le_mul_of_nonneg_left hpow (by positivity)
    _ = ((2 ^ (52 + s) : Nat) : ℚ) := by
      rw [zpow_sub_one₀ two_ne_zero, zpow_natCast]
      push_cast
      ring

theorem abs_cast_sub (a b : Nat) : |(a : ℚ) - b| = (((a : Int) - b).natAbs : ℚ) := by
  rw [Nat.cast_natAbs]
  push_cast
  rfl

/-- Packing keeps the number, and an even significand even. -/
theorem pack_eq (negative : Bool) {q : Nat} (hlow : leadingBit ≤ q) (hhigh : q ≤ 2 * leadingBit)
    (hleast : minExponent ≤ e) (hgreatest : e < maxExponent) :
    ∃ m f, pack negative q e = .finite negative m f ∧ IsNormal m f ∧ size m f = size q e ∧
      (Even q → Even m) := by
  by_cases hq : q = 2 * leadingBit
  · refine ⟨leadingBit, e + 1, ?_, ⟨by decide, .inl (le_refl _), by omega, by omega⟩, ?_, fun _ => by decide⟩
    · simp only [pack, hq, if_true]
      exact if_neg (by omega)
    · rw [hq, size, size, zpow_add_one₀ two_ne_zero]
      push_cast
      ring
  · refine ⟨q, e, ?_, ⟨by omega, .inl hlow, hleast, hgreatest.le⟩, rfl, id⟩
    simp only [pack, hq, if_false]
    exact if_neg (by omega)

theorem log2_mul_two_pow (hm : m ≠ 0) (j : Nat) : (m * 2 ^ j).log2 = m.log2 + j := by
  obtain ⟨hlow, hhigh⟩ := (Nat.log2_eq_iff hm).1 rfl
  have hpos : 0 < 2 ^ j := Nat.two_pow_pos j
  refine (Nat.log2_eq_iff (Nat.mul_ne_zero hm hpos.ne')).2 ⟨?_, ?_⟩
  · rw [Nat.pow_add]
    exact Nat.mul_le_mul_right _ hlow
  · rw [Nat.add_right_comm, Nat.pow_add]
    exact Nat.mul_lt_mul_of_pos_right hhigh hpos

theorem IsNormal.pack_eq (h : IsNormal m e) (negative : Bool) : pack negative m e = .finite negative m e := by
  have hm : m ≠ 2 * leadingBit := h.significand.ne
  simp only [pack, hm, if_false]
  exact if_neg (not_lt.2 h.greatest)

theorem IsNormal.log2_le (h : IsNormal m e) (hm : m ≠ 0) : m.log2 ≤ 52 :=
  Nat.le_of_lt_succ ((Nat.log2_lt hm).2 h.significand)

theorem IsNormal.log2_eq (h : IsNormal m e) (hm : m ≠ 0) : m.log2 = 52 ∨ e = minExponent :=
  h.leading.imp_left fun hlead => le_antisymm (h.log2_le hm) ((Nat.le_log2 hm).2 hlead)

theorem shiftRightToEven_mul (m s : Nat) : shiftRightToEven (m * 2 ^ s) s = m := by
  have hpos : 0 < 2 ^ s := Nat.two_pow_pos s
  simp [shiftRightToEven, Nat.one_shiftLeft, Nat.shiftRight_eq_div_pow, hpos]

/-- Rounding takes off the zeros behind a number that can be represented. -/
theorem round_mul_two_pow (h : IsNormal m e) (hm : m ≠ 0) (negative : Bool) (j : Nat) :
    round negative (m * 2 ^ j) (e - j) = .finite negative m e := by
  have hne : m * 2 ^ j ≠ 0 := Nat.mul_ne_zero hm (Nat.two_pow_pos j).ne'
  have hshift : max (((m * 2 ^ j).log2 : Int) - 52) (minExponent - (e - j)) = j := by
    have hleast := h.least
    have hle := h.log2_le hm
    rw [log2_mul_two_pow hm]
    rcases h.log2_eq hm with hlog | hlog <;> omega
  simp only [round, if_neg hne, hshift, Int.sub_add_cancel, Int.natAbs_natCast]
  cases j with
  | zero => simpa using h.pack_eq negative
  | succ j =>
    rw [if_neg (by omega), shiftRightToEven_mul]
    exact h.pack_eq negative

/-- An integer with 53 bits at most can be represented. -/
theorem round_of_log2_le (negative : Bool) (hm : m ≠ 0) (h : m.log2 ≤ 52) :
    ∃ k f, round negative m 0 = .finite negative k f ∧ IsNormal k f ∧ size k f = m := by
  obtain ⟨j, hj⟩ := Nat.le.dest h
  have hne : m * 2 ^ j ≠ 0 := Nat.mul_ne_zero hm (Nat.two_pow_pos j).ne'
  have hlog : (m * 2 ^ j).log2 = 52 := by rw [log2_mul_two_pow hm, hj]
  obtain ⟨hlow, hhigh⟩ := (Nat.log2_eq_iff hne).1 hlog
  have hnormal : IsNormal (m * 2 ^ j) (-j) :=
    ⟨hhigh, .inl hlow, by rw [minExponent]; omega, by rw [maxExponent]; omega⟩
  have hshift : max ((m.log2 : Int) - 52) (minExponent - 0) = -j := by
    rw [minExponent]
    omega
  refine ⟨m * 2 ^ j, -j, ?_, hnormal, ?_⟩
  · simp only [round, if_neg hm, hshift]
    rw [if_pos (by omega), Int.natAbs_neg, Int.natAbs_natCast, Nat.shiftLeft_eq, zero_add]
    exact hnormal.pack_eq negative
  · rw [size, zpow_neg, zpow_natCast]
    push_cast
    field_simp

theorem round_of_log2_eq (negative : Bool) (hs : 0 < s) (h : m.log2 = 52 + s) :
    round negative m 0 = pack negative (shiftRightToEven m s) s := by
  have hm : m ≠ 0 := by
    rintro rfl
    rw [Nat.log2_zero] at h
    omega
  have hshift : max ((m.log2 : Int) - 52) (minExponent - 0) = s := by
    rw [h, minExponent]
    omega
  simp only [round, if_neg hm, hshift]
  rw [if_neg (by omega), Int.natAbs_natCast, zero_add]

theorem isNearestSize_of_size_eq {n : Nat} (h : IsNormal m e) (hn : size m e = n) : IsNearestSize n m e := by
  have hzero : |size m e - n| = 0 := by rw [hn, sub_self, abs_zero]
  refine ⟨h, fun k f _ => ?_, fun k f _ htie => .inl ?_⟩
  · rw [hzero]
    exact abs_nonneg _
  · rw [hzero] at htie
    rw [hn]
    exact sub_eq_zero.1 (abs_eq_zero.1 htie.symm)

/-- What is left of an integer of more than 53 bits is nearest to it: multiples of the power are not
nearer, and other numbers are below all that have as many bits as the integer. -/
theorem isNearestSize_shiftRightToEven (h : m.log2 = 52 + s) (hm : m ≠ 0) {k : Nat} {f : Int} (hnormal : IsNormal k f)
    (hsize : size k f = size (shiftRightToEven m s) s) (heven : Even (shiftRightToEven m s) → Even k) :
    IsNearestSize m k f := by
  have hcast : size k f = ((shiftRightToEven m s * 2 ^ s : Nat) : ℚ) := by
    rw [hsize, size, zpow_natCast]
    push_cast
    rfl
  have hbelow : ∀ l g, IsNormal l g → g < s → |size k f - m| < |size l g - m| := by
    intro l g hl hg
    have hlt := size_lt hl.significand hg
    have hle : ((2 ^ (52 + s) : Nat) : ℚ) ≤ m := by exact_mod_cast ((Nat.log2_eq_iff hm).1 h).1
    have hmultiple := (shiftRightToEven_nearest m s (2 ^ 52)).1
    rw [← Nat.pow_add, ← Nat.cast_le (α := ℚ), ← abs_cast_sub, ← abs_cast_sub, ← hcast] at hmultiple
    calc |size k f - m| ≤ |((2 ^ (52 + s) : Nat) : ℚ) - m| := hmultiple
      _ = m - ((2 ^ (52 + s) : Nat) : ℚ) := by rw [abs_sub_comm, abs_of_nonneg (sub_nonneg.2 hle)]
      _ < m - size l g := by linarith
      _ ≤ |size l g - m| := by rw [abs_sub_comm]; exact le_abs_self _
  refine ⟨hnormal, fun l g hl => ?_, fun l g hl htie => ?_⟩
  · rcases lt_or_ge g (s : Int) with hg | hg
    · exact (hbelow l g hl hg).le
    · obtain ⟨j, hj⟩ := exists_size_eq hg l
      rw [hcast, hj, abs_cast_sub, abs_cast_sub, Nat.cast_le]
      exact (shiftRightToEven_nearest m s j).1
  · rcases lt_or_ge g (s : Int) with hg | hg
    · exact absurd htie (hbelow l g hl hg).ne
    · obtain ⟨j, hj⟩ := exists_size_eq hg l
      rw [hcast, hj, abs_cast_sub, abs_cast_sub, Nat.cast_inj] at htie
      refine ((shiftRightToEven_nearest m s j).2 htie).imp (fun hjq => ?_) heven
      rw [hcast, hj, hjq]

/-- Rounding an integer that is not too large gives the nearest number. -/
theorem round_nearest (negative : Bool) (h : m.log2 < 1023) :
    ∃ k f, round negative m 0 = .finite negative k f ∧ IsNearestSize m k f := by
  by_cases hm : m = 0
  · subst hm
    refine ⟨0, minExponent, rfl, isNearestSize_of_size_eq isNormal_zero ?_⟩
    simp [size]
  · rcases Nat.lt_or_ge 52 m.log2 with hlong | hshort
    · obtain ⟨s, hs⟩ := Nat.le.dest hlong.le
      obtain ⟨hlow, hhigh⟩ := (Nat.log2_eq_iff hm).1 hs.symm
      obtain ⟨hqlow, hqhigh⟩ := shiftRightToEven_bounds hlow (by rwa [Nat.add_right_comm] at hhigh)
      obtain ⟨k, f, hpack, hnormal, hsize, heven⟩ := pack_eq negative hqlow hqhigh (e := s)
        (by rw [minExponent]; omega) (by rw [maxExponent]; omega)
      refine ⟨k, f, ?_, isNearestSize_shiftRightToEven hs.symm hm hnormal hsize heven⟩
      rw [round_of_log2_eq negative (by omega) hs.symm, hpack]
    · obtain ⟨k, f, hround, hnormal, hsize⟩ := round_of_log2_le negative hm hshort
      exact ⟨k, f, hround, isNearestSize_of_size_eq hnormal hsize⟩

theorem isNearest_ofInt {n : Int} (h : n.natAbs.log2 < 1023) : IsNearest n (ofInt n) := by
  obtain ⟨k, f, hround, hnearest⟩ := round_nearest (n < 0) h
  exact ⟨k, f, hround, hnearest⟩

theorem isNearest_ofNat {n : Nat} (h : n.log2 < 1023) : IsNearest n (ofNat n) := isNearest_ofInt (n := n) h

theorem log2_lt_of_lt {n k : Nat} (h : n < 2 ^ (k + 1)) : n.log2 < k + 1 := by
  by_cases hn : n = 0
  · simp [hn]
  · exact (Nat.log2_lt hn).2 h

/-- Words are far from being too large. -/
theorem log2_word64_lt (n : UInt64) : n.toNat.log2 < 1023 :=
  (log2_lt_of_lt n.toNat_lt).trans (by decide)

theorem isNearest_word64 (n : UInt64) : IsNearest n.toNat (ofNat n.toNat) := isNearest_ofNat (log2_word64_lt n)

theorem isNearest_int64 (n : Int64) : IsNearest n.toInt (ofInt n.toInt) := by
  have hlow : -2 ^ 63 ≤ n.toInt := Int64.minValue_le_toInt n
  have hhigh : n.toInt < 2 ^ 63 := Int64.toInt_lt n
  have hlog : n.toInt.natAbs.log2 < 64 := log2_lt_of_lt (by omega)
  exact isNearest_ofInt (hlog.trans (by decide))

/-- A number that can be represented is not changed by adding it to zero. -/
theorem zero_add_finite (h : IsNormal m e) : zero false + .finite false m e = .finite false m e := by
  obtain ⟨j, hj⟩ := Int.le.dest h.least
  have hlow : min minExponent e = minExponent := min_eq_left h.least
  have hshift : (e - minExponent).toNat = j := by omega
  have hexponent : e - (j : Int) = minExponent := by omega
  change add (.finite false 0 minExponent) (.finite false m e) = _
  simp only [add, hlow, hshift, signed, Bool.false_eq_true, if_false, Nat.shiftLeft_eq,
    Nat.zero_mul, Nat.cast_zero, zero_add]
  by_cases hm : m = 0
  · obtain rfl : e = minExponent := h.leading.resolve_left (by rw [hm]; decide)
    simp [hm, zero]
  · have hpos : (0 : Int) < ((m * 2 ^ j : Nat) : Int) := by
      have := Nat.mul_pos (Nat.pos_of_ne_zero hm) (Nat.two_pow_pos j)
      omega
    rw [if_neg hpos.ne', decide_eq_false (not_lt.2 hpos.le), Int.natAbs_natCast, ← hexponent]
    exact round_mul_two_pow h hm false j

theorem zero_add_word64 (n : UInt64) : zero false + ofNat n.toNat = ofNat n.toNat := by
  obtain ⟨m, e, hn, hnearest⟩ := isNearest_word64 n
  rw [hn, decide_eq_false (by omega)]
  exact zero_add_finite hnearest.normal

theorem isBelowZero_word64 (n : UInt64) : (ofNat n.toNat).isBelowZero = false := by
  obtain ⟨m, e, hn, -⟩ := isNearest_word64 n
  rw [hn, decide_eq_false (by omega)]
  rfl

end PlatformSnapshot.Binary64
