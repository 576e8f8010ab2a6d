import Mathlib.Data.List.Basic
import PlatformSnapshot.Proofs.Text.Blank
import PlatformSnapshot.Proofs.Text.Numeral
import PlatformSnapshot.Timestamp
/-!
The text of a moment is read as that moment, for just the moments there are: reading yields a date of
the calendar and a time of the day whatever the offset was, and what it yields is written so that it is
read again.
-/
namespace PlatformSnapshot

open Numeral (isDigit padded valueFrom)
open Text

namespace Numeral

theorem isDigit_of_mem_padded {width n : Nat} {c : Char} (hc : c ∈ padded width n) : isDigit c := by
  rcases List.mem_append.1 hc with hc | hc
  · rw [List.eq_of_mem_replicate hc]
    decide
  · exact isDigit_of_mem_ofNat hc

theorem padded_ne_nil (width n : Nat) : padded width n ≠ [] := by simp [padded, ofNat_ne_nil]

theorem valueFrom_padded (width n : Nat) : valueFrom 0 (padded width n) = n := by
  have hzeros : ∀ k, valueFrom 0 (List.replicate k '0') = 0 := by
    intro k
    induction k with
    | zero => rfl
    | succ k ih => exact ih
  rw [padded, valueFrom_append, hzeros, valueFrom_ofNat]

theorem length_padded {width n : Nat} (h : n < Nat.pow 10 (width + 1)) : (padded (width + 1) n).length = width + 1 := by
  have hlength := length_ofNat_le h
  rw [padded, List.length_append, List.length_replicate]
  omega

end Numeral

namespace Date

theorem daysIn_bounds (year : Int) (month : Nat) : 28 ≤ daysIn year month ∧ daysIn year month ≤ 31 := by
  unfold daysIn
  split
  · split <;> omega
  all_goals omega

/-- A date that the calendar has, in whatever year. -/
def OnCalendar (d : Date) : Prop := 1 ≤ d.month ∧ d.month ≤ 12 ∧ 1 ≤ d.day ∧ d.day ≤ daysIn d.year d.month

theorem isValid_iff {d : Date} : d.isValid ↔ d.inRange ∧ d.OnCalendar := by
  simp only [isValid, OnCalendar, Bool.and_eq_true, decide_eq_true_eq, and_assoc]

theorem onCalendar_next {d : Date} (h : d.OnCalendar) : d.next.OnCalendar := by
  have hmonth := daysIn_bounds d.year (d.month + 1)
  have hyear := daysIn_bounds (d.year + 1) 1
  unfold next
  split
  · dsimp only [OnCalendar] at h ⊢
    omega
  · split <;> (dsimp only [OnCalendar] at h ⊢; omega)

theorem onCalendar_previous {d : Date} (h : d.OnCalendar) : d.previous.OnCalendar := by
  have hmonth := daysIn_bounds d.year (d.month - 1)
  have hyear : daysIn (d.year - 1) 12 = 31 := rfl
  unfold previous
  split
  · dsimp only [OnCalendar] at h ⊢
    omega
  · split <;> (dsimp only [OnCalendar] at h ⊢; omega)

end Date

namespace Timestamp

variable {t : Timestamp} {ds r : List Char}

/-- A number that fills its width is read whatever follows it. -/
theorem number?_of_length (hds : ∀ c ∈ ds, isDigit c) (hne : ds ≠ []) (r : List Char) :
    number? ds.length (ds ++ r) = some (valueFrom 0 ds, r) := by
  have htake : ((ds ++ r).take ds.length).takeWhile isDigit = ds := by
    rw [List.take_left]
    simpa using (Numeral.takeWhile_digits (r := []) hds (by simp)).1
  simp only [number?, htake, hne, if_false, List.drop_left]

/-- A number that may be longer is read up to the first character that is no digit. -/
theorem number?_of_head (hds : ∀ c ∈ ds, isDigit c) (hne : ds ≠ []) (hr : ∀ c ∈ r.head?, isDigit c = false) :
    number? (ds ++ r).length (ds ++ r) = some (valueFrom 0 ds, r) := by
  have htake : ((ds ++ r).take (ds ++ r).length).takeWhile isDigit = ds := by
    rw [List.take_length]
    exact (Numeral.takeWhile_digits hds hr).1
  simp only [number?, htake, hne, if_false, List.drop_left]

theorem trimLeft_padded (width n : Nat) (r : List Char) : trimLeft (padded width n ++ r) = padded width n ++ r := by
  refine trimLeft_eq_self fun c hc => ?_
  rw [List.head?_append_of_ne_nil _ (Numeral.padded_ne_nil width n)] at hc
  exact Numeral.isBlank_of_isDigit (Numeral.isDigit_of_mem_padded (List.mem_of_mem_head? hc))

/-- A field of two digits. -/
theorem number?_padded {n : Nat} (hn : n < 100) (r : List Char) :
    number? 2 (trimLeft (padded 2 n ++ r)) = some (n, r) := by
  have hlength : (padded 2 n).length = 2 := Numeral.length_padded hn
  have h := number?_of_length (fun c hc => Numeral.isDigit_of_mem_padded hc) (Numeral.padded_ne_nil 2 n) r
  rw [hlength, Numeral.valueFrom_padded] at h
  rw [trimLeft_padded, h]

theorem mark?_self {c : Char} (hc : isBlank c = false) (r : List Char) : mark? c (c :: r) = some r := by
  have htrim : trimLeft (c :: r) = c :: r := trimLeft_eq_self (by rintro d ⟨⟩; exact hc)
  simp [mark?, htrim]

theorem year?_padded {n : Nat} (hn : n < 10000) (r : List Char) :
    year? (padded 4 n ++ r) = some ((n : Int), r) := by
  have hlength : (padded 4 n).length = 4 := Numeral.length_padded hn
  have h := number?_of_length (fun c hc => Numeral.isDigit_of_mem_padded hc) (Numeral.padded_ne_nil 4 n) r
  rw [hlength, Numeral.valueFrom_padded] at h
  obtain ⟨c, w, hw⟩ := List.exists_cons_of_ne_nil (Numeral.padded_ne_nil 4 n)
  have hc : isDigit c := Numeral.isDigit_of_mem_padded (hw ▸ List.mem_cons_self)
  have hminus : c ≠ '-' := by rintro rfl; exact absurd hc (by decide)
  have hplus : c ≠ '+' := by rintro rfl; exact absurd hc (by decide)
  rw [hw, List.cons_append] at h ⊢
  simp [year?, hminus, hplus, h]

theorem number?_year (n : Nat) {r : List Char} (hr : ∀ c ∈ r.head?, isDigit c = false) :
    number? (padded 4 n ++ r).length (padded 4 n ++ r) = some (n, r) := by
  rw [number?_of_head (fun c hc => Numeral.isDigit_of_mem_padded hc) (Numeral.padded_ne_nil 4 n) hr,
    Numeral.valueFrom_padded]

theorem year?_yearText (year : Int) {r : List Char} (hr : ∀ c ∈ r.head?, isDigit c = false) :
    year? (trimLeft (yearText year ++ r)) = some (year, r) := by
  unfold yearText
  split
  case isTrue hyear =>
    have hcast : (year.toNat : Int) = year := Int.toNat_of_nonneg hyear.1
    rw [trimLeft_padded, year?_padded (by omega), hcast]
  case isFalse hyear =>
    have hnumber := number?_year year.natAbs hr
    split
    case isTrue hneg =>
      have hcast : -(year.natAbs : Int) = year := by omega
      have htrim : trimLeft ('-' :: (padded 4 year.natAbs ++ r)) = '-' :: (padded 4 year.natAbs ++ r) :=
        trimLeft_eq_self (by rintro d ⟨⟩; decide)
      rw [List.cons_append, htrim, year?, hnumber]
      exact congrArg (fun y => some (y, r)) hcast
    case isFalse hpos =>
      have hcast : (year.natAbs : Int) = year := by omega
      have htrim : trimLeft ('+' :: (padded 4 year.natAbs ++ r)) = '+' :: (padded 4 year.natAbs ++ r) :=
        trimLeft_eq_self (by rintro d ⟨⟩; decide)
      rw [List.cons_append, htrim, year?, hnumber]
      exact congrArg (fun y => some (y, r)) hcast

/-- A fraction of at most nine digits. -/
theorem fraction?_padded {k n : Nat} (hk : k < 9) (hn : n < Nat.pow 10 (k + 1)) :
    fraction? ('.' :: padded (k + 1) n ++ ['Z']) = some (n * Nat.pow 10 (8 - k), ['Z']) := by
  have hlength := Numeral.length_padded hn
  have hrun : (padded (k + 1) n ++ ['Z']).takeWhile isDigit = padded (k + 1) n :=
    (Numeral.takeWhile_digits (fun c hc => Numeral.isDigit_of_mem_padded hc) (by rintro d ⟨⟩; decide)).1
  have hkept : (padded (k + 1) n).take 9 = padded (k + 1) n := List.take_of_length_le (by omega)
  have hdrop : (padded (k + 1) n ++ ['Z']).drop (k + 1) = ['Z'] := List.drop_left' hlength
  have hpower : 9 - (k + 1) = 8 - k := by omega
  simp only [List.cons_append, fraction?, hrun, Numeral.padded_ne_nil, if_false, hkept, Numeral.valueFrom_padded,
    hlength, hpower, hdrop]

theorem fraction?_fractionText {n : Nat} (hn : n < 1000000000) :
    fraction? (fractionText n ++ ['Z']) = some (n, ['Z']) := by
  have hthousand : Nat.pow 10 3 = 1000 := rfl
  have hmillion : Nat.pow 10 6 = 1000000 := rfl
  unfold fractionText
  split
  case isTrue hzero =>
    rw [hzero]
    rfl
  case isFalse =>
    split
    case isTrue hmilli =>
      have hlt : n / 1000000 < Nat.pow 10 (2 + 1) := show n / 1000000 < 1000 by omega
      rw [fraction?_padded (by decide) hlt, hmillion, Nat.div_mul_cancel (Nat.dvd_of_mod_eq_zero hmilli)]
    case isFalse =>
      split
      case isTrue hmicro =>
        have hlt : n / 1000 < Nat.pow 10 (5 + 1) := show n / 1000 < 1000000 by omega
        rw [fraction?_padded (by decide) hlt, hthousand, Nat.div_mul_cancel (Nat.dvd_of_mod_eq_zero hmicro)]
      case isFalse =>
        rw [fraction?_padded (k := 8) (by decide) hn]
        exact congrArg (fun m => some (m, ['Z'])) (Nat.mul_one n)

theorem toUniversal_zero (hhour : t.hour < 24) (hminute : t.minute < 60) : t.toUniversal 0 = t := by
  have hlow : ¬ (60 * t.hour + t.minute - 0 : Int) < 0 := by omega
  have hhigh : ¬ (1440 : Int) ≤ 60 * t.hour + t.minute - 0 := by omega
  have hday : ((60 * t.hour + t.minute - 0 : Int) % 1440).toNat = 60 * t.hour + t.minute := by omega
  have hhours : (60 * t.hour + t.minute) / 60 = t.hour := by omega
  have hminutes : (60 * t.hour + t.minute) % 60 = t.minute := by omega
  simp only [toUniversal, hlow, hhigh, if_false, hday, hhours, hminutes]

theorem render_eq (t : Timestamp) : t.render = yearText t.date.year ++ '-' :: (padded 2 t.date.month ++
    '-' :: (padded 2 t.date.day ++ 'T' :: (padded 2 t.hour ++ ':' :: (padded 2 t.minute ++ ':' :: (padded 2 t.second ++
      (fractionText t.nanosecond ++ ['Z'])))))) := by
  simp only [render, List.append_assoc, List.cons_append]

theorem isValid_iff :
    t.isValid ↔ t.date.inRange ∧ t.date.OnCalendar ∧ t.hour < 24 ∧ t.minute < 60 ∧ t.second ≤ 60 ∧
    t.nanosecond < 1000000000 := by
  simp only [isValid, Bool.and_eq_true, decide_eq_true_eq, Date.isValid_iff, and_assoc]

/-- A moment of the calendar is read from its text. -/
theorem parse?_render (h : t.isValid) : parse? t.render = some t := by
  obtain ⟨hrange, ⟨-, hmonth, -, hday⟩, hhour, hminute, hsecond, hnanosecond⟩ := isValid_iff.1 h
  have hdays := Date.daysIn_bounds t.date.year t.date.month
  have hyear := fun r => year?_yearText t.date.year (r := '-' :: r) (by rintro d ⟨⟩; decide)
  have hdash := fun r => mark?_self (c := '-') (by decide) r
  have hcolon := fun r => mark?_self (c := ':') (by decide) r
  have hfraction := fraction?_fractionText hnanosecond
  have hoffset : offset? (trimLeft ['Z']) = some (0, []) := by decide
  have hend : trimLeft [] = [] := rfl
  rw [parse?, render_eq, hyear]
  simp [hdash, hcolon, number?_padded (show t.date.month < 100 by omega),
    number?_padded (show t.date.day < 100 by omega), number?_padded (show t.hour < 100 by omega),
    number?_padded (show t.minute < 100 by omega),
    number?_padded (show t.second < 100 by omega), hfraction, hoffset, hend, toUniversal_zero hhour hminute, h, hrange]

/-- In universal time the moment is on the calendar, too. -/
theorem isValid_toUniversal (h : t.isValid) (ahead : Int) (hrange : (t.toUniversal ahead).date.inRange) :
    (t.toUniversal ahead).isValid := by
  obtain ⟨-, hdate, -, -, hsecond, hnanosecond⟩ := isValid_iff.1 h
  refine isValid_iff.2 ⟨hrange, ?_, ?_, ?_, hsecond, hnanosecond⟩
  · unfold toUniversal
    dsimp only
    split
    · exact Date.onCalendar_previous hdate
    · split
      · exact Date.onCalendar_next hdate
      · exact hdate
  · unfold toUniversal
    dsimp only
    omega
  · unfold toUniversal
    dsimp only
    omega

/-- Whatever text is read, it stands for a moment of the calendar. -/
theorem isValid_of_parse? {cs : List Char} (h : parse? cs = some t) : t.isValid := by
  obtain ⟨⟨year, cs⟩, -, h⟩ := Option.bind_eq_some_iff.1 h
  obtain ⟨cs, -, h⟩ := Option.bind_eq_some_iff.1 h
  obtain ⟨⟨month, cs⟩, -, h⟩ := Option.bind_eq_some_iff.1 h
  obtain ⟨cs, -, h⟩ := Option.bind_eq_some_iff.1 h
  obtain ⟨⟨day, cs⟩, -, h⟩ := Option.bind_eq_some_iff.1 h
  dsimp only at h
  split at h
  case h_2 => cases h
  case h_1 =>
    split at h
    case isFalse => cases h
    case isTrue =>
      obtain ⟨cs, -, h⟩ := Option.bind_eq_some_iff.1 h
      obtain ⟨⟨hour, cs⟩, -, h⟩ := Option.bind_eq_some_iff.1 h
      obtain ⟨cs, -, h⟩ := Option.bind_eq_some_iff.1 h
      obtain ⟨⟨minute, cs⟩, -, h⟩ := Option.bind_eq_some_iff.1 h
      obtain ⟨cs, -, h⟩ := Option.bind_eq_some_iff.1 h
      obtain ⟨⟨second, cs⟩, -, h⟩ := Option.bind_eq_some_iff.1 h
      obtain ⟨⟨nanosecond, cs⟩, -, h⟩ := Option.bind_eq_some_iff.1 h
      obtain ⟨⟨ahead, cs⟩, -, h⟩ := Option.bind_eq_some_iff.1 h
      dsimp only at h
      split at h
      case isTrue hok =>
        obtain rfl := Option.some.inj h
        exact isValid_toUniversal hok.1 ahead hok.2.1
      case isFalse => cases h

/-- A moment can be read back from its text just if it is on the calendar. -/
theorem ofText?_text_iff : ofText? t.text = some t ↔ t.isValid := by
  rw [ofText?, text, String.toList_ofList]
  exact ⟨isValid_of_parse?, parse?_render⟩

theorem isValid_of_ofText? {s : String} (h : ofText? s = some t) : t.isValid := isValid_of_parse? h

end Timestamp
end PlatformSnapshot
