import PlatformSnapshot.Json.Quoted
/-!
What is written between quotes is read back, whatever its characters are: the scan finds the quote
that closes it, and decoding undoes the escapes one character at a time.
-/
namespace PlatformSnapshot.Json

variable {c : Char}

/-- The digits of a control character spell it. -/
theorem unit?_control (hc : c < ' ') :
    unit? '0' '0' (hexDigit (c.toNat / 16)) (hexDigit (c.toNat % 16)) = some c.toNat := by
  have hall : ∀ n < 32, unit? '0' '0' (hexDigit (n / 16)) (hexDigit (n % 16)) = some n := by decide
  exact hall c.toNat hc

/-- The characters with an escape of two characters. -/
def shortlyEscaped : List Char := ['"', '\\', '\x08', '\t', '\n', '\x0c', '\r']

theorem escapeChar_short (h : c ∈ shortlyEscaped) :
    ∃ d, escapeChar c = ['\\', d] ∧ d ≠ 'u' ∧ shortEscape? d = some c := by
  simp only [shortlyEscaped, List.mem_cons, List.not_mem_nil, or_false] at h
  rcases h with rfl | rfl | rfl | rfl | rfl | rfl | rfl <;> exact ⟨_, rfl, by decide, rfl⟩

theorem escapeChar_other (h : c ∉ shortlyEscaped) : escapeChar c =
    if c < ' ' then ['\\', 'u', '0', '0', hexDigit (c.toNat / 16), hexDigit (c.toNat % 16)] else [c] := by
  simp only [shortlyEscaped, List.mem_cons, List.not_mem_nil, or_false, not_or] at h
  simp [escapeChar, h]

/-- The scan passes one escaped character. -/
theorem scan?_escapeChar (c : Char) (r : List Char) :
    scan? (escapeChar c ++ r) = (scan? r).map fun e => (escapeChar c ++ e.1, e.2) := by
  by_cases hshort : c ∈ shortlyEscaped
  · obtain ⟨d, hd, hu, hvalue⟩ := escapeChar_short hshort
    simp [hd, scan?, hu, hvalue]
  · rw [escapeChar_other hshort]
    split
    case isTrue hc => simp [scan?, unit?_control hc]
    case isFalse hc =>
      obtain ⟨hquote, hslash⟩ : c ≠ '"' ∧ c ≠ '\\' := by
        constructor <;> (rintro rfl; exact hshort (by decide))
      simp [scan?, hslash, hc]

/-- Decoding gives back one escaped character. -/
theorem unescape?_escapeChar (c : Char) (r : List Char) :
    unescape? (escapeChar c ++ r) = (unescape? r).map (c :: ·) := by
  by_cases hshort : c ∈ shortlyEscaped
  · obtain ⟨d, hd, hu, hvalue⟩ := escapeChar_short hshort
    simp [hd, unescape?, hu, hvalue]
  · rw [escapeChar_other hshort]
    split
    case isTrue hc =>
      have hlt : c.toNat < 32 := hc
      have hhigh : isHigh c.toNat = false := by simp [isHigh]; omega
      have hlow : isLow c.toNat = false := by simp [isLow]; omega
      simp [unescape?, unit?_control hc, hhigh, hlow]
    case isFalse hc =>
      have hslash : c ≠ '\\' := by
        rintro rfl
        exact hshort (by decide)
      simp [unescape?, hslash]

theorem scan?_escape (cs r : List Char) : scan? (escape cs ++ '"' :: r) = some (escape cs, r) := by
  induction cs with
  | nil => rfl
  | cons c cs ih =>
    rw [escape, List.flatMap_cons, ← escape, List.append_assoc, scan?_escapeChar, ih]
    rfl

theorem unescape?_escape (cs : List Char) : unescape? (escape cs) = some cs := by
  induction cs with
  | nil => rfl
  | cons c cs ih =>
    rw [escape, List.flatMap_cons, ← escape, unescape?_escapeChar, ih]
    rfl

end PlatformSnapshot.Json
