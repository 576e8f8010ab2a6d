import PlatformSnapshot.Document
/-!
Flat records: what settings are as documents. Their keys are words that every format can write as
they are, and their values are texts, truth values or nothing.
-/
namespace PlatformSnapshot.Document

/-- The letters and joints of names. -/
def isNameChar (c : Char) : Bool := ('a' ≤ c && c ≤ 'z') || c == '_' || c == '-'

/-- Names are not longer than what may be a key in any format. -/
structure IsName (w : List Char) : Prop where
  head : ∃ c ∈ w.head?, 'a' ≤ c ∧ c ≤ 'z'
  chars : ∀ c ∈ w, isNameChar c
  length_le : w.length ≤ 1024

inductive IsLeaf : Document → Prop
  | null : IsLeaf .null
  | flag (b : Bool) : IsLeaf (.flag b)
  | text (s : String) : IsLeaf (.text s)

instance (w : List Char) : Decidable (IsName w) :=
  decidable_of_iff ((w.head?.any fun c => 'a' ≤ c && c ≤ 'z') ∧ w.all isNameChar ∧ w.length ≤ 1024)
    ⟨fun h => ⟨by simpa [Option.any_eq_true] using h.1, List.all_eq_true.1 h.2.1, h.2.2⟩,
      fun h => ⟨by simpa [Option.any_eq_true] using h.head, List.all_eq_true.2 h.chars, h.length_le⟩⟩

theorem isLeaf_ofOption {f : α → Document} (h : ∀ a, IsLeaf (f a)) (o : Option α) : IsLeaf (ofOption f o) := by
  cases o with
  | none => exact .null
  | some a => exact h a

structure IsFlat (es : List (String × Document)) : Prop where
  names : ∀ e ∈ es, IsName e.1.toList
  leaves : ∀ e ∈ es, IsLeaf e.2

theorem IsFlat.tail {e : String × Document} {es : List (String × Document)} (h : IsFlat (e :: es)) : IsFlat es :=
  ⟨fun f hf => h.names f (.tail e hf), fun f hf => h.leaves f (.tail e hf)⟩

/-- What holds of each letter and joint is checked within ASCII. -/
theorem of_isNameChar {P : Char → Prop} (h : ∀ n < 128, isNameChar (Char.ofNat n) → P (Char.ofNat n)) {c : Char}
    (hc : isNameChar c) : P c := by
  have hlt : c.toNat < 128 := by
    simp only [isNameChar, Bool.or_eq_true, Bool.and_eq_true, decide_eq_true_eq, beq_iff_eq] at hc
    rcases hc with (⟨-, hle⟩ | rfl) | rfl
    · have hle : c.toNat ≤ 122 := hle
      omega
    · decide
    · decide
  have hchar := h c.toNat hlt
  rw [Char.ofNat_toNat] at hchar
  exact hchar hc

theorem ne_of_isNameChar {c d : Char} (hc : isNameChar c) (hd : isNameChar d = false) : c ≠ d := by
  rintro rfl
  rw [hc] at hd
  cases hd

theorem ne_of_all_not_isNameChar {c : Char} {ds : List Char} (hc : isNameChar c) (hds : ds.all fun d => !isNameChar d) :
    ∀ d ∈ ds, c ≠ d := by
  intro d hd
  have hnot := List.all_eq_true.1 hds d hd
  exact ne_of_isNameChar hc (by simpa using hnot)

/-- A name is a letter and more letters and joints. -/
theorem IsName.exists_cons {w : List Char} (h : IsName w) :
    ∃ c r, w = c :: r ∧ isNameChar c ∧ c ≠ '_' ∧ c ≠ '-' := by
  obtain ⟨c, hc, hle, hge⟩ := h.head
  cases w with
  | nil => cases hc
  | cons d r =>
    obtain rfl : d = c := by simpa using hc
    refine ⟨d, r, rfl, h.chars d List.mem_cons_self, ?_, ?_⟩ <;> rintro rfl <;> revert hle <;> decide

end PlatformSnapshot.Document
