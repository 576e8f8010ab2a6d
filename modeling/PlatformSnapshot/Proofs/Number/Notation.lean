import PlatformSnapshot.Number.Notation
import PlatformSnapshot.Proofs.Text.Numeral
/-!
The written form of a value is one word, whatever the value is: digits, a point, a sign, or the name
of what is no number.
-/
namespace PlatformSnapshot.Binary64

open Text (isBlank IsWord)

theorem isWord_positional (d : Shortest.Decimal) : IsWord (positional d []) := by
  have hdigits : ∀ c ∈ Numeral.ofNat d.digits, isBlank c = false := (Numeral.isWord_ofNat _).2
  have hzeros : ∀ n, ∀ c ∈ List.replicate n '0', isBlank c = false := by
    intro n c hc
    rw [List.eq_of_mem_replicate hc]
    decide
  constructor
  · unfold positional
    dsimp only
    split
    · simp [Numeral.ofNat_ne_nil]
    · split <;> simp
  · unfold positional
    dsimp only
    split
    · simpa only [List.append_nil, List.forall_mem_append] using ⟨hdigits, hzeros _⟩
    · split
      · refine List.forall_mem_append.2 ⟨fun c hc => hdigits c (List.mem_of_mem_take hc), ?_⟩
        exact List.forall_mem_cons.2 ⟨by decide, fun c hc => hdigits c (List.mem_of_mem_drop hc)⟩
      · simp only [List.cons_append, List.forall_mem_cons, List.forall_mem_append]
        exact ⟨by decide, by decide, hzeros _, hdigits⟩

theorem isWord_signed (negative : Bool) {w : List Char} (hw : IsWord w) : IsWord (signText negative ++ w) := by
  have hsign : ∀ c ∈ signText negative, isBlank c = false :=
    List.all_iff_forall_prop.1 (by cases negative <;> decide)
  exact ⟨by simp [hw.1], List.forall_mem_append.2 ⟨hsign, hw.2⟩⟩

theorem isWord_sampleText (x : Binary64) : IsWord x.sampleText := by
  cases x with
  | nan =>
    have hname : IsWord "NaN".toList := by decide
    exact hname
  | infinite negative => exact isWord_signed negative (by decide)
  | finite negative m e =>
    refine isWord_signed negative ?_
    split
    case isTrue => decide
    case isFalse => exact isWord_positional _

end PlatformSnapshot.Binary64
