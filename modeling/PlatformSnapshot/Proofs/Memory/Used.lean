import PlatformSnapshot.Memory.Used
import PlatformSnapshot.Proofs.Reading
import PlatformSnapshot.Proofs.Text.Numeral
/-!
Used memory from the figures of the host as they are written. Figures that are not negative can be
subtracted one after the other without leaving the range of a signed word if the result in bytes is
in that range, so nothing but the result decides whether the text is accepted.
-/
namespace PlatformSnapshot

open Text
open Numeral (FitsInt64)

/-- An amount of memory in KiB after some blanks, one at least. -/
def kibText (gap : Nat) (kib : Int) : List Char :=
  List.replicate (gap + 1) ' ' ++ (Numeral.ofInt kib ++ spaced ["kB".toList])

theorem words_kibText (gap : Nat) (kib : Int) : words (kibText gap kib) = [Numeral.ofInt kib, "kB".toList] := by
  have hgap : ∀ c ∈ List.replicate (gap + 1) ' ', isBlank c := by
    intro c hc
    rw [List.eq_of_mem_replicate hc]
    decide
  have hunit : ∀ w ∈ ["kB".toList], IsWord w := by simp [IsWord, isBlank]
  have hwords := words_append_spaced (r := []) (Numeral.isWord_ofInt kib) hunit (by simp)
  rw [List.append_nil] at hwords
  rw [kibText, words_append_left _ hgap, hwords]
  rfl

theorem isLine_kibText (gap : Nat) (kib : Int) : IsLine (kibText gap kib) := by
  have hgap : IsLine (List.replicate (gap + 1) ' ') := by
    constructor
    · intro h
      exact absurd (List.eq_of_mem_replicate h) (by decide)
    · intro h
      exact absurd (List.eq_of_mem_replicate (List.mem_of_getLast? h)) (by decide)
  have hunit : IsLine (spaced ["kB".toList]) := isLine_spaced (List.forall_mem_singleton.2 (by decide))
  exact isLine_append hgap (isLine_append (Numeral.isLine_ofInt kib) hunit)

namespace UsedMemory

def line (k : Kind) (gap : Nat) (kib : Int64) : List Char :=
  k.key.toList ++ ':' :: kibText gap kib.toInt

/-- A line that gives none of the figures. -/
def IsOther (l : List Char) : Prop :=
  IsLine l ∧ ∀ k : Kind, startsWith (k.key.toList ++ [':']) l = false

theorem isLine_line (k : Kind) (gap : Nat) (kib : Int64) : IsLine (line k gap kib) := by
  have hkey : IsLine k.key.toList := by cases k <;> decide
  exact isLine_append hkey (isLine_cons (by decide) (by decide) (isLine_kibText gap _))

theorem ofKey?_eq_some_iff {key : List Char} {k : Kind} : Kind.ofKey? key = some k ↔ key = k.key.toList := by
  constructor
  · intro h
    have hkey : k.key.toList = key := by simpa using List.find?_some h
    exact hkey.symm
  · rintro rfl
    cases k <;> decide

theorem figure?_line (k : Kind) (gap : Nat) (kib : Int64) :
    figure? (line k gap kib) = some (k, Numeral.ofInt kib.toInt) := by
  have hcolon : ':' ∉ k.key.toList := by cases k <;> decide
  rw [figure?, line, splitOnce?_append hcolon]
  simp only [ofKey?_eq_some_iff.2 rfl, words_kibText]
  rfl

theorem figure?_eq_none {l : List Char} (h : IsOther l) : figure? l = none := by
  unfold figure?
  cases hl : splitOnce? ':' l with
  | none => rfl
  | some p =>
    obtain ⟨key, rest⟩ := p
    cases hk : Kind.ofKey? key with
    | none => simp [hk]
    | some k =>
      obtain rfl := ofKey?_eq_some_iff.1 hk
      have hafter : after? (k.key.toList ++ [':']) l = some rest := by
        rw [splitOnce?_eq_some hl]
        simpa using after?_append (k.key.toList ++ [':']) rest
      have hfalse := h.2 k
      rw [startsWith, hafter] at hfalse
      cases hfalse

theorem figures_line (f : Figures) (k : Kind) (gap : Nat) (kib : Int64) (rest : List (List Char)) :
    figures f (line k gap kib :: rest) = figures (f.set kib k) rest := by
  rw [figures, figure?_line]
  simp only [Numeral.int64?_ofInt, Numeral.inInt64?_toInt]

theorem figures_others {ls : List (List Char)} (h : ∀ l ∈ ls, IsOther l) (f : Figures)
    (rest : List (List Char)) : figures f (ls ++ rest) = figures f rest := by
  induction ls with
  | nil => rfl
  | cons l ls ih =>
    obtain ⟨hl, hls⟩ := List.forall_mem_cons.1 h
    rw [List.cons_append, figures, figure?_eq_none hl]
    exact ih hls

/-- The used memory that the figures mean, in bytes. -/
def Figures.usedBytes (f : Figures) : Int :=
  (f.total.toInt - f.free.toInt - f.buffers.toInt - f.cached.toInt) * 1024

/-- No figure is negative. -/
structure Figures.Natural (f : Figures) : Prop where
  total : 0 ≤ f.total.toInt
  free : 0 ≤ f.free.toInt
  buffers : 0 ≤ f.buffers.toInt
  cached : 0 ≤ f.cached.toInt

/-- Every difference on the way is in range, and so is the result. -/
structure Figures.KeepsRange (f : Figures) : Prop where
  free : FitsInt64 (f.total.toInt - f.free.toInt)
  buffers : FitsInt64 (f.total.toInt - f.free.toInt - f.buffers.toInt)
  cached : FitsInt64 (f.total.toInt - f.free.toInt - f.buffers.toInt - f.cached.toInt)
  bytes : FitsInt64 f.usedBytes

theorem less?_eq_some_iff {a b c : Int64} : less? a b = some c ↔ a.toInt - b.toInt = c.toInt :=
  Numeral.inInt64?_eq_some_iff

theorem bytes?_eq_some_iff {kib n : Int64} : bytes? kib = some n ↔ kib.toInt * 1024 = n.toInt :=
  Numeral.inInt64?_eq_some_iff

theorem bytes?_eq_none_iff {kib : Int64} : bytes? kib = none ↔ ¬ FitsInt64 (kib.toInt * 1024) := by
  simp only [Numeral.fitsInt64_iff, ← bytes?_eq_some_iff, not_exists, Option.eq_none_iff_forall_ne_some, ne_eq]

theorem Figures.used?_eq_some_iff {f : Figures} {used : Int64} :
    f.used? = some used ↔ f.KeepsRange ∧ used.toInt = f.usedBytes := by
  simp only [Figures.used?, Option.bind_eq_bind, Option.bind_eq_some_iff, less?_eq_some_iff, bytes?_eq_some_iff]
  constructor
  · rintro ⟨a, ha, b, hb, c, hc, hused⟩
    have hbytes : f.usedBytes = used.toInt := by rw [← hused, ← hc, ← hb, ← ha, Figures.usedBytes]
    refine ⟨⟨?_, ?_, ?_, ?_⟩, hbytes.symm⟩
    · exact Numeral.fitsInt64_iff.2 ⟨a, ha⟩
    · exact Numeral.fitsInt64_iff.2 ⟨b, by rw [ha, hb]⟩
    · exact Numeral.fitsInt64_iff.2 ⟨c, by rw [ha, hb, hc]⟩
    · exact Numeral.fitsInt64_iff.2 ⟨used, hbytes⟩
  · rintro ⟨⟨hfree, hbuffers, hcached, -⟩, hused⟩
    obtain ⟨a, ha⟩ := Numeral.fitsInt64_iff.1 hfree
    obtain ⟨b, hb⟩ := Numeral.fitsInt64_iff.1 hbuffers
    obtain ⟨c, hc⟩ := Numeral.fitsInt64_iff.1 hcached
    exact ⟨a, ha, b, by rw [← ha, hb], c, by rw [← hb, hc], by rw [← hc, hused, Figures.usedBytes]⟩

/-- No difference of natural figures overflows if the result does not: each lies between the last and
the total. -/
theorem Figures.Natural.keepsRange_iff {f : Figures} (h : f.Natural) : f.KeepsRange ↔ FitsInt64 f.usedBytes := by
  refine ⟨fun hrange => hrange.bytes, fun hf => ?_⟩
  obtain ⟨htotal, hfree, hbuffers, hcached⟩ := h
  have hmax : f.total.toInt ≤ 9223372036854775807 := Int64.toInt_le f.total
  have hlow : -9223372036854775808 ≤ f.usedBytes := hf.1
  unfold Figures.usedBytes at hlow
  refine ⟨?_, ?_, ?_, hf⟩
  all_goals constructor <;> simp only [Int64.toInt_minValue, Int64.toInt_maxValue] <;> omega

/-- The lines of the whole file: the figures in their order, and others after the free memory and at
the end. -/
def figureLines (f : Figures) (gap : Kind → Nat) (middle others : List (List Char)) : List (List Char) :=
  [line .total (gap .total) f.total, line .free (gap .free) f.free] ++ middle ++
    [line .buffers (gap .buffers) f.buffers, line .cached (gap .cached) f.cached] ++ others

theorem parse_figureLines {f : Figures} (h : f.Natural) (hf : FitsInt64 f.usedBytes) (gap : Kind → Nat)
    {middle others : List (List Char)} (hm : ∀ l ∈ middle, IsOther l) (ho : ∀ l ∈ others, IsOther l) :
    parse (.ofList (unlines (figureLines f gap middle others))) = .ok (.ofInt f.usedBytes) := by
  have hline : ∀ l ∈ figureLines f gap middle others, IsLine l := by
    simp only [figureLines, List.mem_append, List.mem_cons, List.not_mem_nil, or_false]
    rintro l ((((rfl | rfl) | hl) | (rfl | rfl)) | hl)
    · exact isLine_line ..
    · exact isLine_line ..
    · exact (hm l hl).1
    · exact isLine_line ..
    · exact isLine_line ..
    · exact (ho l hl).1
  have hlines : lines (String.ofList (unlines (figureLines f gap middle others))).toList =
      figureLines f gap middle others := by
    rw [String.toList_ofList, lines_unlines hline]
  have hfigures : figures {} (figureLines f gap middle others) = .ok f := by
    have hshape : figureLines f gap middle others =
        line .total (gap .total) f.total :: line .free (gap .free) f.free :: (middle ++
          line .buffers (gap .buffers) f.buffers :: line .cached (gap .cached) f.cached :: (others ++ [])) := by
      simp [figureLines]
    rw [hshape, figures_line, figures_line, figures_others hm, figures_line, figures_line, figures_others ho]
    rfl
  refine bind_eq_ok_iff.2 ⟨f, (congrArg (figures {}) hlines).trans hfigures, ?_⟩
  rw [Figures.used?_eq_some_iff.2 ⟨h.keepsRange_iff.2 hf, Numeral.toInt_ofInt_of_fits hf⟩]

end UsedMemory
end PlatformSnapshot
