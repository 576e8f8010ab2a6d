/-!
Finite sets of ids kept as ascending lists. A set made from a list is sorted once and then thinned
out, so that a wide range of ids costs no more than sorting it; two sets with the same members are
equal.
-/
namespace PlatformSnapshot

structure IdSet where
  ids : List UInt32
  ascending : ids.Pairwise (· < ·)
  deriving DecidableEq

namespace IdSet

def leq (a b : UInt32) : Bool := a ≤ b

/-- Drops each member that equals its predecessor `last`. -/
def thinAfter (last : UInt32) : List UInt32 → List UInt32
  | [] => []
  | a :: as => if a = last then thinAfter last as else a :: thinAfter a as

def thin : List UInt32 → List UInt32
  | [] => []
  | a :: as => a :: thinAfter a as

theorem mem_thinAfter {last a : UInt32} {as : List UInt32} (h : a ∈ thinAfter last as) : a ∈ as := by
  induction as generalizing last with
  | nil => simp [thinAfter] at h
  | cons b bs ih =>
    unfold thinAfter at h
    split at h
    · exact List.mem_cons_of_mem _ (ih h)
    · rcases List.mem_cons.1 h with rfl | h
      · exact List.mem_cons_self
      · exact List.mem_cons_of_mem _ (ih h)

theorem ascending_thinAfter {last : UInt32} {as : List UInt32}
    (h : (last :: as).Pairwise (· ≤ ·)) : (last :: thinAfter last as).Pairwise (· < ·) := by
  induction as generalizing last with
  | nil => simp [thinAfter]
  | cons b bs ih =>
    obtain ⟨hl, hb⟩ := List.pairwise_cons.1 h
    have hbs := (List.pairwise_cons.1 hb)
    unfold thinAfter
    split
    case isTrue hbl => subst hbl; exact ih hb
    case isFalse hbl =>
      have hlt : last < b := by
        have := hl b (by simp)
        rw [UInt32.lt_iff_toNat_lt]; rw [UInt32.le_iff_toNat_le] at this
        rcases Nat.lt_or_ge last.toNat b.toNat with h | h
        · exact h
        · exact absurd (UInt32.toNat_inj.1 (Nat.le_antisymm h this)) hbl
      refine List.pairwise_cons.2 ⟨fun a ha => ?_, ih hb⟩
      rcases List.mem_cons.1 ha with rfl | ha
      · exact hlt
      · have := hbs.1 a (mem_thinAfter ha)
        rw [UInt32.lt_iff_toNat_lt] at hlt ⊢
        rw [UInt32.le_iff_toNat_le] at this
        omega

theorem ascending_thin {as : List UInt32} (h : as.Pairwise (· ≤ ·)) :
    (thin as).Pairwise (· < ·) := by
  cases as with
  | nil => simp [thin]
  | cons a as => exact ascending_thinAfter h

theorem pairwise_mergeSort (as : List UInt32) : (as.mergeSort leq).Pairwise (· ≤ ·) := by
  have leq_trans (a b c : UInt32) (hab : leq a b) (hbc : leq b c) : leq a c := by
    simp only [leq, decide_eq_true_eq, UInt32.le_iff_toNat_le] at *; omega
  have leq_total (a b : UInt32) : leq a b || leq b a := by
    simp only [leq, Bool.or_eq_true, decide_eq_true_eq, UInt32.le_iff_toNat_le]; omega
  have h := List.pairwise_mergeSort leq_trans leq_total as
  exact h.imp fun hab => by simpa [leq] using hab

/-- The set of the members of a list. -/
def ofList (as : List UInt32) : IdSet :=
  ⟨thin (as.mergeSort leq), ascending_thin (pairwise_mergeSort as)⟩

def empty : IdSet := ⟨[], .nil⟩

instance : EmptyCollection IdSet := ⟨empty⟩
instance : Inhabited IdSet := ⟨empty⟩
instance : Membership UInt32 IdSet := ⟨fun s a => a ∈ s.ids⟩

/-- The ids from `first` to `last`, both included. -/
def interval (first last : UInt32) : List UInt32 :=
  (List.range (last.toNat + 1 - first.toNat)).map fun i => UInt32.ofNat (first.toNat + i)

theorem mem_thinAfter_of_mem {last a : UInt32} {as : List UInt32} (h : a ∈ as) (hne : a ≠ last) :
    a ∈ thinAfter last as := by
  induction as generalizing last with
  | nil => simp at h
  | cons b bs ih =>
    unfold thinAfter
    rcases List.mem_cons.1 h with rfl | h
    · simp [hne]
    · split
      · exact ih h hne
      · by_cases hab : a = b
        · simp [hab]
        · exact List.mem_cons_of_mem _ (ih h hab)

@[simp] theorem mem_ofList {a : UInt32} {as : List UInt32} : a ∈ ofList as ↔ a ∈ as := by
  have h : a ∈ as ↔ a ∈ as.mergeSort leq := List.mem_mergeSort.symm
  rw [h]
  change a ∈ thin (as.mergeSort leq) ↔ a ∈ as.mergeSort leq
  cases as.mergeSort leq with
  | nil => simp [thin]
  | cons b bs =>
    simp only [thin, List.mem_cons]
    by_cases hab : a = b
    · simp [hab]
    · simp only [hab, false_or]
      exact ⟨mem_thinAfter, fun h => mem_thinAfter_of_mem h hab⟩

end IdSet
end PlatformSnapshot
