/-!
Finite maps kept in ascending order of their keys. The order is part of the type, so two maps with
the same bindings are equal and every listing of a map is sorted: reports, metric series and
written documents all take their order from here.
-/
namespace PlatformSnapshot

structure SortedMap (α : Type u) (β : Type v) [Ord α] where
  entries : List (α × β)
  ascending : entries.Pairwise fun a b => compare a.1 b.1 = .lt
  deriving DecidableEq

namespace SortedMap

variable {α : Type u} {β : Type v} {γ : Type w}

/-- Puts the binding made from the old value of `k` at its place in an ascending list. -/
def alterEntry [Ord α] (k : α) (f : Option β → β) : List (α × β) → List (α × β)
  | [] => [(k, f none)]
  | e :: es =>
    match compare k e.1 with
    | .lt => (k, f none) :: e :: es
    | .eq => (k, f (some e.2)) :: es
    | .gt => e :: alterEntry k f es

theorem mem_alterEntry [Ord α] {k : α} {f : Option β → β} {es : List (α × β)} {e : α × β}
    (h : e ∈ alterEntry k f es) : e.1 = k ∨ e ∈ es := by
  induction es with
  | nil => simp [alterEntry] at h; simp [h]
  | cons a as ih =>
    unfold alterEntry at h
    split at h <;> simp only [List.mem_cons] at h ⊢ <;> grind

theorem ascending_alterEntry [Ord α] [Std.TransOrd α] (k : α) (f : Option β → β)
    (es : List (α × β)) (h : es.Pairwise fun a b => compare a.1 b.1 = .lt) :
    (alterEntry k f es).Pairwise fun a b => compare a.1 b.1 = .lt := by
  induction es with
  | nil => simp [alterEntry]
  | cons a as ih =>
    obtain ⟨ha, has⟩ := List.pairwise_cons.1 h
    unfold alterEntry
    split
    case h_1 hk =>
      refine List.pairwise_cons.2 ⟨fun e he => ?_, h⟩
      rcases List.mem_cons.1 he with rfl | he
      · exact hk
      · exact Std.TransCmp.lt_trans hk (ha e he)
    case h_2 hk =>
      exact List.pairwise_cons.2 ⟨fun e he => Std.TransCmp.lt_of_eq_of_lt hk (ha e he), has⟩
    case h_3 hk =>
      refine List.pairwise_cons.2 ⟨fun e he => ?_, ih has⟩
      rcases mem_alterEntry he with he | he
      · exact he ▸ Std.OrientedCmp.gt_iff_lt.1 hk
      · exact ha e he

def empty [Ord α] : SortedMap α β := ⟨[], .nil⟩

instance [Ord α] : EmptyCollection (SortedMap α β) := ⟨empty⟩
instance [Ord α] : Inhabited (SortedMap α β) := ⟨empty⟩

/-- Replaces the value of a key by one made from the old value, if any. -/
def alter [Ord α] [Std.TransOrd α] (m : SortedMap α β) (k : α) (f : Option β → β) :
    SortedMap α β :=
  ⟨alterEntry k f m.entries, ascending_alterEntry k f m.entries m.ascending⟩

/-- A binding of the same key is replaced. -/
def insert [Ord α] [Std.TransOrd α] (m : SortedMap α β) (k : α) (v : β) : SortedMap α β :=
  m.alter k fun _ => v

/-- The last binding of a key wins. -/
def ofList [Ord α] [Std.TransOrd α] (es : List (α × β)) : SortedMap α β :=
  es.foldl (fun m e => m.insert e.1 e.2) ∅

def lookup [Ord α] (k : α) : List (α × β) → Option β
  | [] => none
  | e :: es => if compare k e.1 = .eq then some e.2 else lookup k es

def get? [Ord α] (m : SortedMap α β) (k : α) : Option β := lookup k m.entries

def size [Ord α] (m : SortedMap α β) : Nat := m.entries.length

def keys [Ord α] (m : SortedMap α β) : List α := m.entries.map (·.1)

def values [Ord α] (m : SortedMap α β) : List β := m.entries.map (·.2)

theorem ext_entries [Ord α] {m n : SortedMap α β} (h : m.entries = n.entries) : m = n := by
  cases m; cases n; cases h; rfl

@[simp] theorem size_empty [Ord α] : (∅ : SortedMap α β).size = 0 := rfl

@[simp] theorem get?_empty [Ord α] (k : α) : (∅ : SortedMap α β).get? k = none := rfl

theorem lookup_alterEntry_same [Ord α] [Std.TransOrd α] (k : α) (f : Option β → β)
    (es : List (α × β)) (h : es.Pairwise fun a b => compare a.1 b.1 = .lt) :
    lookup k (alterEntry k f es) = some (f (lookup k es)) := by
  induction es with
  | nil => simp [alterEntry, lookup, Std.ReflCmp.compare_self]
  | cons a as ih =>
    obtain ⟨ha, has⟩ := List.pairwise_cons.1 h
    have none_of_lt : ∀ {b : α}, compare k b = .lt → (∀ e ∈ as, compare b e.1 = .lt) →
        lookup k as = none := by
      intro b hk hb
      clear ih ha has h
      induction as with
      | nil => rfl
      | cons e es ih' =>
        have := Std.TransCmp.lt_trans hk (hb e (by simp))
        simp only [lookup, this, reduceCtorEq, if_false]
        exact ih' fun x hx => hb x (by simp [hx])
    unfold alterEntry
    split
    case h_1 hk => simp [lookup, Std.ReflCmp.compare_self, hk, none_of_lt hk ha]
    case h_2 hk => simp [lookup, Std.ReflCmp.compare_self, hk]
    case h_3 hk => simp [lookup, hk, ih has]

theorem get?_alter_same [Ord α] [Std.TransOrd α] (m : SortedMap α β) (k : α) (f : Option β → β) :
    (m.alter k f).get? k = some (f (m.get? k)) :=
  lookup_alterEntry_same k f m.entries m.ascending

theorem lookup_alterEntry_other [Ord α] [Std.TransOrd α] [Std.LawfulEqOrd α] {k j : α}
    (f : Option β → β) (es : List (α × β)) (hj : j ≠ k) :
    lookup j (alterEntry k f es) = lookup j es := by
  have hne : compare j k ≠ .eq := fun h => hj (Std.LawfulEqCmp.eq_of_compare h)
  induction es with
  | nil => simp [alterEntry, lookup, hne]
  | cons a as ih =>
    unfold alterEntry
    split
    case h_1 => simp [lookup, hne]
    case h_2 hk =>
      obtain rfl := Std.LawfulEqCmp.eq_of_compare hk
      simp [lookup, hne]
    case h_3 => simp [lookup, ih]

theorem get?_alter_other [Ord α] [Std.TransOrd α] [Std.LawfulEqOrd α] (m : SortedMap α β) {k j : α}
    (f : Option β → β) (hj : j ≠ k) : (m.alter k f).get? j = m.get? j :=
  lookup_alterEntry_other f m.entries hj

end SortedMap
end PlatformSnapshot
