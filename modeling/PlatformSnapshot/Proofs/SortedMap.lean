import Mathlib.Data.List.Perm.Basic
import PlatformSnapshot.SortedMap
/-!
Ascending maps through their look-up. A binding of a map is the same thing as an answer of `get?`,
no key is bound twice, and changing one key leaves all others. What a map lists in total changes
with a key by what is put there, whatever the order of the keys.
-/
namespace PlatformSnapshot.SortedMap

open List (perm_append_comm_assoc perm_middle)
open scoped List

variable {α : Type u} {β : Type v} {γ : Type w} [Ord α]

theorem lookup_of_mem [Std.TransOrd α] {k : α} {v : β} {es : List (α × β)}
    (h : es.Pairwise fun a b => compare a.1 b.1 = .lt) (hm : (k, v) ∈ es) :
    lookup k es = some v := by
  induction es with
  | nil => simp at hm
  | cons e es ih =>
    obtain ⟨he, hes⟩ := List.pairwise_cons.1 h
    rcases List.mem_cons.1 hm with rfl | hm
    · simp [lookup, Std.ReflCmp.compare_self]
    · have hgt : compare k e.1 = .gt := Std.OrientedCmp.gt_iff_lt.2 (he _ hm)
      simp [lookup, hgt, ih hes hm]

theorem mem_of_lookup [Std.LawfulEqOrd α] {k : α} {v : β} {es : List (α × β)}
    (h : lookup k es = some v) : (k, v) ∈ es := by
  induction es with
  | nil => simp [lookup] at h
  | cons e es ih =>
    by_cases hk : compare k e.1 = .eq
    · obtain rfl := Std.LawfulEqCmp.eq_of_compare hk
      simp only [lookup, hk, if_true, Option.some.injEq] at h
      subst h
      exact List.mem_cons_self
    · simp only [lookup, hk, if_false] at h
      exact List.mem_cons_of_mem _ (ih h)

variable [Std.TransOrd α] [Std.LawfulEqOrd α]

theorem mem_entries_iff (m : SortedMap α β) {k : α} {v : β} :
    (k, v) ∈ m.entries ↔ m.get? k = some v :=
  ⟨lookup_of_mem m.ascending, mem_of_lookup⟩

theorem mem_keys_iff (m : SortedMap α β) {k : α} : k ∈ m.keys ↔ ∃ v, m.get? k = some v := by
  simp only [keys, List.mem_map, Prod.exists, exists_and_right, exists_eq_right, mem_entries_iff]

theorem mem_values_iff (m : SortedMap α β) {v : β} : v ∈ m.values ↔ ∃ k, m.get? k = some v := by
  simp only [values, List.mem_map, Prod.exists, exists_eq_right, mem_entries_iff]

omit [Std.LawfulEqOrd α] in
theorem nodup_keys (m : SortedMap α β) : m.keys.Nodup := by
  refine List.pairwise_map.2 (m.ascending.imp ?_)
  intro a b hlt he
  simp [he, Std.ReflCmp.compare_self] at hlt

/-- A map is known by its answers. -/
theorem ext_get? {m n : SortedMap α β} (h : ∀ k, m.get? k = n.get? k) : m = n := by
  have hnodup : ∀ m : SortedMap α β, m.entries.Nodup :=
    fun m => (List.pairwise_map.1 m.nodup_keys).imp fun hne he => hne (congrArg _ he)
  have hperm : m.entries ~ n.entries := by
    refine (List.perm_ext_iff_of_nodup (hnodup m) (hnodup n)).2 ?_
    rintro ⟨k, v⟩
    rw [mem_entries_iff, mem_entries_iff, h]
  refine ext_entries (hperm.eq_of_pairwise ?_ m.ascending n.ascending)
  intro a b _ _ hab hba
  exact absurd hba (Std.OrientedCmp.not_lt_of_lt hab)

omit [Std.TransOrd α] [Std.LawfulEqOrd α] in
@[simp] theorem entries_empty : (∅ : SortedMap α β).entries = [] := rfl

omit [Std.TransOrd α] [Std.LawfulEqOrd α] in
@[simp] theorem keys_empty : (∅ : SortedMap α β).keys = [] := rfl

omit [Std.TransOrd α] [Std.LawfulEqOrd α] in
@[simp] theorem values_empty : (∅ : SortedMap α β).values = [] := rfl

omit [Std.TransOrd α] [Std.LawfulEqOrd α] in
@[simp] theorem length_keys (m : SortedMap α β) : m.keys.length = m.size := by simp [keys, size]

theorem get?_alter [DecidableEq α] (m : SortedMap α β) (k j : α) (f : Option β → β) :
    (m.alter k f).get? j = if j = k then some (f (m.get? k)) else m.get? j := by
  by_cases h : j = k
  · subst h; simp [get?_alter_same]
  · simp [get?_alter_other, h]

theorem get?_insert [DecidableEq α] (m : SortedMap α β) (k j : α) (v : β) :
    (m.insert k v).get? j = if j = k then some v else m.get? j := get?_alter m k j _

theorem mem_keys_insert [DecidableEq α] (m : SortedMap α β) (k j : α) (v : β) :
    j ∈ (m.insert k v).keys ↔ j = k ∨ j ∈ m.keys := by
  simp only [mem_keys_iff, get?_insert]
  by_cases h : j = k <;> simp [h]

/-- Changes leave at a key what those at this key make, in their order. -/
theorem get?_foldl_alter [DecidableEq α] {ι : Type x} (k : ι → α) (f : ι → Option β → β) (is : List ι)
    (m : SortedMap α β) (j : α) : (is.foldl (fun m i => m.alter (k i) (f i)) m).get? j =
      (is.filter (k · = j)).foldl (fun o i => some (f i o)) (m.get? j) := by
  induction is generalizing m with
  | nil => rfl
  | cons i is ih =>
    rw [List.foldl_cons, ih, get?_alter]
    by_cases hj : k i = j
    · subst hj
      rw [if_pos rfl, List.filter_cons_of_pos (by simp), List.foldl_cons]
    · rw [if_neg (Ne.symm hj), List.filter_cons_of_neg (by simpa using hj)]

/-- What holds of every value, and of the new value whatever the old one is, holds after a change. -/
theorem forall_get?_alter [DecidableEq α] {P : α → β → Prop} {m : SortedMap α β} {k : α}
    {f : Option β → β} (hm : ∀ j v, m.get? j = some v → P j v)
    (hnew : P k (f none)) (hold : ∀ v, P k v → P k (f (some v))) :
    ∀ j v, (m.alter k f).get? j = some v → P j v := by
  intro j v h
  rw [get?_alter] at h
  by_cases hj : j = k
  · subst hj
    simp only [if_true, Option.some.injEq] at h
    subst h
    cases hv : m.get? j with
    | none => exact hnew
    | some old => exact hold old (hm j old hv)
  · simp only [hj, if_false] at h
    exact hm j v h

theorem forall_get?_insert [DecidableEq α] {P : α → β → Prop} {m : SortedMap α β} {k : α} {v : β}
    (hm : ∀ j w, m.get? j = some w → P j w) (hv : P k v) :
    ∀ j w, (m.insert k v).get? j = some w → P j w :=
  forall_get?_alter hm hv fun _ _ => hv

omit [Std.TransOrd α] [Std.LawfulEqOrd α] in
/-- If a change adds `new` to what one value lists, it adds `new` to what the whole map lists. -/
theorem perm_flatMap_alterEntry (list : β → List γ) (new : List γ) (k : α) (f : Option β → β)
    (hnone : list (f none) ~ new) (hsome : ∀ v, list (f (some v)) ~ new ++ list v)
    (es : List (α × β)) :
    (alterEntry k f es).flatMap (fun e => list e.2) ~ new ++ es.flatMap fun e => list e.2 := by
  induction es with
  | nil => simpa [alterEntry] using hnone
  | cons e es ih =>
    unfold alterEntry
    split
    case h_1 => simpa using hnone.append_right _
    case h_2 => simpa using (hsome e.2).append_right (es.flatMap fun e => list e.2)
    case h_3 =>
      calc (e :: alterEntry k f es).flatMap (fun e => list e.2)
          = list e.2 ++ (alterEntry k f es).flatMap (fun e => list e.2) := by simp
        _ ~ list e.2 ++ (new ++ es.flatMap fun e => list e.2) := ih.append_left _
        _ ~ new ++ (list e.2 ++ es.flatMap fun e => list e.2) := perm_append_comm_assoc ..
        _ = new ++ (e :: es).flatMap fun e => list e.2 := by simp

omit [Std.TransOrd α] in
theorem perm_alterEntry_of_not_mem {k : α} {es : List (α × β)} (f : Option β → β)
    (hk : k ∉ es.map (·.1)) : alterEntry k f es ~ (k, f none) :: es := by
  induction es with
  | nil => exact .refl _
  | cons e es ih =>
    obtain ⟨hne, hes⟩ := not_or.1 (mt List.mem_cons.2 hk)
    unfold alterEntry
    split
    case h_1 => exact .refl _
    case h_2 h => exact absurd (Std.LawfulEqCmp.eq_of_compare h) hne
    case h_3 => exact ((ih hes).cons e).trans (.swap ..)

/-- Changes at new and distinct keys add just their bindings. -/
theorem perm_entries_foldl_alter {ι : Type x} (k : ι → α) (f : ι → Option β → β) (is : List ι)
    (m : SortedMap α β) (hd : (is.map k).Nodup) (hn : ∀ i ∈ is, k i ∉ m.keys) :
    (is.foldl (fun m i => m.alter (k i) (f i)) m).entries ~ is.map (fun i => (k i, f i none)) ++ m.entries := by
  induction is generalizing m with
  | nil => exact .refl _
  | cons i is ih =>
    obtain ⟨hi, his⟩ := List.nodup_cons.1 hd
    obtain ⟨hni, hnis⟩ := List.forall_mem_cons.1 hn
    have hfirst : (m.alter (k i) (f i)).entries ~ (k i, f i none) :: m.entries := perm_alterEntry_of_not_mem _ hni
    have hrest : ∀ j ∈ is, k j ∉ (m.alter (k i) (f i)).keys := by
      intro j hj hmem
      rcases List.mem_cons.1 ((hfirst.map (·.1)).mem_iff.1 hmem) with he | hmem
      · exact hi (List.mem_map.2 ⟨j, hj, he⟩)
      · exact hnis j hj hmem
    exact (ih _ his hrest).trans ((hfirst.append_left _).trans perm_middle)

/-- Putting in bindings of new and distinct keys adds just these bindings. -/
theorem perm_entries_foldl_insert (es : List (α × β)) (m : SortedMap α β)
    (hd : (es.map (·.1)).Nodup) (hn : ∀ k ∈ es.map (·.1), k ∉ m.keys) :
    (es.foldl (fun m e => m.insert e.1 e.2) m).entries ~ es ++ m.entries := by
  have h := perm_entries_foldl_alter (·.1) (fun e _ => e.2) es m hd fun e he => hn _ (List.mem_map_of_mem he)
  rwa [List.map_id'] at h

/-- A map made from bindings of distinct keys has just these bindings. -/
theorem perm_entries_ofList {es : List (α × β)} (hd : (es.map (·.1)).Nodup) :
    (ofList es).entries ~ es := by
  simpa [ofList] using perm_entries_foldl_insert es ∅ hd (by simp)

/-- A map is made again from its own bindings. -/
theorem ofList_entries (m : SortedMap α β) : ofList m.entries = m := by
  have hperm : (ofList m.entries).entries ~ m.entries := perm_entries_ofList m.nodup_keys
  refine ext_entries (hperm.eq_of_pairwise ?_ (ofList m.entries).ascending m.ascending)
  intro a b _ _ hab hba
  exact absurd hba (Std.OrientedCmp.not_lt_of_lt hab)

theorem size_ofList {es : List (α × β)} (hd : (es.map (·.1)).Nodup) : (ofList es).size = es.length :=
  (perm_entries_ofList hd).length_eq

theorem get?_ofList {es : List (α × β)} (hd : (es.map (·.1)).Nodup) {k : α} {v : β} :
    (ofList es).get? k = some v ↔ (k, v) ∈ es := by
  rw [← mem_entries_iff, (perm_entries_ofList hd).mem_iff]

theorem mem_keys_ofList [DecidableEq α] {es : List (α × β)} {k : α} :
    k ∈ (ofList es).keys ↔ k ∈ es.map (·.1) := by
  suffices ∀ m : SortedMap α β,
      k ∈ (es.foldl (fun m e => m.insert e.1 e.2) m).keys ↔ k ∈ es.map (·.1) ∨ k ∈ m.keys by
    simpa [ofList] using this ∅
  induction es with
  | nil => simp
  | cons e es ih =>
    intro m
    rw [List.foldl_cons, ih, mem_keys_insert, List.map_cons, List.mem_cons]
    exact or_left_comm.trans or_assoc.symm

/-- If one value only is given for a key, it is found. -/
theorem get?_ofList_of_forall [DecidableEq α] {es : List (α × β)} {k : α} {v : β} (hk : k ∈ es.map (·.1))
    (hv : ∀ e ∈ es, e.1 = k → e.2 = v) : (ofList es).get? k = some v := by
  suffices ∀ m : SortedMap α β, m.get? k = some v ∨ k ∈ es.map (·.1) →
      (es.foldl (fun m e => m.insert e.1 e.2) m).get? k = some v from this ∅ (.inr hk)
  clear hk
  induction es with
  | nil => simp
  | cons e es ih =>
    obtain ⟨he, hes⟩ := List.forall_mem_cons.1 hv
    intro m hm
    refine ih hes _ ?_
    rw [get?_insert]
    by_cases hke : k = e.1
    · rw [if_pos hke, he hke.symm]
      exact .inl rfl
    · rw [if_neg hke]
      exact hm.imp_right fun hk => (List.mem_cons.1 hk).resolve_left hke

/-- The order of bindings of distinct keys does not matter. -/
theorem ofList_perm {es fs : List (α × β)} (h : es ~ fs) (hd : (es.map (·.1)).Nodup) : ofList es = ofList fs := by
  have hd' : (fs.map (·.1)).Nodup := (h.map _).nodup_iff.1 hd
  refine ext_get? fun k => Option.ext fun v => ?_
  rw [get?_ofList hd, get?_ofList hd', h.mem_iff]

section MapValues

omit [Std.TransOrd α] [Std.LawfulEqOrd α]

end MapValues

section LastBinding

omit [Ord α] [Std.TransOrd α] [Std.LawfulEqOrd α]

/-- The last of the things that bind the key binds it to this value. -/
def LastBinds (f : γ → Option (α × β)) (cs : List γ) (k : α) (v : β) : Prop :=
  ∃ before c after, cs = before ++ c :: after ∧ f c = some (k, v) ∧ ∀ d ∈ after, ∀ w, f d ≠ some (k, w)

variable {f : γ → Option (α × β)} {c : γ} {cs : List γ} {k : α} {v : β}

theorem lastBinds_cons : LastBinds f (c :: cs) k v ↔
    LastBinds f cs k v ∨ f c = some (k, v) ∧ ∀ d ∈ cs, ∀ w, f d ≠ some (k, w) := by
  constructor
  · rintro ⟨before, d, after, hsplit, hd, hlast⟩
    cases before with
    | nil =>
      cases hsplit
      exact .inr ⟨hd, hlast⟩
    | cons b before =>
      cases hsplit
      exact .inl ⟨before, d, after, rfl, hd, hlast⟩
  · rintro (⟨before, d, after, rfl, hd, hlast⟩ | ⟨hc, hlast⟩)
    · exact ⟨c :: before, d, after, rfl, hd, hlast⟩
    · exact ⟨[], c, cs, rfl, hc, hlast⟩

/-- If it is known which of the things are about the key, the last of these counts. -/
theorem lastBinds_iff {about : γ → α → Prop} (h : ∀ c ∈ cs, about c k ↔ ∃ v, f c = some (k, v)) :
    LastBinds f cs k v ↔
      ∃ before c after, cs = before ++ c :: after ∧ f c = some (k, v) ∧ ∀ d ∈ after, ¬ about d k := by
  unfold LastBinds
  refine exists_congr fun before => exists_congr fun c => exists_congr fun after => ?_
  refine and_congr_right fun hsplit => and_congr_right fun _ => forall₂_congr fun d hd => ?_
  rw [h d (by simp [hsplit, hd]), not_exists]

/-- What bindings leave in a store of slots: what they bind last, and the old value of a slot that they
do not bind. -/
theorem get_foldl_filterMap [DecidableEq α] {get : σ → α → τ} {set : σ → β → α → σ} {put : β → τ}
    (hset : ∀ s v k j, get (set s v k) j = if j = k then put v else get s j) (s : σ) {u : τ} :
    get ((cs.filterMap f).foldl (fun s e => set s e.2 e.1) s) k = u ↔
      (∃ v, LastBinds f cs k v ∧ put v = u) ∨ (∀ c ∈ cs, ∀ v, f c ≠ some (k, v)) ∧ get s k = u := by
  induction cs generalizing s with
  | nil => simp [LastBinds]
  | cons c cs ih =>
    simp only [lastBinds_cons, List.forall_mem_cons, or_and_right, exists_or, or_assoc]
    cases hc : f c with
    | none => simpa [hc] using ih s
    | some e =>
      obtain ⟨j, w⟩ := e
      rw [List.filterMap_cons_some hc, List.foldl_cons, ih, hset]
      by_cases hj : k = j
      · subst hj
        simp only [if_true, Option.some.injEq, Prod.mk.injEq, true_and]
        grind
      · simp [hj, Ne.symm hj]

end LastBinding

theorem get?_ofList_filterMap [DecidableEq α] {f : γ → Option (α × β)} {cs : List γ} {k : α} {v : β} :
    (ofList (cs.filterMap f)).get? k = some v ↔ LastBinds f cs k v := by
  have hset : ∀ (m : SortedMap α β) (v : β) (k j : α),
      (m.insert k v).get? j = if j = k then some v else m.get? j :=
    fun m v k j => get?_insert m k j v
  have hempty : (∅ : SortedMap α β).get? k = none := rfl
  rw [ofList, get_foldl_filterMap hset, hempty]
  simp

end PlatformSnapshot.SortedMap
