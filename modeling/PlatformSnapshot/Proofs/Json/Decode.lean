import PlatformSnapshot.Json.Decode
import PlatformSnapshot.Proofs.IdList
import PlatformSnapshot.Proofs.Json.Reading
import PlatformSnapshot.Proofs.Reading
import PlatformSnapshot.Proofs.SortedMap
import PlatformSnapshot.Snapshot.Document
/-!
Each kind of value is decoded from the term of its document: numbers of every width, texts, sets, maps
by id, fields that may be missing, and records by the names of their fields.
-/
namespace PlatformSnapshot.Json

open Document Term

theorem decodeText?_escape (s : String) : decodeText? (escape s.toList) = some s := by
  rw [decodeText?, unescape?_escape, Option.map_some, String.ofList_toList]

theorem decodeInteger?_ofInt (n : Int) : decodeInteger? (Numeral.ofInt n) = some n := by
  cases n with
  | negSucc n =>
    have hzero : (Numeral.ofNat (n + 1)).head? ≠ some '0' := Numeral.head?_ofNat_ne (by omega)
    simp only [Numeral.ofInt, decodeInteger?, if_neg hzero, Numeral.digits?_ofNat]
    rfl
  | ofNat n =>
    have hzero : ¬ ((Numeral.ofNat n).head? = some '0' ∧ Numeral.ofNat n ≠ ['0']) :=
      fun h => h.2 ((Numeral.isShortest_ofNat n).2 h.1)
    unfold decodeInteger?
    split
    case h_1 ds hds =>
      have hds : Numeral.ofNat n = '-' :: ds := hds
      exact absurd (hds ▸ List.mem_cons_self) (Numeral.not_mem_ofNat (c := '-') (by decide) n)
    case h_2 =>
      have hofInt : Numeral.ofInt (.ofNat n) = Numeral.ofNat n := rfl
      rw [hofInt, if_neg hzero, Numeral.digits?_ofNat]
      rfl

theorem inWord32?_toNat (n : UInt32) : inWord32? (n.toNat : Int) = some n := by
  have hn : n.toNat < UInt32.size := n.toNat_lt
  simp [inWord32?, hn]

namespace Term

theorem flag?_termOf (b : Bool) : (termOf (.flag b)).flag? = some b := rfl

theorem text?_termOf (s : String) : (termOf (.text s)).text? = some s := decodeText?_escape s

theorem integer?_termOf (n : Int) : (termOf (.integer n)).integer? = some n := decodeInteger?_ofInt n

theorem word32?_termOf (n : UInt32) : (termOf (ofWord32 n)).word32? = some n := by
  rw [word32?, ofWord32, integer?_termOf, Option.bind_some, inWord32?_toNat]

theorem word64?_termOf (n : UInt64) : (termOf (Document.ofNat n.toNat)).word64? = some n := by
  have hn : n.toNat < UInt64.size := n.toNat_lt
  rw [word64?, Document.ofNat, integer?_termOf, Option.bind_some]
  simp [hn]

theorem count?_termOf {n : Nat} (hn : n < UInt64.size) : (termOf (Document.ofNat n)).count? = some n := by
  have hword := word64?_termOf (UInt64.ofNat n)
  rw [UInt64.toNat_ofNat_of_lt' hn] at hword
  rw [count?, hword, Option.map_some, UInt64.toNat_ofNat_of_lt' hn]

theorem int64?_termOf (n : Int64) : (termOf (ofInt64 n)).int64? = some n := by
  rw [int64?, ofInt64, integer?_termOf, Option.bind_some, Numeral.inInt64?_toInt]

theorem list?_termOf {g : α → Document} {f : Term → Option α} {as : List α}
    (h : ∀ a ∈ as, f (termOf (g a)) = some a) :
    (termOf (.list (as.map g))).list? f = some as := by
  rw [termOf, termsOf_eq_map, List.map_map, list?]
  exact mapM_map_eq_some h

theorem ids?_termOf (ids : List UInt32) : (termOf (ofIds ids)).list? word32? = some ids :=
  list?_termOf fun n _ => word32?_termOf n

theorem idSet?_termOf (s : IdSet) : (termOf (ofIds s.ids)).idSet? = some s := by
  rw [idSet?, ids?_termOf, Option.map_some, IdSet.ofList_ids]

theorem idMap?_termOf {g : α → Document} {f : Term → Option α} {m : SortedMap UInt32 α}
    (h : ∀ a ∈ m.values, f (termOf (g a)) = some a) : (termOf (ofIdMap g m)).idMap? f = some m := by
  have hmembers : termOf (ofIdMap g m) =
      .record (m.entries.map fun e => (Numeral.ofNat e.1.toNat, termOf (g e.2))) := by
    rw [ofIdMap, termOf, membersOf_eq_map, List.map_map]
    rfl
  rw [hmembers, idMap?, mapM_map_eq_some, Option.map_some, SortedMap.ofList_entries]
  intro e he
  have hkey : decodeInteger? (Numeral.ofNat e.1.toNat) = some (e.1.toNat : Int) :=
    decodeInteger?_ofInt (e.1.toNat : Int)
  have hvalue := h e.2 (List.mem_map_of_mem he)
  simp [hkey, inWord32?_toNat, hvalue]

theorem required?_termOf {f : Term → Option α} (t : Term) : required? f (some t) = f t := rfl

/-- A field that is null for nothing, as long as null is none of its values. -/
theorem optional?_termOf {g : α → Document} {f : Term → Option α} (hnull : f .null = none)
    (h : ∀ a, f (termOf (g a)) = some a) (a : Option α) : optional? f (some (termOf (ofOption g a))) = some a := by
  cases a with
  | none => rfl
  | some a =>
    have hne : termOf (g a) ≠ .null := by
      intro he
      have ha := h a
      rw [he, hnull] at ha
      cases ha
    rw [ofOption, optional?]
    · rw [h, Option.map_some]
    · exact hne

theorem termOf_record (entries : List (String × Document)) :
    termOf (Document.record entries) = .record (entries.map fun e => (escape e.1.toList, termOf e.2)) := by
  rw [Document.record, termOf, membersOf_eq_map, List.map_map]
  rfl

/-- The fields of a record are picked among its entries. -/
theorem fields?_record (names : List (List String)) (entries : List (String × Document)) :
    (termOf (Document.record entries)).fields? names =
      Fields.pickAll? names (entries.map fun e => (e.1, termOf e.2)) := by
  have hmembers : (entries.map fun e => (escape e.1.toList, termOf e.2)).mapM
      (fun m : List Char × Term => do return (← decodeText? m.1, m.2)) =
        some (entries.map fun e => (e.1, termOf e.2)) :=
    mapM_map_eq_some_map fun e _ => by simp [decodeText?_escape]
  rw [termOf_record, fields?]
  exact (congrArg (· >>= Fields.pickAll? names) hmembers).trans (Option.bind_some _ _)

/-- A record is asked for its fields in the order in which they were written. -/
theorem fields?_termOf {d : Document} {entries : List (String × Document)} (h : d = Document.record entries)
    (hd : (entries.map (·.1)).Nodup) :
    (termOf d).fields? (entries.map fun e => [e.1]) = some (entries.map fun e => some (termOf e.2)) := by
  have hmembers : (entries.map fun e => (e.1, termOf e.2)) =
      entries.filterMap fun e => (some (termOf e.2)).map fun t => (e.1, t) := by
    rw [← List.filterMap_eq_map]
    rfl
  rw [h, fields?_record, Fields.pickAll?, hmembers]
  exact mapM_map_eq_some_map fun e he => Fields.pick?_filterMap Prod.fst hd he fun f _ => List.mem_singleton

theorem lt_of_count? {t : Term} {n : Nat} (h : t.count? = some n) : n < UInt64.size := by
  obtain ⟨w, -, rfl⟩ := Option.map_eq_some_iff.1 h
  exact w.toNat_lt

end Term

@[simp] theorem isExact_flag (b : Bool) : IsExact (.flag b) := trivial

@[simp] theorem isExact_text (s : String) : IsExact (.text s) := trivial

@[simp] theorem isExact_ofWord32 (n : UInt32) : IsExact (ofWord32 n) := trivial

@[simp] theorem isExact_ofNat (n : Nat) : IsExact (Document.ofNat n) := trivial

@[simp] theorem isExact_ofInt64 (n : Int64) : IsExact (ofInt64 n) := trivial

@[simp] theorem isExact_record (entries : List (String × Document)) :
    IsExact (Document.record entries) ↔ ∀ e ∈ entries, IsExact e.2 := by
  rw [Document.record, IsExact, allExactEntries_iff, List.forall_mem_map]

@[simp] theorem isExact_ofIdMap {g : α → Document} (hg : ∀ a, IsExact (g a)) (m : SortedMap UInt32 α) :
    IsExact (ofIdMap g m) := by
  rw [ofIdMap, IsExact, allExactEntries_iff, List.forall_mem_map]
  exact fun e _ => hg e.2

@[simp] theorem isExact_ofIds (ids : List UInt32) : IsExact (ofIds ids) := by
  rw [ofIds, IsExact, allExact_iff, List.forall_mem_map]
  exact fun _ _ => trivial

@[simp] theorem isExact_ofOption {g : α → Document} (hg : ∀ a, IsExact (g a)) (a : Option α) :
    IsExact (ofOption g a) := by
  cases a with
  | none => trivial
  | some a => exact hg a

end PlatformSnapshot.Json
