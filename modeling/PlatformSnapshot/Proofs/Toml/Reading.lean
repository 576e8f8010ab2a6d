import PlatformSnapshot.Proofs.Document
import PlatformSnapshot.Proofs.Reading
import PlatformSnapshot.Proofs.Text.Split
import PlatformSnapshot.Proofs.Toml.Quoted
import PlatformSnapshot.Toml.Table
/-!
A flat record that is written as TOML is read as one table with its entries, in order and without
those that have no value.
-/
namespace PlatformSnapshot.Toml

open Document (IsFlat IsLeaf IsName isNameChar of_isNameChar ne_of_all_not_isNameChar)

/-- The text is taken apart into these tokens. -/
def Lexes (cs : List Char) (ts : List Token) : Prop := ∀ fuel, cs.length ≤ fuel → tokensFrom? fuel cs = some ts

variable {cs r w : List Char} {t : Token} {ts : List Token} {d : Document} {e : String × Document}
  {es : List (String × Document)}

theorem lexes_nil : Lexes [] [] := fun fuel _ => by cases fuel <;> rfl

theorem Lexes.cons (hr : Lexes r ts) (ht : token? cs = some (t, r)) (hlt : r.length < cs.length) :
    Lexes cs (t :: ts) := by
  intro fuel hfuel
  obtain ⟨fuel, rfl⟩ := Nat.exists_eq_succ_of_ne_zero
    (Nat.ne_of_gt (Nat.zero_lt_of_lt (Nat.lt_of_lt_of_le hlt hfuel)))
  rw [tokensFrom?]
  · exact bind_eq_some ht (bind_eq_some (hr fuel (by omega)) rfl)
  · rintro rfl
    cases hlt

theorem Lexes.newline (hr : Lexes r ts) : Lexes ('\n' :: r) (.newline :: ts) :=
  hr.cons rfl (Nat.lt_succ_self _)

theorem Lexes.equals (hr : Lexes r ts) : Lexes ('=' :: r) (.equals :: ts) :=
  hr.cons rfl (Nat.lt_succ_self _)

theorem Lexes.space (hr : Lexes r ts) (hhead : ∀ c ∈ r.head?, isBlank c = false) :
    Lexes (' ' :: r) (.blanks [' '] :: ts) := by
  have hrun := Text.takeWhile_append (a := [' ']) (List.forall_mem_singleton.2 (by decide)) hhead
  have hempty := Text.takeWhile_append (a := []) (List.forall_mem_nil _) hhead
  refine hr.cons ?_ (Nat.lt_succ_self _)
  rw [List.singleton_append] at hrun
  rw [List.nil_append] at hempty
  rw [token?, if_neg (by decide), if_pos (by decide), hrun.1, hempty.2]

theorem token?_of_isNameChar {c : Char} (hc : isNameChar c) (r : List Char) :
    token? (c :: r) = some (.bare ((c :: r).takeWhile isBare), r.dropWhile isBare) := by
  have hbare : isBlank c = false ∧ isBare c :=
    of_isNameChar (P := fun c => isBlank c = false ∧ isBare c) (by decide) hc
  have hother : ∀ d ∈ ['\n', '#', '=', '.', ',', ':', '+', '\x7b', '\x7d', '[', ']', '\'', '"'], c ≠ d :=
    ne_of_all_not_isNameChar hc (by decide)
  simp only [List.forall_mem_cons, List.not_mem_nil, false_implies, implies_true, and_true] at hother
  simp [token?, hother, hbare]

theorem Lexes.word (hr : Lexes r ts) (hw : IsName w) (hhead : ∀ c ∈ r.head?, isBare c = false) :
    Lexes (w ++ r) (.bare w :: ts) := by
  obtain ⟨c, v, rfl, hc, -⟩ := hw.exists_cons
  have hbare : ∀ a ∈ c :: v, isBare a :=
    fun a ha => of_isNameChar (P := fun c => isBare c) (by decide) (hw.chars a ha)
  have hrun := Text.takeWhile_append hbare hhead
  have htail := Text.takeWhile_append (List.forall_mem_cons.1 hbare).2 hhead
  refine hr.cons ?_ (by simp only [List.length_append, List.length_cons]; omega)
  rw [List.cons_append] at *
  rw [token?_of_isNameChar hc, hrun.1, htail.2]

theorem Lexes.flag (hr : Lexes ('\n' :: r) ts) (b : Bool) :
    Lexes ((if b then "true" else "false").toList ++ '\n' :: r) (.bare (if b then "true" else "false").toList :: ts) :=
  hr.word (by cases b <;> decide) (by rintro c ⟨⟩; decide)

theorem Lexes.quote (hr : Lexes ('\n' :: r) ts) (cs : List Char) :
    Lexes (quote cs ++ '\n' :: r) (.quoted cs (isTripled cs) :: ts) := by
  obtain ⟨q, c, v, hquote, hq⟩ := exists_quote_eq cs
  refine hr.cons ?_ (by simp only [hquote, List.length_append, List.length_cons]; omega)
  have hread := quoted?_quote cs r
  rw [hquote, List.cons_append] at hread ⊢
  rw [← hread]
  rcases hq with rfl | rfl <;> rfl

/-- The token of a value. -/
def valueToken? : Document → Option Token
  | .flag b => some (.bare (if b then "true" else "false").toList)
  | .text s => some (.quoted s.toList (isTripled s.toList))
  | _ => none

def entryTokens (e : String × Document) : List Token :=
  match valueToken? e.2 with
  | none => []
  | some t => [.bare e.1.toList, .blanks [' '], .equals, .blanks [' '], t, .newline]

theorem Lexes.entryLine (hr : Lexes r ts) (hname : IsName e.1.toList) (hleaf : IsLeaf e.2) :
    Lexes (entryLine (.name e.1, e.2) ++ r) (entryTokens e ++ ts) := by
  have hline : ∀ {v t}, (∀ c ∈ (v ++ '\n' :: r).head?, isBlank c = false) →
      Lexes (v ++ '\n' :: r) (t :: .newline :: ts) →
      Lexes (e.1.toList ++ ' ' :: '=' :: ' ' :: (v ++ '\n' :: r))
        (.bare e.1.toList :: .blanks [' '] :: .equals :: .blanks [' '] :: t :: .newline :: ts) := by
    intro v t hv h
    have hequals : Lexes ('=' :: ' ' :: (v ++ '\n' :: r)) (.equals :: .blanks [' '] :: t :: .newline :: ts) :=
      (h.space hv).equals
    exact (hequals.space (by rintro c ⟨⟩; decide)).word hname (by rintro c ⟨⟩; decide)
  obtain ⟨k, d⟩ := e
  cases hleaf with
  | null => exact hr
  | flag b =>
    have h := hline (by cases b <;> (rintro c ⟨⟩; decide)) (hr.newline.flag b)
    simpa [Toml.entryLine, entryTokens, valueToken?, valueText?, keyText] using h
  | text s =>
    have hquote : ∀ c ∈ (Toml.quote s.toList ++ '\n' :: r).head?, isBlank c = false := by
      obtain ⟨q, c, v, h, rfl | rfl⟩ := exists_quote_eq s.toList <;> (rw [h]; rintro c ⟨⟩; decide)
    have h := hline hquote (hr.newline.quote s.toList)
    simpa [Toml.entryLine, entryTokens, valueToken?, valueText?, keyText] using h

theorem lexes_entries (hes : IsFlat es) :
    Lexes ((es.map fun e => (Document.Key.name e.1, e.2)).flatMap entryLine) (es.flatMap entryTokens) := by
  induction es with
  | nil => exact lexes_nil
  | cons e es ih =>
    have hline := (ih hes.tail).entryLine (hes.names e List.mem_cons_self) (hes.leaves e List.mem_cons_self)
    rwa [List.map_cons, List.flatMap_cons, List.flatMap_cons]

/-- Nothing is folded and nothing is dropped before a written record is taken apart. -/
theorem foldReturns_eq_self (h : '\r' ∉ cs) : foldReturns cs = cs := by
  induction cs with
  | nil => rfl
  | cons c cs ih =>
    obtain ⟨hc, hcs⟩ := not_or.1 (mt List.mem_cons.2 h)
    rw [foldReturns, ih hcs]
    rintro r rfl
    exact absurd rfl hc

theorem return_not_mem_entryLine (hname : IsName e.1.toList) (hleaf : IsLeaf e.2) :
    '\r' ∉ entryLine (.name e.1, e.2) := by
  have hkey : '\r' ∉ e.1.toList := fun h => absurd (hname.chars _ h) (by decide)
  obtain ⟨k, d⟩ := e
  cases hleaf with
  | null => simp [entryLine, valueText?]
  | flag b => cases b <;> simpa [entryLine, valueText?, keyText] using hkey
  | text s => simpa [entryLine, valueText?, keyText, return_not_mem_quote] using hkey

theorem isNameChar_head_entries (hes : IsFlat es) :
    ∀ c ∈ ((es.map fun e => (Document.Key.name e.1, e.2)).flatMap entryLine).head?, isNameChar c := by
  induction es with
  | nil => simp
  | cons e es ih =>
    rw [List.map_cons, List.flatMap_cons, entryLine]
    split
    · exact ih hes.tail
    · obtain ⟨c, w, hw, hc, -⟩ := (hes.names e List.mem_cons_self).exists_cons
      simpa [keyText, hw] using hc

theorem tokens?_render (hes : IsFlat es) : tokens? (render (.record es)) = some (es.flatMap entryTokens) := by
  have hmark : ∀ {cs}, (∀ c ∈ cs.head?, isNameChar c) → dropMark cs = cs := by
    intro cs hcs
    unfold dropMark
    split
    · exact absurd (hcs _ rfl) (by decide)
    · rfl
  have hreturn : '\r' ∉ (es.map fun e => (Document.Key.name e.1, e.2)).flatMap entryLine := by
    intro h
    obtain ⟨l, hl, hmem⟩ := List.mem_flatMap.1 h
    obtain ⟨e, he, rfl⟩ := List.mem_map.1 hl
    exact return_not_mem_entryLine (hes.names e he) (hes.leaves e he) hmem
  simp only [tokens?, render, Document.record, String.toList_ofList]
  rw [hmark (isNameChar_head_entries hes), foldReturns_eq_self hreturn]
  exact lexes_entries hes _ (Nat.le_refl _)

namespace Read

@[simp] theorem run_peek (ts : List Token) : peek.run ts = some (ts.head?, ts) := rfl

@[simp] theorem run_next_cons (t : Token) (ts : List Token) : next.run (t :: ts) = some (t, ts) := rfl

@[simp] theorem run_accept_self (t : Token) (ts : List Token) : (accept t).run (t :: ts) = some (true, ts) := by
  simp [accept]

@[simp] theorem run_expect_self (t : Token) (ts : List Token) : (expect t).run (t :: ts) = some ((), ts) := by
  simp [expect]

@[simp] theorem run_skipBlanks_blanks (run : List Char) (ts : List Token) :
    skipBlanks.run (.blanks run :: ts) = some ((), ts) := rfl

end Read

open Read

/-- The value that a document is read as; what has none is left out. -/
def valueOf? : Document → Option Value
  | .flag b => some (.flag b)
  | .text s => some (.text s.toList)
  | _ => none

theorem run_value {v : Value} (ht : valueToken? d = some t) (hv : valueOf? d = some v) (fuel : Nat) (ts : List Token) :
    (value (fuel + 1)).run (t :: ts) = some (v, ts) := by
  cases d with
  | flag b =>
    cases ht
    cases hv
    cases b <;> rfl
  | text s =>
    cases ht
    cases hv
    rfl
  | _ => cases ht

theorem run_dottedKey (w : List Char) (fuel : Nat) (ts : List Token) :
    (dottedKey (fuel + 1)).run (.bare w :: .blanks [' '] :: .equals :: ts) = some ([w], .equals :: ts) := by
  have hperiod : (accept .period).run (.equals :: ts) = some (false, .equals :: ts) := rfl
  simp [dottedKey, key, hperiod]

theorem run_endLine (ts : List Token) : endLine.run (.newline :: ts) = some ((), ts) := rfl

theorem run_skipLines_word (w : List Char) (fuel : Nat) (ts : List Token) :
    (skipLines fuel).run (.bare w :: ts) = some ((), .bare w :: ts) := by
  cases fuel <;> rfl

theorem run_skipLines_nil (fuel : Nat) : (skipLines fuel).run [] = some ((), []) := by cases fuel <;> rfl

theorem run_tablesFrom_entry {v : Value} (ht : valueToken? e.2 = some t) (hv : valueOf? e.2 = some v) (fuel : Nat)
    (before : Option (List (List Char × Value))) (ts : List Token) :
    (tablesFrom (fuel + 2) ⟨[], false, before⟩).run (entryTokens e ++ ts) =
      (tablesFrom (fuel + 1) ⟨[], false, some (before.getD [] ++ [(e.1.toList, v)])⟩).run ts := by
  rw [tablesFrom, entryTokens, ht]
  simp [run_skipLines_word, run_dottedKey, run_value ht hv, run_endLine, withPair?]

/-- The entries of a record that have a value. -/
def membersOf (es : List (String × Document)) : List (List Char × Value) :=
  es.filterMap fun e => (valueOf? e.2).map fun v => (e.1.toList, v)

theorem token_and_value (d : Document) :
    (valueToken? d = none ∧ valueOf? d = none) ∨ ∃ t v, valueToken? d = some t ∧ valueOf? d = some v := by
  cases d with
  | flag b => exact .inr ⟨_, _, rfl, rfl⟩
  | text s => exact .inr ⟨_, _, rfl, rfl⟩
  | _ => exact .inl ⟨rfl, rfl⟩

theorem membersOf_cons_none (h : valueOf? e.2 = none) (es : List (String × Document)) :
    membersOf (e :: es) = membersOf es := by
  simp [membersOf, h]

theorem membersOf_cons_some {v : Value} (h : valueOf? e.2 = some v) (es : List (String × Document)) :
    membersOf (e :: es) = (e.1.toList, v) :: membersOf es := by
  simp [membersOf, h]

theorem length_membersOf_le (es : List (String × Document)) :
    (membersOf es).length ≤ (es.flatMap entryTokens).length := by
  induction es with
  | nil => exact Nat.le_refl 0
  | cons e es ih =>
    rw [List.flatMap_cons, List.length_append]
    rcases token_and_value e.2 with ⟨-, hv⟩ | ⟨t, v, ht, hv⟩
    · rw [membersOf_cons_none hv]
      omega
    · rw [membersOf_cons_some hv, entryTokens, ht]
      simp only [List.length_cons]
      omega

/-- Entries go to the table that is open, and make it one if there are any. -/
theorem run_tablesFrom_entries (hes : IsFlat es) {fuel : Nat} (hfuel : (membersOf es).length < fuel)
    (before : Option (List (List Char × Value))) :
    (tablesFrom fuel ⟨[], false, before⟩).run (es.flatMap entryTokens) =
      some (if before.isNone ∧ membersOf es = [] then []
        else [⟨[], false, some (before.getD [] ++ membersOf es)⟩], []) := by
  induction es generalizing fuel before with
  | nil =>
    obtain ⟨fuel, rfl⟩ := Nat.exists_eq_succ_of_ne_zero (Nat.ne_of_gt hfuel)
    cases before <;> simp [tablesFrom, run_skipLines_nil, membersOf]
  | cons e es ih =>
    rw [List.flatMap_cons]
    rcases token_and_value e.2 with ⟨ht, hv⟩ | ⟨t, v, ht, hv⟩
    · rw [membersOf_cons_none hv] at hfuel ⊢
      rw [entryTokens, ht, List.nil_append, ih hes.tail hfuel]
    · rw [membersOf_cons_some hv, List.length_cons] at hfuel
      obtain ⟨fuel, rfl⟩ := Nat.exists_eq_add_of_le' (show 2 ≤ fuel by omega)
      rw [run_tablesFrom_entry ht hv, ih hes.tail (by omega), membersOf_cons_some hv]
      simp

theorem tables?_render (hes : IsFlat es) :
    tables? (render (.record es)) =
      some (if membersOf es = [] then [] else [⟨[], false, some (membersOf es)⟩]) := by
  have hlen := length_membersOf_le es
  rw [tables?, tokens?_render hes]
  simp only [Option.bind_eq_bind, Option.bind_some]
  rw [run_tablesFrom_entries hes (by omega)]
  simp

theorem run_visitTable_nil (fuel : Nat) : (visitTable (fuel + 1) 0 0 0 0).run [] = some ([], []) := by
  simp [visitTable]

/-- A table without header that stands alone is visited once. -/
theorem run_visitTable_single (fuel : Nat) (ms : List (List Char × Value)) :
    (visitTable (fuel + 2) 0 0 0 1).run [⟨[], false, some ms⟩] =
      some (ms.map fun m => (m.1, some m.2), [⟨[], false, none⟩]) := by
  simp [visitTable, tableAt, firstUnder?, takeEntries]

/-- A flat record is read as its entries, without those that have no value. -/
theorem members?_render (hes : IsFlat es) :
    members? (render (.record es)) = some ((membersOf es).map fun e => (e.1, some e.2)) := by
  rw [members?, tables?_render hes]
  split
  case isTrue h =>
    rw [h]
    exact bind_eq_some rfl (bind_eq_some (run_visitTable_nil _) rfl)
  case isFalse => exact bind_eq_some rfl (bind_eq_some (run_visitTable_single _ _) rfl)

end PlatformSnapshot.Toml
