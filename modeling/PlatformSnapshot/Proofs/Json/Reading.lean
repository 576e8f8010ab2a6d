import Mathlib.Data.Bool.AllAny
import Mathlib.Data.List.Forall2
import PlatformSnapshot.Json.Term
import PlatformSnapshot.Json.Writer
import PlatformSnapshot.Proofs.Json.Quoted
import PlatformSnapshot.Proofs.Text.Decimal
/-!
Reading gives back the tree of what was written, compact or over several lines. A written value is
known by how it is read in front of anything that can follow a value, so the parts of a list or a
table are read one by one.
-/
namespace PlatformSnapshot.Json

open Numeral (isDigit)

/-- What can follow a value: a space, a comma or a closing mark, or nothing. -/
def IsEnd (r : List Char) : Prop := ∀ c ∈ r.head?, isSpace c ∨ c ∈ [',', ']', '\x7d']

/-- A text that is read as `t` in front of all that can follow, and starts neither with a space nor
with a closing bracket. -/
structure Spells (cs : List Char) (t : Term) : Prop where
  head : ∃ c r, cs = c :: r ∧ isSpace c = false ∧ c ≠ ']'
  value?_eq : ∀ fuel r, 2 * cs.length ≤ fuel → IsEnd r → value? fuel (cs ++ r) = some (t, r)

variable {cs : List Char} {t : Term}

/-- The term of a key: what stands between its quotes. -/
def rawKey : Document.Key → List Char
  | .name s => escape s.toList
  | .id n => Numeral.ofNat n

mutual

/-- The term that a written document is read as; the text of a binary number is left open. -/
def termOf : Document → Term
  | .null => .null
  | .flag b => .flag b
  | .integer n => .number (Numeral.ofInt n)
  | .number x => .number (numberText x)
  | .text s => .text (escape s.toList)
  | .list items => .list (termsOf items)
  | .table entries => .record (membersOf entries)

def termsOf : List Document → List Term
  | [] => []
  | d :: ds => termOf d :: termsOf ds

def membersOf : List (Document.Key × Document) → List (List Char × Term)
  | [] => []
  | (k, d) :: es => (rawKey k, termOf d) :: membersOf es

end

mutual

/-- Documents without binary numbers. -/
def IsExact : Document → Prop
  | .number _ => False
  | .list items => AllExact items
  | .table entries => AllExactEntries entries
  | _ => True

def AllExact : List Document → Prop
  | [] => True
  | d :: ds => IsExact d ∧ AllExact ds

def AllExactEntries : List (Document.Key × Document) → Prop
  | [] => True
  | (_, d) :: es => IsExact d ∧ AllExactEntries es

end

theorem skip_of_head {c : Char} {r : List Char} (h : isSpace c = false) : skip (c :: r) = c :: r := by
  simp [skip, h]

theorem skip_spaces {ws r : List Char} (h : ∀ c ∈ ws, isSpace c) : skip (ws ++ r) = skip r :=
  List.dropWhile_append_of_pos h

theorem IsEnd.not_mem {r : List Char} (h : IsEnd r) {c : Char} (hspace : isSpace c = false)
    (hmark : c ∉ [',', ']', '\x7d']) : c ∉ r.head? := by
  intro hc
  rcases h c hc with hc | hc
  · simp [hspace] at hc
  · exact hmark hc

theorem literal?_append (word : List Char) (t : Term) (r : List Char) : literal? word t (word ++ r) = some (t, r) := by
  simp [literal?]

theorem spells_literal {word w : List Char} {c : Char} (hword : word = c :: w) (hhead : isSpace c = false ∧ c ≠ ']')
    (hvalue : ∀ fuel r, value? (fuel + 1) (c :: r) = literal? word t (c :: r)) : Spells word t := by
  constructor
  case head => exact ⟨c, w, hword, hhead⟩
  case value?_eq =>
    intro fuel r hfuel _
    obtain _ | fuel := fuel
    · simp [hword] at hfuel
    · have hstart : word ++ r = c :: (w ++ r) := by rw [hword, List.cons_append]
      rw [hstart, hvalue, ← hstart]
      exact literal?_append word t r

theorem spells_null : Spells "null".toList .null :=
  spells_literal (w := "ull".toList) (c := 'n') (by decide) (by decide) fun _ _ => by rw [value?, if_pos rfl]

theorem spells_flag (b : Bool) : Spells (if b then "true" else "false").toList (.flag b) := by
  cases b with
  | true =>
    refine spells_literal (w := "rue".toList) (c := 't') (by decide) (by decide) fun _ _ => ?_
    rw [value?, if_neg (by decide), if_pos rfl]
    rfl
  | false =>
    refine spells_literal (w := "alse".toList) (c := 'f') (by decide) (by decide) fun _ _ => ?_
    rw [value?, if_neg (by decide), if_neg (by decide), if_pos rfl]
    rfl

theorem wholePart?_ofNat (n : Nat) {r : List Char} (hr : ∀ c ∈ r.head?, isDigit c = false) :
    wholePart? (Numeral.ofNat n ++ r) = some (Numeral.ofNat n, r) := by
  obtain ⟨⟨hne, hdigits⟩, hzero⟩ := Numeral.isShortest_ofNat n
  have hrun : digitRun (Numeral.ofNat n ++ r) = (Numeral.ofNat n, r) := by
    obtain ⟨htake, hdrop⟩ := Numeral.takeWhile_digits hdigits hr
    rw [digitRun, htake, hdrop]
  obtain ⟨c, ds, hds⟩ := List.exists_cons_of_ne_nil hne
  by_cases hc : c = '0'
  · have hone : Numeral.ofNat n = ['0'] := hzero (by rw [hds, hc]; rfl)
    rw [hone]
    rfl
  · rw [hds, List.cons_append] at hrun ⊢
    unfold wholePart?
    split
    case h_1 s hs => exact absurd (List.cons.inj hs).1 hc
    case h_2 => simp [hrun]

theorem fractionPart?_of_isEnd {r : List Char} (hr : IsEnd r) : fractionPart? r = some ([], r) := by
  unfold fractionPart?
  split
  case h_1 s => exact absurd rfl (hr.not_mem (c := '.') (by decide) (by decide))
  case h_2 => rfl

theorem exponentPart?_of_isEnd {r : List Char} (hr : IsEnd r) : exponentPart? r = some ([], r) := by
  cases r with
  | nil => rfl
  | cons c r =>
    have hc : ¬ (c = 'e' ∨ c = 'E') := by
      rintro (rfl | rfl)
      · exact absurd rfl (hr.not_mem (c := 'e') (by decide) (by decide))
      · exact absurd rfl (hr.not_mem (c := 'E') (by decide) (by decide))
    rw [exponentPart?, if_neg hc]

theorem IsEnd.isDigit_eq_false {r : List Char} (hr : IsEnd r) : ∀ c ∈ r.head?, isDigit c = false := by
  intro c hc
  rcases hr c hc with h | h
  · simp only [isSpace, Bool.or_eq_true, beq_iff_eq] at h
    rcases h with ((rfl | rfl) | rfl) | rfl <;> decide
  · simp only [List.mem_cons, List.not_mem_nil, or_false] at h
    rcases h with rfl | rfl | rfl <;> decide

/-- A digit or a minus sign starts an integer. -/
theorem exists_cons_ofInt (n : Int) : ∃ c w, Numeral.ofInt n = c :: w ∧ (c = '-' ∨ isDigit c) := by
  cases n with
  | negSucc n => exact ⟨'-', _, rfl, .inl rfl⟩
  | ofNat n =>
    obtain ⟨hne, hdigits⟩ := Numeral.isRow_ofNat n
    obtain ⟨c, w, hw⟩ := List.exists_cons_of_ne_nil hne
    exact ⟨c, w, hw, .inr (hdigits c (by simp [hw]))⟩

theorem number?_ofInt (n : Int) {r : List Char} (hr : IsEnd r) :
    number? (Numeral.ofInt n ++ r) = some (Numeral.ofInt n, r) := by
  have hwhole := fun n => wholePart?_ofNat n hr.isDigit_eq_false
  have hfraction := fractionPart?_of_isEnd hr
  have hexponent := exponentPart?_of_isEnd hr
  cases n with
  | negSucc n =>
    simp [number?, Numeral.ofInt, hwhole, hfraction, hexponent]
  | ofNat n =>
    -- The match on a sign is decided by there being none.
    have hminus : ∀ s, Numeral.ofNat n ++ r ≠ '-' :: s := by
      intro s hs
      obtain ⟨c, w, hw⟩ := List.exists_cons_of_ne_nil (Numeral.ofNat_ne_nil n)
      have hc : '-' ∈ Numeral.ofNat n := by
        rw [hw] at hs ⊢
        rw [(List.cons.inj hs).1]
        exact List.mem_cons_self
      exact Numeral.not_mem_ofNat (by decide) n hc
    simp [number?, Numeral.ofInt, hwhole, hfraction, hexponent]

theorem spells_integer (n : Int) : Spells (Numeral.ofInt n) (.number (Numeral.ofInt n)) := by
  obtain ⟨c, w, hw, hc⟩ := exists_cons_ofInt n
  have hstart : ∀ m, m ≠ '-' → isDigit m = false → c ≠ m := by
    rintro m hminus hdigit rfl
    rcases hc with rfl | hc
    · exact hminus rfl
    · simp [hdigit] at hc
  constructor
  case head =>
    refine ⟨c, w, hw, ?_, hstart _ (by decide) (by decide)⟩
    simp only [isSpace, Bool.or_eq_false_iff, beq_eq_false_iff_ne]
    refine ⟨⟨⟨?_, ?_⟩, ?_⟩, ?_⟩ <;> exact hstart _ (by decide) (by decide)
  case value?_eq =>
    intro fuel r hfuel hr
    obtain _ | fuel := fuel
    · simp [hw] at hfuel
    · have hnumber := number?_ofInt n hr
      rw [hw, List.cons_append] at hnumber ⊢
      have hother : ∀ m ∈ ['n', 't', 'f', '"', '[', '\x7b'], c ≠ m := by
        have hall : ∀ m ∈ ['n', 't', 'f', '"', '[', '\x7b'], m ≠ '-' ∧ isDigit m = false :=
          List.all_iff_forall_prop.1 (by decide)
        exact fun m hm => hstart m (hall m hm).1 (hall m hm).2
      simp only [List.forall_mem_cons] at hother
      simp [value?, hother, hnumber]

theorem spells_text (w : List Char) : Spells (quote w) (.text (escape w)) := by
  constructor
  case head => exact ⟨'"', _, rfl, by decide⟩
  case value?_eq =>
    intro fuel r hfuel hr
    obtain _ | fuel := fuel
    · simp [quote] at hfuel
    · have hquote : quote w ++ r = '"' :: (escape w ++ '"' :: r) := by simp [quote]
      rw [hquote, value?, if_neg (by decide), if_neg (by decide), if_neg (by decide), if_pos rfl, scan?_escape]
      rfl

/-- Pieces with commas between them, and a gap after each comma. -/
def joinGap (gap : List Char) : List (List Char) → List Char
  | [] => []
  | [w] => w
  | w :: ws => w ++ ',' :: (gap ++ joinGap gap ws)

variable {gap first last sep : List Char}

theorem exists_cons_joinGap (gap : List Char) (ws : List (List Char)) {w r : List Char} {c : Char} (h : w = c :: r) :
    ∃ s, joinGap gap (w :: ws) = c :: s := by
  subst h
  cases ws <;> exact ⟨_, rfl⟩

theorem isEnd_last (hlast : ∀ c ∈ last, isSpace c) {c : Char} (hc : c ∈ [',', ']', '\x7d']) (r : List Char) :
    IsEnd (last ++ c :: r) := by
  intro d hd
  cases last with
  | nil =>
    obtain rfl : c = d := Option.some.inj hd
    exact .inr hc
  | cons e last =>
    obtain rfl : e = d := Option.some.inj hd
    exact .inl (hlast e List.mem_cons_self)

theorem skip_gap (hgap : ∀ c ∈ gap, isSpace c) {r : List Char} (hr : ∀ c ∈ r.head?, isSpace c = false) :
    skip (gap ++ r) = r := by
  rw [skip_spaces hgap]
  cases r with
  | nil => rfl
  | cons c r => exact skip_of_head (hr c rfl)

theorem isEnd_comma (r : List Char) : IsEnd (',' :: r) := by
  rintro c ⟨⟩
  exact .inr (by decide)

/-- Reading the last item of a list. -/
theorem items?_last (hlast : ∀ c ∈ last, isSpace c) {w : List Char} (hw : Spells w t) {fuel : Nat}
    (hfuel : 2 * w.length ≤ fuel) (r : List Char) : items? (fuel + 1) (w ++ (last ++ ']' :: r)) = some ([t], r) := by
  have hvalue := hw.value?_eq fuel (last ++ ']' :: r) hfuel (isEnd_last hlast (by simp) r)
  have hskip : skip (last ++ ']' :: r) = ']' :: r := skip_gap hlast (by rintro c ⟨⟩; decide)
  simp [items?, hvalue, hskip]

/-- Reading an item before others. -/
theorem items?_more (hgap : ∀ c ∈ gap, isSpace c) {w r s : List Char} {ts : List Term} (hw : Spells w t)
    {fuel : Nat} (hfuel : 2 * w.length ≤ fuel) (hr : ∀ c ∈ r.head?, isSpace c = false)
    (hrest : items? fuel r = some (ts, s)) :
    items? (fuel + 1) (w ++ ',' :: (gap ++ r)) = some (t :: ts, s) := by
  have hvalue := hw.value?_eq fuel (',' :: (gap ++ r)) hfuel (isEnd_comma _)
  have hcomma : skip (',' :: (gap ++ r)) = ',' :: (gap ++ r) := skip_of_head (by decide)
  simp [items?, hvalue, hcomma, skip_gap hgap hr, hrest]

/-- A member of a table: its key, a colon and its value. -/
def memberText (sep : List Char) (k : Document.Key) (w : List Char) : List Char := keyText k ++ ':' :: (sep ++ w)

theorem escape_ofNat (n : Nat) : escape (Numeral.ofNat n) = Numeral.ofNat n := by
  have hdigit : ∀ c ∈ Numeral.ofNat n, escapeChar c = [c] := by
    intro c hc
    have hall : ∀ d ∈ shortlyEscaped, isDigit d = false := List.all_iff_forall_prop.1 (by decide)
    have hdigit : isDigit c := Numeral.isDigit_of_mem_ofNat hc
    have hshort : c ∉ shortlyEscaped := fun h => absurd hdigit (by simp [hall c h])
    have hcontrol : ¬ c < ' ' := by
      intro hlt
      have hlt : c.toNat < 32 := hlt
      have hrange := Numeral.isDigit_iff.1 hdigit
      omega
    rw [escapeChar_other hshort, if_neg hcontrol]
  rw [escape, List.flatMap_congr hdigit, List.flatMap_singleton']

theorem scan?_rawKey (k : Document.Key) (r : List Char) : scan? (rawKey k ++ '"' :: r) = some (rawKey k, r) := by
  cases k with
  | name s => exact scan?_escape s.toList r
  | id n =>
    have h := scan?_escape (Numeral.ofNat n) r
    rwa [escape_ofNat] at h

theorem memberText_append (sep : List Char) (k : Document.Key) (w r : List Char) :
    memberText sep k w ++ r = '"' :: (rawKey k ++ '"' :: ':' :: (sep ++ (w ++ r))) := by
  cases k <;> simp [memberText, keyText, rawKey, quote]

theorem skip_sep (hsep : ∀ c ∈ sep, isSpace c) {w : List Char} (hw : Spells w t) (r : List Char) :
    skip (sep ++ (w ++ r)) = w ++ r := by
  obtain ⟨c, s, rfl, hspace, -⟩ := hw.head
  exact skip_gap hsep (by rintro d ⟨⟩; exact hspace)

/-- Reading the last member of a table. -/
theorem members?_last (hsep : ∀ c ∈ sep, isSpace c) (hlast : ∀ c ∈ last, isSpace c) (k : Document.Key)
    {w : List Char} (hw : Spells w t) {fuel : Nat} (hfuel : 2 * w.length ≤ fuel) (r : List Char) :
    members? (fuel + 1) (memberText sep k w ++ (last ++ '\x7d' :: r)) = some ([(rawKey k, t)], r) := by
  have hvalue := hw.value?_eq fuel (last ++ '\x7d' :: r) hfuel (isEnd_last hlast (by simp) r)
  have hcolon : ∀ s, skip (':' :: s) = ':' :: s := fun _ => skip_of_head (by decide)
  have hskip : skip (last ++ '\x7d' :: r) = '\x7d' :: r := skip_gap hlast (by rintro c ⟨⟩; decide)
  rw [memberText_append]
  simp [members?, scan?_rawKey, hcolon, skip_sep hsep hw, hvalue, hskip]

/-- Reading a member before others. -/
theorem members?_more (hsep : ∀ c ∈ sep, isSpace c) (hgap : ∀ c ∈ gap, isSpace c) (k : Document.Key)
    {w r s : List Char} {ms : List (List Char × Term)} (hw : Spells w t) {fuel : Nat} (hfuel : 2 * w.length ≤ fuel)
    (hr : ∀ c ∈ r.head?, isSpace c = false) (hrest : members? fuel r = some (ms, s)) :
    members? (fuel + 1) (memberText sep k w ++ ',' :: (gap ++ r)) = some ((rawKey k, t) :: ms, s) := by
  have hvalue := hw.value?_eq fuel (',' :: (gap ++ r)) hfuel (isEnd_comma _)
  have hcolon : ∀ s, skip (':' :: s) = ':' :: s := fun _ => skip_of_head (by decide)
  have hcomma : skip (',' :: (gap ++ r)) = ',' :: (gap ++ r) := skip_of_head (by decide)
  rw [memberText_append]
  simp [members?, scan?_rawKey, hcolon, skip_sep hsep hw, hvalue, hcomma, skip_gap hgap hr, hrest]

theorem joinGap_cons_cons (gap w w' : List Char) (ws : List (List Char)) (r : List Char) :
    joinGap gap (w :: w' :: ws) ++ r = w ++ ',' :: (gap ++ (joinGap gap (w' :: ws) ++ r)) := by
  simp [joinGap]

/-- A row of pieces is read piece by piece, by any reader that can read the last piece before what
closes the row, and a piece before others. -/
theorem read_joinGap {read : Nat → List Char → Option (List β × List Char)} {R : List Char → β → Prop}
    {stop r : List Char} (hhead : ∀ w b, R w b → ∃ c s, w = c :: s ∧ isSpace c = false)
    (hlast : ∀ w b fuel, R w b → 2 * w.length ≤ fuel → read (fuel + 1) (w ++ stop) = some ([b], r))
    (hmore : ∀ w b fuel s bs, R w b → 2 * w.length ≤ fuel → (∀ c ∈ s.head?, isSpace c = false) →
      read fuel s = some (bs, r) → read (fuel + 1) (w ++ ',' :: (gap ++ s)) = some (b :: bs, r))
    {ws : List (List Char)} {bs : List β} (h : List.Forall₂ R ws bs) (hne : ws ≠ []) {fuel : Nat}
    (hfuel : 2 * (joinGap gap ws).length + 1 ≤ fuel) : read fuel (joinGap gap ws ++ stop) = some (bs, r) := by
  induction h generalizing fuel with
  | nil => exact absurd rfl hne
  | @cons w b ws bs hw hws ih =>
    obtain _ | fuel := fuel
    · simp at hfuel
    cases hws with
    | nil =>
      simp only [joinGap] at hfuel ⊢
      exact hlast w b fuel hw (by omega)
    | @cons w' b' ws bs hw' hws =>
      have hlength := congrArg List.length (joinGap_cons_cons gap w w' ws [])
      simp only [List.append_nil, List.length_append, List.length_cons] at hlength
      rw [joinGap_cons_cons]
      refine hmore w b fuel _ _ hw (by omega) ?_ (ih (by simp) (by omega))
      obtain ⟨c, s, hc, hspace⟩ := hhead w' b' hw'
      obtain ⟨u, hu⟩ := exists_cons_joinGap gap ws hc
      rw [hu]
      rintro d ⟨⟩
      exact hspace

/-- A piece of a table that is read as the member `m`. -/
def SpellsMember (sep w : List Char) (m : List Char × Term) : Prop :=
  ∃ k v, w = memberText sep k v ∧ m.1 = rawKey k ∧ Spells v m.2

/-- A bracket starts a list, and a list that is not closed at once has items. -/
theorem value?_list {fuel : Nat} {c : Char} {r s : List Char} {ts : List Term} (hfirst : ∀ c ∈ first, isSpace c)
    (hspace : isSpace c = false) (hc : c ≠ ']') (hitems : items? fuel (c :: r) = some (ts, s)) :
    value? (fuel + 1) ('[' :: (first ++ c :: r)) = some (.list ts, s) := by
  have hskip : skip (first ++ c :: r) = c :: r := skip_gap hfirst (by rintro d ⟨⟩; exact hspace)
  rw [value?, if_neg (by decide), if_neg (by decide), if_neg (by decide), if_neg (by decide), if_pos rfl, hskip]
  simp [hc, hitems]

/-- A brace starts a table, and a table that is not closed at once has members. -/
theorem value?_record {fuel : Nat} {c : Char} {r s : List Char} {ms : List (List Char × Term)}
    (hfirst : ∀ c ∈ first, isSpace c) (hspace : isSpace c = false) (hc : c ≠ '\x7d')
    (hmembers : members? fuel (c :: r) = some (ms, s)) :
    value? (fuel + 1) ('\x7b' :: (first ++ c :: r)) = some (.record ms, s) := by
  have hskip : skip (first ++ c :: r) = c :: r := skip_gap hfirst (by rintro d ⟨⟩; exact hspace)
  rw [value?, if_neg (by decide), if_neg (by decide), if_neg (by decide), if_neg (by decide), if_neg (by decide),
    if_pos rfl, hskip]
  simp [hc, hmembers]

theorem spells_list (hgap : ∀ c ∈ gap, isSpace c) (hfirst : ∀ c ∈ first, isSpace c)
    (hlast : ∀ c ∈ last, isSpace c)
    {ws : List (List Char)} {ts : List Term} (h : List.Forall₂ Spells ws ts) (hne : ws ≠ []) :
    Spells ('[' :: (first ++ (joinGap gap ws ++ (last ++ [']'])))) (.list ts) := by
  constructor
  case head => exact ⟨'[', _, rfl, by decide, by decide⟩
  case value?_eq =>
    intro fuel r hfuel _
    simp only [List.length_cons, List.length_append, List.length_nil] at hfuel
    obtain _ | fuel := fuel
    · omega
    have hitems : items? fuel (joinGap gap ws ++ (last ++ ']' :: r)) = some (ts, r) :=
      read_joinGap (fun w t hw => hw.head.imp fun c => .imp fun s hs => ⟨hs.1, hs.2.1⟩)
        (fun w t fuel hw hfuel => items?_last hlast hw hfuel r)
        (fun w t fuel s us hw hfuel hs hrest => items?_more hgap hw hfuel hs hrest) h hne (by omega)
    cases h with
    | nil => exact absurd rfl hne
    | @cons w t ws ts hw hws =>
      obtain ⟨c, s, hw, hspace, hc⟩ := hw.head
      obtain ⟨u, hu⟩ := exists_cons_joinGap gap ws hw
      rw [hu] at hitems ⊢
      simpa using value?_list hfirst hspace hc hitems

theorem spells_record (hsep : ∀ c ∈ sep, isSpace c) (hgap : ∀ c ∈ gap, isSpace c)
    (hfirst : ∀ c ∈ first, isSpace c)
    (hlast : ∀ c ∈ last, isSpace c) {ws : List (List Char)} {ms : List (List Char × Term)}
    (h : List.Forall₂ (SpellsMember sep) ws ms) (hne : ws ≠ []) :
    Spells ('\x7b' :: (first ++ (joinGap gap ws ++ (last ++ ['\x7d'])))) (.record ms) := by
  have hhead : ∀ w m, SpellsMember sep w m → ∃ s, w = '"' :: s := by
    rintro w m ⟨k, v, rfl, -, -⟩
    have htext := memberText_append sep k v []
    rw [List.append_nil] at htext
    exact ⟨_, htext⟩
  have hlength : ∀ k v, v.length ≤ (memberText sep k v).length := by
    intro k v
    simp only [memberText, List.length_append, List.length_cons]
    omega
  constructor
  case head => exact ⟨'\x7b', _, rfl, by decide, by decide⟩
  case value?_eq =>
    intro fuel r hfuel _
    simp only [List.length_cons, List.length_append, List.length_nil] at hfuel
    obtain _ | fuel := fuel
    · omega
    have hmembers : members? fuel (joinGap gap ws ++ (last ++ '\x7d' :: r)) = some (ms, r) := by
      refine read_joinGap (fun w m hw => ?_) ?_ ?_ h hne (by omega)
      · obtain ⟨s, hs⟩ := hhead w m hw
        exact ⟨'"', s, hs, by decide⟩
      · rintro w ⟨key, t⟩ fuel ⟨k, v, rfl, rfl, hv⟩ hfuel
        exact members?_last hsep hlast k hv (by have := hlength k v; omega) r
      · rintro w ⟨key, t⟩ fuel s us ⟨k, v, rfl, rfl, hv⟩ hfuel hs hrest
        exact members?_more hsep hgap k hv (by have := hlength k v; omega) hs hrest
    cases h with
    | nil => exact absurd rfl hne
    | @cons w m ws ms hw hws =>
      obtain ⟨s, hs⟩ := hhead w m hw
      obtain ⟨u, hu⟩ := exists_cons_joinGap gap ws hs
      rw [hu] at hmembers ⊢
      simpa using value?_record hfirst (by decide) (by decide) hmembers

/-- What holds of a document as soon as it holds of its parts holds of all. -/
theorem document_induction {P : Document → Prop} (hnull : P .null) (hflag : ∀ b, P (.flag b))
    (hinteger : ∀ n, P (.integer n))
    (hnumber : ∀ x, P (.number x)) (htext : ∀ s, P (.text s)) (hlist : ∀ ds, (∀ d ∈ ds, P d) → P (.list ds))
    (htable : ∀ es, (∀ e ∈ es, P e.2) → P (.table es)) (d : Document) : P d :=
  @Document.rec P (fun ds => ∀ d ∈ ds, P d) (fun es => ∀ e ∈ es, P e.2) (fun e => P e.2)
    hnull hflag hinteger hnumber htext hlist htable (by simp) (fun _ _ hd hds => List.forall_mem_cons.2 ⟨hd, hds⟩)
    (by simp) (fun _ _ he hes => List.forall_mem_cons.2 ⟨he, hes⟩) (fun _ _ hd => hd) d

theorem termsOf_eq_map (ds : List Document) : termsOf ds = ds.map termOf := by
  induction ds with
  | nil => rfl
  | cons d ds ih => rw [termsOf, ih, List.map_cons]

theorem membersOf_eq_map (es : List (Document.Key × Document)) :
    membersOf es = es.map fun e => (rawKey e.1, termOf e.2) := by
  induction es with
  | nil => rfl
  | cons e es ih => rw [membersOf, ih, List.map_cons]

theorem allExact_iff {ds : List Document} : AllExact ds ↔ ∀ d ∈ ds, IsExact d := by
  induction ds with
  | nil => simp [AllExact]
  | cons d ds ih => rw [AllExact, ih, List.forall_mem_cons]

theorem allExactEntries_iff {es : List (Document.Key × Document)} :
    AllExactEntries es ↔ ∀ e ∈ es, IsExact e.2 := by
  induction es with
  | nil => simp [AllExactEntries]
  | cons e es ih => rw [AllExactEntries, ih, List.forall_mem_cons]

theorem compactItems_eq (ds : List Document) : compactItems ds = joinGap [] (ds.map compact) := by
  induction ds with
  | nil => rfl
  | cons d ds ih =>
    cases ds with
    | nil => simp [compactItems, joinGap]
    | cons d' ds => simpa [compactItems, joinGap] using ih

theorem prettyItems_eq (level : Nat) (ds : List Document) :
    prettyItems level ds = joinGap (newLine level) (ds.map (pretty level)) := by
  induction ds with
  | nil => rfl
  | cons d ds ih =>
    cases ds with
    | nil => simp [prettyItems, joinGap]
    | cons d' ds => simpa [prettyItems, joinGap] using ih

theorem compactEntries_eq (es : List (Document.Key × Document)) :
    compactEntries es = joinGap [] (es.map fun e => memberText [] e.1 (compact e.2)) := by
  induction es with
  | nil => rfl
  | cons e es ih =>
    cases es with
    | nil => simp [compactEntries, joinGap, memberText]
    | cons e' es => simpa [compactEntries, joinGap, memberText] using ih

theorem prettyEntries_eq (level : Nat) (es : List (Document.Key × Document)) :
    prettyEntries level es = joinGap (newLine level) (es.map fun e => memberText [' '] e.1 (pretty level e.2)) := by
  induction es with
  | nil => rfl
  | cons e es ih =>
    cases es with
    | nil => simp [prettyEntries, joinGap, memberText]
    | cons e' es => simpa [prettyEntries, joinGap, memberText] using ih

theorem compact_list (ds : List Document) :
    compact (.list ds) = '[' :: ([] ++ (joinGap [] (ds.map compact) ++ ([] ++ [']']))) := by
  simp [compact, compactItems_eq]

theorem compact_table (es : List (Document.Key × Document)) : compact (.table es) =
    '\x7b' :: ([] ++ (joinGap [] (es.map fun e => memberText [] e.1 (compact e.2)) ++ ([] ++ ['\x7d']))) := by
  simp [compact, compactEntries_eq]

theorem pretty_list (level : Nat) {ds : List Document} (hne : ds ≠ []) : pretty level (.list ds) =
    '[' :: (newLine (level + 1) ++ (joinGap (newLine (level + 1)) (ds.map (pretty (level + 1))) ++
      (newLine level ++ [']']))) := by
  obtain ⟨d, ds, rfl⟩ := List.exists_cons_of_ne_nil hne
  rw [pretty, prettyItems_eq]
  simp only [List.append_assoc, List.cons_append]

theorem pretty_table (level : Nat) {es : List (Document.Key × Document)} (hne : es ≠ []) : pretty level (.table es) =
    '\x7b' :: (newLine (level + 1) ++ (joinGap (newLine (level + 1))
      (es.map fun e => memberText [' '] e.1 (pretty (level + 1) e.2)) ++ (newLine level ++ ['\x7d']))) := by
  obtain ⟨e, es, rfl⟩ := List.exists_cons_of_ne_nil hne
  rw [pretty, prettyEntries_eq]
  simp only [List.append_assoc, List.cons_append]

theorem isSpace_newLine (level : Nat) : ∀ c ∈ newLine level, isSpace c := by
  intro c hc
  rcases List.mem_cons.1 hc with rfl | hc
  · decide
  · rw [List.eq_of_mem_replicate hc]
    decide

/-- Every part of a list is read, so the list is. -/
theorem forall₂_spells {write : Document → List Char} {ds : List Document}
    (h : ∀ d ∈ ds, Spells (write d) (termOf d)) :
    List.Forall₂ Spells (ds.map write) (termsOf ds) := by
  rw [termsOf_eq_map, List.forall₂_map_left_iff, List.forall₂_map_right_iff]
  exact List.forall₂_same.2 h

theorem forall₂_spellsMember {write : Document → List Char} {es : List (Document.Key × Document)}
    (h : ∀ e ∈ es, Spells (write e.2) (termOf e.2)) :
    List.Forall₂ (SpellsMember sep) (es.map fun e => memberText sep e.1 (write e.2)) (membersOf es) := by
  rw [membersOf_eq_map, List.forall₂_map_left_iff, List.forall₂_map_right_iff]
  exact List.forall₂_same.2 fun e he => ⟨e.1, write e.2, rfl, rfl, h e he⟩

theorem spells_emptyList : Spells ['[', ']'] (.list []) := by
  constructor
  case head => exact ⟨'[', _, rfl, by decide, by decide⟩
  case value?_eq =>
    intro fuel r hfuel _
    obtain _ | fuel := fuel
    · simp at hfuel
    · have hskip : skip (']' :: r) = ']' :: r := skip_of_head (by decide)
      simp [value?, hskip]

theorem spells_emptyRecord : Spells ['\x7b', '\x7d'] (.record []) := by
  constructor
  case head => exact ⟨'\x7b', _, rfl, by decide, by decide⟩
  case value?_eq =>
    intro fuel r hfuel _
    obtain _ | fuel := fuel
    · simp at hfuel
    · have hskip : skip ('\x7d' :: r) = '\x7d' :: r := skip_of_head (by decide)
      simp [value?, hskip]

/-- A document without binary numbers is read as its term, in whichever way it is written. -/
theorem spells_document (d : Document) (hd : IsExact d) :
    Spells (compact d) (termOf d) ∧ ∀ level, Spells (pretty level d) (termOf d) := by
  have hnil : ∀ c ∈ ([] : List Char), isSpace c := by simp
  have hblank : ∀ c ∈ [' '], isSpace c := List.forall_mem_singleton.2 (by decide)
  induction d using document_induction with
  | hnull => exact ⟨spells_null, fun _ => spells_null⟩
  | hflag b => exact ⟨spells_flag b, fun _ => spells_flag b⟩
  | hinteger n => exact ⟨spells_integer n, fun _ => spells_integer n⟩
  | hnumber x => exact absurd hd (by simp [IsExact])
  | htext s => exact ⟨spells_text s.toList, fun _ => spells_text s.toList⟩
  | hlist ds ih =>
    rw [IsExact, allExact_iff] at hd
    by_cases hne : ds = []
    · subst hne
      exact ⟨spells_emptyList, fun _ => spells_emptyList⟩
    · refine ⟨?_, fun level => ?_⟩
      · rw [compact_list]
        exact spells_list hnil hnil hnil (forall₂_spells fun d hmem => (ih d hmem (hd d hmem)).1) (by simpa using hne)
      · rw [pretty_list level hne]
        exact spells_list (isSpace_newLine _) (isSpace_newLine _) (isSpace_newLine _)
          (forall₂_spells fun d hmem => (ih d hmem (hd d hmem)).2 _) (by simpa using hne)
  | htable es ih =>
    rw [IsExact, allExactEntries_iff] at hd
    by_cases hne : es = []
    · subst hne
      exact ⟨spells_emptyRecord, fun _ => spells_emptyRecord⟩
    · refine ⟨?_, fun level => ?_⟩
      · rw [compact_table]
        exact spells_record hnil hnil hnil hnil (forall₂_spellsMember fun e hmem => (ih e hmem (hd e hmem)).1)
          (by simpa using hne)
      · rw [pretty_table level hne]
        exact spells_record hblank (isSpace_newLine _) (isSpace_newLine _) (isSpace_newLine _)
          (forall₂_spellsMember fun e hmem => (ih e hmem (hd e hmem)).2 _) (by simpa using hne)

/-- Text that spells a term is read as that term. -/
theorem ofText?_of_spells (h : Spells cs t) : Term.ofText? (.ofList cs) = some t := by
  obtain ⟨c, r, rfl, hspace, -⟩ := h.head
  have hvalue := h.value?_eq (2 * (c :: r).length + 2) [] (by omega) (by rintro d ⟨⟩)
  rw [List.append_nil] at hvalue
  rw [Term.ofText?, String.toList_ofList, skip_of_head hspace, hvalue]
  rfl

/-- Reading gives back the term of a document that was written. -/
theorem ofText?_render {d : Document} (hd : IsExact d) :
    Term.ofText? (render d) = some (termOf d) ∧ Term.ofText? (renderPretty d) = some (termOf d) := by
  obtain ⟨hcompact, hpretty⟩ := spells_document d hd
  exact ⟨ofText?_of_spells hcompact, ofText?_of_spells (hpretty 0)⟩

end PlatformSnapshot.Json
