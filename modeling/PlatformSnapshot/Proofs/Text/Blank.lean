import Mathlib.Data.Bool.AllAny
import Mathlib.Data.List.TakeWhile
import PlatformSnapshot.Proofs.Text.Split
import PlatformSnapshot.Text.Blank
/-!
Trimming and cutting into words undo the setting of blanks: around a phrase trimming removes just
the blanks, so it finds the only phrase that stands between blanks, and words that are set apart by
blanks are the words that are read.
-/
namespace PlatformSnapshot.Text

/-- A text that neither begins nor ends with a blank. -/
def IsPhrase (w : List Char) : Prop :=
  (∀ c ∈ w.head?, isBlank c = false) ∧ ∀ c ∈ w.getLast?, isBlank c = false

/-- A word: characters, and none of them blank. -/
def IsWord (w : List Char) : Prop := w ≠ [] ∧ ∀ c ∈ w, isBlank c = false

instance (w : List Char) : Decidable (IsWord w) :=
  decidable_of_decidable_of_iff (and_congr_right' (List.all_iff_forall_prop (p := fun c => isBlank c = false)))

/-- The words of a text are its maximal runs of characters that are not blank, in order. -/
inductive WordsOf : List Char → List (List Char) → Prop where
  | none : WordsOf [] []
  | blank (hc : isBlank c = true) (h : WordsOf r ws) : WordsOf (c :: r) ws
  | word (hw : IsWord w) (hend : ∀ c ∈ r.head?, isBlank c = true) (h : WordsOf r ws) : WordsOf (w ++ r) (w :: ws)

variable {w v cs bs r : List Char}

/-- A text is a run of characters of one kind, or such a run, a gap of characters of the other kind and
a text that does not begin with one of these. -/
theorem gap_induction (isGap : Char → Bool) {P : List Char → Prop}
    (hlast : ∀ part, (∀ c ∈ part, isGap c = false) → P part)
    (hmore : ∀ part g gap rest, (∀ c ∈ part, isGap c = false) → (∀ c ∈ g :: gap, isGap c) →
      (∀ c ∈ rest.head?, isGap c = false) → P rest → P (part ++ (g :: gap ++ rest)))
    (cs : List Char) : P cs := by
  induction h : cs.length using Nat.strongRecOn generalizing cs with
  | ind n ih =>
    have hpart : ∀ c ∈ cs.takeWhile fun c => !isGap c, isGap c = false := fun c hc => by
      simpa using List.mem_takeWhile_imp hc
    have hcs := List.takeWhile_append_dropWhile (p := fun c => !isGap c) (l := cs)
    have hstop := List.head?_dropWhile_not (fun c => !isGap c) cs
    cases hdrop : cs.dropWhile fun c => !isGap c with
    | nil =>
      rw [hdrop, List.append_nil] at hcs
      exact hcs ▸ hlast _ hpart
    | cons g r =>
      rw [hdrop] at hcs
      have hg : isGap g := by simpa [hdrop] using hstop
      have hgap : ∀ c ∈ g :: r.takeWhile isGap, isGap c :=
        List.forall_mem_cons.2 ⟨hg, fun c hc => List.mem_takeWhile_imp hc⟩
      have hrest : ∀ c ∈ (r.dropWhile isGap).head?, isGap c = false := by
        have h := List.head?_dropWhile_not isGap r
        intro c hc
        rw [Option.mem_def.1 hc] at h
        simpa using h
      have hsplit : cs = cs.takeWhile (fun c => !isGap c) ++ (g :: r.takeWhile isGap ++ r.dropWhile isGap) := by
        rw [List.cons_append, List.takeWhile_append_dropWhile, hcs]
      have hlt : (r.dropWhile isGap).length < n := by
        have hlen := congrArg List.length hsplit
        simp only [List.length_append, List.length_cons] at hlen
        omega
      exact hsplit ▸ hmore _ g _ _ hpart hgap hrest (ih _ hlt _ rfl)

theorem IsWord.isPhrase (h : IsWord w) : IsPhrase w :=
  ⟨fun c hc => h.2 c (List.mem_of_head? hc), fun c hc => h.2 c (List.mem_of_getLast? hc)⟩

theorem trimLeft_append (hb : ∀ c ∈ bs, isBlank c) : trimLeft (bs ++ r) = trimLeft r :=
  List.dropWhile_append_of_pos hb

theorem trimLeft_eq_self (h : ∀ c ∈ w.head?, isBlank c = false) : trimLeft w = w := by
  cases w with
  | nil => rfl
  | cons c w => simp [trimLeft, h c rfl]

theorem trimRight_append (hb : ∀ c ∈ bs, isBlank c) : trimRight (w ++ bs) = trimRight w := by
  have hrev : ∀ c ∈ bs.reverse, isBlank c := by simpa using hb
  rw [trimRight, List.reverse_append, List.dropWhile_append_of_pos hrev, trimRight]

theorem trimRight_eq_self (h : ∀ c ∈ w.getLast?, isBlank c = false) : trimRight w = w := by
  have hrev : trimLeft w.reverse = w.reverse := trimLeft_eq_self (by simpa using h)
  unfold trimLeft at hrev
  rw [trimRight, hrev, List.reverse_reverse]

/-- Blanks around a phrase are all that trimming removes. -/
theorem trim_surround (as bs : List Char) (ha : ∀ c ∈ as, isBlank c) (hb : ∀ c ∈ bs, isBlank c)
    (hw : IsPhrase w) : trim (as ++ (w ++ bs)) = w := by
  rw [trim, trimLeft_append ha]
  cases w with
  | nil =>
    have hnil : trimLeft bs = [] := by simpa [trimLeft] using trimLeft_append (r := []) hb
    simp [hnil, trimRight]
  | cons c w =>
    have hleft : trimLeft (c :: w ++ bs) = c :: w ++ bs := trimLeft_eq_self (by simpa using hw.1)
    rw [hleft, trimRight_append hb, trimRight_eq_self hw.2]

theorem IsPhrase.trim_eq (hw : IsPhrase w) : trim w = w := by
  simpa using trim_surround [] [] (by simp) (by simp) hw

theorem IsPhrase.trim_cons_blank (hw : IsPhrase w) {c : Char} (hc : isBlank c) : trim (c :: w) = w := by
  simpa using trim_surround [c] [] (List.forall_mem_singleton.2 hc) (by simp) hw

/-- `v` is what is left of `cs` without the blanks at its two ends. -/
def TrimsTo (cs v : List Char) : Prop :=
  IsPhrase v ∧ ∃ as bs, cs = as ++ (v ++ bs) ∧ (∀ c ∈ as, isBlank c) ∧ ∀ c ∈ bs, isBlank c

theorem exists_trimLeft (cs : List Char) : ∃ as, cs = as ++ trimLeft cs ∧ (∀ c ∈ as, isBlank c) ∧
    ∀ c ∈ (trimLeft cs).head?, isBlank c = false := by
  induction cs with
  | nil => exact ⟨[], rfl, by simp, by simp [trimLeft]⟩
  | cons c r ih =>
    by_cases hc : isBlank c
    · obtain ⟨as, hr, has, hhead⟩ := ih
      have hskip : trimLeft (c :: r) = trimLeft r := by simp [trimLeft, hc]
      refine ⟨c :: as, ?_, ?_, ?_⟩
      · rw [hskip, List.cons_append, ← hr]
      · simpa using ⟨hc, has⟩
      · rwa [hskip]
    · have hself : trimLeft (c :: r) = c :: r := trimLeft_eq_self (by simpa using hc)
      exact ⟨[], by simp [hself], by simp, by simpa [hself] using hc⟩

theorem exists_trimRight (cs : List Char) : ∃ bs, cs = trimRight cs ++ bs ∧ (∀ c ∈ bs, isBlank c) ∧
    ∀ c ∈ (trimRight cs).getLast?, isBlank c = false := by
  obtain ⟨as, hcs, has, hhead⟩ := exists_trimLeft cs.reverse
  refine ⟨as.reverse, ?_, by simpa using has, ?_⟩
  · have h := congrArg List.reverse hcs
    rwa [List.reverse_reverse, List.reverse_append] at h
  · simpa [trimRight, trimLeft] using hhead

theorem trimsTo_trim (cs : List Char) : TrimsTo cs (trim cs) := by
  obtain ⟨as, hcs, has, hhead⟩ := exists_trimLeft cs
  obtain ⟨bs, hleft, hbs, hlast⟩ := exists_trimRight (trimLeft cs)
  refine ⟨⟨?_, hlast⟩, as, bs, ?_, has, hbs⟩
  · intro c hc
    obtain ⟨r, hr⟩ := List.head?_eq_some_iff.1 hc
    refine hhead c ?_
    rw [hleft]
    change c ∈ (trim cs ++ bs).head?
    rw [hr]
    rfl
  · change cs = as ++ (trimRight (trimLeft cs) ++ bs)
    rw [← hleft, ← hcs]

theorem trim_eq_iff : trim cs = v ↔ TrimsTo cs v := by
  constructor
  · rintro rfl
    exact trimsTo_trim cs
  · rintro ⟨hv, as, bs, rfl, has, hbs⟩
    exact trim_surround as bs has hbs hv

theorem trim_append (hb : ∀ c ∈ bs, isBlank c) : trim (cs ++ bs) = trim cs := by
  obtain ⟨hphrase, as, bs', hcs, has, hbs'⟩ := trimsTo_trim cs
  refine trim_eq_iff.2 ⟨hphrase, as, bs' ++ bs, ?_, has, List.forall_mem_append.2 ⟨hbs', hb⟩⟩
  calc cs ++ bs = as ++ (trim cs ++ bs') ++ bs := by rw [← hcs]
    _ = as ++ (trim cs ++ (bs' ++ bs)) := by simp

theorem ofList_trim_eq_iff {s : String} : String.ofList (trim cs) = s ↔ TrimsTo cs s.toList := by
  rw [← trim_eq_iff, ← String.toList_inj, String.toList_ofList]

variable {c d : Char} {ws : List (List Char)}

theorem words_cons_blank (hc : isBlank c) : words (c :: r) = words r := if_pos hc

theorem words_cons (hc : isBlank c = false) : words (c :: r) =
    match r, words r with
    | d :: _, w :: ws => if isBlank d then [c] :: w :: ws else (c :: w) :: ws
    | _, ws => [c] :: ws :=
  if_neg (by simp [hc])

theorem words_cons_cons (hc : isBlank c = false) (hd : isBlank d = false)
    (h : words (d :: r) = w :: ws) : words (c :: d :: r) = (c :: w) :: ws := by
  rw [words_cons hc, h]
  exact if_neg (by simp [hd])

theorem words_cons_before_blank (hc : isBlank c = false) (hd : isBlank d) :
    words (c :: d :: r) = [c] :: words r := by
  rw [words_cons hc, words_cons_blank hd]
  cases words r with
  | nil => rfl
  | cons w ws => exact if_pos hd

theorem words_append_left (bs : List Char) (hb : ∀ c ∈ bs, isBlank c) : words (bs ++ r) = words r := by
  induction bs with
  | nil => rfl
  | cons c bs ih =>
    obtain ⟨hc, hbs⟩ := List.forall_mem_cons.1 hb
    rw [List.cons_append, words_cons_blank hc, ih hbs]

/-- A word is read as a whole, up to the blank after it or to the end. -/
theorem words_append (hw : IsWord w) (hr : ∀ c ∈ r.head?, isBlank c) :
    words (w ++ r) = w :: words r := by
  obtain ⟨hne, hw⟩ := hw
  induction w with
  | nil => exact absurd rfl hne
  | cons c w ih =>
    obtain ⟨hc, hw⟩ := List.forall_mem_cons.1 hw
    cases w with
    | cons d w => exact words_cons_cons hc (hw d (by simp)) (ih (by simp) hw)
    | nil =>
      cases r with
      | nil => exact words_cons hc
      | cons b r =>
        have hb : isBlank b := hr b rfl
        calc words ([c] ++ b :: r) = [c] :: words r := words_cons_before_blank hc hb
          _ = [c] :: words (b :: r) := by rw [words_cons_blank hb]

theorem words_of_wordsOf (h : WordsOf cs ws) : words cs = ws := by
  induction h with
  | none => rfl
  | blank hc _ ih => rw [words_cons_blank hc, ih]
  | word hw hend _ ih => rw [words_append hw hend, ih]

/-- Where a text begins with a word, the word ends at the first blank or with the text. -/
theorem WordsOf.exists_append (h : WordsOf (c :: r) ws) (hc : isBlank c = false) : ∃ w rest vs, c :: r = w ++ rest ∧
    ws = w :: vs ∧ IsWord w ∧ (∀ d ∈ rest.head?, isBlank d = true) ∧ WordsOf rest vs := by
  generalize hcs : c :: r = cs at h
  cases h with
  | none => cases hcs
  | blank hb =>
    cases hcs
    rw [hc] at hb
    cases hb
  | word hw hend h => exact ⟨_, _, _, rfl, rfl, hw, hend, h⟩

theorem wordsOf_words (cs : List Char) : WordsOf cs (words cs) := by
  induction cs with
  | nil => exact .none
  | cons c r ih =>
    by_cases hc : isBlank c
    · rw [words_cons_blank hc]
      exact .blank hc ih
    · have hc : isBlank c = false := by simpa using hc
      have hone : IsWord [c] := ⟨by simp, by simpa using hc⟩
      cases r with
      | nil =>
        rw [words_cons hc]
        exact .word hone (by simp) .none
      | cons d r =>
        by_cases hd : isBlank d
        · have hsplit : words (c :: d :: r) = [c] :: words (d :: r) := by
            rw [words_cons_before_blank hc hd, words_cons_blank hd]
          rw [hsplit]
          exact .word hone (by rintro _ ⟨⟩; exact hd) ih
        · -- the word that the rest begins with grows by one character
          have hd : isBlank d = false := by simpa using hd
          obtain ⟨w, rest, vs, hrest, hws, hw, hend, h⟩ := ih.exists_append hd
          rw [words_cons_cons hc hd hws, hrest]
          exact .word ⟨by simp, List.forall_mem_cons.2 ⟨hc, hw.2⟩⟩ hend h

theorem words_eq_iff : words cs = ws ↔ WordsOf cs ws :=
  ⟨fun h => h ▸ wordsOf_words cs, words_of_wordsOf⟩

/-- Words, each after a blank. -/
def spaced (ws : List (List Char)) : List Char := ws.flatMap fun w => ' ' :: w

theorem isLine_spaced (h : ∀ w ∈ ws, IsLine w) : IsLine (spaced ws) := by
  induction ws with
  | nil => decide
  | cons w ws ih =>
    obtain ⟨hw, hws⟩ := List.forall_mem_cons.1 h
    exact isLine_append (isLine_cons (by decide) (by decide) hw) (ih hws)

/-- Words after a word are read one by one, up to the blank after the last. -/
theorem words_append_spaced (hw : IsWord w) (hws : ∀ v ∈ ws, IsWord v) (hr : ∀ c ∈ r.head?, isBlank c) :
    words (w ++ (spaced ws ++ r)) = w :: (ws ++ words r) := by
  induction ws generalizing w with
  | nil => exact words_append hw hr
  | cons v ws ih =>
    obtain ⟨hv, hws⟩ := List.forall_mem_cons.1 hws
    have hblank : ∀ c ∈ (spaced (v :: ws) ++ r).head?, isBlank c := by
      rintro c ⟨⟩
      decide
    have hsplit : spaced (v :: ws) ++ r = [' '] ++ (v ++ (spaced ws ++ r)) := by simp [spaced]
    rw [words_append hw hblank, hsplit, words_append_left [' '] (List.forall_mem_singleton.2 (by decide)),
      ih hv hws]
    rfl

end PlatformSnapshot.Text
