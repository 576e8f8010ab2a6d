import PlatformSnapshot.Proofs.Text.Blank
import PlatformSnapshot.Proofs.Yaml.Analysis
/-!
Places in a text, gaps between the parts of a scalar, and plain scalars. A plain text is read back to the
end of its line. Reading goes by runs and gaps, so the proof follows the text from one gap to the next.
-/
namespace PlatformSnapshot.Yaml

open Text (gap_induction)

namespace Cursor

variable {c : Cursor} {a s : List Char}

@[simp] theorem skip_zero (c : Cursor) : c.skip 0 = c := rfl

theorem rest_skip (h : c.rest = a ++ s) : (c.skip a.length).rest = s := by
  rw [skip, h, List.drop_left]

@[simp] theorem column_skip (c : Cursor) (n : Nat) : (c.skip n).column = c.column + n := rfl

@[simp] theorem column_nextLine (c : Cursor) (n : Nat) : (c.nextLine n).column = 0 := rfl

theorem rest_nextLine {b : Char} (h : c.rest = b :: s) : (c.nextLine 1).rest = s := by
  rw [nextLine, h, List.drop_one, List.tail_cons]

theorem skipWhile_eq_self {p : Char → Bool} (h : ∀ a ∈ c.rest.head?, p a = false) : c.skipWhile p = c := by
  have htake : c.rest.takeWhile p = [] := by
    cases hrest : c.rest with
    | nil => rfl
    | cons a s => simp [h a (by rw [hrest]; rfl)]
  rw [skipWhile, htake]
  rfl

theorem isAtDocumentMark_of_pos (h : 0 < c.column) : c.isAtDocumentMark = false := by
  simp [isAtDocumentMark, isAtMarker, Nat.ne_of_gt h]

theorem isAtDocumentMark_of_head {b : Char} (h : c.rest = b :: s) (hdash : b ≠ '-') (hperiod : b ≠ '.') :
    c.isAtDocumentMark = false := by
  simp [isAtDocumentMark, isAtMarker, h, hdash, hperiod]

theorem peek_eq (h : c.rest = s) : c.peek = s.head? := by rw [peek, h]

/-- Of the line breaks only these are printed, and each stands for itself. -/
theorem lineBreak?_of_isPrintable {b : Char} (h : c.rest = b :: s) (hb : isBreak b) (hp : isPrintable b) :
    c.lineBreak? = some ([b], c.nextLine 1) := by
  have hcases : b = '\n' ∨ b = '\u2028' ∨ b = '\u2029' := by
    simp only [isBreak, Bool.or_eq_true, beq_iff_eq] at hb
    rcases hb with (((rfl | rfl) | rfl) | rfl) | rfl
    · exact .inl rfl
    · exact absurd hp (by decide)
    · exact absurd hp (by decide)
    · exact .inr (.inl rfl)
    · exact .inr (.inr rfl)
  unfold lineBreak?
  rcases hcases with rfl | rfl | rfl <;> simp [h, isBreak]

theorem lineBreak?_of_not (h : ∀ b ∈ c.rest.head?, isBreak b = false) : c.lineBreak? = none := by
  unfold lineBreak?
  split
  · rfl
  · next hr => exact absurd (h '\r' (by simp [hr])) (by decide)
  · next b _ _ hr =>
    have hb : isBreak b = false := h b (by simp [hr])
    have hseparator : ¬ (b = '\u2028' ∨ b = '\u2029') := by rintro (rfl | rfl) <;> revert hb <;> decide
    simp [hb, hseparator]

end Cursor

/-- Whether some text begins with a character that belongs to no gap, or is empty. -/
def EndsGap (s : List Char) : Prop := ∀ a ∈ s.head?, isBlankOrBreak a = false

namespace Gap

variable {g : Gap} {c : Cursor} {s gs bs : List Char} {indent fuel : Nat} {b : Char}

theorem isBlank_false (h : isBlankOrBreak b = false) : isBlank b = false ∧ isBreak b = false := by
  simpa [isBlankOrBreak] using h

theorem isBlank_of_isBreak (h : isBreak b) : isBlank b = false := by
  simp only [isBreak, Bool.or_eq_true, beq_iff_eq] at h
  rcases h with (((rfl | rfl) | rfl) | rfl) | rfl <;> decide

theorem read_stop (g : Gap) (h : EndsGap c.rest) : read indent fuel g c = some (g, c) := by
  cases fuel with
  | zero => rfl
  | succ fuel =>
    rw [read, Cursor.peek]
    cases hhead : c.rest.head? with
    | none => rfl
    | some a =>
      obtain ⟨hblank, hbreak⟩ := isBlank_false (h a hhead)
      have hline : c.lineBreak? = none := Cursor.lineBreak?_of_not (by rw [hhead]; rintro b ⟨⟩; exact hbreak)
      simp [hblank, hline]

/-- Blanks of one line stand for themselves. -/
theorem read_blanks (before : List Char) (hgs : ∀ a ∈ gs, isBlank a) (hs : EndsGap s) (hc : c.rest = gs ++ s)
    (hfuel : gs.length ≤ fuel) :
    read indent fuel { blanks := before } c = some ({ blanks := before ++ gs }, c.skip gs.length) := by
  induction gs generalizing before c fuel with
  | nil =>
    rw [read_stop _ (by rwa [hc])]
    simp
  | cons a gs ih =>
    obtain ⟨ha, hgs⟩ := List.forall_mem_cons.1 hgs
    obtain ⟨fuel, rfl⟩ := Nat.exists_eq_add_of_le' (show 1 ≤ fuel by simp at hfuel; omega)
    have hrest : (c.skip 1).rest = gs ++ s := Cursor.rest_skip (a := [a]) hc
    have h := ih (before ++ [a]) hgs hrest (by simpa using hfuel)
    rw [read, Cursor.peek_eq hc]
    simp only [List.cons_append, List.head?_cons, ha, if_true, Bool.not_false]
    rw [h]
    simp [Cursor.skip, Nat.add_assoc, Nat.add_comm 1]

theorem read_break (hc : c.rest = b :: s) (hb : isBreak b) (hp : isPrintable b) :
    read indent (fuel + 1) {} c = read indent fuel { isBroken := true, firstBreak := [b] } (c.nextLine 1) := by
  rw [read, Cursor.peek_eq hc]
  simp [isBlank_of_isBreak hb, Cursor.lineBreak?_of_isPrintable hc hb hp]

/-- The spaces in front of a line that goes on do not count. -/
theorem read_indentation (g : Gap) (hg : g.isBroken) (n : Nat) (hs : EndsGap s)
    (hc : c.rest = List.replicate n ' ' ++ s) (hfuel : n ≤ fuel) : read indent fuel g c = some (g, c.skip n) := by
  induction n generalizing c fuel with
  | zero => exact read_stop g (by simpa [hc] using hs)
  | succ n ih =>
    obtain ⟨fuel, rfl⟩ := Nat.exists_eq_add_of_le' (show 1 ≤ fuel by omega)
    rw [List.replicate_succ, List.cons_append] at hc
    have hrest : (c.skip 1).rest = List.replicate n ' ' ++ s := Cursor.rest_skip (a := [' ']) hc
    rw [read, Cursor.peek_eq hc]
    have hspace : isBlank ' ' := by decide
    simp only [List.head?_cons, hspace, if_true, hg, Bool.not_true]
    rw [if_neg (by simp), if_neg (by simp), ih hrest (by omega)]
    simp [Cursor.skip, Nat.add_assoc, Nat.add_comm 1]

/-- Line breaks after the first one, and then the spaces in front of the next line. -/
theorem read_breaks (first more : List Char) (hbs : ∀ b ∈ bs, isBreak b ∧ isPrintable b) (n : Nat)
    (hs : EndsGap s) (hc : c.rest = bs ++ (List.replicate n ' ' ++ s)) (hcol : c.column = 0)
    (hfuel : bs.length + n ≤ fuel) :
    ∃ c', read indent fuel { isBroken := true, firstBreak := first, moreBreaks := more } c =
      some ({ isBroken := true, firstBreak := first, moreBreaks := more ++ bs }, c') ∧
        c'.rest = s ∧ c'.column = n := by
  induction bs generalizing more c fuel with
  | nil =>
    rw [List.nil_append] at hc
    rw [List.length_nil, Nat.zero_add] at hfuel
    have hrest : (c.skip n).rest = s := by simpa using Cursor.rest_skip hc
    exact ⟨_, by rw [read_indentation _ rfl n hs hc hfuel, List.append_nil], hrest, by simp [hcol]⟩
  | cons b bs ih =>
    obtain ⟨⟨hb, hp⟩, hbs⟩ := List.forall_mem_cons.1 hbs
    rw [List.length_cons] at hfuel
    obtain ⟨fuel, rfl⟩ := Nat.exists_eq_add_of_le' (show 1 ≤ fuel by omega)
    obtain ⟨c', h, hrest⟩ := ih (more ++ [b]) hbs (Cursor.rest_nextLine hc) rfl
      (show bs.length + n ≤ fuel by omega)
    refine ⟨c', ?_, hrest⟩
    rw [read, Cursor.peek_eq hc]
    simp only [List.cons_append, List.head?_cons, isBlank_of_isBreak hb, Cursor.lineBreak?_of_isPrintable hc hb hp]
    simpa using h

end Gap

section

variable {cs part s r : List Char} {c : Cursor} {fuel : Nat}

/-- A part ends at the gap after it, or at a colon that a gap follows. -/
def EndsPart (s : List Char) : Prop :=
  (∃ a ∈ s.head?, isBlankOrBreak a) ∨ ∃ r, s = ':' :: r ∧ Cursor.endsWord r.head?

theorem plainPart?_append (hpart : ∀ a ∈ part, isBlankOrBreak a = false)
    (hvalue : part.IsChain fun x y => x = ':' → isBlankOrBreak y = false) (hlast : part.getLast? ≠ some ':')
    (hs : EndsPart s) : plainPart? false (part ++ s) = some part := by
  induction part with
  | nil =>
    rcases hs with ⟨a, ha, hblank⟩ | ⟨r, rfl, hr⟩
    · cases s with
      | nil => cases ha
      | cons d s =>
        obtain rfl : d = a := by simpa using ha
        simp [plainPart?, hblank]
    · have hcolon : isBlankOrBreak ':' = false := by decide
      simp [plainPart?, hcolon, hr]
  | cons a part ih =>
    obtain ⟨ha, hpart⟩ := List.forall_mem_cons.1 hpart
    obtain ⟨hnext, hvalue⟩ := List.isChain_cons.1 hvalue
    have hcolon : ¬ (a = ':' ∧ Cursor.endsWord (part ++ s).head?) := by
      rintro ⟨rfl, hend⟩
      cases part with
      | nil => exact hlast rfl
      | cons b part =>
        have hb : Cursor.endsWord (some b) = false := hnext b rfl rfl
        simp [hb] at hend
    have hrest : part.getLast? ≠ some ':' := by
      cases part with
      | nil => simp
      | cons b part => rwa [List.getLast?_cons_cons] at hlast
    rw [List.cons_append, plainPart?, if_neg (by simp [ha]), if_neg (by simp), if_neg (by simpa using hcolon),
      ih hpart hvalue hrest]
    rfl

theorem readPlain_succ {g : Gap} {c' : Cursor} {indent : Nat} (hmark : c.isAtDocumentMark = false)
    (hhead : c.peek ≠ some '#') (hpart : plainPart? false c.rest = some part) (hne : part ≠ [])
    (hgap : Gap.read indent c.rest.length {} (c.skip part.length) = some (g, c')) (text : List Char) (gap : Gap) :
    readPlain false indent (fuel + 1) text gap c =
      if g.isBroken ∧ c'.column < indent then some (text ++ gap.text ++ part, g, c')
      else if ¬ g.isBroken ∧ g.blanks = [] then some (text ++ gap.text ++ part, g, c')
      else readPlain false indent fuel (text ++ gap.text ++ part) g c' := by
  have hstop : ¬ (c.isAtDocumentMark ∨ c.peek = some '#') := by simp [hmark, hhead]
  simp only [readPlain, if_neg hstop, hpart, if_neg hne, hgap, Option.bind_eq_bind, Option.bind_some, pure]
  simp

/-- The first part of a plain text ends at a space or at the end of the line. -/
theorem GoesOn.plainPart?_eq (hgo : GoesOn (part ++ s)) (hpart : ∀ a ∈ part, a ≠ ' ')
    (hs : ∀ a ∈ s.head?, a = ' ') (r : List Char) : plainPart? false (part ++ (s ++ '\n' :: r)) = some part := by
  have hclean : ∀ a ∈ part, isBlankOrBreak a = false := fun a ha =>
    let h := hgo.clean a (List.mem_append_left s ha)
    isBlankOrBreak_eq_false h.1 (hpart a ha) h.2
  obtain ⟨hvalue, -, hjoint⟩ := List.isChain_append.1 hgo.value
  refine plainPart?_append hclean hvalue ?_ ?_
  · intro hcolon
    cases s with
    | nil =>
      rw [List.append_nil] at hgo
      exact (hgo.last _ hcolon).2 rfl
    | cons a s =>
      obtain rfl := hs a rfl
      exact absurd (hjoint _ hcolon _ rfl rfl) (by decide)
  · refine .inl ?_
    cases s with
    | nil => exact ⟨'\n', rfl, by decide⟩
    | cons a s =>
      obtain rfl := hs a rfl
      exact ⟨' ', rfl, by decide⟩

theorem GoesOn.suffix (hgo : GoesOn (part ++ s)) (hne : s ≠ []) : GoesOn s where
  clean c hc := hgo.clean c (List.mem_append_right part hc)
  comment := hgo.comment.right_of_append
  value := hgo.value.right_of_append
  last c hc := hgo.last c (by rwa [List.getLast?_append_of_ne_nil part hne])

/-- Some text begins with a character that neither belongs to a gap of spaces nor opens a comment. -/
def Begins (s : List Char) : Prop := ∃ a w, s = a :: w ∧ a ≠ ' ' ∧ a ≠ '#'

theorem Begins.ne_nil (h : Begins s) : s ≠ [] := by
  obtain ⟨a, w, rfl, -⟩ := h
  exact List.cons_ne_nil a w

theorem Begins.peek_ne (h : Begins cs) (hc : c.rest = cs ++ s) : c.peek ≠ some '#' := by
  obtain ⟨a, w, rfl, -, hsharp⟩ := h
  rw [Cursor.peek_eq hc]
  simpa using hsharp

/-- A text that goes on does not end with a space, so a gap has something after it, and it is no comment. -/
theorem GoesOn.afterGap {g : Char} {gs rest : List Char} (hgo : GoesOn (part ++ (g :: gs ++ rest)))
    (hgs : ∀ a ∈ g :: gs, a = ' ') (hrest : ∀ a ∈ rest.head?, a ≠ ' ') : GoesOn rest ∧ Begins rest := by
  have hlast : (g :: gs).getLast? = some ' ' := by
    rw [List.getLast?_eq_some_getLast (List.cons_ne_nil g gs), hgs _ (List.getLast_mem _)]
  cases rest with
  | nil => exact absurd rfl (hgo.last ' ' (by simpa using hlast)).1
  | cons a w =>
    have hjoint := (List.isChain_append.1 hgo.comment.right_of_append).2.2 ' ' hlast a rfl
    refine ⟨(GoesOn.suffix hgo (by simp)).suffix (List.cons_ne_nil a w), a, w, rfl, hrest a rfl, ?_⟩
    exact fun hsharp => absurd (hjoint hsharp) (by decide)

/-- The last part of a plain text ends with its line. -/
theorem readPlain_last (hgo : GoesOn part) (hhead : Begins part) (hpart : ∀ a ∈ part, a ≠ ' ') (hr : EndsGap r)
    (hc : c.rest = part ++ '\n' :: r) (hcol : 0 < c.column) (text : List Char) (gap : Gap) :
    readPlain false 1 (fuel + 1) text gap c =
      some (text ++ gap.text ++ part, { isBroken := true, firstBreak := ['\n'] }, (c.skip part.length).nextLine 1) := by
  have hread : plainPart? false c.rest = some part := by
    rw [hc]
    exact GoesOn.plainPart?_eq (s := []) (by rwa [List.append_nil]) hpart (by simp) r
  have hskip := Cursor.rest_skip hc
  have hlen : c.rest.length = part.length + r.length + 1 := by simp [hc, Nat.add_assoc]
  have hgap : Gap.read 1 c.rest.length {} (c.skip part.length) =
      some ({ isBroken := true, firstBreak := ['\n'] }, (c.skip part.length).nextLine 1) := by
    rw [hlen, Gap.read_break hskip (by decide) (by decide)]
    exact Gap.read_stop _ (by rwa [Cursor.rest_nextLine hskip])
  rw [readPlain_succ (Cursor.isAtDocumentMark_of_pos hcol) (hhead.peek_ne hc) hread hhead.ne_nil hgap,
    if_pos ⟨rfl, by simp⟩]

/-- A part with a gap after it is passed over. -/
theorem readPlain_part {g : Char} {gs rest : List Char} (hgo : GoesOn (part ++ (g :: gs ++ rest)))
    (hhead : Begins part) (hpart : ∀ a ∈ part, a ≠ ' ') (hgs : ∀ a ∈ g :: gs, a = ' ') (hrest : Begins rest)
    (hc : c.rest = part ++ (g :: gs ++ rest) ++ '\n' :: r) (hcol : 0 < c.column) (text : List Char) (gap : Gap) :
    readPlain false 1 (fuel + 1) text gap c =
      readPlain false 1 fuel (text ++ gap.text ++ part) { blanks := g :: gs }
        ((c.skip part.length).skip (g :: gs).length) := by
  have hread : plainPart? false c.rest = some part := by
    rw [hc, List.append_assoc]
    exact GoesOn.plainPart?_eq hgo hpart (by rintro a ⟨⟩; exact hgs _ List.mem_cons_self) r
  have hskip : (c.skip part.length).rest = (g :: gs) ++ (rest ++ '\n' :: r) := Cursor.rest_skip (by rw [hc]; simp)
  have hends : EndsGap (rest ++ '\n' :: r) := by
    obtain ⟨a, w, rfl, hspace, -⟩ := hrest
    obtain ⟨hp, hb⟩ := hgo.clean a (by simp)
    rintro b ⟨⟩
    exact isBlankOrBreak_eq_false hp hspace hb
  have hgap : Gap.read 1 c.rest.length {} (c.skip part.length) = some ({ blanks := g :: gs }, _) :=
    Gap.read_blanks [] (fun a ha => by rw [hgs a ha]; rfl) hends hskip (by rw [hc]; simp; omega)
  have hpeek := hhead.peek_ne (s := (g :: gs ++ rest) ++ '\n' :: r) (by rw [hc, List.append_assoc])
  rw [readPlain_succ (Cursor.isAtDocumentMark_of_pos hcol) hpeek hread hhead.ne_nil hgap, if_neg (by simp),
    if_neg (by simp)]

/-- A plain text in a block is read to the end of its line, with the line break. -/
theorem readPlain_append (hgo : GoesOn cs) (hhead : Begins cs) (hr : EndsGap r)
    (hc : c.rest = cs ++ '\n' :: r) (hcol : 0 < c.column) (hfuel : cs.length ≤ fuel) (text : List Char) (gap : Gap) :
    ∃ c', readPlain false 1 fuel text gap c =
        some (text ++ gap.text ++ cs, { isBroken := true, firstBreak := ['\n'] }, c') ∧
      c'.rest = r ∧ c'.column = 0 := by
  obtain ⟨fuel, rfl⟩ := Nat.exists_eq_add_of_le' (Nat.le_trans (List.length_pos_iff.2 hhead.ne_nil) hfuel)
  induction cs using gap_induction (· == ' ') generalizing c fuel text gap with
  | hlast part hpart =>
    exact ⟨_, readPlain_last hgo hhead (by simpa using hpart) hr hc hcol text gap,
      Cursor.rest_nextLine (Cursor.rest_skip hc), rfl⟩
  | hmore part g gs rest hpart hgs hrest ih =>
    have hgs : ∀ a ∈ g :: gs, a = ' ' := by simpa using hgs
    obtain ⟨hgo', hhead'⟩ := hgo.afterGap hgs (by simpa using hrest)
    have hpartBegins : Begins part := by
      obtain ⟨a, w, hw, hspace, hsharp⟩ := hhead
      cases part with
      | nil => exact absurd (hgs a (by simp [(List.cons.inj hw).1])) hspace
      | cons b part => exact ⟨b, part, rfl, (List.cons.inj hw).1 ▸ ⟨hspace, hsharp⟩⟩
    have hnext : ((c.skip part.length).skip (g :: gs).length).rest = rest ++ '\n' :: r :=
      Cursor.rest_skip (Cursor.rest_skip (by rw [hc]; simp))
    have hpos := List.length_pos_iff.2 hpartBegins.ne_nil
    simp only [List.length_append, List.length_cons] at hfuel
    obtain ⟨fuel, rfl⟩ := Nat.exists_eq_add_of_le' (show 1 ≤ fuel by omega)
    obtain ⟨c', h, hc'⟩ := ih hgo' hhead' hnext (by simp only [Cursor.column_skip]; omega)
      (text ++ gap.text ++ part) { blanks := g :: gs } fuel (by omega)
    refine ⟨c', ?_, hc'⟩
    rw [readPlain_part hgo hpartBegins (by simpa using hpart) hgs hhead' hc hcol, h]
    simp [Gap.text]

end

end PlatformSnapshot.Yaml
