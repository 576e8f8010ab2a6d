import Mathlib.Algebra.Group.Nat.Defs
import PlatformSnapshot.Proofs.Yaml.Plain
/-!
A text between quotes is read back. Between double quotes every break is escaped, so its gaps are
spaces alone. Between single quotes a gap is made of spaces or of line breaks, and the line after a
break is indented, which reading passes over.
-/
namespace PlatformSnapshot.Yaml

open Text (gap_induction)

variable {cs part s r text : List Char} {c : Char} {cur : Cursor} {fuel : Nat}

/-- Some more text in front of a part. -/
def QuotedPart.after (before : List Char) (width : Nat) (p : QuotedPart) : QuotedPart :=
  { p with text := before ++ p.text, width := width + p.width }

theorem QuotedPart.cons_after (before : List Char) (c : Char) (m n : Nat) (p : QuotedPart) :
    (p.after before n).cons c m = p.after (c :: before) (m + n) := by
  simp only [QuotedPart.after, QuotedPart.cons, List.cons_append, QuotedPart.mk.injEq, and_true, true_and]
  omega

/-- A character between single quotes. -/
def singleChar (c : Char) : List Char := if c = '\'' then ['\'', '\''] else [c]

theorem singleQuotedFrom_append (n : Nat) (hpart : ∀ c ∈ part, isBreak c = false) (s : List Char) :
    singleQuotedFrom n false (part ++ s) = part.flatMap singleChar ++ singleQuotedFrom n false s := by
  induction part with
  | nil => rfl
  | cons c part ih =>
    obtain ⟨hc, hpart⟩ := List.forall_mem_cons.1 hpart
    simp [singleQuotedFrom, hc, ih hpart, singleChar]

theorem length_le_singleQuotedFrom (n : Nat) (afterBreak : Bool) (cs : List Char) :
    cs.length ≤ (singleQuotedFrom n afterBreak cs).length := by
  induction cs generalizing afterBreak with
  | nil => exact Nat.zero_le _
  | cons c cs ih =>
    have hle := ih false
    have hpos : 0 < (if c = '\'' then ['\'', '\''] else [c]).length := by split <;> exact Nat.succ_pos _
    rw [singleQuotedFrom]
    split
    · exact Nat.succ_le_succ (ih true)
    · rw [List.length_append, List.length_append, List.length_cons]
      omega

theorem isPrintable_singleQuotedFrom (hcs : ∀ c ∈ cs, isPrintable c) (n : Nat) (afterBreak : Bool) :
    ∀ a ∈ singleQuotedFrom n afterBreak cs, isPrintable a := by
  induction cs generalizing afterBreak with
  | nil =>
    exact List.forall_mem_append.2 ⟨isPrintable_indentation afterBreak n, List.forall_mem_singleton.2 (by decide)⟩
  | cons c cs ih =>
    obtain ⟨hc, hcs⟩ := List.forall_mem_cons.1 hcs
    rw [singleQuotedFrom]
    split
    · exact List.forall_mem_cons.2 ⟨hc, ih hcs true⟩
    · refine List.forall_mem_append.2 ⟨List.forall_mem_append.2 ⟨isPrintable_indentation afterBreak n, ?_⟩,
        ih hcs false⟩
      split
      · exact List.all_eq_true.1 (by decide)
      · simpa using hc

theorem singleQuotedFrom_breaks (n : Nat) {bs : List Char} (hbs : ∀ b ∈ bs, isBreak b)
    (hs : ∀ c ∈ s.head?, isBreak c = false) :
    singleQuotedFrom n true (bs ++ s) = bs ++ (List.replicate n ' ' ++ singleQuotedFrom n false s) := by
  induction bs with
  | nil =>
    cases s with
    | nil => simp [singleQuotedFrom, spaces]
    | cons c s => simp [singleQuotedFrom, spaces, hs c rfl]
  | cons b bs ih =>
    obtain ⟨hb, hbs⟩ := List.forall_mem_cons.1 hbs
    simp [singleQuotedFrom, hb, ih hbs]

theorem exists_singleQuotedFrom_cons (n : Nat) (c : Char) (s : List Char) :
    ∃ t, singleQuotedFrom n false (c :: s) = c :: t := by
  rw [singleQuotedFrom]
  split
  · exact ⟨_, rfl⟩
  · by_cases hquote : c = '\'' <;> simp [hquote]

theorem singlePart_singleChar (hc : isBlankOrBreak c = false) (s : List Char) :
    singlePart (singleChar c ++ s) = (singlePart s).cons c (singleChar c).length := by
  by_cases hquote : c = '\''
  · simp [hquote, singleChar, singlePart]
  · simp [hquote, hc, singleChar, singlePart]

theorem singlePart_append (hpart : ∀ c ∈ part, isBlankOrBreak c = false) (s : List Char) :
    singlePart (part.flatMap singleChar ++ s) = (singlePart s).after part (part.flatMap singleChar).length := by
  induction part with
  | nil => simp [QuotedPart.after]
  | cons c part ih =>
    obtain ⟨hc, hpart⟩ := List.forall_mem_cons.1 hpart
    rw [List.flatMap_cons, List.append_assoc, singlePart_singleChar hc, ih hpart, QuotedPart.cons_after,
      List.length_append]

theorem singlePart_quote (hr : r.head? ≠ some '\'') : singlePart ('\'' :: r) = { stop := .quote } := by
  rw [singlePart]
  · rfl
  · rintro s - rfl
    exact hr rfl

theorem singlePart_gap (hc : isBlankOrBreak c) (s : List Char) : singlePart (c :: s) = { stop := .gap } := by
  have hquote : c ≠ '\'' := by rintro rfl; revert hc; decide
  rw [singlePart]
  · simp [hquote, hc]
  · rintro s rfl
    exact absurd rfl hquote

theorem hexValue?_digit : ∀ d < 16,
    Json.hexValue? (if d < 10 then Char.ofNat (48 + d) else Char.ofNat (55 + d)) = some d := by
  decide

/-- Digits in base sixteen, read after others. -/
theorem foldlM_hexDigits (width n before : Nat) :
    (hexDigits width n).foldlM (fun n d => (Json.hexValue? d).map fun v => 16 * n + v) before =
      some (before * 16 ^ width + n % 16 ^ width) := by
  induction width generalizing before with
  | zero => simp [hexDigits, Nat.mod_one]
  | succ width ih =>
    have hcons : hexDigits (width + 1) n =
        (if n >>> (4 * width) % 16 < 10 then Char.ofNat (48 + n >>> (4 * width) % 16)
          else Char.ofNat (55 + n >>> (4 * width) % 16)) :: hexDigits width n := by
      simp [hexDigits, List.range_succ]
    have hdigit := hexValue?_digit _ (Nat.mod_lt (n >>> (4 * width)) (show 0 < 16 by decide))
    have hshift : n >>> (4 * width) = n / 16 ^ width := by
      rw [Nat.shiftRight_eq_div_pow, Nat.pow_mul]
    rw [hcons, List.foldlM_cons, hdigit, Option.map_some, Option.bind_eq_bind, Option.bind_some, ih, hshift,
      Nat.mod_pow_succ, Nat.pow_succ, Nat.add_mul, Nat.mul_assoc 16, ← Nat.mul_assoc before,
      Nat.mul_comm (n / 16 ^ width % 16)]
    congr 1
    omega

/-- The digits of a character name it, if there are enough of them. -/
theorem hexChar?_hexDigits {width : Nat} (h : c.toNat < 16 ^ width) : hexChar? (hexDigits width c.toNat) = some c := by
  have hvalid : c.toNat < 0xD800 ∨ 0xDFFF < c.toNat ∧ c.toNat < 0x110000 := c.valid
  rw [hexChar?, foldlM_hexDigits, Nat.zero_mul, Nat.zero_add, Nat.mod_eq_of_lt h, Option.bind_eq_bind, Option.bind_some,
    if_neg (by omega), Char.ofNat_toNat]

theorem hexDigits_eq_two (n : Nat) : ∃ a b, hexDigits 2 n = [a, b] := ⟨_, _, rfl⟩

theorem hexDigits_eq_four (n : Nat) : ∃ a b c d, hexDigits 4 n = [a, b, c, d] := ⟨_, _, _, _, rfl⟩

theorem hexDigits_eq_eight (n : Nat) : ∃ a b c d e f g h, hexDigits 8 n = [a, b, c, d, e, f, g, h] :=
  ⟨_, _, _, _, _, _, _, _, rfl⟩

/-- Whatever the width of the digits is, they are read with the letter in front of them. -/
theorem doublePart?_hex (c : Char) (s : List Char) :
    let digits := if c.toNat ≤ 0xFF then 'x' :: hexDigits 2 c.toNat
      else if c.toNat ≤ 0xFFFF then 'u' :: hexDigits 4 c.toNat else 'U' :: hexDigits 8 c.toNat
    doublePart? ('\\' :: digits ++ s) = (doublePart? s).map (·.cons c ('\\' :: digits).length) := by
  have hvalid : c.toNat < 0xD800 ∨ 0xDFFF < c.toNat ∧ c.toNat < 0x110000 := c.valid
  intro digits
  simp only [digits]
  split
  case isTrue hc =>
    have h : hexChar? (hexDigits 2 c.toNat) = some c := hexChar?_hexDigits (by omega)
    obtain ⟨a, b, hdigits⟩ := hexDigits_eq_two c.toNat
    rw [hdigits] at h ⊢
    simp [doublePart?, h, -Option.pure_def]
  case isFalse =>
    split
    case isTrue hc =>
      have h : hexChar? (hexDigits 4 c.toNat) = some c := hexChar?_hexDigits (by omega)
      obtain ⟨d, e, f, g, hdigits⟩ := hexDigits_eq_four c.toNat
      rw [hdigits] at h ⊢
      simp [doublePart?, h, -Option.pure_def]
    case isFalse =>
      have h : hexChar? (hexDigits 8 c.toNat) = some c := hexChar?_hexDigits (by omega)
      obtain ⟨d, e, f, g, h', i, j, k, hdigits⟩ := hexDigits_eq_eight c.toNat
      rw [hdigits] at h ⊢
      simp [doublePart?, h, -Option.pure_def]

/-- The characters with an escape of two characters. -/
def shortlyEscaped : List Char :=
  ['"', '\\', '\x00', '\x07', '\x08', '\t', '\n', '\x0b', '\x0c', '\r', '\x1b', '\x85', '\u2028', '\u2029']

theorem escapeChar_short (h : c ∈ shortlyEscaped) :
    ∃ d, escapeChar c = ['\\', d] ∧ d ≠ 'x' ∧ d ≠ 'u' ∧ d ≠ 'U' ∧ isBreak d = false ∧
      simpleEscape? d = some c := by
  simp only [shortlyEscaped, List.mem_cons, List.not_mem_nil, or_false] at h
  rcases h with rfl | rfl | rfl | rfl | rfl | rfl | rfl | rfl | rfl | rfl | rfl | rfl | rfl | rfl <;>
    exact ⟨_, rfl, by decide⟩

theorem escapeChar_other (h : c ∉ shortlyEscaped) : escapeChar c =
    if isPrintable c ∧ isBreak c = false then [c]
    else '\\' :: if c.toNat ≤ 0xFF then 'x' :: hexDigits 2 c.toNat
      else if c.toNat ≤ 0xFFFF then 'u' :: hexDigits 4 c.toNat else 'U' :: hexDigits 8 c.toNat := by
  simp only [shortlyEscaped, List.mem_cons, List.not_mem_nil, or_false, not_or] at h
  simp [escapeChar, h]

theorem escapeChar_ne_nil (c : Char) : escapeChar c ≠ [] := by
  by_cases hshort : c ∈ shortlyEscaped
  · obtain ⟨d, hd, -⟩ := escapeChar_short hshort
    simp [hd]
  · rw [escapeChar_other hshort]
    split <;> exact List.cons_ne_nil _ _

theorem isPrintable_hexDigits (width n : Nat) : ∀ a ∈ hexDigits width n, isPrintable a := by
  have hdigit : ∀ d < 16, isPrintable (if d < 10 then Char.ofNat (48 + d) else Char.ofNat (55 + d)) := by decide
  intro a ha
  obtain ⟨i, -, rfl⟩ := List.mem_map.1 ha
  exact hdigit _ (Nat.mod_lt _ (by decide))

theorem isPrintable_escapeChar (c : Char) : ∀ a ∈ escapeChar c, isPrintable a := by
  have hshort : shortlyEscaped.all fun c => (escapeChar c).all isPrintable := by decide
  have hhex : ∀ lead width n, isPrintable lead → ∀ a ∈ '\\' :: lead :: hexDigits width n, isPrintable a := by
    intro lead width n hlead
    exact List.forall_mem_cons.2 ⟨by decide, List.forall_mem_cons.2 ⟨hlead, isPrintable_hexDigits width n⟩⟩
  by_cases h : c ∈ shortlyEscaped
  · exact List.all_eq_true.1 (List.all_eq_true.1 hshort c h)
  · rw [escapeChar_other h]
    split
    case isTrue hc => simpa using hc.1
    case isFalse =>
      split
      · exact hhex _ _ _ (by decide)
      · split <;> exact hhex _ _ _ (by decide)

/-- Reading between double quotes passes one escaped character. -/
theorem doublePart?_escapeChar (hspace : c ≠ ' ') (s : List Char) :
    doublePart? (escapeChar c ++ s) = (doublePart? s).map (·.cons c (escapeChar c).length) := by
  by_cases hshort : c ∈ shortlyEscaped
  · obtain ⟨d, hd, hx, hu, hU, hbreak, hvalue⟩ := escapeChar_short hshort
    rw [hd]
    simp [doublePart?, hx, hu, hU, hbreak, hvalue, -Option.pure_def]
  · rw [escapeChar_other hshort]
    split
    case isTrue hc =>
      have hclean := isBlankOrBreak_eq_false hc.1 hspace hc.2
      obtain ⟨hquote, hslash⟩ : c ≠ '"' ∧ c ≠ '\\' := by
        constructor <;> (rintro rfl; exact hshort (by decide))
      simp [doublePart?, hquote, hslash, hclean]
    case isFalse => exact doublePart?_hex c s

theorem doublePart?_append (hpart : ∀ c ∈ part, c ≠ ' ') (s : List Char) :
    doublePart? (part.flatMap escapeChar ++ s) =
      (doublePart? s).map (·.after part (part.flatMap escapeChar).length) := by
  induction part with
  | nil => simp [QuotedPart.after]
  | cons c part ih =>
    obtain ⟨hc, hpart⟩ := List.forall_mem_cons.1 hpart
    rw [List.flatMap_cons, List.append_assoc, doublePart?_escapeChar hc, ih hpart, Option.map_map, List.length_append]
    congr 1
    funext p
    exact QuotedPart.cons_after ..

/-- The first part of what is left of a scalar. -/
def firstPart? (single : Bool) (cs : List Char) : Option QuotedPart :=
  if single then some (singlePart cs) else doublePart? cs

theorem readQuoted_quote {single : Bool} {p : QuotedPart} (hcol : 0 < cur.column) (hne : cur.rest ≠ [])
    (hpart : firstPart? single cur.rest = some p) (hstop : p.stop = .quote) (text : List Char) :
    readQuoted single (fuel + 1) text cur = some (text ++ p.text, (cur.skip p.width).skip 1) := by
  have hmark : ¬ (cur.isAtDocumentMark ∨ cur.rest = []) := by simp [Cursor.isAtDocumentMark_of_pos hcol, hne]
  cases single with
  | true =>
    obtain rfl : singlePart cur.rest = p := by simpa [firstPart?] using hpart
    simp only [readQuoted, if_neg hmark, if_true, Option.bind_eq_bind, Option.bind_some, hstop, pure]
  | false =>
    have hpart : doublePart? cur.rest = some p := hpart
    simp only [readQuoted, if_neg hmark, Bool.false_eq_true, if_false, hpart, Option.bind_eq_bind, Option.bind_some,
      hstop, pure]

theorem readQuoted_gap {single : Bool} {p : QuotedPart} {g : Gap} {cur' : Cursor} (hcol : 0 < cur.column)
    (hne : cur.rest ≠ []) (hpart : firstPart? single cur.rest = some p) (hstop : p.stop = .gap)
    (hgap : Gap.read 0 (cur.skip p.width).rest.length {} (cur.skip p.width) = some (g, cur')) (text : List Char) :
    readQuoted single (fuel + 1) text cur = readQuoted single fuel (text ++ p.text ++ g.text) cur' := by
  have hmark : ¬ (cur.isAtDocumentMark ∨ cur.rest = []) := by simp [Cursor.isAtDocumentMark_of_pos hcol, hne]
  cases single with
  | true =>
    obtain rfl : singlePart cur.rest = p := by simpa [firstPart?] using hpart
    simp only [readQuoted, if_neg hmark, if_true, Option.bind_eq_bind, Option.bind_some, hstop, hgap]
  | false =>
    have hpart : doublePart? cur.rest = some p := hpart
    simp only [readQuoted, if_neg hmark, Bool.false_eq_true, if_false, hpart, Option.bind_eq_bind, Option.bind_some,
      hstop, hgap]

theorem endsGap_escapeChar (hspace : c ≠ ' ') (s : List Char) : EndsGap (escapeChar c ++ s) := by
  by_cases hshort : c ∈ shortlyEscaped
  · obtain ⟨d, hd, -⟩ := escapeChar_short hshort
    rw [hd]
    rintro a ⟨⟩
    decide
  · rw [escapeChar_other hshort]
    split
    case isTrue hc =>
      rintro a ⟨⟩
      exact isBlankOrBreak_eq_false hc.1 hspace hc.2
    case isFalse =>
      rintro a ⟨⟩
      decide

/-- A text is read back from between double quotes. -/
theorem readQuoted_double (hcur : cur.rest = cs.flatMap escapeChar ++ '"' :: r) (hcol : 0 < cur.column)
    (hfuel : cs.length < fuel) (text : List Char) :
    ∃ cur', readQuoted false fuel text cur = some (text ++ cs, cur') ∧ cur'.rest = r := by
  obtain ⟨fuel, rfl⟩ := Nat.exists_eq_add_of_le' (Nat.zero_lt_of_lt hfuel)
  induction cs using gap_induction (· == ' ') generalizing cur fuel text with
  | hlast part hpart =>
    have hread : firstPart? false cur.rest =
        some { text := part, width := (part.flatMap escapeChar).length, stop := .quote } := by
      rw [firstPart?, if_neg (by decide), hcur, doublePart?_append (by simpa using hpart)]
      simp [doublePart?, QuotedPart.after]
    have hne : cur.rest ≠ [] := by simp [hcur]
    exact ⟨_, readQuoted_quote hcol hne hread rfl text, Cursor.rest_skip (a := ['"']) (Cursor.rest_skip hcur)⟩
  | hmore part g gs rest hpart hgs hrest ih =>
    have hgs : ∀ a ∈ g :: gs, a = ' ' := by simpa using hgs
    have hgap : (g :: gs).flatMap escapeChar = g :: gs :=
      (List.flatMap_congr fun a ha => by rw [hgs a ha]; rfl).trans (List.flatMap_singleton' (g :: gs))
    rw [List.flatMap_append, List.flatMap_append, hgap, List.append_assoc, List.append_assoc] at hcur
    have hread : firstPart? false cur.rest =
        some { text := part, width := (part.flatMap escapeChar).length, stop := .gap } := by
      obtain rfl := hgs g List.mem_cons_self
      have hblank : isBlankOrBreak ' ' := by decide
      rw [firstPart?, if_neg (by decide), hcur, doublePart?_append (by simpa using hpart)]
      simp [doublePart?, QuotedPart.after, hblank]
    have hskip := Cursor.rest_skip hcur
    have hends : EndsGap (rest.flatMap escapeChar ++ '"' :: r) := by
      cases rest with
      | nil =>
        rintro a ⟨⟩
        decide
      | cons a rest =>
        rw [List.flatMap_cons, List.append_assoc]
        exact endsGap_escapeChar (by simpa using hrest) _
    have hgap : Gap.read 0 (cur.skip (part.flatMap escapeChar).length).rest.length {}
        (cur.skip (part.flatMap escapeChar).length) = some ({ blanks := g :: gs }, _) :=
      Gap.read_blanks [] (fun a ha => by rw [hgs a ha]; rfl) hends hskip (by rw [hskip]; simp)
    rw [List.length_append, List.length_append, List.length_cons] at hfuel
    obtain ⟨fuel, rfl⟩ := Nat.exists_eq_add_of_le' (show 1 ≤ fuel by omega)
    obtain ⟨cur', h, hcur'⟩ := ih (Cursor.rest_skip hskip) (by simp only [Cursor.column_skip]; omega)
      (text ++ part ++ (g :: gs)) fuel (by omega)
    have hne : cur.rest ≠ [] := by simp [hcur]
    refine ⟨cur', ?_, hcur'⟩
    rw [readQuoted_gap hcol hne hread rfl hgap]
    simpa [Gap.text] using h

theorem IsFoldable.infix {a b : List Char} (h : IsFoldable (a ++ (cs ++ b))) : IsFoldable cs where
  printable c hc := h.printable c (by simp [hc])
  spaceBreak := h.spaceBreak.right_of_append.left_of_append
  breakSpace := h.breakSpace.right_of_append.left_of_append
  noFeed hfeed := h.noFeed (by simp [hfeed])

/-- A gap of a text that can be folded is made of spaces or of line breaks. -/
theorem IsFoldable.spaces_or_breaks (h : IsFoldable cs) (hgap : ∀ a ∈ cs, isBlankOrBreak a) :
    (∀ a ∈ cs, a = ' ') ∨ ∀ a ∈ cs, isBreak a := by
  induction cs with
  | nil => exact .inl (by simp)
  | cons a cs ih =>
    have htail : IsFoldable cs := IsFoldable.infix (a := [a]) (b := []) (by simpa using h)
    obtain ⟨ha, hgap⟩ := List.forall_mem_cons.1 hgap
    have hone : a = ' ' ∨ isBreak a := by
      by_contra hnot
      rw [not_or, Bool.not_eq_true] at hnot
      rw [isBlankOrBreak_eq_false (h.printable a List.mem_cons_self) hnot.1 hnot.2] at ha
      cases ha
    cases cs with
    | nil => simpa using hone
    | cons b cs =>
      have hspaceBreak := (List.isChain_cons_cons.1 h.spaceBreak).1
      have hbreakSpace := (List.isChain_cons_cons.1 h.breakSpace).1
      rcases ih htail hgap with hspaces | hbreaks
      · refine .inl (List.forall_mem_cons.2 ⟨hone.resolve_right ?_, hspaces⟩)
        simp [hbreakSpace (hspaces b List.mem_cons_self)]
      · refine .inr (List.forall_mem_cons.2 ⟨hone.resolve_left fun hspace => ?_, hbreaks⟩)
        exact absurd (hbreaks b List.mem_cons_self) (by simp [hspaceBreak hspace])

/-- A gap between single quotes is passed over with the indentation that was written after it. -/
theorem read_gap_single {g : Char} {gs rest : List Char} (h : IsFoldable (g :: gs))
    (hgs : ∀ a ∈ g :: gs, isBlankOrBreak a) (hrest : EndsGap rest)
    (hcur : cur.rest = singleQuotedFrom 2 false (g :: gs ++ rest) ++ r) (hcol : 0 < cur.column) :
    ∃ gap cur', Gap.read 0 cur.rest.length {} cur = some (gap, cur') ∧ gap.text = g :: gs ∧
      cur'.rest = singleQuotedFrom 2 false rest ++ r ∧ 0 < cur'.column := by
  have hends : EndsGap (singleQuotedFrom 2 false rest ++ r) := by
    cases rest with
    | nil =>
      rintro a ⟨⟩
      decide
    | cons a rest =>
      have ha : isBlankOrBreak a = false := hrest a rfl
      have hfrom : singleQuotedFrom 2 false (a :: rest) = singleChar a ++ singleQuotedFrom 2 false rest := by
        have hbreak : ∀ b ∈ [a], isBreak b = false := by simp [(Gap.isBlank_false ha).2]
        simpa using singleQuotedFrom_append 2 hbreak rest
      rw [hfrom, singleChar]
      split
      · rintro b ⟨⟩
        decide
      · rintro b ⟨⟩
        exact ha
  rcases h.spaces_or_breaks hgs with hspaces | hbreaks
  · have hself : (g :: gs).flatMap singleChar = g :: gs :=
      (List.flatMap_congr fun a ha => by rw [hspaces a ha]; rfl).trans (List.flatMap_singleton' (g :: gs))
    rw [singleQuotedFrom_append 2 (fun a ha => by rw [hspaces a ha]; rfl), hself, List.append_assoc] at hcur
    have hgap : Gap.read 0 cur.rest.length {} cur = some ({ blanks := g :: gs }, _) :=
      Gap.read_blanks [] (fun a ha => by rw [hspaces a ha]; rfl) hends hcur (by rw [hcur]; simp)
    exact ⟨_, _, hgap, rfl, Cursor.rest_skip hcur, by simp only [Cursor.column_skip]; omega⟩
  · obtain ⟨hg, hgs⟩ := List.forall_mem_cons.1 hbreaks
    have hfrom : singleQuotedFrom 2 false (g :: gs ++ rest) =
        g :: (gs ++ (List.replicate 2 ' ' ++ singleQuotedFrom 2 false rest)) := by
      rw [List.cons_append, singleQuotedFrom, if_pos hg, singleQuotedFrom_breaks 2 hgs]
      exact fun a ha => (Gap.isBlank_false (hrest a ha)).2
    rw [hfrom, List.cons_append, List.append_assoc, List.append_assoc] at hcur
    have hlen : cur.rest.length = gs.length + 2 + (singleQuotedFrom 2 false rest ++ r).length + 1 := by
      rw [hcur]
      simp only [List.length_cons, List.length_append, List.length_replicate]
      omega
    have hfuel : gs.length + 2 ≤ gs.length + 2 + (singleQuotedFrom 2 false rest ++ r).length := by omega
    have hprintable : ∀ b ∈ gs, isBreak b ∧ isPrintable b :=
      fun b hb => ⟨hgs b hb, h.printable b (.tail g hb)⟩
    obtain ⟨cur', hread, hcur', hcol'⟩ :=
      Gap.read_breaks [g] [] hprintable 2 hends (Cursor.rest_nextLine hcur) rfl hfuel
    refine ⟨{ isBroken := true, firstBreak := [g], moreBreaks := gs }, cur', ?_, ?_, hcur', by omega⟩
    · rw [hlen, Gap.read_break hcur hg (h.printable g List.mem_cons_self)]
      exact hread
    · have hfeed : g ≠ '\n' := fun hfeed => h.noFeed (hfeed ▸ List.mem_cons_self)
      simp [Gap.text, hfeed]

/-- A text whose gaps folding leaves alone is read back from between single quotes. -/
theorem readQuoted_single (h : IsFoldable cs) (hr : r.head? ≠ some '\'')
    (hcur : cur.rest = singleQuotedFrom 2 false cs ++ r) (hcol : 0 < cur.column) (hfuel : cs.length < fuel)
    (text : List Char) :
    ∃ cur', readQuoted true fuel text cur = some (text ++ cs, cur') ∧ cur'.rest = r := by
  obtain ⟨fuel, rfl⟩ := Nat.exists_eq_add_of_le' (Nat.zero_lt_of_lt hfuel)
  induction cs using gap_induction isBlankOrBreak generalizing cur fuel text with
  | hlast part hpart =>
    have hbreak : ∀ a ∈ part, isBreak a = false := fun a ha => (Gap.isBlank_false (hpart a ha)).2
    have hclose := singleQuotedFrom_append 2 hbreak []
    rw [List.append_nil] at hclose
    rw [hclose, List.append_assoc] at hcur
    have hcur : cur.rest = part.flatMap singleChar ++ '\'' :: r := hcur
    have hread : firstPart? true cur.rest =
        some { text := part, width := (part.flatMap singleChar).length, stop := .quote } := by
      rw [firstPart?, if_pos rfl, hcur, singlePart_append hpart, singlePart_quote hr]
      simp [QuotedPart.after]
    have hne : cur.rest ≠ [] := by simp [hcur]
    exact ⟨_, readQuoted_quote hcol hne hread rfl text, Cursor.rest_skip (a := ['\'']) (Cursor.rest_skip hcur)⟩
  | hmore part g gs rest hpart hgs hrest ih =>
    have hbreak : ∀ a ∈ part, isBreak a = false := fun a ha => (Gap.isBlank_false (hpart a ha)).2
    rw [singleQuotedFrom_append 2 hbreak, List.append_assoc] at hcur
    obtain ⟨s, hs⟩ := exists_singleQuotedFrom_cons 2 g (gs ++ rest)
    have hread : firstPart? true cur.rest =
        some { text := part, width := (part.flatMap singleChar).length, stop := .gap } := by
      rw [firstPart?, if_pos rfl, hcur, singlePart_append hpart, List.cons_append, hs, List.cons_append,
        singlePart_gap (hgs g List.mem_cons_self)]
      simp [QuotedPart.after]
    obtain ⟨gap, mid, hgap, htext, hmid, hcolmid⟩ :=
      read_gap_single h.infix hgs hrest (Cursor.rest_skip hcur) (by simp only [Cursor.column_skip]; omega)
    rw [List.length_append, List.length_append, List.length_cons] at hfuel
    obtain ⟨fuel, rfl⟩ := Nat.exists_eq_add_of_le' (show 1 ≤ fuel by omega)
    have hfold : IsFoldable rest := IsFoldable.infix (a := part ++ (g :: gs)) (b := []) (by simpa using h)
    obtain ⟨cur', hquoted, hcur'⟩ := ih hfold hmid hcolmid (text ++ part ++ (g :: gs)) fuel (by omega)
    have hne : cur.rest ≠ [] := by simp [hcur, hs]
    refine ⟨cur', ?_, hcur'⟩
    rw [readQuoted_gap hcol hne hread rfl hgap, htext, hquoted]
    simp

end PlatformSnapshot.Yaml
