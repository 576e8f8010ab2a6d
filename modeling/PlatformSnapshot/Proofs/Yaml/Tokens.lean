import PlatformSnapshot.Proofs.Document
import PlatformSnapshot.Proofs.Yaml.Literal
import PlatformSnapshot.Proofs.Yaml.Quoted
import PlatformSnapshot.Yaml.Token
/-!
The tokens of a flat record. A line takes three steps of the lexer: its key, which is not known as a
key yet, the colon that makes it one, and the value. Between two lines the lexer is always in the same
state but for its place and the tokens so far.
-/
namespace PlatformSnapshot.Yaml

open Document (IsFlat IsLeaf IsName isNameChar of_isNameChar ne_of_isNameChar ne_of_all_not_isNameChar)

namespace Lexer

variable {l : Lexer} {c : Cursor} {r s key : List Char} {ts : List Token} {fuel : Nat}

/-- What the lexer does not pass over. -/
def Stands (s : List Char) : Prop := ∀ a ∈ s.head?, isBlankOrBreak a = false ∧ a ≠ '#' ∧ a ≠ '\ufeff'

theorem Stands.endsGap (h : Stands s) : EndsGap s := fun a ha => (h a ha).1

/-- One line is passed over up to a token, a comment apart. -/
theorem skipToToken_succ (hmark : ¬ (l.cursor.index = 0 ∧ l.cursor.peek = some '\ufeff'))
    (hblank : l.cursor.skipWhile (fun a => a == ' ' || ((l.inFlow || !l.keyAllowed) && a == '\t')) = c)
    (hcomment : c.peek ≠ some '#') (fuel : Nat) :
    skipToToken (fuel + 1) l = match c.lineBreak? with
      | none => { l with cursor := c }
      | some (_, c) => skipToToken fuel { l with cursor := c, keyAllowed := l.keyAllowed || !l.inFlow } := by
  cases hline : c.lineBreak? <;> simp only [skipToToken, if_neg hmark, hblank, if_neg hcomment, hline]

theorem Stands.lineBreak? (h : Stands c.rest) : c.lineBreak? = none :=
  Cursor.lineBreak?_of_not fun b hb => (Gap.isBlank_false (h b hb).1).2

theorem skipToToken_of_stands (h : Stands l.cursor.rest) : skipToToken (fuel + 1) l = l := by
  have hblank : l.cursor.skipWhile (fun a => a == ' ' || ((l.inFlow || !l.keyAllowed) && a == '\t')) = l.cursor := by
    refine Cursor.skipWhile_eq_self fun a ha => ?_
    have hnone := (Gap.isBlank_false (h a ha).1).1
    simp only [isBlank, Bool.or_eq_false_iff] at hnone
    simp [hnone]
  rw [skipToToken_succ (fun hm => (h _ hm.2).2.2 rfl) hblank fun hm => (h _ hm).2.1 rfl, h.lineBreak?]

/-- The state between the lines of a record: no bracket and no key is open, and the mapping is open from
its first key on. -/
def lineStart (isOpen : Bool) (c : Cursor) (ts : List Token) : Lexer where
  cursor := c
  tokens := ts.toArray
  indent := if isOpen then 0 else -1
  outer := if isOpen then [-1] else []

/-- The state behind the colon of a key, and behind a value that does not take its line break along. -/
def inLine (c : Cursor) (ts : List Token) : Lexer where
  cursor := c
  tokens := ts.toArray
  indent := 0
  outer := [-1]
  keyAllowed := false

theorem skipToToken_space (hs : Stands s) (hc : c.rest = ' ' :: s) :
    skipToToken (fuel + 1) (inLine c ts) = inLine (c.skip 1) ts := by
  have hrest : (c.skip 1).rest = s := Cursor.rest_skip (a := [' ']) hc
  have hstands : Stands (c.skip 1).rest := by rwa [hrest]
  have hblank : c.skipWhile (fun a => a == ' ' || ((false || !false) && a == '\t')) = c.skip 1 := by
    have hrun := Text.takeWhile_append (a := [' ']) (b := s)
      (p := fun a => a == ' ' || ((false || !false) && a == '\t'))
      (List.forall_mem_singleton.2 (by decide)) fun a ha => by simpa [isBlank] using (Gap.isBlank_false (hs a ha).1).1
    rw [Cursor.skipWhile, hc, ← List.singleton_append, hrun.1]
    rfl
  have hmark : ¬ (c.index = 0 ∧ c.peek = some '\ufeff') := by simp [Cursor.peek_eq hc]
  have hstep := skipToToken_succ (l := inLine c ts) hmark hblank (fun hm => (hstands _ hm).2.1 rfl) fuel
  rw [hstep, hstands.lineBreak?]
  rfl

theorem skipToToken_newline (hs : Stands s) (hc : c.rest = '\n' :: s) :
    skipToToken (fuel + 2) (inLine c ts) = lineStart true (c.nextLine 1) ts := by
  have hblank : c.skipWhile (fun a => a == ' ' || ((false || !false) && a == '\t')) = c := by
    refine Cursor.skipWhile_eq_self fun a ha => ?_
    rw [hc] at ha
    obtain rfl : '\n' = a := by simpa using ha
    decide
  have hmark : ¬ (c.index = 0 ∧ c.peek = some '\ufeff') := by simp [Cursor.peek_eq hc]
  have hstep := skipToToken_succ (l := inLine c ts) hmark hblank (by simp [Cursor.peek_eq hc]) (fuel + 1)
  rw [hstep, Cursor.lineBreak?_of_isPrintable hc (by decide) (by decide)]
  exact skipToToken_of_stands (by rwa [Cursor.rest_nextLine hc])

theorem closeBlocks_eq_self {column : Int} (h : l.indent ≤ column) : l.closeBlocks column = l := by
  rw [closeBlocks]
  split
  · rfl
  · obtain ⟨cursor, tokens, indent, outer, keys, keyAllowed⟩ := l
    cases outer with
    | nil => rfl
    | cons o os => simp [closeBlocksWithin, Int.not_lt.2 h]

theorem dropStaleKeys?_of_none (h : l.keys = [none]) : l.dropStaleKeys? = some l := by
  obtain ⟨cursor, tokens, indent, outer, keys, keyAllowed⟩ := l
  obtain rfl : keys = [none] := h
  rfl

/-- A step of the lexer: what it passes over, and the token behind. -/
theorem run?_step {l₁ l₂ : Lexer} {a : Char} (hskip : skipToToken l.cursor.rest.length.succ l = l₁)
    (hstale : l₁.dropStaleKeys? = some l₁) (hindent : l₁.indent ≤ l₁.cursor.column)
    (hpeek : l₁.cursor.peek = some a) (htoken : l₁.token? a = some l₂) (fuel : Nat) :
    run? (fuel + 1) l = run? fuel l₂ := by
  simp only [run?, hskip, hstale, Option.bind_eq_bind, Option.bind_some, closeBlocks_eq_self hindent, hpeek, htoken]

/-- Two states that pass over to the same one do the same from there. -/
theorem run?_congr {l₁ : Lexer}
    (h : skipToToken l.cursor.rest.length.succ l = skipToToken l₁.cursor.rest.length.succ l₁) (fuel : Nat) :
    run? fuel l = run? fuel l₁ := by
  cases fuel with
  | zero => rfl
  | succ fuel => rw [run?, run?, h]

theorem token?_eq_plain? {a : Char} (hflow : l.inFlow = false) (hmark : l.cursor.isAtDocumentMark = false)
    (ha : isBlankOrBreak a = false) (hlead : isLeadIndicator a (l.cursor.peekAt 1) = false) :
    l.token? a = l.plain? := by
  rw [isLeadIndicator, Bool.or_eq_false_iff, List.contains_eq_mem, decide_eq_false_iff_not] at hlead
  obtain ⟨hother, hword⟩ := hlead
  have hne : ∀ b ∈ ['%', '[', '\x7b', ']', '\x7d', ',', '*', '&', '!', '|', '>', '\'', '"'], a ≠ b := by
    have hall : ['%', '[', '\x7b', ']', '\x7d', ',', '*', '&', '!', '|', '>', '\'', '"'] ⊆
        "#,[]\x7b\x7d&*!|>'\"%@\x60".toList := by decide
    rintro b hb rfl
    exact hother (hall hb)
  simp only [List.forall_mem_cons, List.not_mem_nil, false_implies, implies_true, and_true] at hne
  have hends : a = '-' ∨ a = '?' ∨ a = ':' → Cursor.endsWord (l.cursor.peekAt 1) = false := by
    rintro (rfl | rfl | rfl) <;> simpa using hword
  have hbegins : l.beginsPlain a (l.cursor.peekAt 1) := by
    rw [beginsPlain]
    by_cases hthree : a = '-' ∨ a = '?' ∨ a = ':'
    · have hnext := hends hthree
      have hblank : (l.cursor.peekAt 1).any isBlank = false := by
        cases hpeek : l.cursor.peekAt 1 with
        | none => rfl
        | some b =>
          rw [hpeek] at hnext
          exact (Gap.isBlank_false hnext).1
      rcases hthree with rfl | rfl | rfl <;> simp [hflow, hblank, hnext]
    · have hall : "-?:,[]\x7b\x7d#&*!|>'\"%@\x60".toList ⊆
          ['-', '?', ':'] ++ "#,[]\x7b\x7d&*!|>'\"%@\x60".toList := by
        decide
      have hnot : "-?:,[]\x7b\x7d#&*!|>'\"%@\x60".toList.contains a = false := by
        rw [List.contains_eq_mem, decide_eq_false_iff_not]
        exact fun h => (List.mem_append.1 (hall h)).elim (fun h => hthree (by simpa using h)) hother
      rw [ha, hnot]
      rfl
  rw [Cursor.isAtDocumentMark, Bool.or_eq_false_iff] at hmark
  have hdash : ¬ (a = '-' ∧ Cursor.endsWord (l.cursor.peekAt 1)) := fun h => by simp [hends (.inl h.1)] at h
  have hquestion : ¬ (a = '?' ∧ Cursor.endsWord (l.cursor.peekAt 1)) :=
    fun h => by simp [hends (.inr (.inl h.1))] at h
  have hcolon : ¬ (a = ':' ∧ Cursor.endsWord (l.cursor.peekAt 1)) := fun h => by simp [hends (.inr (.inr h.1))] at h
  simp [token?, hmark, hne, hflow, hdash, hquestion, hcolon, hbegins]

theorem isLeadIndicator_of_isNameChar {a : Char} (ha : isNameChar a) (hdash : a ≠ '-') (next : Option Char) :
    isLeadIndicator a next = false := by
  have hnot : "#,[]\x7b\x7d&*!|>'\"%@\x60".toList.contains a = false := by
    rw [List.contains_eq_mem, decide_eq_false_iff_not]
    exact fun h => ne_of_all_not_isNameChar ha (by decide) a h rfl
  have hquestion : a ≠ '?' := ne_of_isNameChar ha (by decide)
  have hcolon : a ≠ ':' := ne_of_isNameChar ha (by decide)
  rw [isLeadIndicator, hnot]
  simp [hquestion, hcolon, hdash]

/-- A name in front of a colon is read as a plain scalar and ends there. -/
theorem readPlain_name (hkey : IsName key) (hc : c.rest = key ++ ':' :: ' ' :: s) (indent fuel : Nat) :
    readPlain false indent (fuel + 1) [] {} c = some (key, {}, c.skip key.length) := by
  obtain ⟨a, w, hw, ha, -, hdash⟩ := hkey.exists_cons
  have hne : key ≠ [] := by simp [hw]
  have hhead : c.rest = a :: (w ++ ':' :: ' ' :: s) := by rw [hc, hw]; rfl
  have hclean : ∀ b ∈ key, isBlankOrBreak b = false := fun b hb =>
    of_isNameChar (P := fun b => isBlankOrBreak b = false) (by decide) (hkey.chars b hb)
  have hcolon : ∀ b ∈ key, b ≠ ':' := fun b hb => ne_of_isNameChar (hkey.chars b hb) (by decide)
  have hvalue : key.IsChain fun x y => x = ':' → isBlankOrBreak y = false :=
    (List.isChain_isInfix key).imp_of_mem_imp fun x y hx _ _ h => absurd h (hcolon x hx)
  have hpart : plainPart? false c.rest = some key := by
    rw [hc]
    exact plainPart?_append hclean hvalue (fun h => hcolon _ (List.mem_of_getLast? h) rfl)
      (.inr ⟨' ' :: s, rfl, rfl⟩)
  have hgap : Gap.read indent c.rest.length {} (c.skip key.length) = some ({}, c.skip key.length) :=
    Gap.read_stop _ (by rw [Cursor.rest_skip hc]; rintro b ⟨⟩; decide)
  have hmark := Cursor.isAtDocumentMark_of_head hhead hdash (ne_of_isNameChar ha (by decide))
  have hsharp : c.peek ≠ some '#' := by
    rw [Cursor.peek_eq hhead]
    simpa using ne_of_isNameChar ha (show isNameChar '#' = false by decide)
  rw [readPlain_succ hmark hsharp hpart hne hgap]
  simp [Gap.text]

/-- A key that may begin at a place. -/
def keyPlace (isOpen : Bool) (c : Cursor) (ts : List Token) : KeyPlace :=
  ⟨isOpen, ts.length, c.index, c.line, 0⟩

/-- The state between a name and the colon behind it. -/
def named (isOpen : Bool) (c : Cursor) (ts : List Token) (key : List Char) : Lexer :=
  { lineStart isOpen (c.skip key.length) (ts ++ [.scalar key .plain]) with
    keys := [some (keyPlace isOpen c ts)], keyAllowed := false }

theorem stands_of_isNameChar (h : ∀ a ∈ r.head?, isNameChar a) : Stands r := by
  intro a ha
  have hname := h a ha
  exact ⟨of_isNameChar (P := fun a => isBlankOrBreak a = false) (by decide) hname, ne_of_isNameChar hname (by decide),
    ne_of_isNameChar hname (by decide)⟩

theorem indent_lineStart_le (isOpen : Bool) (c : Cursor) (ts : List Token) (column : Nat) :
    (lineStart isOpen c ts).indent ≤ column := by
  cases isOpen <;> simp [lineStart]

theorem run?_name (hkey : IsName key) (hc : c.rest = key ++ ':' :: ' ' :: s) (hcol : c.column = 0) (isOpen : Bool)
    (fuel : Nat) :
    run? (fuel + 1) (lineStart isOpen c ts) = run? fuel (named isOpen c ts key) := by
  obtain ⟨a, w, hw, ha, -, hdash⟩ := hkey.exists_cons
  have hhead : c.rest = a :: (w ++ ':' :: ' ' :: s) := by rw [hc, hw]; rfl
  have hstands : Stands c.rest := stands_of_isNameChar (by rw [hhead]; rintro b ⟨⟩; exact ha)
  have hmark : c.isAtDocumentMark = false :=
    Cursor.isAtDocumentMark_of_head hhead hdash (ne_of_isNameChar ha (by decide))
  have hblank : isBlankOrBreak a = false := (hstands a (by rw [hhead]; rfl)).1
  refine run?_step (skipToToken_of_stands hstands) (dropStaleKeys?_of_none rfl) (indent_lineStart_le isOpen c ts _)
    (Cursor.peek_eq hhead) ?_ fuel
  rw [token?_eq_plain? rfl hmark hblank (isLeadIndicator_of_isNameChar ha hdash _)]
  have hread := fun indent => readPlain_name hkey hc indent c.rest.length
  cases isOpen <;> simp [plain?, saveKey?, lineStart, named, dropKey?, inFlow, hread, keyPlace, hcol, push, allowKey]

/-- The tokens of a key; the first one opens the mapping. -/
def keyTokens (isOpen : Bool) (key : List Char) : List Token :=
  (if isOpen then [] else [.blockMappingStart]) ++ [.key, .scalar key .plain, .value]

theorem insertIdxIfInBounds_toArray (before after : List Token) (t : Token) :
    (before ++ after).toArray.insertIdxIfInBounds before.length t = (before ++ t :: after).toArray := by
  have hinsert : (before ++ after).insertIdx before.length t = before ++ t :: after := by
    induction before with
    | nil => rfl
    | cons b before ih => simp [ih]
  simp [Array.insertIdxIfInBounds, hinsert]

theorem token?_colon (hmark : l.cursor.isAtDocumentMark = false) (hnext : Cursor.endsWord (l.cursor.peekAt 1)) :
    l.token? ':' = l.value? := by
  rw [Cursor.isAtDocumentMark, Bool.or_eq_false_iff] at hmark
  simp [token?, hmark, hnext]

theorem value?_named (isOpen : Bool) (c : Cursor) (ts : List Token) (key : List Char) :
    (named isOpen c ts key).value? = some (inLine (c.skip (key.length + 1)) (ts ++ keyTokens isOpen key)) := by
  have hskip : (c.skip key.length).skip 1 = c.skip (key.length + 1) := by
    simp [Cursor.skip, Nat.add_assoc]
  have hkey : (ts ++ [Token.scalar key .plain]).toArray.insertIdxIfInBounds ts.length .key =
      (ts ++ [Token.key, Token.scalar key .plain]).toArray := insertIdxIfInBounds_toArray ts _ _
  have hmapping : (ts ++ [Token.key, .scalar key .plain]).toArray.insertIdxIfInBounds ts.length .blockMappingStart =
      (ts ++ [Token.blockMappingStart, Token.key, Token.scalar key .plain]).toArray :=
        insertIdxIfInBounds_toArray ts _ _
  cases isOpen
  case false =>
    simp [value?, named, lineStart, keyPlace, hkey, hmapping, openBlock, inFlow, push, skip, inLine, keyTokens, hskip]
  case true => simp [value?, named, lineStart, keyPlace, hkey, openBlock, inFlow, push, skip, inLine, keyTokens, hskip]

theorem run?_colon (hkey : key.length ≤ 1024) (hc : c.rest = key ++ ':' :: ' ' :: s) (isOpen : Bool) (fuel : Nat) :
    run? (fuel + 1) (named isOpen c ts key) =
      run? fuel (inLine (c.skip (key.length + 1)) (ts ++ keyTokens isOpen key)) := by
  have hrest : (c.skip key.length).rest = ':' :: ' ' :: s := Cursor.rest_skip hc
  have hstands : Stands (c.skip key.length).rest := by
    rw [hrest]
    rintro a ⟨⟩
    decide
  have hmark := Cursor.isAtDocumentMark_of_head hrest (by decide) (by decide)
  have hnext : Cursor.endsWord ((c.skip key.length).peekAt 1) := by rw [Cursor.peekAt, hrest]; rfl
  have hstale : (named isOpen c ts key).dropStaleKeys? = some (named isOpen c ts key) := by
    have hfresh : ¬ (c.line < c.line ∨ c.index + 1024 < c.index + key.length) := by omega
    have hkeys : freshKey? (c.skip key.length) (some (keyPlace isOpen c ts)) = some (some (keyPlace isOpen c ts)) :=
      if_neg hfresh
    simp [dropStaleKeys?, named, lineStart, hkeys]
  refine run?_step (skipToToken_of_stands hstands) hstale (indent_lineStart_le isOpen c ts _) (Cursor.peek_eq hrest) ?_
    fuel
  exact (token?_colon hmark hnext).trans (value?_named isOpen c ts key)

theorem run?_inLine {a : Char} {l₂ : Lexer} (hs : Stands s) (hc : c.rest = ' ' :: s) (ha : s.head? = some a)
    (htoken : (inLine (c.skip 1) ts).token? a = some l₂) (fuel : Nat) :
    run? (fuel + 1) (inLine c ts) = run? fuel l₂ := by
  have hrest : (c.skip 1).rest = s := Cursor.rest_skip (a := [' ']) hc
  have hpeek : (c.skip 1).peek = some a := (Cursor.peek_eq hrest).trans ha
  exact run?_step (skipToToken_space hs hc) (dropStaleKeys?_of_none rfl) (Int.natCast_nonneg _) hpeek htoken fuel

/-- A value that ends before its line break is as good as one that takes it along. -/
theorem run?_newline (hr : Stands r) (hc : c.rest = '\n' :: r) (fuel : Nat) :
    run? fuel (inLine c ts) = run? fuel (lineStart true (c.nextLine 1) ts) := by
  refine run?_congr ?_ fuel
  have hnext : Stands (lineStart true (c.nextLine 1) ts).cursor.rest := by
    rw [lineStart, Cursor.rest_nextLine hc]
    exact hr
  have hlength : (inLine c ts).cursor.rest.length.succ = r.length + 2 := by
    rw [inLine, hc]
    rfl
  rw [hlength, skipToToken_newline hr hc, skipToToken_of_stands hnext]

/-- What a step over a value leads to: the next line, and one more token. -/
def Passes (c : Cursor) (r : List Char) (t : Token) : Prop :=
  ∀ ts fuel, ∃ c', run? (fuel + 1) (inLine c ts) = run? fuel (lineStart true c' (ts ++ [t])) ∧
    c'.rest = r ∧ c'.column = 0

variable {cs : List Char}

theorem passes_plain (h : IsPlain cs) (hr : Stands r) (hc : c.rest = ' ' :: (cs ++ '\n' :: r)) :
    Passes c r (.scalar cs .plain) := by
  intro ts fuel
  obtain ⟨a, w, rfl, hspace, hlead⟩ := h.head
  obtain ⟨hprintable, hbreak⟩ := h.clean a List.mem_cons_self
  have ha : isBlankOrBreak a = false := isBlankOrBreak_eq_false hprintable hspace hbreak
  have hsharp : a ≠ '#' := by
    rintro rfl
    revert hlead
    cases w.head? <;> simp [isLeadIndicator]
  have hstands : Stands (a :: w ++ '\n' :: r) := by
    rintro b ⟨⟩
    refine ⟨ha, hsharp, ?_⟩
    rintro rfl
    revert hprintable
    decide
  have hrest : (c.skip 1).rest = a :: w ++ '\n' :: r := Cursor.rest_skip (a := [' ']) hc
  have hlead' : isLeadIndicator a ((c.skip 1).peekAt 1) = false := by
    rw [Cursor.peekAt, hrest]
    cases w with
    | nil => exact hlead
    | cons b w => exact hlead
  have hcol : 0 < (c.skip 1).column := by simp
  have hlength : (a :: w).length ≤ (c.skip 1).rest.length + 1 := by simp [hrest]; omega
  obtain ⟨c', hread, hc'⟩ := readPlain_append h.toGoesOn
    ⟨a, w, rfl, hspace, hsharp⟩ hr.endsGap hrest hcol hlength [] {}
  refine ⟨c', run?_inLine hstands hc rfl ?_ fuel, hc'⟩
  rw [token?_eq_plain? rfl (Cursor.isAtDocumentMark_of_pos hcol) ha hlead']
  have hread : readPlain false 1 ((c.skip 1).rest.length + 1) [] {} (c.skip 1) =
      some (a :: w, { isBroken := true, firstBreak := ['\n'] }, c') := by simpa [Gap.text] using hread
  simp [plain?, saveKey?, inLine, inFlow, hread, push, allowKey, lineStart]

theorem token?_quote {a : Char} (hcol : 0 < l.cursor.column) (ha : a = '\'' ∨ a = '"') :
    l.token? a = l.quoted? (if a = '\'' then .singleQuoted else .doubleQuoted) := by
  have hmark := Cursor.isAtDocumentMark_of_pos hcol
  rw [Cursor.isAtDocumentMark, Bool.or_eq_false_iff] at hmark
  rcases ha with rfl | rfl <;> simp [token?, hmark]

theorem quoted?_inLine {style : Style} {text : List Char} {c' : Cursor}
    (hread : readQuoted (style == .singleQuoted) ((c.skip 1).rest.length + 1) [] (c.skip 1) = some (text, c')) :
    (inLine c ts).quoted? style = some (inLine c' (ts ++ [.scalar text style])) := by
  simp [quoted?, atom?, saveKey?, inLine, hread, push, allowKey]

theorem passes_double (cs : List Char) (hr : Stands r) (hc : c.rest = ' ' :: (doubleQuoted cs ++ '\n' :: r)) :
    Passes c r (.scalar cs .doubleQuoted) := by
  intro ts fuel
  have hstands : Stands (doubleQuoted cs ++ '\n' :: r) := by
    rintro b ⟨⟩
    decide
  have hrest : (c.skip 1).rest = doubleQuoted cs ++ '\n' :: r := Cursor.rest_skip (a := [' ']) hc
  have hinner : ((c.skip 1).skip 1).rest = cs.flatMap escapeChar ++ '"' :: '\n' :: r :=
    Cursor.rest_skip (a := ['"']) (by rw [hrest, doubleQuoted]; simp)
  have hlength : cs.length < ((c.skip 1).skip 1).rest.length + 1 := by
    have hle := Text.mul_length_le_flatMap cs fun c _ => List.length_pos_iff.2 (escapeChar_ne_nil c)
    rw [hinner, List.length_append]
    omega
  obtain ⟨c', hread, hc'⟩ := readQuoted_double hinner (by simp) hlength []
  refine ⟨c'.nextLine 1, ?_, Cursor.rest_nextLine hc', rfl⟩
  rw [← run?_newline hr hc']
  refine run?_inLine hstands hc rfl ?_ fuel
  rw [token?_quote (by simp [inLine]) (.inr rfl)]
  exact quoted?_inLine hread

theorem passes_single (h : IsFoldable cs) (hr : Stands r) (hc : c.rest = ' ' :: (singleQuoted 2 cs ++ '\n' :: r)) :
    Passes c r (.scalar cs .singleQuoted) := by
  intro ts fuel
  have hstands : Stands (singleQuoted 2 cs ++ '\n' :: r) := by
    rintro b ⟨⟩
    decide
  have hrest : (c.skip 1).rest = singleQuoted 2 cs ++ '\n' :: r := Cursor.rest_skip (a := [' ']) hc
  have hinner : ((c.skip 1).skip 1).rest = singleQuotedFrom 2 false cs ++ '\n' :: r :=
    Cursor.rest_skip (a := ['\'']) (by rw [hrest, singleQuoted]; simp)
  have hlength : cs.length < ((c.skip 1).skip 1).rest.length + 1 := by
    have hle := length_le_singleQuotedFrom 2 false cs
    rw [hinner, List.length_append]
    omega
  obtain ⟨c', hread, hc'⟩ := readQuoted_single h (by simp) hinner (by simp) hlength []
  refine ⟨c'.nextLine 1, ?_, Cursor.rest_nextLine hc', rfl⟩
  rw [← run?_newline hr hc']
  refine run?_inLine hstands hc rfl ?_ fuel
  rw [token?_quote (by simp [inLine]) (.inl rfl)]
  exact quoted?_inLine hread

theorem token?_bar (hcol : 0 < l.cursor.column) (hflow : l.inFlow = false) : l.token? '|' = l.block? .literal := by
  have hmark := Cursor.isAtDocumentMark_of_pos hcol
  rw [Cursor.isAtDocumentMark, Bool.or_eq_false_iff] at hmark
  simp [token?, hmark, hflow]

theorem passes_literal (hprintable : ∀ a ∈ cs, isPrintable a) (hfeed : '\n' ∈ cs) (hr : Stands r)
    (hc : c.rest = ' ' :: (literal 2 cs ++ r)) : Passes c r (.scalar cs .literal) := by
  intro ts fuel
  have hstands : Stands (literal 2 cs ++ r) := by
    rintro b ⟨⟩
    decide
  have hrest : (c.skip 1).rest = literal 2 cs ++ r := Cursor.rest_skip (a := [' ']) hc
  have hinner : ((c.skip 1).skip 1).rest = blockHints cs ++ '\n' :: (literalLines 2 true cs ++ r) :=
    Cursor.rest_skip (a := ['|']) (by rw [hrest, literal]; simp)
  obtain ⟨c', hread, hc'⟩ := readBlock_literal hprintable hfeed hr.endsGap hinner
  refine ⟨c', run?_inLine hstands hc rfl ?_ fuel, hc'⟩
  rw [token?_bar (by simp [inLine]) rfl]
  simp [block?, dropKey?, inLine, hread, push, allowKey, lineStart]

end Lexer

end PlatformSnapshot.Yaml
