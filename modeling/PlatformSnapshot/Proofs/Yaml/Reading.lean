import PlatformSnapshot.Proofs.Yaml.Tokens
import PlatformSnapshot.Yaml.Node
/-!
A flat record that is written as YAML is read as one mapping with its entries in order: every key is a
plain scalar, and every value is a scalar in the style that its text calls for.
-/
namespace PlatformSnapshot.Yaml

open Document (IsFlat IsLeaf IsName)

variable {d : Document} {e : String × Document} {es : List (String × Document)} {r : List Char} {c : Cursor}

/-- The scalar that a value is written as. -/
def scalarOf : Document → Scalar
  | .flag b => ⟨(if b then "true" else "false").toList, .plain, none⟩
  | .text s => ⟨s.toList, styleOf s.toList, none⟩
  | _ => ⟨"null".toList, .plain, none⟩

def scalarToken (s : Scalar) : Token := .scalar s.text s.style

/-- A scalar at the second level, to the end of its last line. -/
def scalarLines (s : Scalar) : List Char :=
  match s.style with
  | .plain | .folded => s.text ++ ['\n']
  | .singleQuoted => singleQuoted 2 s.text ++ ['\n']
  | .doubleQuoted => doubleQuoted s.text ++ ['\n']
  | .literal => literal 2 s.text

theorem block_eq_scalarLines (hd : IsLeaf d) : block 2 d = scalarLines (scalarOf d) := by
  cases hd with
  | null => rw [block]; rfl
  | flag b => rw [block]; cases b <;> rfl
  | text s => rw [block]; rfl

theorem suits_scalarOf (hd : IsLeaf d) : Suits (scalarOf d).text (scalarOf d).style := by
  cases hd with
  | null => exact .plain (isPlain_of_allowsPlain (by decide) (by decide))
  | flag b => cases b <;> exact .plain (isPlain_of_allowsPlain (by decide) (by decide))
  | text s => exact suits_styleOf s.toList

def line (e : String × Document) : List Char := e.1.toList ++ ':' :: ' ' :: scalarLines (scalarOf e.2)

theorem entries_eq_flatMap (hes : IsFlat es) :
    entries 0 (es.map fun e => (Document.Key.name e.1, e.2)) = es.flatMap line := by
  have hafter : ∀ {d}, IsLeaf d → afterKey 0 d = ' ' :: scalarLines (scalarOf d) := by
    intro d hd
    rw [← block_eq_scalarLines hd]
    cases hd <;> simp [afterKey]
  induction es with
  | nil => simp [entries]
  | cons e es ih =>
    have hline : keyText (.name e.1) ++ ':' :: afterKey 0 e.2 = line e := by
      rw [hafter (hes.leaves e List.mem_cons_self)]
      rfl
    have hrest := ih hes.tail
    cases es with
    | nil => simpa [entries] using hline
    | cons f fs =>
      rw [List.map_cons] at hrest ⊢
      rw [List.map_cons, entries, List.flatMap_cons, hline, ← hrest]
      · simp [spaces]
      · simp

theorem isPrintable_scalarLines {s : Scalar} (hs : Suits s.text s.style) : ∀ a ∈ scalarLines s, isPrintable a := by
  have hfeed : ∀ cs : List Char, (∀ c ∈ cs, isPrintable c) → ∀ a ∈ cs ++ ['\n'], isPrintable a :=
    fun cs hcs => List.forall_mem_append.2 ⟨hcs, List.forall_mem_singleton.2 (by decide)⟩
  obtain ⟨cs, style, tag⟩ := s
  cases hs with
  | plain h => exact hfeed _ fun c hc => (h.clean c hc).1
  | singleQuoted h =>
    exact hfeed _ (List.forall_mem_cons.2 ⟨by decide, isPrintable_singleQuotedFrom h.printable 2 false⟩)
  | doubleQuoted =>
    have hescaped : ∀ a ∈ cs.flatMap escapeChar, isPrintable a := by
      intro a ha
      obtain ⟨c, -, hc⟩ := List.mem_flatMap.1 ha
      exact isPrintable_escapeChar c a hc
    have hclose : ∀ a ∈ ['"'], isPrintable a := List.forall_mem_singleton.2 (by decide)
    exact hfeed _ (List.forall_mem_cons.2 ⟨by decide, List.forall_mem_append.2 ⟨hescaped, hclose⟩⟩)
  | literal hprintable =>
    refine List.forall_mem_cons.2 ⟨by decide, List.forall_mem_append.2 ⟨isPrintable_blockHints cs, ?_⟩⟩
    exact List.forall_mem_cons.2 ⟨by decide, isPrintable_literalLines hprintable 2 true⟩

theorem isAllowed_line (hname : IsName e.1.toList) (hleaf : IsLeaf e.2) : ∀ a ∈ line e, isAllowed a := by
  refine List.forall_mem_append.2 ⟨fun a ha => ?_, ?_⟩
  · exact Document.of_isNameChar (P := fun a => isAllowed a) (by decide) (hname.chars a ha)
  · refine List.forall_mem_cons.2 ⟨by decide, List.forall_mem_cons.2 ⟨by decide, fun a ha => ?_⟩⟩
    exact isAllowed_of_isPrintable (isPrintable_scalarLines (suits_scalarOf hleaf) a ha)

namespace Lexer

theorem passes_scalarLines {s : Scalar} (hs : Suits s.text s.style) (hr : Stands r)
    (hc : c.rest = ' ' :: (scalarLines s ++ r)) : Passes c r (scalarToken s) := by
  obtain ⟨cs, style, tag⟩ := s
  cases hs with
  | plain h => exact passes_plain h hr (by simpa [scalarLines] using hc)
  | singleQuoted h => exact passes_single h hr (by simpa [scalarLines] using hc)
  | doubleQuoted => exact passes_double cs hr (by simpa [scalarLines] using hc)
  | literal hprintable hfeed => exact passes_literal hprintable hfeed hr hc

/-- The tokens of a line. -/
def lineTokens (isOpen : Bool) (e : String × Document) : List Token :=
  keyTokens isOpen e.1.toList ++ [scalarToken (scalarOf e.2)]

/-- Three steps take a line apart. -/
theorem run?_line (hname : IsName e.1.toList) (hleaf : IsLeaf e.2) (hr : Stands r) (hc : c.rest = line e ++ r)
    (hcol : c.column = 0) (isOpen : Bool) (ts : List Token) (fuel : Nat) :
    ∃ c', run? (fuel + 3) (lineStart isOpen c ts) = run? fuel (lineStart true c' (ts ++ lineTokens isOpen e)) ∧
      c'.rest = r ∧ c'.column = 0 := by
  have hc : c.rest = e.1.toList ++ ':' :: ' ' :: (scalarLines (scalarOf e.2) ++ r) := by simpa [line] using hc
  have hcolon : c.rest = (e.1.toList ++ [':']) ++ ' ' :: (scalarLines (scalarOf e.2) ++ r) := by simpa using hc
  have hvalue : (c.skip (e.1.toList.length + 1)).rest = ' ' :: (scalarLines (scalarOf e.2) ++ r) := by
    simpa using Cursor.rest_skip hcolon
  obtain ⟨c', hpass, hc'⟩ := passes_scalarLines (suits_scalarOf hleaf) hr hvalue
    (ts ++ keyTokens isOpen e.1.toList) fuel
  refine ⟨c', ?_, hc'⟩
  rw [run?_name hname hc hcol isOpen, run?_colon hname.length_le hc isOpen, hpass, lineTokens, List.append_assoc]

theorem run?_end (hc : c.rest = []) (ts : List Token) (fuel : Nat) :
    (run? (fuel + 1) (lineStart true c ts)).map (·.tokens.toList) = some (ts ++ [.blockEnd]) := by
  have hstands : Stands (lineStart true c ts).cursor.rest := by
    rw [lineStart, hc]
    rintro a ⟨⟩
  have hstale : (lineStart true c ts).dropStaleKeys? = some (lineStart true c ts) := dropStaleKeys?_of_none rfl
  have hindent := closeBlocks_eq_self (indent_lineStart_le true c ts (lineStart true c ts).cursor.column)
  have hpeek : (lineStart true c ts).cursor.peek = none := Cursor.peek_eq hc
  simp only [run?, skipToToken_of_stands hstands, hstale, Option.bind_eq_bind, Option.bind_some, hindent, hpeek]
  simp [lineStart, closeBlocks, inFlow, closeBlocksWithin, push, dropKey?]

theorem stands_lines (hes : IsFlat es) : Stands (es.flatMap line) := by
  refine stands_of_isNameChar ?_
  cases es with
  | nil => rintro a ⟨⟩
  | cons e es =>
    obtain ⟨c, w, hw, hc, -⟩ := (hes.names e List.mem_cons_self).exists_cons
    simpa [line, hw] using hc

theorem run?_lines (hes : IsFlat es) (hc : c.rest = es.flatMap line) (hcol : c.column = 0) {fuel : Nat}
    (hfuel : 3 * es.length < fuel) (ts : List Token) :
    (run? fuel (lineStart true c ts)).map (·.tokens.toList) =
      some (ts ++ es.flatMap (lineTokens true) ++ [.blockEnd]) := by
  induction es generalizing c fuel ts with
  | nil =>
    obtain ⟨fuel, rfl⟩ := Nat.exists_eq_add_of_le' (show 1 ≤ fuel by omega)
    simpa using run?_end hc ts fuel
  | cons e es ih =>
    rw [List.length_cons] at hfuel
    obtain ⟨fuel, rfl⟩ := Nat.exists_eq_add_of_le' (show 3 ≤ fuel by omega)
    obtain ⟨c', hline, hc', hcol'⟩ := run?_line (hes.names e List.mem_cons_self) (hes.leaves e List.mem_cons_self)
      (stands_lines hes.tail) hc hcol true ts fuel
    rw [hline, ih hes.tail hc' hcol' (by omega)]
    simp

end Lexer

open Lexer

theorem three_le_length_line (hname : IsName e.1.toList) : 3 ≤ (line e).length := by
  obtain ⟨c, w, hw, -⟩ := hname.exists_cons
  simp only [line, hw, List.length_append, List.length_cons]
  omega

/-- The tokens of a record: its first line opens the mapping, and the end of the text closes it. -/
def recordTokens (es : List (String × Document)) : List Token :=
  .blockMappingStart :: (es.flatMap (lineTokens true) ++ [.blockEnd])

theorem tokens?_render (hes : IsFlat (e :: es)) :
    tokens? (render (.record (e :: es))).toList = some (recordTokens (e :: es)) := by
  have hrender : (render (.record (e :: es))).toList = (e :: es).flatMap line := by
    rw [← entries_eq_flatMap hes, render, String.toList_ofList, Document.record, List.map_cons, block]
  have hallowed : ((e :: es).flatMap line).all isAllowed := by
    refine List.all_eq_true.2 fun a ha => ?_
    obtain ⟨f, hf, ha⟩ := List.mem_flatMap.1 ha
    exact isAllowed_line (hes.names f hf) (hes.leaves f hf) a ha
  have hlength := Text.mul_length_le_flatMap (f := line) (e :: es) fun f hf => three_le_length_line (hes.names f hf)
  rw [List.length_cons] at hlength
  rw [tokens?, hrender, if_pos hallowed]
  obtain ⟨fuel, hfuel⟩ := Nat.exists_eq_add_of_le' (show 3 ≤ ((e :: es).flatMap line).length + 1 by omega)
  have hstart : ({ cursor := { rest := (e :: es).flatMap line } } : Lexer) =
      lineStart false { rest := (e :: es).flatMap line } [] := rfl
  obtain ⟨c, hline, hc, hcol⟩ := run?_line (c := { rest := (e :: es).flatMap line })
    (hes.names e List.mem_cons_self) (hes.leaves e List.mem_cons_self) (stands_lines hes.tail) rfl rfl false [] fuel
  rw [hstart, hfuel, hline, run?_lines hes.tail hc hcol (by omega)]
  simp [recordTokens, lineTokens, keyTokens]

namespace Read

variable {t u : Token} {ts : List Token} {handles : List (List Char × List Char)} {anchors : Anchors}

@[simp] theorem run_peek (r : Reading) : peek.run r = some (r.tokens.head?, r) := rfl

@[simp] theorem run_skip (r : Reading) : skip.run r = some ((), { r with tokens := r.tokens.tail }) := rfl

@[simp] theorem run_accept_self :
    (accept t).run ⟨t :: ts, handles, anchors⟩ = some (true, ⟨ts, handles, anchors⟩) := by
  simp [accept]

theorem run_accept_of_ne (h : u ≠ t) :
    (accept t).run ⟨u :: ts, handles, anchors⟩ = some (false, ⟨u :: ts, handles, anchors⟩) := by
  simp [accept, h]

@[simp] theorem run_isBefore (ends : List Token) :
    (isBefore ends).run ⟨t :: ts, handles, anchors⟩ = some (ends.contains t, ⟨t :: ts, handles, anchors⟩) := rfl

end Read

open Read

section

variable {ts : List Token} {handles : List (List Char × List Char)} {anchors : Anchors} {s : Scalar}

theorem run_node_scalar (hs : s.tag = none) (fuel : Nat) (inBlock mayIndentLess : Bool) :
    (node (fuel + 1) inBlock mayIndentLess).run ⟨scalarToken s :: ts, handles, anchors⟩ =
      some (.scalar s, ⟨ts, handles, anchors⟩) := by
  obtain ⟨cs, style, tag⟩ := s
  obtain rfl : tag = none := hs
  simp [node, scalarToken, readProperties, define]

theorem run_nodeUnless_scalar (hs : s.tag = none) (fuel : Nat) (inBlock mayIndentLess : Bool) (ts : List Token)
    (handles : List (List Char × List Char)) (anchors : Anchors) :
    (nodeUnless (fuel + 2) inBlock mayIndentLess [.key, .value, .blockEnd]).run
      ⟨scalarToken s :: ts, handles, anchors⟩ = some (.scalar s, ⟨ts, handles, anchors⟩) := by
  have hends : [Token.key, .value, .blockEnd].contains (scalarToken s) = false := by simp [scalarToken]
  rw [nodeUnless, StateT.run_bind, run_isBefore, hends]
  exact run_node_scalar hs fuel inBlock mayIndentLess

/-- The nodes of an entry. -/
def entryNodes (e : String × Document) : Node × Node :=
  (.scalar ⟨e.1.toList, .plain, none⟩, .scalar (scalarOf e.2))

theorem tag_scalarOf (d : Document) : (scalarOf d).tag = none := by cases d <;> rfl

theorem run_blockEntries (es : List (String × Document)) {fuel : Nat} (hfuel : es.length + 3 ≤ fuel) :
    (blockEntries fuel).run ⟨es.flatMap (lineTokens true) ++ [.blockEnd], handles, anchors⟩ =
      some (es.map entryNodes, ⟨[], handles, anchors⟩) := by
  induction es generalizing fuel with
  | nil =>
    obtain ⟨fuel, rfl⟩ := Nat.exists_eq_add_of_le' (show 1 ≤ fuel by omega)
    simp [blockEntries]
  | cons e es ih =>
    rw [List.length_cons] at hfuel
    obtain ⟨fuel, rfl⟩ := Nat.exists_eq_add_of_le' (show 3 ≤ fuel by omega)
    have hend : ∀ ts, (accept .blockEnd).run ⟨.key :: ts, handles, anchors⟩ =
        some (false, ⟨.key :: ts, handles, anchors⟩) := fun ts => run_accept_of_ne (by decide)
    have hkey : ∀ ts, (nodeUnless (fuel + 2) true true [.key, .value, .blockEnd]).run
        ⟨.scalar e.1.toList .plain :: ts, handles, anchors⟩ =
          some (.scalar ⟨e.1.toList, .plain, none⟩, ⟨ts, handles, anchors⟩) :=
      fun ts => run_nodeUnless_scalar (s := ⟨e.1.toList, .plain, none⟩) rfl fuel true true ts handles anchors
    have hvalue := run_nodeUnless_scalar (tag_scalarOf e.2) fuel true true
    rw [blockEntries]
    simp [lineTokens, keyTokens, hend, hkey, hvalue, ih (show es.length + 3 ≤ fuel + 2 by omega), entryNodes]

theorem run_node_record (es : List (String × Document)) {fuel : Nat} (hfuel : es.length + 4 ≤ fuel) :
    (node fuel true false).run ⟨recordTokens es, handles, anchors⟩ =
      some (.mapping (es.map entryNodes), ⟨[], handles, anchors⟩) := by
  obtain ⟨fuel, rfl⟩ := Nat.exists_eq_add_of_le' (show 1 ≤ fuel by omega)
  simp [recordTokens, node, readProperties, define, run_blockEntries es (show es.length + 3 ≤ fuel by omega)]

end

theorem length_le_recordTokens (es : List (String × Document)) : es.length + 2 ≤ (recordTokens es).length := by
  have hlength := Text.mul_length_le_flatMap (f := lineTokens true) (k := 1) es (by simp [lineTokens])
  simp only [recordTokens, List.length_cons, List.length_append, List.length_nil]
  omega

theorem rootFrom?_recordTokens (es : List (String × Document)) {fuel : Nat} (hfuel : es.length + 4 ≤ fuel) :
    rootFrom? fuel false [] (recordTokens es) = some ⟨.mapping (es.map entryNodes), {}⟩ := by
  have hnode : (node fuel true false).run ⟨recordTokens es, standardHandles, {}⟩ =
      some (.mapping (es.map entryNodes), ⟨[], standardHandles, {}⟩) := run_node_record es hfuel
  have hhead : (recordTokens es).head? = some .blockMappingStart := rfl
  have hbefore : (isBefore [.documentStart]).run ⟨recordTokens es, standardHandles, {}⟩ =
      some (false, ⟨recordTokens es, standardHandles, {}⟩) := rfl
  simp [rootFrom?, hhead, hbefore, hnode]

theorem ofTokens?_recordTokens (es : List (String × Document)) :
    Stream.ofTokens? (recordTokens es) = some (some ⟨.mapping (es.map entryNodes), {}⟩) := by
  have hlength := length_le_recordTokens es
  have hroot := rootFrom?_recordTokens es (show es.length + 4 ≤ 3 * (recordTokens es).length + 3 by omega)
  exact (congrArg (Option.map some) hroot).trans (Option.map_some ..)

/-- Without entries there is no block: the record stands between braces. -/
theorem ofText?_render_nil : Stream.ofText? (render (.record [])) = some (some ⟨.mapping [], {}⟩) := by
  have htokens : tokens? "\x7b\x7d\n".toList = some [.flowMappingStart, .flowMappingEnd] := by decide +kernel
  rw [Stream.ofText?, render, Document.record, List.map_nil, block, String.toList_ofList, htokens]
  rfl

/-- A flat record is read as the mapping of its entries. -/
theorem ofText?_render (hes : IsFlat es) :
    Stream.ofText? (render (.record es)) = some (some ⟨.mapping (es.map entryNodes), {}⟩) := by
  cases es with
  | nil => exact ofText?_render_nil
  | cons e es => rw [Stream.ofText?, tokens?_render hes, Option.bind_some, ofTokens?_recordTokens]

end PlatformSnapshot.Yaml
