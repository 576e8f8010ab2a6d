import PlatformSnapshot.Proofs.Yaml.Plain
/-!
A literal block is read back, with all of its line breaks and no others: how the header tells what
becomes of the last ones depends on just the last two characters of the text.
-/
namespace PlatformSnapshot.Yaml

open Text (gap_induction)

variable {cs line bs s r : List Char} {cur : Cursor} {fuel : Nat}

/-- Whether the first line does not show how far the block is indented. -/
def hidesIndentation (cs : List Char) : Bool := cs.head?.any fun c => c == ' ' || isBreak c

/-- What a header says about the last line breaks of a text. -/
def chompingOf (cs : List Char) : Chomping :=
  match cs.reverse with
  | [] => .strip
  | [c] => if isBreak c then .keep else .strip
  | c :: d :: _ => if !isBreak c then .strip else if isBreak d then .keep else .clip

/-- What a block is worth by what becomes of its last line breaks. -/
def BlockText.chomp (b : BlockText) : Chomping → List Char
  | .strip => b.text
  | .clip => b.text ++ b.lastBreak
  | .keep => b.text ++ b.lastBreak ++ b.emptyLines

theorem readHeader_blockHints (cs : List Char) (hcur : cur.rest = blockHints cs ++ '\n' :: s) :
    ∃ cur', readHeader cur =
        some ({ chomping := chompingOf cs, increment := if hidesIndentation cs then some 2 else none }, cur') ∧
      cur'.rest = s ∧ cur'.column = 0 := by
  obtain ⟨rest, index, row, column⟩ := cur
  obtain rfl : rest = _ := hcur
  have hhints : blockHints cs = (if hidesIndentation cs then ['2'] else []) ++
      match chompingOf cs with
      | .strip => ['-']
      | .clip => []
      | .keep => ['+'] := by
    unfold blockHints chompingOf hidesIndentation
    congr 1
    (repeat' split) <;> simp_all
  rw [hhints]
  cases hidesIndentation cs <;> cases chompingOf cs <;> exact ⟨_, rfl, rfl, rfl⟩

theorem literalLines_breaks (n : Nat) (hbs : ∀ b ∈ bs, isBreak b) (s : List Char) :
    literalLines n true (bs ++ s) = bs ++ literalLines n true s := by
  induction bs with
  | nil => rfl
  | cons b bs ih =>
    obtain ⟨hb, hbs⟩ := List.forall_mem_cons.1 hbs
    simp [literalLines, hb, ih hbs]

theorem literalLines_line (n : Nat) (hline : ∀ c ∈ line, isBreak c = false) (s : List Char) :
    literalLines n false (line ++ s) = line ++ literalLines n false s := by
  induction line with
  | nil => rfl
  | cons c line ih =>
    obtain ⟨hc, hline⟩ := List.forall_mem_cons.1 hline
    simp [literalLines, hc, ih hline]

theorem literalLines_indented (n : Nat) {c : Char} (hc : isBreak c = false) (s : List Char) :
    literalLines n true (c :: s) = List.replicate n ' ' ++ literalLines n false (c :: s) := by
  simp [literalLines, hc, spaces]

theorem length_le_literalLines (n : Nat) (afterBreak : Bool) (cs : List Char) :
    cs.length ≤ (literalLines n afterBreak cs).length := by
  induction cs generalizing afterBreak with
  | nil => exact Nat.zero_le _
  | cons c cs ih =>
    rw [literalLines]
    split
    · exact Nat.succ_le_succ (ih true)
    · have hle := ih false
      simp only [List.length_append, List.length_cons]
      omega

theorem isPrintable_literalLines (hcs : ∀ c ∈ cs, isPrintable c) (n : Nat) (afterBreak : Bool) :
    ∀ a ∈ literalLines n afterBreak cs, isPrintable a := by
  induction cs generalizing afterBreak with
  | nil =>
    refine List.all_eq_true.1 ?_
    rw [literalLines]
    split <;> decide
  | cons c cs ih =>
    obtain ⟨hc, hcs⟩ := List.forall_mem_cons.1 hcs
    rw [literalLines]
    split
    · exact List.forall_mem_cons.2 ⟨hc, ih hcs true⟩
    · exact List.forall_mem_append.2 ⟨isPrintable_indentation afterBreak n,
        List.forall_mem_cons.2 ⟨hc, ih hcs false⟩⟩

theorem isPrintable_blockHints (cs : List Char) : ∀ a ∈ blockHints cs, isPrintable a := by
  rw [blockHints]
  refine List.forall_mem_append.2 ⟨List.all_eq_true.1 ?_, List.all_eq_true.1 ?_⟩
  · split <;> decide
  · (repeat' split) <;> decide

theorem readBlockBreaks_break {b : Char} (hb : isBreak b) (hp : isPrintable b) (hcur : cur.rest = b :: s)
    (hcol : cur.column = 0) (deepest : Nat) (breaks : List Char) :
    readBlockBreaks 2 (fuel + 1) deepest breaks cur =
      readBlockBreaks 2 fuel deepest (breaks ++ [b]) (cur.nextLine 1) := by
  have hspace : (b == ' ') = false := by
    rw [beq_eq_false_iff_ne]
    rintro rfl
    revert hb
    decide
  have htab : b ≠ '\t' := by
    rintro rfl
    revert hb
    decide
  simp [readBlockBreaks, hcur, hspace, hcol, Cursor.peek, htab, Cursor.lineBreak?_of_isPrintable hcur hb hp]

theorem readBlockBreaks_append (hbs : ∀ b ∈ bs, isBreak b ∧ isPrintable b) (hcur : cur.rest = bs ++ s)
    (hcol : cur.column = 0) (fuel deepest : Nat) (breaks : List Char) :
    ∃ cur', readBlockBreaks 2 (fuel + bs.length) deepest breaks cur =
      readBlockBreaks 2 fuel deepest (breaks ++ bs) cur' ∧ cur'.rest = s ∧ cur'.column = 0 := by
  induction bs generalizing cur breaks with
  | nil => exact ⟨cur, by simp, hcur, hcol⟩
  | cons b bs ih =>
    obtain ⟨⟨hb, hp⟩, hbs⟩ := List.forall_mem_cons.1 hbs
    obtain ⟨cur', h, hcur'⟩ := ih hbs (Cursor.rest_nextLine hcur) rfl (breaks ++ [b])
    refine ⟨cur', ?_, hcur'⟩
    rw [List.length_cons, ← Nat.add_assoc, readBlockBreaks_break hb hp hcur hcol, h, List.append_assoc]
    rfl

/-- What stands behind a block is neither blank nor a break. -/
theorem readBlockBreaks_end (hr : EndsGap cur.rest) (hcol : cur.column = 0) (deepest : Nat) (breaks : List Char) :
    readBlockBreaks 2 fuel deepest breaks cur = some (deepest, breaks, cur) := by
  cases fuel with
  | zero => rfl
  | succ fuel =>
    have hspaces : cur.rest.takeWhile (· == ' ') = [] := by
      cases hrest : cur.rest with
      | nil => rfl
      | cons c s =>
        have hc : c ≠ ' ' := by
          rintro rfl
          exact absurd (hr ' ' (by rw [hrest]; rfl)) (by decide)
        simp [hc]
    have htab : cur.peek ≠ some '\t' := by
      intro h
      exact absurd (hr _ h) (by decide)
    have hline : cur.lineBreak? = none := Cursor.lineBreak?_of_not fun b hb => (Gap.isBlank_false (hr b hb)).2
    simp [readBlockBreaks, hspaces, hcol, htab, hline]

/-- A line that goes on a block is indented by two spaces; further blanks belong to it. -/
theorem readBlockBreaks_line {c : Char} (hc : isBreak c = false) (hcur : cur.rest = List.replicate 2 ' ' ++ c :: s)
    (hcol : cur.column = 0) (deepest : Nat) (breaks : List Char) :
    readBlockBreaks 2 (fuel + 1) deepest breaks cur = some (max deepest 2, breaks, cur.skip 2) := by
  have hspaces : 2 ≤ (cur.rest.takeWhile (· == ' ')).length := by
    simp [hcur]
  have hrest : (cur.skip 2).rest = c :: s := Cursor.rest_skip (a := List.replicate 2 ' ') hcur
  have hline : (cur.skip 2).lineBreak? = none := Cursor.lineBreak?_of_not (by
    rw [hrest]
    rintro b ⟨⟩
    exact hc)
  simp [readBlockBreaks, hcol, hline, hspaces]

/-- What a block is once another line of it, with its line break and the empty lines after it, is read. -/
def BlockText.addLine (block : BlockText) (line : List Char) (b : Char) (empty : List Char) (isIndented : Bool) :
    BlockText :=
  ⟨block.text ++ block.lastBreak ++ block.emptyLines ++ line, [b], empty, isIndented⟩

theorem readBlockLines_line {b : Char} {deepest : Nat} {empty : List Char} {cur' : Cursor} (hcol : cur.column = 2)
    (hline : ∀ c ∈ line, isBreak c = false) (hb : isBreak b) (hp : isPrintable b)
    (hcur : cur.rest = line ++ b :: s)
    (hread : readBlockBreaks 2 s.length 0 [] ((cur.skip line.length).nextLine 1) = some (deepest, empty, cur'))
    (fuel : Nat) (block : BlockText) :
    ∃ isIndented, readBlockLines true 2 (fuel + 1) block cur =
      readBlockLines true 2 fuel (block.addLine line b empty isIndented) cur' := by
  have hrun := Text.takeWhile_append (a := line) (b := b :: s) (p := fun c => !isBreak c) (by simpa using hline)
    (by simp [hb])
  have hskip := Cursor.rest_skip hcur
  have hlength : ((cur.skip line.length).nextLine 1).rest.length = s.length := by rw [Cursor.rest_nextLine hskip]
  refine ⟨cur.peek.any isBlank, ?_⟩
  simp [readBlockLines, hcol, Cursor.takeWhile, Cursor.skipWhile, hcur, hrun.1,
    Cursor.lineBreak?_of_isPrintable hskip hb hp, hlength, hread, BlockText.join, BlockText.addLine]

theorem readBlockLines_end (hcol : cur.column = 0) (block : BlockText) :
    readBlockLines true 2 fuel block cur = some (block, cur) := by
  cases fuel with
  | zero => rfl
  | succ fuel => simp [readBlockLines, hcol]

theorem chompingOf_line (hne : line ≠ []) (hline : ∀ c ∈ line, isBreak c = false) : chompingOf line = .strip := by
  obtain ⟨before, c, rfl⟩ := List.eq_nil_or_concat' line |>.resolve_left hne
  have hc : isBreak c = false := hline c (by simp)
  rw [chompingOf, List.reverse_append, List.reverse_singleton, List.singleton_append]
  cases before.reverse <;> simp [hc]

theorem chompingOf_breaks {g : Char} (hne : line ≠ []) (hline : ∀ c ∈ line, isBreak c = false)
    (hbs : ∀ b ∈ g :: bs, isBreak b) : chompingOf (line ++ g :: bs) = if bs = [] then .clip else .keep := by
  obtain ⟨before, c, rfl⟩ := List.eq_nil_or_concat' line |>.resolve_left hne
  have hc : isBreak c = false := hline c (by simp)
  obtain ⟨hg, hbs⟩ := List.forall_mem_cons.1 hbs
  rcases List.eq_nil_or_concat' bs with rfl | ⟨more, b, rfl⟩
  · simp [chompingOf, hg, hc]
  · have hb : isBreak b := hbs b (by simp)
    rcases List.eq_nil_or_concat' more with rfl | ⟨more, d, rfl⟩
    · simp [chompingOf, hb, hg]
    · have hd : isBreak d := hbs d (by simp)
      simp [chompingOf, hb, hd]

/-- It depends on what follows the last character in front of which there is no break. -/
theorem chompingOf_append {c : Char} (hc : isBreak c = false) (before rest : List Char) :
    chompingOf (before ++ c :: rest) = chompingOf (c :: rest) := by
  rcases List.eq_nil_or_concat' rest with rfl | ⟨more, d, rfl⟩
  · rw [chompingOf, List.reverse_append, List.reverse_singleton, List.singleton_append]
    cases before.reverse <;> simp [chompingOf, hc]
  · rcases List.eq_nil_or_concat' more with rfl | ⟨more, e, rfl⟩ <;> simp [chompingOf]

/-- The last line of a block, with all the breaks after it. -/
theorem readBlockLines_last {g : Char} (hr : EndsGap r) (hcur : cur.rest = line ++ g :: (bs ++ r))
    (hcol : cur.column = 2) (hline : ∀ c ∈ line, isBreak c = false)
    (hbs : ∀ b ∈ g :: bs, isBreak b ∧ isPrintable b) (fuel : Nat) (block : BlockText) :
    ∃ isIndented cur', readBlockLines true 2 (fuel + 1) block cur =
      some (block.addLine line g bs isIndented, cur') ∧ cur'.rest = r ∧ cur'.column = 0 := by
  obtain ⟨⟨hg, hp⟩, hbs⟩ := List.forall_mem_cons.1 hbs
  have hnext := Cursor.rest_nextLine (Cursor.rest_skip hcur)
  obtain ⟨cur', hbreaks, hrest, hcol'⟩ := readBlockBreaks_append hbs hnext rfl r.length 0 []
  have hread : readBlockBreaks 2 (bs ++ r).length 0 [] ((cur.skip line.length).nextLine 1) = some (0, bs, cur') := by
    rw [List.length_append, Nat.add_comm, hbreaks]
    exact readBlockBreaks_end (by rwa [hrest]) hcol' 0 _
  obtain ⟨isIndented, h⟩ := readBlockLines_line hcol hline hg hp hcur hread fuel block
  exact ⟨isIndented, cur', h.trans (readBlockLines_end hcol' _), hrest, hcol'⟩

/-- A line with breaks after it that another line follows. -/
theorem readBlockLines_more {g c : Char} {rest : List Char} (hc : isBreak c = false)
    (hcur : cur.rest = line ++ g :: (bs ++ (literalLines 2 true (c :: rest) ++ r))) (hcol : cur.column = 2)
    (hline : ∀ c ∈ line, isBreak c = false) (hbs : ∀ b ∈ g :: bs, isBreak b ∧ isPrintable b)
    (fuel : Nat) (block : BlockText) :
    ∃ isIndented cur', readBlockLines true 2 (fuel + 1) block cur =
        readBlockLines true 2 fuel (block.addLine line g bs isIndented) cur' ∧
      cur'.rest = literalLines 2 false (c :: rest) ++ r ∧ cur'.column = 2 := by
  obtain ⟨⟨hg, hp⟩, hbs⟩ := List.forall_mem_cons.1 hbs
  have hfrom : literalLines 2 false (c :: rest) = c :: literalLines 2 false rest := by simp [literalLines, hc]
  have hnext := Cursor.rest_nextLine (Cursor.rest_skip hcur)
  rw [literalLines_indented 2 hc, hfrom, List.append_assoc] at hnext
  obtain ⟨mid, hbreaks, hmid, hmidcol⟩ :=
    readBlockBreaks_append hbs hnext rfl ((c :: literalLines 2 false rest ++ r).length + 2) 0 []
  have hread : readBlockBreaks 2 (bs ++ (literalLines 2 true (c :: rest) ++ r)).length 0 []
      ((cur.skip line.length).nextLine 1) = some (2, bs, mid.skip 2) := by
    rw [literalLines_indented 2 hc, hfrom, List.append_assoc, List.length_append, Nat.add_comm, List.length_append,
      List.length_replicate, Nat.add_comm 2, hbreaks]
    exact readBlockBreaks_line hc hmid hmidcol 0 bs
  obtain ⟨isIndented, h⟩ := readBlockLines_line hcol hline hg hp hcur hread fuel block
  refine ⟨isIndented, mid.skip 2, h, ?_, by simp [hmidcol]⟩
  rw [hfrom]
  exact Cursor.rest_skip (a := List.replicate 2 ' ') hmid

/-- The lines of a block are read to its end, and worth what was written. -/
theorem readBlockLines_literal (hprintable : ∀ c ∈ cs, isPrintable c)
    (hhead : ∃ c w, cs = c :: w ∧ isBreak c = false) (hr : EndsGap r)
    (hcur : cur.rest = literalLines 2 false cs ++ r) (hcol : cur.column = 2) (hfuel : cs.length ≤ fuel)
    (block : BlockText) :
    ∃ block' cur', readBlockLines true 2 fuel block cur = some (block', cur') ∧
      block'.chomp (chompingOf cs) = block.text ++ block.lastBreak ++ block.emptyLines ++ cs ∧
      cur'.rest = r ∧ cur'.column = 0 := by
  have hne : cs ≠ [] := by
    obtain ⟨c, w, rfl, -⟩ := hhead
    exact List.cons_ne_nil c w
  obtain ⟨fuel, rfl⟩ := Nat.exists_eq_add_of_le' (Nat.le_trans (List.length_pos_iff.2 hne) hfuel)
  induction cs using gap_induction isBreak generalizing cur fuel block with
  | hlast part hpart =>
    have hlines : literalLines 2 false part = part ++ ['\n'] := by
      simpa [literalLines] using literalLines_line 2 hpart []
    rw [hlines, List.append_assoc] at hcur
    have hcur : cur.rest = part ++ '\n' :: ([] ++ r) := hcur
    obtain ⟨isIndented, cur', h, hcur'⟩ := readBlockLines_last hr hcur hcol hpart
      (List.forall_mem_singleton.2 (by decide)) fuel block
    refine ⟨_, cur', h, ?_, hcur'⟩
    rw [chompingOf_line hne hpart]
    rfl
  | hmore part g gs rest hpart hgs hrest ih =>
    obtain ⟨hg, hbreaks⟩ := List.forall_mem_cons.1 hgs
    have hpartne : part ≠ [] := by
      rintro rfl
      obtain ⟨c, w, hw, hc⟩ := hhead
      rw [(List.cons.inj hw).1, hc] at hg
      cases hg
    have hbs : ∀ b ∈ g :: gs, isBreak b ∧ isPrintable b := fun b hb =>
      ⟨hgs b hb, hprintable b (List.mem_append_right part (List.mem_append_left rest hb))⟩
    have hlines : literalLines 2 false (part ++ (g :: gs ++ rest)) = part ++ g :: (gs ++ literalLines 2 true rest) := by
      rw [literalLines_line 2 hpart, List.cons_append, literalLines, if_pos hg, literalLines_breaks 2 hbreaks]
    rw [hlines, List.append_assoc, List.cons_append, List.append_assoc] at hcur
    cases rest with
    | nil =>
      obtain ⟨isIndented, cur', h, hcur'⟩ := readBlockLines_last hr hcur hcol hpart hbs fuel block
      refine ⟨_, cur', h, ?_, hcur'⟩
      rw [List.append_nil, chompingOf_breaks hpartne hpart hgs]
      split
      case isTrue hnil => simp [BlockText.chomp, BlockText.addLine, hnil]
      case isFalse => simp [BlockText.chomp, BlockText.addLine]
    | cons c rest =>
      have hc : isBreak c = false := hrest c rfl
      simp only [List.length_append, List.length_cons] at hfuel
      obtain ⟨fuel, rfl⟩ := Nat.exists_eq_add_of_le' (show 1 ≤ fuel by omega)
      obtain ⟨isIndented, mid, h, hmid, hmidcol⟩ := readBlockLines_more hc hcur hcol hpart hbs (fuel + 1) block
      obtain ⟨block', cur', hlast, hvalue, hcur'⟩ :=
        ih (fun d hd => hprintable d (by simp [hd])) ⟨c, rest, rfl, hc⟩ hmid hmidcol
          (block.addLine part g gs isIndented) (List.cons_ne_nil c rest) fuel (by rw [List.length_cons]; omega)
      have hsplit : part ++ (g :: gs ++ c :: rest) = (part ++ g :: gs) ++ c :: rest := by simp
      refine ⟨block', cur', h.trans hlast, ?_, hcur'⟩
      rw [hsplit, chompingOf_append hc, hvalue]
      simp [BlockText.addLine]

theorem chompingOf_only_breaks (hne : bs ≠ []) (hbs : ∀ b ∈ bs, isBreak b) : chompingOf bs = .keep := by
  obtain ⟨more, b, rfl⟩ := List.eq_nil_or_concat' bs |>.resolve_left hne
  have hb : isBreak b := hbs b (by simp)
  rcases List.eq_nil_or_concat' more with rfl | ⟨more, d, rfl⟩
  · simp [chompingOf, hb]
  · have hd : isBreak d := hbs d (by simp)
    simp [chompingOf, hb, hd]

/-- The column of the first line, where no hint tells it. -/
theorem readBlockBreaks_first {c : Char} (hc : isPrintable c) (hspace : c ≠ ' ') (hbreak : isBreak c = false)
    (hcur : cur.rest = List.replicate 2 ' ' ++ c :: s) (hcol : cur.column = 0) :
    readBlockBreaks 0 (fuel + 1) 0 [] cur = some (2, [], cur.skip 2) := by
  have hrest : (cur.skip 2).rest = c :: s := Cursor.rest_skip (a := List.replicate 2 ' ') hcur
  have hline : (cur.skip 2).lineBreak? = none := Cursor.lineBreak?_of_not (by
    rw [hrest]
    rintro b ⟨⟩
    exact hbreak)
  have htab : c ≠ '\t' := by
    rintro rfl
    revert hc
    decide
  have hspaces : (cur.rest.takeWhile (· == ' ')).length = 2 := by simp [hcur, hspace]
  simp [readBlockBreaks, hspaces, hline, hcol, Cursor.peek_eq hrest, htab]

theorem readBlock_of_parts {h : BlockHeader} {deepest : Nat} {block : BlockText} {start mid last : Cursor}
    (hheader : readHeader cur = some (h, start))
    (hbreaks : readBlockBreaks (h.increment.getD 0) start.rest.length 0 [] start = some (deepest, bs, mid))
    (hindent : h.increment = some 2 ∨ h.increment = none ∧ deepest = 2)
    (hlines : readBlockLines true 2 mid.rest.length { emptyLines := bs } mid = some (block, last)) :
    readBlock true 0 cur = some (block.chomp h.chomping, last) := by
  obtain ⟨chomping, increment⟩ := h
  rcases hindent with rfl | ⟨rfl, rfl⟩ <;> cases chomping <;>
    simp_all [readBlock, BlockText.chomp]

/-- The breaks in front of the first line are read with its indentation, whether or not a hint tells it. -/
theorem readBlockBreaks_lead {c : Char} {start : Cursor} (line : List Char)
    (hbs : ∀ b ∈ bs, isBreak b ∧ isPrintable b) (hp : isPrintable c) (hbreak : isBreak c = false)
    (hstart : start.rest = bs ++ (List.replicate 2 ' ' ++ c :: s)) (hcol : start.column = 0) :
    let increment := if hidesIndentation (bs ++ c :: line) then some 2 else none
    ∃ deepest mid, readBlockBreaks (increment.getD 0) start.rest.length 0 [] start = some (deepest, bs, mid) ∧
      (increment = some 2 ∨ increment = none ∧ deepest = 2) ∧ mid.rest = c :: s ∧ mid.column = 2 := by
  intro increment
  have hlength : start.rest.length = s.length + 2 + 1 + bs.length := by
    rw [hstart]
    simp only [List.length_append, List.length_replicate, List.length_cons]
    omega
  rw [hlength]
  cases hhides : hidesIndentation (bs ++ c :: line) with
  | true =>
    have hincrement : increment = some 2 := if_pos hhides
    obtain ⟨mid, hread, hmid, hmidcol⟩ := readBlockBreaks_append hbs hstart hcol (s.length + 2 + 1) 0 []
    refine ⟨2, mid.skip 2, ?_, .inl hincrement, Cursor.rest_skip (a := List.replicate 2 ' ') hmid,
      by simp [hmidcol]⟩
    rw [hincrement, Option.getD_some, hread]
    exact readBlockBreaks_line hbreak hmid hmidcol 0 bs
  | false =>
    have hincrement : increment = none := if_neg (by simp [hhides])
    cases bs with
    | nil =>
      have hspace : c ≠ ' ' := by
        rintro rfl
        simp [hidesIndentation] at hhides
      refine ⟨2, start.skip 2, ?_, .inr ⟨hincrement, rfl⟩, Cursor.rest_skip (a := List.replicate 2 ' ') hstart,
        by simp [hcol]⟩
      rw [hincrement, Option.getD_none]
      exact readBlockBreaks_first hp hspace hbreak hstart hcol
    | cons b bs => simp [hidesIndentation, (hbs b List.mem_cons_self).1] at hhides

/-- A text of several lines is read back from a literal block that is a value at the top. -/
theorem readBlock_literal (hprintable : ∀ c ∈ cs, isPrintable c) (hfeed : '\n' ∈ cs) (hr : EndsGap r)
    (hcur : cur.rest = blockHints cs ++ '\n' :: (literalLines 2 true cs ++ r)) :
    ∃ cur', readBlock true 0 cur = some (cs, cur') ∧ cur'.rest = r ∧ cur'.column = 0 := by
  obtain ⟨start, hheader, hstart, hcol⟩ := readHeader_blockHints cs hcur
  obtain ⟨bs, rest, rfl, hbreaks, hrest⟩ :
      ∃ bs rest, cs = bs ++ rest ∧ (∀ b ∈ bs, isBreak b) ∧ ∀ c ∈ rest.head?, isBreak c = false := by
    refine ⟨cs.takeWhile isBreak, cs.dropWhile isBreak, List.takeWhile_append_dropWhile.symm, ?_, ?_⟩
    · exact fun b hb => List.mem_takeWhile_imp hb
    · intro c hc
      have hstop := List.head?_dropWhile_not isBreak cs
      rw [Option.mem_def.1 hc] at hstop
      simpa using hstop
  have hbs : ∀ b ∈ bs, isBreak b ∧ isPrintable b := fun b hb => ⟨hbreaks b hb, hprintable b (by simp [hb])⟩
  rw [literalLines_breaks 2 hbreaks, List.append_assoc] at hstart
  cases rest with
  | nil =>
    rw [List.append_nil] at hfeed hheader ⊢
    have hne : bs ≠ [] := by
      rintro rfl
      cases hfeed
    have hstart : start.rest = bs ++ r := hstart
    obtain ⟨mid, hread, hmid, hmidcol⟩ := readBlockBreaks_append hbs hstart hcol r.length 0 []
    have hhides : hidesIndentation bs := by
      cases bs with
      | nil => exact absurd rfl hne
      | cons b bs => simp [hidesIndentation, (hbs b List.mem_cons_self).1]
    have hempty : readBlockBreaks 2 start.rest.length 0 [] start = some (0, bs, mid) := by
      rw [hstart, List.length_append, Nat.add_comm, hread]
      exact readBlockBreaks_end (by rwa [hmid]) hmidcol 0 _
    rw [if_pos hhides] at hheader
    refine ⟨mid, ?_, hmid, hmidcol⟩
    rw [readBlock_of_parts hheader hempty (.inl rfl) (readBlockLines_end hmidcol _), chompingOf_only_breaks hne hbreaks]
    rfl
  | cons c rest =>
    have hc : isBreak c = false := hrest c rfl
    have hfrom : literalLines 2 false (c :: rest) = c :: literalLines 2 false rest := by simp [literalLines, hc]
    rw [literalLines_indented 2 hc, hfrom, List.append_assoc, List.cons_append] at hstart
    obtain ⟨deepest, mid, hread, hindent, hmid, hmidcol⟩ :=
      readBlockBreaks_lead rest hbs (hprintable c (by simp)) hc hstart hcol
    have hlength : (c :: rest).length ≤ mid.rest.length := by
      have hle := length_le_literalLines 2 false rest
      rw [hmid, List.length_cons, List.length_cons, List.length_append]
      omega
    obtain ⟨block, last, hlines, hvalue, hlast⟩ := readBlockLines_literal (fun d hd => hprintable d (by simp [hd]))
      ⟨c, rest, rfl, hc⟩ hr (hfrom ▸ hmid) hmidcol hlength { emptyLines := bs }
    refine ⟨last, ?_, hlast⟩
    rw [readBlock_of_parts hheader hread hindent hlines, chompingOf_append hc, hvalue]
    simp

end PlatformSnapshot.Yaml
