import PlatformSnapshot.Proofs.Text.Split
import PlatformSnapshot.Toml.Token
import PlatformSnapshot.Toml.Writer
/-!
Every text that is written between quotes is read back, in each of the four ways to quote it. None of
them leaves a carriage return in the line, so folding those of a whole text changes nothing in it.
-/
namespace PlatformSnapshot.Toml

variable {c : Char} {cs r : List Char}

/-- The characters that may stand for themselves in the lines of a text. -/
def IsLineChar (c : Char) : Prop := c = '\n' ∨ isStringChar c

theorem isLineChar_of_not_isControl (h : isControl c = false) : IsLineChar c := by
  simp only [isControl, Bool.or_eq_false_iff, decide_eq_false_iff_not, beq_eq_false_iff_ne] at h
  have hlt : ¬ c.toNat ≤ 31 := h.1
  have hle : ' ' ≤ c := show 32 ≤ c.toNat by omega
  exact .inr (by simp [isStringChar, hle, h.2])

theorem literal?_append (hcs : ∀ c ∈ cs, isStringChar c ∧ c ≠ '\'') (r : List Char) :
    literal? (cs ++ '\'' :: r) = some ⟨cs, r⟩ := by
  induction cs with
  | nil => rfl
  | cons c cs ih =>
    obtain ⟨⟨hc, hquote⟩, hcs⟩ := List.forall_mem_cons.1 hcs
    rw [List.cons_append, literal?, if_neg hquote, if_pos hc, ih hcs]
    rfl

theorem le_longestRun (n : Nat) (cs : List Char) : n ≤ longestRun n cs := by
  induction cs generalizing n with
  | nil => exact Nat.le_refl n
  | cons c cs ih =>
    rw [longestRun]
    split
    · exact Nat.le_of_succ_le (ih (n + 1))
    · exact Nat.le_max_left ..

theorem longestRun_mono {m n : Nat} (h : m ≤ n) (cs : List Char) : longestRun m cs ≤ longestRun n cs := by
  induction cs generalizing m n with
  | nil => exact h
  | cons c cs ih =>
    rw [longestRun, longestRun]
    split
    · exact ih (Nat.succ_le_succ h)
    · omega

theorem longestRun_le_cons (n : Nat) (c : Char) (cs : List Char) : longestRun 0 cs ≤ longestRun n (c :: cs) := by
  rw [longestRun]
  split
  · exact longestRun_mono (Nat.zero_le _) cs
  · exact Nat.le_max_right ..

/-- What three quotes close runs up to them if it has no such run in it and no quote at its end. -/
theorem literalLines?_append (hcs : ∀ c ∈ cs, IsLineChar c) (hrun : longestRun 0 cs < 3)
    (hlast : cs.getLast? ≠ some '\'') {d : Char} (hd : d ≠ '\'') (r : List Char) :
    literalLines? (cs ++ '\'' :: '\'' :: '\'' :: d :: r) = some ⟨cs, d :: r⟩ := by
  induction cs with
  | nil =>
    rw [List.nil_append, literalLines?]
    cases r <;> simp [closeTriple, hd]
  | cons c cs ih =>
    obtain ⟨hc, hcs⟩ := List.forall_mem_cons.1 hcs
    have htail : longestRun 0 cs < 3 := Nat.lt_of_le_of_lt (longestRun_le_cons 0 c cs) hrun
    have hthree : ∀ s, c = '\'' → cs ++ '\'' :: '\'' :: '\'' :: d :: r = '\'' :: '\'' :: s → False := by
      rintro s rfl h
      match cs, h with
      | [], _ | ['\''], _ => exact hlast rfl
      | a :: b :: cs, h =>
        simp only [List.cons_append, List.cons.injEq] at h
        obtain ⟨rfl, rfl, -⟩ := h
        have hle : 3 ≤ longestRun 3 cs := le_longestRun 3 cs
        simp only [longestRun, if_pos, Nat.reduceAdd] at hrun
        omega
    have hrest : cs.getLast? ≠ some '\'' := by
      cases cs with
      | nil => simp
      | cons a cs => rwa [List.getLast?_cons_cons] at hlast
    have hc' : c = '\n' ∨ isStringChar c = true := hc
    rw [List.cons_append, literalLines?, if_pos hc', ih hcs htail hrest]
    · rfl
    · exact hthree

/-- The characters with an escape of two characters; a line feed is not one in a text of several lines. -/
def shortlyEscaped (isMultiline : Bool) : List Char :=
  (if isMultiline then [] else ['\n']) ++ ['\x08', '\t', '\x0c', '\r', '"', '\\']

theorem escapeChar_short {isMultiline : Bool} (h : c ∈ shortlyEscaped isMultiline) :
    ∃ d, escapeChar isMultiline c = ['\\', d] ∧
      d ≠ 'u' ∧ d ≠ 'U' ∧ isBlank d = false ∧ d ≠ '\n' ∧ shortEscape? d = some c := by
  cases isMultiline <;>
    simp only [shortlyEscaped, Bool.false_eq_true, if_false, if_true, List.nil_append, List.cons_append, List.mem_cons,
      List.not_mem_nil, or_false] at h
  case false => rcases h with rfl | rfl | rfl | rfl | rfl | rfl | rfl <;> exact ⟨_, rfl, by decide⟩
  case true => rcases h with rfl | rfl | rfl | rfl | rfl | rfl <;> exact ⟨_, rfl, by decide⟩

theorem toNat_lt_of_isControl (h : isControl c) : c.toNat < 128 := by
  simp only [isControl, Bool.or_eq_true, decide_eq_true_eq, beq_iff_eq] at h
  rcases h with h | rfl
  · have hle : c.toNat ≤ 31 := h
    omega
  · decide

/-- The digits of a control character name it. -/
theorem hexChar?_control (h : isControl c) :
    hexChar? ['0', '0', hexDigit (c.toNat / 16), hexDigit (c.toNat % 16)] = some c := by
  have hall : ∀ n < 128, hexChar? ['0', '0', hexDigit (n / 16), hexDigit (n % 16)] = some (Char.ofNat n) := by decide
  rw [hall _ (toNat_lt_of_isControl h), Char.ofNat_toNat]

theorem escapeChar_other {isMultiline : Bool} (h : c ∉ shortlyEscaped isMultiline) :
    c ≠ '"' ∧ c ≠ '\\' ∧
      (isControl c ∧ escapeChar isMultiline c =
          ['\\', 'u', '0', '0', hexDigit (c.toNat / 16), hexDigit (c.toNat % 16)] ∨
        (isStringChar c ∨ isMultiline ∧ c = '\n') ∧ escapeChar isMultiline c = [c]) := by
  by_cases hfeed : c = '\n'
  · cases isMultiline <;> subst hfeed
    case false => exact absurd (by decide) h
    case true => exact ⟨by decide, by decide, .inr ⟨.inr ⟨rfl, rfl⟩, rfl⟩⟩
  · simp only [shortlyEscaped, List.mem_append, List.mem_cons, List.not_mem_nil, or_false, not_or] at h
    obtain ⟨-, hb, ht, hf, hr, hquote, hslash⟩ := h
    refine ⟨hquote, hslash, ?_⟩
    cases hcontrol : isControl c with
    | true => exact .inl ⟨rfl, by simp [escapeChar, *]⟩
    | false =>
      have hchar : isStringChar c := (isLineChar_of_not_isControl hcontrol).resolve_left hfeed
      exact .inr ⟨.inl hchar, by simp [escapeChar, *]⟩

/-- Reading between double quotes passes one escaped character. -/
theorem basic?_escapeChar (c : Char) (r : List Char) :
    basic? (escapeChar false c ++ r) = (basic? r).map (·.cons c) := by
  by_cases hshort : c ∈ shortlyEscaped false
  · obtain ⟨d, hd, hu, hU, -, -, hvalue⟩ := escapeChar_short hshort
    rw [hd]
    simp [basic?, hu, hU, hvalue, -Option.pure_def]
  · obtain ⟨hquote, hslash, ⟨hcontrol, h⟩ | ⟨hchar, h⟩⟩ := escapeChar_other hshort
    · simp [h, basic?, hexChar?_control hcontrol, -Option.pure_def]
    · have hchar : isStringChar c := by simpa using hchar
      simp [h, basic?, hquote, hslash, hchar]

theorem basicLines?_escapeChar (c : Char) (fuel : Nat) (r : List Char) :
    basicLines? (fuel + 1) (escapeChar true c ++ r) = (basicLines? fuel r).map (·.cons c) := by
  by_cases hshort : c ∈ shortlyEscaped true
  · obtain ⟨d, hd, hu, hU, hblank, hfeed, hvalue⟩ := escapeChar_short hshort
    rw [hd]
    simp [basicLines?, hu, hU, hblank, hfeed, hvalue, -Option.pure_def]
  · obtain ⟨hquote, hslash, ⟨hcontrol, h⟩ | ⟨hchar, h⟩⟩ := escapeChar_other hshort
    · simp [h, basicLines?, hexChar?_control hcontrol, -Option.pure_def]
    · have hchar : c = '\n' ∨ isStringChar c = true := by simpa [or_comm] using hchar
      simp [h, basicLines?, hquote, hslash, hchar]

theorem basic?_append (cs r : List Char) :
    basic? (cs.flatMap (escapeChar false) ++ '"' :: r) = some ⟨cs, r⟩ := by
  induction cs with
  | nil => simp [basic?]
  | cons c cs ih =>
    rw [List.flatMap_cons, List.append_assoc, basic?_escapeChar, ih]
    rfl

theorem basicLines?_append {d : Char} (hd : d ≠ '"') (cs r : List Char) {fuel : Nat} (hfuel : cs.length < fuel) :
    basicLines? fuel (cs.flatMap (escapeChar true) ++ '"' :: '"' :: '"' :: d :: r) = some ⟨cs, d :: r⟩ := by
  induction cs generalizing fuel with
  | nil =>
    obtain ⟨fuel, rfl⟩ := Nat.exists_eq_succ_of_ne_zero (Nat.ne_of_gt hfuel)
    rw [List.flatMap_nil, List.nil_append, basicLines?]
    case x_3 => exact Nat.succ_ne_zero fuel
    cases r <;> simp [closeTriple, hd]
  | cons c cs ih =>
    obtain ⟨fuel, rfl⟩ := Nat.exists_eq_succ_of_ne_zero (Nat.ne_of_gt (Nat.zero_lt_of_lt hfuel))
    rw [List.flatMap_cons, List.append_assoc, basicLines?_escapeChar, ih (Nat.lt_of_succ_lt_succ hfuel)]
    rfl

theorem head?_escapeChar_ne (isMultiline : Bool) (c : Char) (r : List Char) :
    (escapeChar isMultiline c ++ r).head? ≠ some '"' := by
  by_cases hshort : c ∈ shortlyEscaped isMultiline
  · obtain ⟨d, hd, -⟩ := escapeChar_short hshort
    simp [hd]
  · obtain ⟨hquote, -, ⟨-, h⟩ | ⟨-, h⟩⟩ := escapeChar_other hshort <;> simp [h, hquote]

theorem escapeChar_ne_nil (isMultiline : Bool) (c : Char) : escapeChar isMultiline c ≠ [] := by
  unfold escapeChar
  (repeat' split) <;> simp

theorem dropNewline_eq_self (h : cs.head? ≠ some '\n') : dropNewline cs = cs := by
  unfold dropNewline
  split
  · exact absurd rfl h
  · rfl

theorem quoted?_literal (hcs : ∀ c ∈ cs, isStringChar c ∧ c ≠ '\'') (r : List Char) :
    quoted? ('\'' :: cs ++ '\'' :: '\n' :: r) = some (.quoted cs false, '\n' :: r) := by
  have hthree : ∀ s, cs ++ '\'' :: '\n' :: r = '\'' :: '\'' :: s → False := by
    intro s h
    cases cs with
    | nil => simp at h
    | cons c cs => exact (hcs c List.mem_cons_self).2 (List.cons.inj h).1
  rw [List.cons_append, quoted?, literal?_append hcs]
  · rfl
  · exact hthree

theorem quoted?_basic (hne : cs ≠ []) (r : List Char) :
    quoted? ('"' :: cs.flatMap (escapeChar false) ++ '"' :: '\n' :: r) = some (.quoted cs false, '\n' :: r) := by
  have hthree : ∀ s, cs.flatMap (escapeChar false) ++ '"' :: '\n' :: r = '"' :: '"' :: s → False := by
    intro s h
    cases cs with
    | nil => exact hne rfl
    | cons c cs =>
      rw [List.flatMap_cons, List.append_assoc] at h
      exact head?_escapeChar_ne false c _ (congrArg List.head? h)
  rw [List.cons_append, quoted?, basic?_append]
  · rfl
  · exact hthree

theorem quoted?_basicLines (cs r : List Char) :
    quoted? ('"' :: '"' :: '"' :: '\n' :: cs.flatMap (escapeChar true) ++ '"' :: '"' :: '"' :: '\n' :: r) =
      some (.quoted cs true, '\n' :: r) := by
  have hlen := Text.mul_length_le_flatMap cs fun c _ => List.length_pos_iff.2 (escapeChar_ne_nil true c)
  simp only [List.cons_append, quoted?, dropNewline]
  rw [basicLines?_append (by decide) cs r]
  · rfl
  · simp only [List.length_cons, List.length_append]
    omega

/-- Whether a text is written between three quotes. -/
def isTripled (cs : List Char) : Bool := cs.contains '\n' || (isLiteral cs && cs.contains '\'')

/-- A quoted text is read as this text, as long as its line ends with it. -/
theorem quoted?_quote (cs r : List Char) :
    quoted? (quote cs ++ '\n' :: r) = some (.quoted cs (isTripled cs), '\n' :: r) := by
  by_cases hliteral : isLiteral cs
  · have hparts := hliteral
    simp only [isLiteral, Bool.and_eq_true, decide_eq_true_eq, List.all_eq_true, bne_iff_ne] at hparts
    obtain ⟨⟨hall, hrun⟩, hlast⟩ := hparts
    have hline : ∀ c ∈ cs, IsLineChar c := by
      intro c hc
      have h := hall c hc
      simp only [Bool.or_eq_true, beq_iff_eq, Bool.not_eq_true'] at h
      rcases h with (rfl | rfl) | h
      · exact .inr (by decide)
      · exact .inl rfl
      · exact isLineChar_of_not_isControl h
    have hread := literalLines?_append hline hrun hlast (d := '\n') (by decide) r
    by_cases hfeed : '\n' ∈ cs
    · simp [isTripled, quote, hliteral, hfeed, quoted?, dropNewline, hread]
    by_cases hquote : '\'' ∈ cs
    · have hhead : (cs ++ '\'' :: '\'' :: '\'' :: '\n' :: r).head? ≠ some '\n' := by
        cases cs with
        | nil => simp
        | cons c cs => exact fun h => hfeed (by simp_all)
      simp [isTripled, quote, hliteral, hfeed, hquote, quoted?, dropNewline_eq_self hhead, hread]
    · have hcs : ∀ c ∈ cs, isStringChar c ∧ c ≠ '\'' := fun c hc =>
        ⟨(hline c hc).resolve_left fun h => hfeed (h ▸ hc), fun h => hquote (h ▸ hc)⟩
      simpa [isTripled, quote, hliteral, hfeed, hquote] using quoted?_literal hcs r
  · by_cases hfeed : '\n' ∈ cs
    · simpa [isTripled, quote, hliteral, hfeed] using quoted?_basicLines cs r
    · have hne : cs ≠ [] := by
        rintro rfl
        exact hliteral (by decide)
      simpa [isTripled, quote, hliteral, hfeed] using quoted?_basic hne r

theorem return_not_mem_escapeChar (isMultiline : Bool) (c : Char) : '\r' ∉ escapeChar isMultiline c := by
  by_cases hshort : c ∈ shortlyEscaped isMultiline
  · obtain ⟨d, hd, -, -, -, -, hvalue⟩ := escapeChar_short hshort
    have hne : '\r' ≠ d := fun h => by simp [← h, shortEscape?] at hvalue
    simp [hd, hne]
  · obtain ⟨-, -, ⟨hcontrol, h⟩ | ⟨hchar, h⟩⟩ := escapeChar_other hshort
    · have hlt := toNat_lt_of_isControl hcontrol
      have hdigit : ∀ n < 16, '\r' ≠ hexDigit n := by decide
      simp [h, hdigit (c.toNat / 16) (by omega), hdigit (c.toNat % 16) (by omega)]
    · have hne : '\r' ≠ c := by
        rintro rfl
        exact absurd hchar (by simp; decide)
      simp [h, hne]

theorem return_not_mem_quote (cs : List Char) : '\r' ∉ quote cs := by
  have hescaped : ∀ isMultiline, '\r' ∉ cs.flatMap (escapeChar isMultiline) := by
    intro isMultiline h
    obtain ⟨c, -, hc⟩ := List.mem_flatMap.1 h
    exact return_not_mem_escapeChar isMultiline c hc
  have hliteral : isLiteral cs → '\r' ∉ cs := by
    intro h hmem
    simp only [isLiteral, Bool.and_eq_true, List.all_eq_true] at h
    exact absurd (h.1.1 _ hmem) (by decide)
  simp only [quote]
  (repeat' split) <;> simp [*]

/-- A quoted text begins with a quote and another character. -/
theorem exists_quote_eq (cs : List Char) : ∃ q c r, quote cs = q :: c :: r ∧ (q = '\'' ∨ q = '"') := by
  simp only [quote]
  (repeat' split)
  · exact ⟨_, _, _, rfl, .inl rfl⟩
  · exact ⟨_, _, _, rfl, .inl rfl⟩
  · cases cs <;> exact ⟨_, _, _, rfl, .inl rfl⟩
  · exact ⟨_, _, _, rfl, .inr rfl⟩
  · rcases h : cs.flatMap (escapeChar false) with _ | ⟨c, r⟩ <;> simp

end PlatformSnapshot.Toml
