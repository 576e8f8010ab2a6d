import Mathlib.Data.List.Chain
import PlatformSnapshot.Yaml.Writer
/-!
What the choice of a style says about a text. Which characters stand beside each other is said by
chains: a text that is written plain holds no comment and no end of a key, and one between single
quotes has no space beside a line break, which folding would lose.
-/
namespace PlatformSnapshot.Yaml

variable {cs : List Char} {p : Option Char} {a : Analysis}

theorem isBlank_eq_false_of_isPrintable {c : Char} (hc : isPrintable c) (hspace : c ≠ ' ') : isBlank c = false := by
  have htab : c ≠ '\t' := by
    rintro rfl
    revert hc
    decide
  simp [isBlank, hspace, htab]

/-- The only blank among printable characters is the space. -/
theorem isBlankOrBreak_eq_false {c : Char} (hc : isPrintable c) (hspace : c ≠ ' ') (hbreak : isBreak c = false) :
    isBlankOrBreak c = false := by
  rw [isBlankOrBreak, isBlank_eq_false_of_isPrintable hc hspace, hbreak]
  rfl

theorem isAllowed_of_isPrintable {c : Char} (h : isPrintable c) : isAllowed c := by
  simp only [isPrintable, isAllowed, Bool.or_eq_true, Bool.and_eq_true, beq_iff_eq, decide_eq_true_eq] at h ⊢
  omega

theorem isPrintable_indentation (b : Bool) (n : Nat) : ∀ c ∈ (if b then spaces n else []), isPrintable c := by
  intro c hc
  split at hc
  · obtain rfl := (List.mem_replicate.1 hc).2
    decide
  · cases hc

theorem hasBreaks_analyzeFrom : (analyzeFrom p a cs).hasBreaks = (a.hasBreaks || cs.any isBreak) := by
  induction cs generalizing p a with
  | nil => simp [analyzeFrom]
  | cons c r ih => simp [analyzeFrom, ih, Bool.or_assoc]

theorem hasSpecial_analyzeFrom :
    (analyzeFrom p a cs).hasSpecial = (a.hasSpecial || cs.any fun c => !isPrintable c) := by
  induction cs generalizing p a with
  | nil => simp [analyzeFrom]
  | cons c r ih => simp [analyzeFrom, ih, Bool.or_assoc]

/-- If an analysis notes a fault between neighbours and none is noted, then there is none. -/
theorem isChain_of_noted (noted : Analysis → Bool) (fault : Option Char → Char → Bool)
    (hnote : ∀ p a c r,
      ∃ a', analyzeFrom p a (c :: r) = analyzeFrom (some c) a' r ∧ noted a' = (noted a || fault p c))
    (h : noted (analyzeFrom p a cs) = false) :
    noted a = false ∧ (p.toList ++ cs).IsChain fun x y => fault (some x) y = false := by
  induction cs generalizing p a with
  | nil =>
    refine ⟨h, ?_⟩
    cases p <;> simp
  | cons c r ih =>
    obtain ⟨a', hstep, hnoted⟩ := hnote p a c r
    rw [hstep] at h
    obtain ⟨hc, hr⟩ := ih h
    rw [hnoted, Bool.or_eq_false_iff] at hc
    cases p with
    | none => exact ⟨hc.1, hr⟩
    | some q => exact ⟨hc.1, List.isChain_cons_cons.2 ⟨hc.2, hr⟩⟩

theorem isChain_of_hasSpaceBreak (h : (analyze cs).hasSpaceBreak = false) :
    cs.IsChain fun x y => x = ' ' → isBreak y = false := by
  have hchain := isChain_of_noted (·.hasSpaceBreak) (fun p c => isBreak c && p == some ' ')
    (fun _ _ _ _ => ⟨_, rfl, rfl⟩) h
  exact hchain.2.imp fun x y hxy hx => by simpa [hx] using hxy

theorem isChain_of_hasBreakSpace (h : (analyze cs).hasBreakSpace = false) :
    cs.IsChain fun x y => y = ' ' → isBreak x = false := by
  have hchain := isChain_of_noted (·.hasBreakSpace) (fun p c => c == ' ' && p.any isBreak)
    (fun _ _ _ _ => ⟨_, rfl, rfl⟩) h
  exact hchain.2.imp fun x y hxy hy => by simpa [hy] using hxy

/-- A colon that is no indicator has a character after it that is not blank. -/
theorem colon_of_endsWord {c : Char} {r : List Char} (h : c = ':' → Cursor.endsWord r.head? = false)
    (hr : r.IsChain fun x y => x = ':' → isBlankOrBreak y = false) (hlast : r.getLast? ≠ some ':') :
    ((c :: r).IsChain fun x y => x = ':' → isBlankOrBreak y = false) ∧ (c :: r).getLast? ≠ some ':' := by
  cases r with
  | nil => exact ⟨.singleton c, by simpa [Cursor.endsWord] using h⟩
  | cons d r => exact ⟨List.isChain_cons_cons.2 ⟨h, hr⟩, by rwa [List.getLast?_cons_cons]⟩

theorem inner_of_hasIndicators {q : Char} (h : (analyzeFrom (some q) a cs).hasIndicators = false) :
    a.hasIndicators = false ∧ ((q :: cs).IsChain fun x y => y = '#' → isBlankOrBreak x = false) ∧
      (cs.IsChain fun x y => x = ':' → isBlankOrBreak y = false) ∧ cs.getLast? ≠ some ':' := by
  induction cs generalizing q a with
  | nil => exact ⟨h, .singleton q, .nil, by simp⟩
  | cons c r ih =>
    obtain ⟨hc, hcomment, hvalue, hlast⟩ := ih h
    simp only [Bool.or_eq_false_iff, isInnerIndicator, Bool.and_eq_false_imp, beq_iff_eq] at hc
    obtain ⟨ha, hcolon, hsharp⟩ := hc
    exact ⟨ha, List.isChain_cons_cons.2 ⟨hsharp, hcomment⟩, colon_of_endsWord hcolon hvalue hlast⟩

/-- Texts that can go on a plain scalar: no comment and no colon of a key is found in them. -/
structure GoesOn (cs : List Char) : Prop where
  clean : ∀ c ∈ cs, isPrintable c ∧ isBreak c = false
  comment : cs.IsChain fun x y => y = '#' → isBlankOrBreak x = false
  value : cs.IsChain fun x y => x = ':' → isBlankOrBreak y = false
  last : ∀ c ∈ cs.getLast?, c ≠ ' ' ∧ c ≠ ':'

/-- Texts that are read back as they are without quotes. -/
structure IsPlain (cs : List Char) : Prop extends GoesOn cs where
  head : ∃ c r, cs = c :: r ∧ c ≠ ' ' ∧ isLeadIndicator c r.head? = false

/-- Texts whose line breaks and spaces folding leaves alone. -/
structure IsFoldable (cs : List Char) : Prop where
  printable : ∀ c ∈ cs, isPrintable c
  spaceBreak : cs.IsChain fun x y => x = ' ' → isBreak y = false
  breakSpace : cs.IsChain fun x y => y = ' ' → isBreak x = false
  noFeed : '\n' ∉ cs

inductive Suits (cs : List Char) : Style → Prop where
  | plain (h : IsPlain cs) : Suits cs .plain
  | singleQuoted (h : IsFoldable cs) : Suits cs .singleQuoted
  | doubleQuoted : Suits cs .doubleQuoted
  | literal (hprintable : ∀ c ∈ cs, isPrintable c) (hfeed : '\n' ∈ cs) : Suits cs .literal

theorem isPrintable_of_hasSpecial (h : (analyze cs).hasSpecial = false) : ∀ c ∈ cs, isPrintable c := by
  simpa [analyze, hasSpecial_analyzeFrom] using h

theorem isPlain_of_allowsPlain (h : (analyze cs).allowsPlain cs) (hne : cs ≠ []) : IsPlain cs := by
  simp only [Analysis.allowsPlain, Bool.not_eq_true', Bool.or_eq_false_iff, startsOrEndsWith] at h
  obtain ⟨⟨⟨⟨⟨hindicators, hbreaks⟩, hspecial⟩, -⟩, -⟩, hhead, hlast⟩ := h
  have hprintable := isPrintable_of_hasSpecial hspecial
  have hbreak : ∀ c ∈ cs, isBreak c = false := by simpa [analyze, hasBreaks_analyzeFrom] using hbreaks
  obtain ⟨c, r, rfl⟩ := List.exists_cons_of_ne_nil hne
  obtain ⟨hc, hcomment, hvalue, hcolon⟩ := inner_of_hasIndicators hindicators
  rw [Bool.or_eq_false_iff] at hc
  have hlead : c = ':' → Cursor.endsWord r.head? = false := by
    rintro rfl
    have hcolon := hc.2
    simp only [isLeadIndicator, Bool.or_eq_false_iff] at hcolon
    simpa using hcolon.2
  obtain ⟨hvalue, hcolon⟩ := colon_of_endsWord hlead hvalue hcolon
  refine ⟨⟨fun d hd => ⟨hprintable d hd, hbreak d hd⟩, hcomment, hvalue, ?_⟩, c, r, rfl, ?_, hc.2⟩
  · intro d hd
    constructor
    · rintro rfl
      rw [Option.mem_def.1 hd] at hlast
      simp at hlast
    · rintro rfl
      exact hcolon hd
  · rintro rfl
    simp at hhead

theorem suits_styleOf (cs : List Char) : Suits cs (styleOf cs) := by
  simp only [styleOf]
  split
  case isTrue hfeed =>
    split
    case isTrue hblock =>
      simp only [Analysis.allowsBlock, Bool.not_eq_true', Bool.or_eq_false_iff] at hblock
      exact .literal (isPrintable_of_hasSpecial hblock.1.1) (by simpa using hfeed)
    case isFalse => exact .doubleQuoted
  case isFalse hfeed =>
    split
    case isTrue hplain =>
      -- Nothing at all is spelled like nothing.
      have hne : cs ≠ [] := by
        rintro rfl
        exact hplain.2 rfl
      exact .plain (isPlain_of_allowsPlain hplain.1 hne)
    case isFalse =>
      split
      case isTrue hsingle =>
        simp only [Analysis.allowsSingle, Bool.not_eq_true', Bool.or_eq_false_iff] at hsingle
        exact .singleQuoted ⟨isPrintable_of_hasSpecial hsingle.1.1, isChain_of_hasSpaceBreak hsingle.1.2,
          isChain_of_hasBreakSpace hsingle.2, by simpa using hfeed⟩
      case isFalse => exact .doubleQuoted

/-- Text that is spelled like something else is not written plain. -/
theorem isAmbiguous_of_plain (h : styleOf cs = .plain) : Spelling.isAmbiguous cs = false := by
  rw [styleOf] at h
  split at h
  · split at h <;> cases h
  · split at h
    case isTrue hplain => simpa using hplain.2
    case isFalse => split at h <;> cases h

end PlatformSnapshot.Yaml
