import PlatformSnapshot.CommandLine.Arguments
import PlatformSnapshot.Proofs.Reading
/-!
What holds of all arguments that are read. It has to hold before the first option and to be kept by
every option of a vocabulary; then it is kept however the options are spelled and in whatever order
they come. No root that is given is empty.
-/
namespace PlatformSnapshot.CommandLine

variable {voc : Vocabulary α} {I : α → Prop} {a b : α} {rest : List String}

theorem orMisuse_eq_ok_iff {x : Option α} : orMisuse x = .ok a ↔ x = some a := by
  cases x <;> simp [orMisuse]

/-- What an option does to the arguments keeps what holds of them. -/
def Effect.Keeps (I : α → Prop) : Effect α → Prop
  | .switch f => ∀ a b, I a → f a = some b → I b
  | .value f => ∀ v a b, I a → f v a = some b → I b
  | .stop _ => True

theorem keeps_switch {get : α → Option β} {put : α → β → α}
    (h : ∀ a v, I a → get a = some v → I (put a v)) :
    (Effect.switch fun a => (get a).map (put a)).Keeps I := by
  intro a b ha hb
  obtain ⟨v, hv, rfl⟩ := Option.map_eq_some_iff.1 hb
  exact h a v ha hv

theorem keeps_value {get : String → α → Option β} {put : α → β → α}
    (h : ∀ s a v, I a → get s a = some v → I (put a v)) :
    (Effect.value fun s a => (get s a).map (put a)).Keeps I := by
  intro s a b ha hb
  obtain ⟨v, hv, rfl⟩ := Option.map_eq_some_iff.1 hb
  exact h s a v ha hv

/-- Every option of the vocabulary keeps it. -/
def Vocabulary.Keeps (voc : Vocabulary α) (I : α → Prop) : Prop :=
  ∀ name e, voc.effect name = some e → e.Keeps I

/-- It holds of the arguments so far, and a value that is still to come keeps it. -/
def Spelled.Keeps (I : α → Prop) : Spelled α → Prop
  | .done a => I a
  | .pending f a => I a ∧ (Effect.value f).Keeps I

variable {sp : Spelled α}

theorem keeps_done {x : Option α} (hx : ∀ b, x = some b → I b) (h : (orMisuse x).map .done = .ok sp) :
    sp.Keeps I := by
  obtain ⟨b, hb, rfl⟩ := map_eq_ok_iff.1 h
  exact hx b (orMisuse_eq_ok_iff.1 hb)

theorem keeps_spell {e : Effect α} (he : e.Keeps I) (ha : I a) {value : Option String}
    (h : spell e value a = .ok sp) : sp.Keeps I := by
  cases e with
  | stop s => cases value <;> cases h
  | switch f =>
    cases value with
    | some v => cases h
    | none => exact keeps_done (fun b hb => he a b ha hb) h
  | value f =>
    cases value with
    | some v => exact keeps_done (fun b hb => he v a b ha hb) h
    | none =>
      cases h
      exact ⟨ha, he⟩

theorem keeps_spellName (hvoc : voc.Keeps I) (ha : I a) {cs : List Char} (h : spellName voc cs a = .ok sp) :
    sp.Keeps I := by
  obtain ⟨e, he, h⟩ := bind_eq_ok_iff.1 h
  exact keeps_spell (hvoc _ e (orMisuse_eq_ok_iff.1 he)) ha h

theorem keeps_spellLetters (hvoc : voc.Keeps I) (ha : I a) {cs : List Char} (h : spellLetters voc a cs = .ok sp) :
    sp.Keeps I := by
  induction cs generalizing a with
  | nil =>
    cases h
    exact ha
  | cons c r ih =>
    rw [spellLetters] at h
    obtain ⟨e, he, h⟩ := bind_eq_ok_iff.1 h
    obtain ⟨name, -, he⟩ := Option.bind_eq_some_iff.1 (orMisuse_eq_ok_iff.1 he)
    have hkeeps : e.Keeps I := hvoc name e he
    cases e with
    | stop s => cases h
    | switch f =>
      obtain ⟨b, hb, h⟩ := bind_eq_ok_iff.1 h
      exact ih (hkeeps a b ha (orMisuse_eq_ok_iff.1 hb)) h
    | value f => exact keeps_spell hkeeps ha h

/-- What every option keeps is kept by reading the options of a level. -/
theorem keeps_readOptions (hvoc : voc.Keeps I) {waiting : Option (String → α → Option α)}
    (hwaiting : ∀ f ∈ waiting, (Effect.value f).Keeps I) (ha : I a) {args : List String}
    (h : readOptions voc waiting a args = .ok (b, rest)) : I b := by
  induction args generalizing waiting a with
  | nil =>
    unfold readOptions at h
    split at h
    case isTrue => cases h
    case isFalse =>
      cases h
      exact ha
  | cons s args ih =>
    -- an option by its name and a row of letters go on in the same way
    have hspelled : ∀ {sp : Spelled α}, sp.Keeps I →
        (match sp with
          | .done a => readOptions voc none a args
          | .pending f a => readOptions voc (some f) a args) = .ok (b, rest) → I b := by
      intro sp hsp h
      cases sp with
      | done c => exact ih (by simp) hsp h
      | pending f c => exact ih (by simpa using hsp.2) hsp.1 h
    unfold readOptions at h
    split at h
    case h_1 f v _ =>
      obtain ⟨c, hc, h⟩ := bind_eq_ok_iff.1 h
      exact ih (by simp) (hwaiting f rfl v a c ha (orMisuse_eq_ok_iff.1 hc)) h
    case h_2 => cases h
    case h_3 =>
      split at h
      case isTrue =>
        cases h
        exact ha
      case isFalse => cases h
    case h_4 =>
      cases h
      exact ha
    case h_5 cs =>
      obtain ⟨sp, hsp, h⟩ := bind_eq_ok_iff.1 h
      exact hspelled (keeps_spellName hvoc ha hsp) h
    case h_6 cs =>
      obtain ⟨sp, hsp, h⟩ := bind_eq_ok_iff.1 h
      exact hspelled (keeps_spellLetters hvoc ha hsp) h

/-- The roots that are given are not empty. -/
structure RootsGiven (a : Arguments) : Prop where
  proc : ∀ root ∈ a.procRoot, root ≠ ""
  node : ∀ root ∈ a.nodeRoot, root ≠ ""
  resctrl : ∀ root ∈ a.resctrlRoot, root ≠ ""

theorem setOnce_path?_ne {old new : Option String} {s : String} (h : setOnce old (path? s) = some new) :
    ∀ root ∈ new, root ≠ "" := by
  unfold setOnce at h
  split at h
  case h_1 v hv =>
    cases h
    unfold path? at hv
    split at hv
    case isTrue => cases hv
    case isFalse hne =>
      obtain rfl := Option.some.inj hv
      simpa using hne
  case h_2 => cases h

theorem keeps_programVocabulary : programVocabulary.Keeps RootsGiven := by
  intro name e he
  change programOption name = some e at he
  unfold programOption at he
  split at he
  -- only three options touch a root
  case h_7 =>
    cases he
    exact keeps_value fun s a v ha hv => { ha with proc := setOnce_path?_ne hv }
  case h_8 =>
    cases he
    exact keeps_value fun s a v ha hv => { ha with node := setOnce_path?_ne hv }
  case h_9 =>
    cases he
    exact keeps_value fun s a v ha hv => { ha with resctrl := setOnce_path?_ne hv }
  case h_1 | h_2 | h_5 =>
    cases he
    exact keeps_value fun s a v ha _ => ⟨ha.proc, ha.node, ha.resctrl⟩
  case h_3 | h_4 | h_6 | h_10 | h_11 =>
    cases he
    exact keeps_switch fun a v ha _ => ⟨ha.proc, ha.node, ha.resctrl⟩
  case h_12 | h_13 =>
    cases he
    trivial
  case h_14 => cases he

theorem rootsGiven_of_read {args : List String} {a : Arguments} (h : Arguments.read args = .ok a) : RootsGiven a := by
  obtain ⟨⟨b, rest⟩, hb, h⟩ := bind_eq_ok_iff.1 h
  have hgiven : RootsGiven b :=
    keeps_readOptions keeps_programVocabulary (by simp) ⟨by simp, by simp, by simp⟩ hb
  dsimp only at h
  split at h
  case h_1 =>
    cases h
    exact hgiven
  case h_2 | h_3 =>
    obtain ⟨c, -, h⟩ := bind_eq_ok_iff.1 h
    cases h
    exact ⟨hgiven.proc, hgiven.node, hgiven.resctrl⟩
  case h_4 | h_5 => cases h

end PlatformSnapshot.CommandLine
