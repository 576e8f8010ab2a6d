import PlatformSnapshot.Proofs.Memory.Used
import PlatformSnapshot.Proofs.Text.Decimal
import PlatformSnapshot.Proofs.Text.Rows
/-!
Which texts give the used memory, and how much it is. Of the lines about one figure the last counts,
but each has to hold a number; a figure without a line is zero. The result is the exact difference in
bytes or nothing, and for figures that are not negative nothing only if no signed word can hold it.
-/
namespace PlatformSnapshot.UsedMemory

open Text
open Numeral (FitsInt64 SpellsSigned)

/-- The line is about this figure: its key stands before the first colon. The word is the first after
the colon, and empty if there is none. -/
def IsRow (line : List Char) (k : Kind) (w : List Char) : Prop :=
  ∃ rest ws, line = k.key.toList ++ ':' :: rest ∧ WordsOf rest ws ∧ w = ws.headD []

/-- A word that spells no signed number is no amount. -/
def IsBad (k : Kind) (w : List Char) (f : Fault) : Prop :=
  (∀ n, ¬ SpellsSigned w n) ∧ f = .badAmount (.ofList w) k.key

def rows : RowFormat Kind Int64 := ⟨IsRow, SpellsSigned, IsBad⟩

def Figures.get (f : Figures) : Kind → Int64
  | .total => f.total
  | .free => f.free
  | .buffers => f.buffers
  | .cached => f.cached

/-- The figures that some lines give: each that of the last line about it, or zero if there is none. -/
structure Accounts (ls : List (List Char)) (f : Figures) : Prop where
  sound : ∀ l ∈ ls, rows.Sound l
  get_eq : ∀ k n, f.get k = n ↔ rows.LastGives ls k n ∨ (∀ l ∈ ls, ¬ rows.About l k) ∧ n = 0

variable {line w : List Char} {k : Kind} {n used : Int64} {f g : Figures} {fault : Fault} {ls : List (List Char)}
  {text : String}

theorem figure?_eq_some_iff : figure? line = some (k, w) ↔ IsRow line k w := by
  have hcolon : ':' ∉ k.key.toList := by cases k <;> decide
  constructor
  · intro h
    unfold figure? at h
    split at h
    case h_1 => cases h
    case h_2 key rest hsplit =>
      obtain ⟨_, hk, he⟩ := Option.map_eq_some_iff.1 h
      cases he
      obtain rfl := ofKey?_eq_some_iff.1 hk
      exact ⟨rest, words rest, splitOnce?_eq_some hsplit, wordsOf_words rest, rfl⟩
  · rintro ⟨rest, ws, rfl, hws, rfl⟩
    rw [figure?, splitOnce?_append hcolon]
    simp only [ofKey?_eq_some_iff.2 rfl, words_of_wordsOf hws, Option.map_some]

/-- The amount of a figure. -/
def amount (k : Kind) (w : List Char) : Except Fault Int64 :=
  match Numeral.int64? w with
  | none => .error (.badAmount (.ofList w) k.key)
  | some n => .ok n

theorem amount_eq_ok_iff : amount k w = .ok n ↔ SpellsSigned w n := by
  rw [amount, ← Numeral.int64?_eq_some_iff]
  cases Numeral.int64? w <;> simp

theorem amount_eq_error_iff : amount k w = .error fault ↔ IsBad k w fault := by
  simp only [amount, IsBad, ← Numeral.int64?_eq_some_iff]
  cases Numeral.int64? w <;> simp [eq_comm]

theorem readBy_amount : rows.ReadBy figure? amount :=
  ⟨fun _ _ _ => figure?_eq_some_iff, fun _ _ _ => amount_eq_ok_iff, fun _ _ _ => amount_eq_error_iff⟩

theorem isSlots : IsSlots Figures.get Figures.set id where
  get_set f n k j := by cases k <;> cases j <;> simp [Figures.get, Figures.set]
  ext f g h := by
    obtain ⟨⟩ := f
    obtain ⟨⟩ := g
    simpa [Figures.get] using And.intro (h .total) (And.intro (h .free) (And.intro (h .buffers) (h .cached)))

theorem figures_eq_fill (f : Figures) (ls : List (List Char)) :
    figures f ls = fill Figures.set figure? amount f ls := by
  refine eq_fill (fun _ => rfl) (fun f line ls => ?_) f ls
  rw [figures]
  cases figure? line with
  | none => rfl
  | some e =>
    dsimp only
    rw [amount]
    cases Numeral.int64? e.2 <;> rfl

theorem figures_eq_ok_iff : figures {} ls = .ok f ↔ Accounts ls f := by
  have hzero : ∀ k, Figures.get {} k = 0 := by
    intro k
    cases k <;> rfl
  rw [figures_eq_fill, fill_eq_ok_iff readBy_amount isSlots]
  simp only [id, exists_eq_right, hzero, eq_comm (a := (0 : Int64))]
  exact ⟨fun h => ⟨h.1, h.2⟩, fun h => ⟨h.sound, h.get_eq⟩⟩

theorem figures_eq_error_iff : figures {} ls = .error fault ↔ FirstFailure rows.FaultOf ls fault := by
  rw [figures_eq_fill, fill_eq_error_iff readBy_amount]

instance (line : List Char) (k : Kind) : Decidable (rows.About line k) := decidable_of_iff _ readBy_amount.about_iff

instance (line : List Char) : Decidable (rows.Matters line) := decidable_of_iff _ readBy_amount.matters_iff

instance (line : List Char) : Decidable (rows.Sound line) := decidable_of_iff _ readBy_amount.isOk_iff

theorem parse_of_error (h : figures {} (lines text.toList) = .error fault) : parse text = .error fault := by
  rw [parse, h]
  rfl

/-- Once the figures are known, the result is their exact difference in bytes, if all differences on the
way are in range. -/
theorem parse_of_ok (h : figures {} (lines text.toList) = .ok f) :
    (∀ used, parse text = .ok used ↔ f.KeepsRange ∧ used.toInt = f.usedBytes) ∧
    ∀ fault, parse text = .error fault ↔ ¬ f.KeepsRange ∧ fault = .usedMemoryOverflow := by
  have hparse : parse text = f.used?.elim (.error .usedMemoryOverflow) .ok := by
    rw [parse, h]
    change Except.bind (.ok f) _ = _
    cases hused : f.used? <;> simp [Except.bind, hused]
  have hrange : f.KeepsRange ↔ ∃ used, f.used? = some used := by
    simp only [Figures.used?_eq_some_iff, exists_and_left]
    exact ⟨fun hrange => ⟨hrange, .ofInt f.usedBytes, Numeral.toInt_ofInt_of_fits hrange.bytes⟩,
      fun hrange => hrange.1⟩
  refine ⟨fun used => ?_, fun fault => ?_⟩
  · rw [hparse, ← Figures.used?_eq_some_iff]
    cases f.used? <;> simp
  · rw [hparse, hrange]
    cases f.used? <;> simp [eq_comm]

theorem exists_accounts_iff : (∃ f, Accounts ls f) ↔ ∀ l ∈ ls, rows.Sound l := by
  simp only [← figures_eq_ok_iff, figures_eq_fill, exists_fill_iff readBy_amount]

theorem exists_firstFailure_of_not_sound (h : ∃ l ∈ ls, ¬ rows.Sound l) :
    ∃ fault, FirstFailure rows.FaultOf ls fault := by
  simpa only [exists_firstFailure_iff, readBy_amount.sound_iff, not_forall, not_not] using h

/-- A text one of whose lines about a figure holds no number is refused for the first such line. Any other
text tells the figures; what it gives is their exact difference in bytes, and if they are not negative
it gives that just if a signed word can hold it. Other lines do not matter, and nor does the order of
lines about different figures, but for which of several lines without a number is the first. -/
theorem used_or_firstFault (text : String) :
    ((∃ l ∈ lines text.toList, ¬ rows.Sound l) →
      ∃ fault, FirstFailure rows.FaultOf (lines text.toList) fault ∧ parse text = .error fault) ∧
    ((∀ l ∈ lines text.toList, rows.Sound l) → ∃ f, Accounts (lines text.toList) f ∧
      (∀ used, parse text = .ok used ↔ f.KeepsRange ∧ used.toInt = f.usedBytes) ∧
      (∀ fault, parse text = .error fault ↔ ¬ f.KeepsRange ∧ fault = .usedMemoryOverflow) ∧
      (f.Natural → ((∃ used, parse text = .ok used) ↔ FitsInt64 f.usedBytes))) ∧
    (∀ other, (lines other.toList).filter rows.Matters = (lines text.toList).filter rows.Matters →
      parse other = parse text) ∧
    ∀ other, (∀ k, (lines other.toList).filter (rows.About · k) = (lines text.toList).filter (rows.About · k)) →
      (∀ used, parse other = .ok used ↔ parse text = .ok used) ∧
      ((∀ l ∈ lines text.toList, rows.Sound l) → parse other = parse text) := by
  refine ⟨fun hbad => ?_, fun hsound => ?_, fun other hsame => ?_, fun other hsame => ?_⟩
  · obtain ⟨fault, hfault⟩ := exists_firstFailure_of_not_sound hbad
    exact ⟨fault, hfault, parse_of_error (figures_eq_error_iff.2 hfault)⟩
  · obtain ⟨f, hf⟩ := exists_accounts_iff.2 hsound
    obtain ⟨hok, herror⟩ := parse_of_ok (figures_eq_ok_iff.2 hf)
    refine ⟨f, hf, hok, herror, fun hnatural => ?_⟩
    simp only [hok, exists_and_left, hnatural.keepsRange_iff]
    exact ⟨fun h => h.1, fun h => ⟨h, .ofInt f.usedBytes, Numeral.toInt_ofInt_of_fits h⟩⟩
  · have hfigures : figures {} (lines other.toList) = figures {} (lines text.toList) := by
      rw [figures_eq_fill, figures_eq_fill, ← fill_filter readBy_amount, hsame, fill_filter readBy_amount]
    rw [parse, hfigures, parse]
  · have hfigures : ∀ f, figures {} (lines other.toList) = .ok f ↔ figures {} (lines text.toList) = .ok f := by
      intro f
      simp only [figures_eq_fill]
      exact ⟨fill_congr readBy_amount isSlots hsame, fill_congr readBy_amount isSlots fun k => (hsame k).symm⟩
    refine ⟨fun used => ?_, fun hsound => ?_⟩
    · simp only [parse, bind_eq_ok_iff, hfigures]
    · obtain ⟨f, hf⟩ := exists_accounts_iff.2 hsound
      have htext := figures_eq_ok_iff.2 hf
      rw [parse, (hfigures f).2 htext, parse, htext]

/-- More memory is free than there is. Of the two lines about it the later counts. -/
def overdrawn : String := "MemFree: 1 kB\nMemTotal: 100 kB\nSwapCached: 50 kB\nMemFree:\t+200 kB\n"

/-- The same figures with the total last, and without the other line. -/
def totalLast : String := "MemFree: 1 kB\nMemFree:\t+200 kB\nMemTotal: 100 kB\n"

/-- The first line about the total holds no number. -/
def wordy : String := "MemTotal: much kB\nMemTotal: 100 kB\n"

theorem used_overdrawn :
    (∀ l ∈ lines overdrawn.toList, rows.Sound l) ∧
    (∀ k, (lines totalLast.toList).filter (rows.About · k) = (lines overdrawn.toList).filter (rows.About · k)) ∧
    (∃ used, parse overdrawn = .ok used ∧ used.toInt = -102400) ∧ parse totalLast = parse overdrawn ∧
    (∃ l ∈ lines wordy.toList, ¬ rows.Sound l) ∧ ∃ fault, parse wordy = .error fault := by
  have hsound : ∀ l ∈ lines overdrawn.toList, rows.Sound l := by decide +kernel
  have hsame : ∀ k, (lines totalLast.toList).filter (rows.About · k) =
      (lines overdrawn.toList).filter (rows.About · k) := by
    intro k
    cases k <;> decide +kernel
  have hwordy : ∃ l ∈ lines wordy.toList, ¬ rows.Sound l := by decide +kernel
  obtain ⟨-, hgiven, -, hother⟩ := used_or_firstFault overdrawn
  obtain ⟨f, hf, hok, -, hnatural⟩ := hgiven hsound
  have hfigures : figures {} (lines overdrawn.toList) = .ok ⟨100, 200, 0, 0⟩ := by decide +kernel
  obtain rfl : f = ⟨100, 200, 0, 0⟩ := Except.ok.inj ((figures_eq_ok_iff.2 hf).symm.trans hfigures)
  obtain ⟨used, hused⟩ := (hnatural ⟨by decide, by decide, by decide, by decide⟩).2 (by decide)
  refine ⟨hsound, hsame, ⟨used, hused, ((hok used).1 hused).2⟩, (hother totalLast hsame).2 hsound, hwordy, ?_⟩
  obtain ⟨fault, -, hfault⟩ := (used_or_firstFault wordy).1 hwordy
  exact ⟨fault, hfault⟩

-- with a negative figure a difference on the way may be out of range although the result is not
example : parse "MemTotal: 9223372036854775807\nMemFree: -5\nBuffers: 9223372036854775807" =
    .error .usedMemoryOverflow := by decide +kernel

end PlatformSnapshot.UsedMemory
