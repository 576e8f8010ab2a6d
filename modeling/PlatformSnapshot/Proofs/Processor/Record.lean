import Mathlib.Data.List.Nodup
import PlatformSnapshot.Processor.Model
import PlatformSnapshot.Processor.Record
import PlatformSnapshot.Proofs.Processor.Runs
import PlatformSnapshot.Proofs.Text.Numeral
/-!
Processor descriptors as they are written: one line for each field of a record, and an empty line
after each record. Reading gives back the records with their fields, whatever fields there are.
-/
namespace PlatformSnapshot.Processor

open Text

/-- A key and a value around a colon, on one line. -/
structure Field where
  key : List Char
  value : List Char
  colon_free : ':' ∉ key
  one_line : IsLine (key ++ ':' :: value)

namespace Field

def line (f : Field) : List Char := f.key ++ ':' :: f.value

/-- The key as it is looked up. -/
def name (f : Field) : String := .ofList (trim f.key)

def text (f : Field) : String := .ofList (trim f.value)

/-- A field whose value is a word of digits after a blank. -/
def number (key : List Char) (hc : ':' ∉ key) (hk : IsLine key) (n : Nat) : Field where
  key := key
  value := ' ' :: Numeral.ofNat n
  colon_free := hc
  one_line := isLine_append hk
    (isLine_cons (by decide) (by decide) (isLine_cons (by decide) (by decide) (Numeral.isLine_ofNat n)))

theorem pair?_line (f : Field) : pair? f.line = some (f.name, f.text) := by
  simp [pair?, line, splitOnce?_append f.colon_free, name, text]

theorem isBlankLine_line (f : Field) : isBlankLine f.line = false := by
  have hcolon : isBlank ':' = false := by decide
  simp [isBlankLine, line, hcolon]

theorem text_number (key : List Char) (hc : ':' ∉ key) (hk : IsLine key) (n : Nat) :
    (number key hc hk n).text = .ofList (Numeral.ofNat n) :=
  congrArg String.ofList ((Numeral.isWord_ofNat n).isPhrase.trim_cons_blank (by decide))

end Field

/-- The fields of a record by their names; of two with one name the later counts. -/
def Record.of (fields : List Field) : Record := .ofList (fields.map fun f => (f.name, f.text))

theorem Record.name_mem {fields : List Field} {f : Field} (hf : f ∈ fields) :
    f.name ∈ (fields.map fun f => (f.name, f.text)).map (·.1) := by
  rw [List.map_map]
  exact List.mem_map_of_mem hf

theorem Record.get?_of {fields : List Field} {f : Field} (hf : f ∈ fields)
    (hu : ∀ g ∈ fields, g.name = f.name → g.text = f.text) : (Record.of fields).get? f.name = some f.text := by
  refine SortedMap.get?_ofList_of_forall (Record.name_mem hf) ?_
  intro e he
  obtain ⟨g, hg, rfl⟩ := List.mem_map.1 he
  exact hu g hg

/-- The lines of some records. -/
def recordLines (rs : List (List Field)) : List (List Char) :=
  rs.flatMap fun fields => fields.map Field.line ++ [[]]

def render (rs : List (List Field)) : String := .ofList (unlines (recordLines rs))

theorem lines_render (rs : List (List Field)) : lines (render rs).toList = recordLines rs := by
  rw [render, String.toList_ofList]
  refine lines_unlines ?_
  intro l hl
  obtain ⟨fields, -, hl⟩ := List.mem_flatMap.1 hl
  rcases List.mem_append.1 hl with hl | hl
  · obtain ⟨f, -, rfl⟩ := List.mem_map.1 hl
    exact f.one_line
  · obtain rfl := List.mem_singleton.1 hl
    decide

theorem pairs_lines (fields : List Field) : pairs (fields.map Field.line) = fields.map fun f => (f.name, f.text) := by
  have hpair : pair? ∘ Field.line = some ∘ fun f => (f.name, f.text) := funext Field.pair?_line
  rw [pairs, List.filterMap_map, hpair, List.filterMap_eq_map]

/-- The fields of each record are one run of lines. -/
theorem runs_recordLines {rs : List (List Field)} (h : ∀ fields ∈ rs, fields ≠ []) :
    Runs (recordLines rs) (rs.map fun fields => fields.map Field.line) := by
  induction rs with
  | nil => exact .none
  | cons fields rs ih =>
    obtain ⟨hne, hrs⟩ := List.forall_mem_cons.1 h
    have hlines : recordLines (fields :: rs) = fields.map Field.line ++ [] :: recordLines rs := by
      simp [recordLines]
    rw [hlines, List.map_cons]
    refine .run (by simpa using hne) ?_ (by rintro l ⟨⟩; rfl) (.blank rfl (ih hrs))
    intro l hl
    obtain ⟨f, -, rfl⟩ := List.mem_map.1 hl
    exact f.isBlankLine_line

theorem paired_recordLines (rs : List (List Field)) : Paired (recordLines rs) := by
  intro l hl hblank
  obtain ⟨fields, -, hl⟩ := List.mem_flatMap.1 hl
  rcases List.mem_append.1 hl with hl | hl
  · obtain ⟨f, -, rfl⟩ := List.mem_map.1 hl
    simp [Field.line]
  · obtain rfl := List.mem_singleton.1 hl
    cases hblank

/-- Records that are written are read, in their order and with all their fields. -/
theorem records_render {rs : List (List Field)} (h : ∀ fields ∈ rs, fields ≠ []) :
    records (render rs) = .ok (rs.map Record.of) := by
  rw [records, lines_render, recordsFrom_of_runs (runs_recordLines h) (paired_recordLines rs), List.map_map]
  refine congrArg Except.ok (List.map_congr_left fun fields _ => ?_)
  exact congrArg SortedMap.ofList (pairs_lines fields)

def idField (s : Seat) : Field := .number "processor\t".toList (by decide) (by decide) s.id.toNat

def socketField (s : Seat) : Field := .number "physical id\t".toList (by decide) (by decide) s.socket.toNat

def coreField (s : Seat) : Field := .number "core id\t\t".toList (by decide) (by decide) s.core.toNat

/-- The fields that seat a processor. -/
def seatFields (s : Seat) : List Field := [idField s, socketField s, coreField s]

def seatNames : List String := ["processor", "physical id", "core id"]

theorem names_seatFields (s : Seat) : (seatFields s).map Field.name = seatNames := by
  change ["processor\t", "physical id\t", "core id\t\t"].map (fun key => String.ofList (trim key.toList)) = seatNames
  decide

/-- A record seats a processor by these three fields, if no other field has one of their names. -/
theorem seat_of {fields : List Field} {s : Seat} (hseat : ∀ f ∈ seatFields s, f ∈ fields)
    (honly : ∀ f ∈ fields, f.name ∈ seatNames → f ∈ seatFields s) : seat (Record.of fields) = .ok s := by
  have hnodup : ((seatFields s).map Field.name).Nodup := by
    rw [names_seatFields]
    decide
  have hget : ∀ f ∈ seatFields s, (Record.of fields).get? f.name = some f.text := by
    intro f hf
    refine Record.get?_of (hseat f hf) ?_
    intro g hg hname
    have hnames : g.name ∈ seatNames := by
      rw [hname, ← names_seatFields s]
      exact List.mem_map_of_mem hf
    rw [List.inj_on_of_nodup_map hnodup (honly g hg hnames) hf hname]
  have hfield : ∀ f ∈ seatFields s, ∀ (name : String) (n : UInt32), f.name = name →
      f.text = .ofList (Numeral.ofNat n.toNat) → field (Record.of fields) name = .ok n := by
    intro f hf name n hname htext
    have hvalue := hget f hf
    rw [hname, htext] at hvalue
    rw [field, hvalue]
    simp [Numeral.word32?_ofNat]
  obtain ⟨hidName, hsocketName, hcoreName⟩ : (idField s).name = "processor" ∧
      (socketField s).name = "physical id" ∧ (coreField s).name = "core id" := by
    simpa [seatFields, seatNames] using names_seatFields s
  have hid := hfield (idField s) (by simp [seatFields]) _ s.id hidName (Field.text_number ..)
  have hsocket := hfield (socketField s) (by simp [seatFields]) _ s.socket hsocketName (Field.text_number ..)
  have hcore := hfield (coreField s) (by simp [seatFields]) _ s.core hcoreName (Field.text_number ..)
  rw [seat, hid, hsocket, hcore]
  rfl

theorem seats_map {f : Seat → Record} {ss : List Seat} (h : ∀ s ∈ ss, seat (f s) = .ok s) :
    seats (ss.map f) = .ok ss := by
  induction ss with
  | nil => rfl
  | cons s ss ih =>
    obtain ⟨hs, hss⟩ := List.forall_mem_cons.1 h
    rw [List.map_cons, seats, hs, ih hss]
    rfl

/-- The model is what the first record says, if no line before its model line looks like one. -/
theorem model_render {as bs : List Field} {rs : List (List Field)} {m : Field}
    (ha : ∀ f ∈ as, startsWith "model name".toList f.line = false) (hm : m.key = "model name\t".toList) :
    model (render ((as ++ m :: bs) :: rs)) = m.text := by
  have hafter : after? "model name".toList m.line = some ('\t' :: ':' :: m.value) := by
    rw [Field.line, hm]
    exact after?_append "model name".toList ('\t' :: ':' :: m.value)
  have hfind : (recordLines ((as ++ m :: bs) :: rs)).find? (startsWith "model name".toList) = some m.line := by
    have hlines : recordLines ((as ++ m :: bs) :: rs) =
        as.map Field.line ++ m.line :: (bs.map Field.line ++ [] :: recordLines rs) := by
      simp [recordLines]
    have hnone : (as.map Field.line).find? (startsWith "model name".toList) = none := by
      refine List.find?_eq_none.2 ?_
      intro l hl
      obtain ⟨f, hf, rfl⟩ := List.mem_map.1 hl
      exact ne_true_of_eq_false (ha f hf)
    have hstarts : startsWith "model name".toList m.line := by rw [startsWith, hafter]; rfl
    rw [hlines, List.find?_append, hnone, Option.none_or, List.find?_cons_of_pos hstarts]
  have hmodel : modelIn? m.line = some (trim m.value) := by
    rw [modelIn?, hafter]
    rfl
  rw [model, lines_render, hfind]
  simp only [hmodel]
  rfl

end PlatformSnapshot.Processor
