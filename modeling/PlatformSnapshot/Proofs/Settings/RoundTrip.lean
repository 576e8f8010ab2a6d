import PlatformSnapshot.Proofs.Document
import PlatformSnapshot.Proofs.Json.Decode
import PlatformSnapshot.Proofs.Toml.Reading
import PlatformSnapshot.Proofs.Yaml.Reading
import PlatformSnapshot.Settings.Load
/-!
Settings are read back from what they are written as, in each format: a setting that is unset stays
unset, and a text stays that text however it is spelled. It makes no difference which of the names are
written with dashes, nor which of the settings that are unset are left out.
-/
namespace PlatformSnapshot.Settings

open Document (ofOption IsFlat IsLeaf IsName isLeaf_ofOption)

/-- The name of each setting and its value. -/
def fields (s : Settings) : List (String × Document) := [
  ("proc_root", ofOption .text s.procRoot),
  ("node_root", ofOption .text s.nodeRoot),
  ("resctrl_root", ofOption .text s.resctrlRoot),
  ("enable_rdt", ofOption .flag s.resourceControl),
  ("parallel_collection", ofOption .flag s.parallel),
  ("output_format", ofOption .text s.outputFormat),
  ("log_level", ofOption .text s.logLevel)]

theorem document_eq_record (s : Settings) : s.document = .record s.fields := rfl

def dashed (name : String) : String := .ofList (name.toList.map fun c => if c = '_' then '-' else c)

/-- A name as it is written, if some names are written with dashes. -/
def spelling (renamed : String → Bool) (name : String) : String := if renamed name then dashed name else name

def isUnset : Document → Bool
  | .null => true
  | _ => false

/-- The settings with some names written with dashes, and without some of those that are unset. -/
def respelled (renamed omitted : String → Bool) (s : Settings) : List (String × Document) :=
  s.fields.filterMap fun e =>
    if omitted e.1 && isUnset e.2 then none else some (spelling renamed e.1, e.2)

/-- A document as text in a format. -/
def Format.write (d : Document) : Format → String
  | .json => Json.renderPretty d
  | .yaml => Yaml.render d
  | .toml => Toml.render d

theorem render_eq_write (s : Settings) (format : Format) : s.render format = format.write s.document := by
  cases format <;> rfl

theorem respelled_as_they_are (s : Settings) : s.respelled (fun _ => false) (fun _ => false) = s.fields := by
  simp [respelled, spelling]

/-- The names of the settings, none of which is spelled like another. -/
def fieldNames : List String :=
  ["proc_root", "node_root", "resctrl_root", "enable_rdt", "parallel_collection", "output_format", "log_level"]

theorem names_eq : names = fieldNames.map fun name => [name, dashed name] := by decide

theorem map_fst_fields (s : Settings) : s.fields.map (·.1) = fieldNames := rfl

theorem mem_names_spelling (renamed : String → Bool) {a b : String} (ha : a ∈ fieldNames) (hb : b ∈ fieldNames) :
    spelling renamed b ∈ [a, dashed a] ↔ b = a := by
  have hall : ∀ a ∈ fieldNames, ∀ b ∈ fieldNames, (dashed b ∈ [a, dashed a] ↔ b = a) ∧
      (b ∈ [a, dashed a] ↔ b = a) := by
    decide
  rw [spelling]
  split
  · exact (hall a ha b hb).1
  · exact (hall a ha b hb).2

theorem isName_spelling (renamed : String → Bool) {a : String} (ha : a ∈ fieldNames) :
    IsName (spelling renamed a).toList := by
  have hall : ∀ a ∈ fieldNames, IsName (dashed a).toList ∧ IsName a.toList := by decide
  rw [spelling]
  split
  · exact (hall a ha).1
  · exact (hall a ha).2

theorem isFlat_respelled (renamed omitted : String → Bool) (s : Settings) : IsFlat (s.respelled renamed omitted) := by
  have hrow : ∀ f ∈ s.respelled renamed omitted, ∃ e ∈ s.fields, f = (spelling renamed e.1, e.2) := by
    intro f hf
    obtain ⟨e, he, hspelled⟩ := List.mem_filterMap.1 hf
    split at hspelled
    · cases hspelled
    · exact ⟨e, he, (Option.some.inj hspelled).symm⟩
  have hleaves : ∀ e ∈ s.fields, IsLeaf e.2 := by
    have htext := fun o => isLeaf_ofOption (f := .text) IsLeaf.text o
    have hflag := fun o => isLeaf_ofOption (f := .flag) IsLeaf.flag o
    simp [fields, htext, hflag]
  constructor
  case names =>
    intro f hf
    obtain ⟨e, he, rfl⟩ := hrow f hf
    exact isName_spelling renamed (by rw [← map_fst_fields s]; exact List.mem_map_of_mem he)
  case leaves =>
    intro f hf
    obtain ⟨e, he, rfl⟩ := hrow f hf
    exact hleaves e he

/-- What is read of a row: nothing if it is left out, or if the format has no way to write its value. -/
def shown (omitted : String → Bool) (g : Document → Option α) (e : String × Document) : Option α :=
  if omitted e.1 && isUnset e.2 then none else g e.2

/-- The members that a format keeps of settings. -/
def members (renamed omitted : String → Bool) (g : Document → Option α) (s : Settings) : List (String × α) :=
  (s.respelled renamed omitted).filterMap fun e => (g e.2).map fun v => (e.1, v)

theorem members_eq (renamed omitted : String → Bool) (g : Document → Option α) (s : Settings) :
    s.members renamed omitted g =
      s.fields.filterMap fun e => (shown omitted g e).map fun v => (spelling renamed e.1, v) := by
  rw [members, respelled, List.filterMap_filterMap]
  refine List.filterMap_congr fun e _ => ?_
  rw [shown]
  split <;> rfl

theorem pickAll?_members (renamed omitted : String → Bool) (g : Document → Option α) (s : Settings) :
    Fields.pickAll? names (s.members renamed omitted g) = some (s.fields.map (shown omitted g)) := by
  have hmem : ∀ {e}, e ∈ s.fields → e.1 ∈ fieldNames := fun he => map_fst_fields s ▸ List.mem_map_of_mem he
  have hnames : names = s.fields.map fun e => [e.1, dashed e.1] := by
    rw [names_eq, ← map_fst_fields s, List.map_map]
    rfl
  rw [Fields.pickAll?, hnames, members_eq]
  refine mapM_map_eq_some_map fun e he => ?_
  exact Fields.pick?_filterMap Prod.fst (by rw [map_fst_fields]; decide) he fun x hx =>
    mem_names_spelling renamed (hmem he) (hmem hx)

/-- The fields of a format are read as they were written: nothing is what an unset setting is read as. -/
structure Reads (g : Document → Option α) (text : α → Option (Option String))
    (flag : α → Option (Option Bool)) : Prop where
  null : ∀ v ∈ g .null, text v = some none ∧ flag v = some none
  text : ∀ s, ∃ v, g (.text s) = some v ∧ text v = some (some s)
  flag : ∀ b, ∃ v, g (.flag b) = some v ∧ flag v = some (some b)

/-- A field that may be missing. -/
def readField? (f : α → Option (Option β)) : Option α → Option (Option β)
  | none => some none
  | some v => f v

theorem readField?_shown {f : α → Option (Option β)} {g : Document → Option α} {d : β → Document}
    (omitted : String → Bool) (hnull : ∀ v ∈ g .null, f v = some none) (hset : ∀ b, isUnset (d b) = false)
    (hread : ∀ b, ∃ v, g (d b) = some v ∧ f v = some (some b)) (name : String) (o : Option β) :
    readField? f (shown omitted g (name, ofOption d o)) = some o := by
  cases o with
  | none =>
    rw [shown]
    split
    · rfl
    · cases hg : g .null with
      | none => simp [readField?, ofOption, hg]
      | some v => simp [readField?, ofOption, hg, hnull v hg]
  | some b =>
    obtain ⟨v, hv, hf⟩ := hread b
    simp [shown, ofOption, hset, hv, readField?, hf]

variable {text : α → Option (Option String)} {flag : α → Option (Option Bool)} {g : Document → Option α}

theorem ofFields?_shown (h : Reads g text flag) (omitted : String → Bool) (s : Settings) :
    ofFields? text flag (s.fields.map (shown omitted g)) = some s := by
  have htext := readField?_shown (d := .text) omitted (fun v hv => (h.null v hv).1) (fun _ => rfl) h.text
  have hflag := readField?_shown (d := .flag) omitted (fun v hv => (h.null v hv).2) (fun _ => rfl) h.flag
  have hfields : ∀ a b c d e f i, ofFields? text flag [a, b, c, d, e, f, i] = do
      return { procRoot := ← readField? text a, nodeRoot := ← readField? text b
               resctrlRoot := ← readField? text c
               resourceControl := ← readField? flag d, parallel := ← readField? flag e
               outputFormat := ← readField? text f, logLevel := ← readField? text i } := fun _ _ _ _ _ _ _ => rfl
  simp [fields, hfields, htext, hflag]

/-- A format in which the fields are read gives the settings back. -/
theorem ofFields?_members (h : Reads g text flag) (renamed omitted : String → Bool) (s : Settings) :
    (do ofFields? text flag (← Fields.pickAll? names (s.members renamed omitted g))) = some s :=
  bind_eq_some (pickAll?_members renamed omitted g s) (ofFields?_shown h omitted s)

/-- A format that has a way to write every value keeps all the entries. -/
theorem members_some {f : Document → α} (renamed omitted : String → Bool) (s : Settings) :
    s.members renamed omitted (fun d => some (f d)) = (s.respelled renamed omitted).map fun e => (e.1, f e.2) := by
  rw [members, ← List.filterMap_eq_map]
  rfl

section

variable (renamed omitted : String → Bool) (s : Settings)

theorem reads_json : Reads (fun d => some (Json.termOf d)) (fun t => Json.Term.optional? Json.Term.text? (some t))
    (fun t => Json.Term.optional? Json.Term.flag? (some t)) where
  null := by
    rintro v ⟨⟩
    exact ⟨rfl, rfl⟩
  text s := ⟨_, rfl, Json.Term.optional?_termOf rfl Json.Term.text?_termOf (some s)⟩
  flag b := ⟨_, rfl, Json.Term.optional?_termOf rfl Json.Term.flag?_termOf (some b)⟩

theorem ofJson?_respelled : ofJson? (Json.renderPretty (.record (s.respelled renamed omitted))) = some s := by
  have hleaf : ∀ {d}, IsLeaf d → Json.IsExact d := by
    rintro d (_ | _ | _) <;> trivial
  have hexact : Json.IsExact (.record (s.respelled renamed omitted)) :=
    (Json.isExact_record _).2 fun e he => hleaf ((isFlat_respelled renamed omitted s).leaves e he)
  rw [ofJson?]
  refine bind_eq_some (Json.ofText?_render hexact).2 ?_
  rw [Json.Term.fields?_record, ← members_some]
  exact ofFields?_members reads_json renamed omitted s

section

open Yaml

/-- Text that is written plain is not spelled like nothing, so no text is taken for nothing. -/
theorem isPresent?_text (s : String) : isPresent? (scalarOf (.text s)) = some true := by
  rw [isPresent?, scalarOf]
  split
  case isTrue => rfl
  case isFalse hplain =>
    have hspelling := isAmbiguous_of_plain (not_not.1 hplain)
    simp only [Spelling.isAmbiguous, Bool.or_eq_false_iff] at hspelling
    simp [hspelling]

theorem reads_yaml (d : Stream) : Reads (fun d => some (Node.scalar (scalarOf d)))
    (fun v => (d.scalar? v).bind (ofScalar? fun s => some (.ofList s.text)))
    (fun v => (d.scalar? v).bind (ofScalar? scalarFlag?)) where
  null := by
    rintro v ⟨⟩
    exact ⟨rfl, rfl⟩
  text s := by
    refine ⟨_, rfl, ?_⟩
    rw [Stream.scalar?, Option.bind_some, ofScalar?, isPresent?_text]
    simp [scalarOf]
  flag b := by
    refine ⟨_, rfl, ?_⟩
    cases b <;> rfl

theorem ofYaml?_respelled : ofYaml? (Yaml.render (.record (s.respelled renamed omitted))) = some s := by
  have hmembers : ∀ d : Stream, ((s.respelled renamed omitted).map entryNodes).mapM
      (fun e : Node × Node => do return (String.ofList (← d.scalar? e.1).text, e.2)) =
        some (s.members renamed omitted fun d => some (Node.scalar (scalarOf d))) := by
    intro d
    rw [members_some]
    exact mapM_map_eq_some_map fun e _ => by simp [entryNodes, Stream.scalar?]
  rw [ofYaml?]
  refine bind_eq_some (Yaml.ofText?_render (isFlat_respelled renamed omitted s)) ?_
  exact bind_eq_some (hmembers _) (ofFields?_members (reads_yaml _) renamed omitted s)

end

theorem reads_toml : Reads (fun d => (Toml.valueOf? d).map some)
    (fun | some (.text cs) => some (some (.ofList cs)) | _ => none)
    (fun | some (.flag b) => some (some b) | _ => none) where
  null := by
    rintro v ⟨⟩
  text s := ⟨_, rfl, by simp⟩
  flag b := ⟨_, rfl, rfl⟩

theorem ofToml?_respelled : ofToml? (Toml.render (.record (s.respelled renamed omitted))) = some s := by
  have hmembers : ((Toml.membersOf (s.respelled renamed omitted)).map fun e => (e.1, some e.2)).map
      (fun m : List Char × Option Toml.Value => (String.ofList m.1, m.2)) =
        s.members renamed omitted fun d => (Toml.valueOf? d).map some := by
    rw [Toml.membersOf, members, List.map_map, List.map_filterMap]
    refine List.filterMap_congr fun e _ => ?_
    cases Toml.valueOf? e.2 <;> simp
  rw [ofToml?]
  refine bind_eq_some (Toml.members?_render (isFlat_respelled renamed omitted s)) ?_
  have h := ofFields?_members reads_toml renamed omitted s
  rw [← hmembers] at h
  exact h

theorem parse?_respelled (format : Format) :
    parse? (format.write (.record (s.respelled renamed omitted))) format = some s :=
  match format with
  | .json => ofJson?_respelled renamed omitted s
  | .yaml => ofYaml?_respelled renamed omitted s
  | .toml => ofToml?_respelled renamed omitted s

/-- Settings that are written in a format are read back from a file whose extension tells that format, and so
they are if any of their names are written with dashes and any of the unset ones are left out. -/
theorem parse_written (name : String) (extension : Option String)
    (hext : Format.ofName extension = Format.ofName (some name)) :
    parse (s.render (.ofName (some name))) (.ofName extension) = .ok s ∧
      parse ((Format.ofName (some name)).write (.record (s.respelled renamed omitted))) (.ofName extension) =
        .ok s := by
  have hparse : ∀ renamed omitted,
      parse ((Format.ofName (some name)).write (.record (s.respelled renamed omitted))) (.ofName extension) =
        .ok s := by
    intro renamed omitted
    rw [parse, hext, parse?_respelled]
  constructor
  · have h := hparse (fun _ => false) fun _ => false
    rwa [respelled_as_they_are, ← document_eq_record, ← render_eq_write] at h
  · exact hparse renamed omitted

end

/-- Settings whose texts look like something else, and of which most are unset. -/
def lookalikes : Settings where
  procRoot := some "true"
  outputFormat := some "null"
  logLevel := some "1e3"

theorem parse_written_lookalikes :
    parse (lookalikes.render .yaml) (.ofName none) = .ok lookalikes ∧
      parse (Format.yaml.write (.record (lookalikes.respelled (· == "proc_root") fun _ => true))) (.ofName none) =
        .ok lookalikes :=
  parse_written (· == "proc_root") (fun _ => true) lookalikes "yaml" none (by decide)

example : parse "proc-root: 'true'\noutput_format: 'null'\nlog_level: '1e3'\n" .yaml = .ok lookalikes := by
  decide +kernel

end PlatformSnapshot.Settings
