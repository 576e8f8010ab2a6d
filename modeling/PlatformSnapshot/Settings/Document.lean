import PlatformSnapshot.Settings.Basic
import PlatformSnapshot.Json.Decode
import PlatformSnapshot.Json.Writer
import PlatformSnapshot.Yaml.Node
import PlatformSnapshot.Yaml.Writer
import PlatformSnapshot.Toml.Table
import PlatformSnapshot.Toml.Writer
/-!
Settings as text in three formats. In all of them a setting is known by its name or by the same name
with dashes, foreign members are passed over, and a setting that is missing stays unset. JSON and YAML
can also say that a setting is unset; JSON also takes a list of all the settings in order.
-/
namespace PlatformSnapshot.Settings

inductive Format where
  | json
  | yaml
  | toml
  deriving DecidableEq, Repr

/-- YAML unless the name of a format says otherwise. -/
def Format.ofName (name : Option String) : Format :=
  if name = some "json" then .json else if name = some "toml" then .toml else .yaml

/-- The names of each setting. -/
def names : List (List String) := [
  ["proc_root", "proc-root"],
  ["node_root", "node-root"],
  ["resctrl_root", "resctrl-root"],
  ["enable_rdt", "enable-rdt"],
  ["parallel_collection", "parallel-collection"],
  ["output_format", "output-format"],
  ["log_level", "log-level"]]

/-- Settings from the values of the fields, where there are any. -/
def ofFields? (text : α → Option (Option String)) (flag : α → Option (Option Bool))
    (fields : List (Option α)) : Option Settings := do
  let [procRoot, nodeRoot, resctrlRoot, resourceControl, parallel, outputFormat, logLevel] := fields
    | none
  let text (v : Option α) := match v with
    | none => some none
    | some v => text v
  let flag (v : Option α) := match v with
    | none => some none
    | some v => flag v
  return {
    procRoot := ← text procRoot
    nodeRoot := ← text nodeRoot
    resctrlRoot := ← text resctrlRoot
    resourceControl := ← flag resourceControl
    parallel := ← flag parallel
    outputFormat := ← text outputFormat
    logLevel := ← text logLevel }

def ofJson? (s : String) : Option Settings := do
  let t ← Json.Term.ofText? s
  ofFields? (fun t => Json.Term.optional? Json.Term.text? (some t))
    (fun t => Json.Term.optional? Json.Term.flag? (some t)) (← t.fields? names)

section

open Yaml

/-- Whether a scalar stands for a value at all. A plain one stands for none if it is empty or spelled
like nothing; one that is tagged as nothing has to be spelled so. -/
def isPresent? (s : Scalar) : Option Bool :=
  if s.style ≠ .plain then some true
  else match s.tag with
    | none => some (!s.text.isEmpty && !Spelling.isNull s.text)
    | some tag =>
      if tag = "tag:yaml.org,2002:null".toList then
        (if Spelling.isNull s.text then some false else none)
      else some true

def ofScalar? (f : Scalar → Option α) (s : Scalar) : Option (Option α) := do
  if ← isPresent? s then some <$> f s else return none

/-- A truth value is plain, or a literal block that is tagged as one. -/
def scalarFlag? (s : Scalar) : Option Bool :=
  if s.style = .plain ∨ (s.style = .literal ∧ s.tag = some "tag:yaml.org,2002:bool".toList) then
    Spelling.flag? s.text
  else none

def ofYamlStream? (d : Stream) : Option Settings := do
  let .mapping entries := d.root | none
  let members ← entries.mapM fun (k, v) => do
    return (String.ofList (← d.scalar? k).text, v)
  ofFields? (fun v => (d.scalar? v).bind (ofScalar? fun s => some (.ofList s.text)))
    (fun v => (d.scalar? v).bind (ofScalar? scalarFlag?)) (← Fields.pickAll? names members)

/-- A text without any document leaves every setting unset. -/
def ofYaml? (s : String) : Option Settings := do
  match ← Stream.ofText? s with
  | none => return {}
  | some d => ofYamlStream? d

end

def ofToml? (s : String) : Option Settings := do
  let members ← Toml.members? s
  let members := members.map fun (k, v) => (String.ofList k, v)
  ofFields?
    (fun
      | some (.text cs) => some (some (.ofList cs))
      | _ => none)
    (fun
      | some (.flag b) => some (some b)
      | _ => none)
    (← Fields.pickAll? names members)

def parse? (s : String) : Format → Option Settings
  | .json => ofJson? s
  | .yaml => ofYaml? s
  | .toml => ofToml? s

def render (s : Settings) : Format → String
  | .json => Json.renderPretty s.document
  | .yaml => Yaml.render s.document
  | .toml => Toml.render s.document

end PlatformSnapshot.Settings
