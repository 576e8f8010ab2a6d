import PlatformSnapshot.Settings.Document
/-!
The arguments of the command line. They are read from left to right: options of the program, then
possibly a command with options of its own, which ends the program's. Every option may be given once.
The value of an option follows it, or an equals sign; a value that is a separate argument must not
look like an option. The first argument that asks for help or for the version, or that is wrong,
decides.
-/
namespace PlatformSnapshot.CommandLine

inductive OutputFormat where
  | json
  | yaml
  | prometheus
  deriving DecidableEq, Repr

def OutputFormat.name : OutputFormat → String
  | .json => "json"
  | .yaml => "yaml"
  | .prometheus => "prometheus"

def OutputFormat.ofName? (s : String) : Option OutputFormat :=
  [OutputFormat.json, .yaml, .prometheus].find? fun f => f.name == s

/-- The format of this name in any case of its letters. -/
def OutputFormat.ofText? (s : String) : Option OutputFormat := ofName? (Settings.lowerCase s)

inductive LogLevel where
  | off
  | error
  | warn
  | info
  | debug
  | trace
  deriving DecidableEq, Repr

def LogLevel.name : LogLevel → String
  | .off => "off"
  | .error => "error"
  | .warn => "warn"
  | .info => "info"
  | .debug => "debug"
  | .trace => "trace"

def LogLevel.ofName? (s : String) : Option LogLevel :=
  [LogLevel.off, .error, .warn, .info, .debug, .trace].find? fun l => l.name == s

/-- The level of this name in any case of its letters. -/
def LogLevel.ofText? (s : String) : Option LogLevel := ofName? (Settings.lowerCase s)

inductive Command where
  | collect (format : Option OutputFormat) (platformOnly : Bool)
  | check (probeResourceControl : Bool)
  deriving DecidableEq, Repr

structure Arguments where
  logLevel : Option LogLevel := none
  config : Option String := none
  noConfig : Bool := false
  showConfig : Bool := false
  configFormat : Option Settings.Format := none
  checkConfig : Bool := false
  procRoot : Option String := none
  nodeRoot : Option String := none
  resctrlRoot : Option String := none
  withoutResourceControl : Bool := false
  parallel : Bool := false
  command : Option Command := none
  deriving DecidableEq, Repr

/-- Why reading the arguments ended without a task to do. -/
inductive Stop where
  | help
  /-- The version is asked for, of the program or of one of its commands. -/
  | version (command : Option String)
  | misuse
  deriving DecidableEq, Repr

/-- What an option does to the arguments so far. -/
inductive Effect (α : Type) where
  /-- Takes no value; fails if it was given before. -/
  | switch (f : α → Option α)
  /-- Takes a value; fails if it was given before or the value is none of its own. -/
  | value (f : String → α → Option α)
  | stop (s : Stop)

/-- Sets what has not been set. -/
def setOnce (old : Option β) (new : Option β) : Option (Option β) :=
  match old, new with
  | none, some b => some (some b)
  | _, _ => none

def switchOnce (old : Bool) : Option Bool := if old then none else some true

/-- A path is any text but the empty one. -/
def path? (s : String) : Option String := if s = "" then none else some s

def settingsFormat? : String → Option Settings.Format
  | "yaml" => some .yaml
  | "json" => some .json
  | "toml" => some .toml
  | _ => none

def programOption : String → Option (Effect Arguments)
  | "log-level" => some (.value fun s a =>
      (setOnce a.logLevel (LogLevel.ofName? s)).map fun v => { a with logLevel := v })
  | "config" => some (.value fun s a => (setOnce a.config (path? s)).map fun v => { a with config := v })
  | "no-config" => some (.switch fun a => (switchOnce a.noConfig).map fun b => { a with noConfig := b })
  | "show-config" => some (.switch fun a =>
      (switchOnce a.showConfig).map fun b => { a with showConfig := b })
  | "config-format" => some (.value fun s a =>
      (setOnce a.configFormat (settingsFormat? s)).map fun v => { a with configFormat := v })
  | "check-config" => some (.switch fun a =>
      (switchOnce a.checkConfig).map fun b => { a with checkConfig := b })
  | "proc-root" => some (.value fun s a =>
      (setOnce a.procRoot (path? s)).map fun v => { a with procRoot := v })
  | "node-root" => some (.value fun s a =>
      (setOnce a.nodeRoot (path? s)).map fun v => { a with nodeRoot := v })
  | "resctrl-root" => some (.value fun s a =>
      (setOnce a.resctrlRoot (path? s)).map fun v => { a with resctrlRoot := v })
  | "disable-rdt" => some (.switch fun a =>
      (switchOnce a.withoutResourceControl).map fun b => { a with withoutResourceControl := b })
  | "parallel" => some (.switch fun a => (switchOnce a.parallel).map fun b => { a with parallel := b })
  | "help" => some (.stop .help)
  | "version" => some (.stop (.version none))
  | _ => none

def commandOption : Command → String → Option (Effect Command)
  | .collect .., "format" => some (.value fun s c =>
      match c with
      | .collect old only => (setOnce old (OutputFormat.ofName? s)).map fun v => .collect v only
      | c => some c)
  | .collect .., "platform-only" => some (.switch fun c =>
      match c with
      | .collect format old => (switchOnce old).map (.collect format ·)
      | c => some c)
  | .check _, "rdt" => some (.switch fun c =>
      match c with
      | .check old => (switchOnce old).map .check
      | c => some c)
  | _, "help" => some (.stop .help)
  | .collect .., "version" => some (.stop (.version (some "collect")))
  | .check _, "version" => some (.stop (.version (some "check")))
  | _, _ => none

/-- The full name of an option of one letter. -/
def programLetter : Char → Option String
  | 'c' => some "config"
  | 'h' => some "help"
  | 'V' => some "version"
  | _ => none

def commandLetter : Command → Char → Option String
  | .collect .., 'f' => some "format"
  | _, 'h' => some "help"
  | _, 'V' => some "version"
  | _, _ => none

/-- How the options of one level are known. -/
structure Vocabulary (α : Type) where
  effect : String → Option (Effect α)
  letter : Char → Option String

def programVocabulary : Vocabulary Arguments := ⟨programOption, programLetter⟩

def commandVocabulary (c : Command) : Vocabulary Command := ⟨commandOption c, commandLetter c⟩

/-- An option as it stands in one argument. -/
inductive Spelled (α : Type) where
  /-- Complete with its value, if it takes one. -/
  | done (a : α)
  /-- The value is still to come. -/
  | pending (f : String → α → Option α) (a : α)

def orMisuse : Option α → Except Stop α
  | some a => .ok a
  | none => .error .misuse

/-- Applies an option to what stands behind it in the same argument, if anything does. -/
def spell (e : Effect α) (value : Option String) (a : α) : Except Stop (Spelled α) :=
  match e, value with
  | .stop s, none => .error s
  | .switch f, none => (orMisuse (f a)).map .done
  | .value f, some v => (orMisuse (f v a)).map .done
  | .value f, none => .ok (.pending f a)
  | _, some _ => .error .misuse

/-- An option by its full name, with a value behind an equals sign if it has one. -/
def spellName (voc : Vocabulary α) (cs : List Char) (a : α) : Except Stop (Spelled α) := do
  let (name, value) := match Text.splitOnce? '=' cs with
    | some (name, value) => (name, some (String.ofList value))
    | none => (cs, none)
  spell (← orMisuse (voc.effect (.ofList name))) value a

/-- The value that stands right behind the letter of its option. -/
def adjoined? : List Char → Option String
  | [] => none
  | '=' :: v => some (.ofList v)
  | v => some (.ofList v)

/-- Options of one letter in a row; the first one that takes a value takes the rest of the row. -/
def spellLetters (voc : Vocabulary α) (a : α) : List Char → Except Stop (Spelled α)
  | [] => .ok (.done a)
  | c :: r => do
    match ← orMisuse ((voc.letter c).bind voc.effect) with
    | .stop s => .error s
    | .switch f => spellLetters voc (← orMisuse (f a)) r
    | .value f => spell (.value f) (adjoined? r) a

/-- The kinds of arguments. -/
inductive Shape where
  | endOfOptions
  | name (cs : List Char)
  | letters (cs : List Char)
  | word (s : String)

def Shape.of (s : String) : Shape :=
  match s.toList with
  | ['-', '-'] => .endOfOptions
  | '-' :: '-' :: cs => .name cs
  | ['-'] => .word s
  | '-' :: cs => .letters cs
  | _ => .word s

/-- Reads the options of one level. What comes after them is the first word and all that follows. -/
def readOptions (voc : Vocabulary α) (waiting : Option (String → α → Option α)) (a : α) :
    List String → Except Stop (α × List String)
  | [] => if waiting.isSome then .error .misuse else .ok (a, [])
  | s :: rest =>
    match waiting, Shape.of s with
    | some f, .word v => do readOptions voc none (← orMisuse (f v a)) rest
    | some _, _ => .error .misuse
    | none, .endOfOptions => if rest = [] then .ok (a, []) else .error .misuse
    | none, .word _ => .ok (a, s :: rest)
    | none, .name cs => do
      match ← spellName voc cs a with
      | .done a => readOptions voc none a rest
      | .pending f a => readOptions voc (some f) a rest
    | none, .letters cs => do
      match ← spellLetters voc a cs with
      | .done a => readOptions voc none a rest
      | .pending f a => readOptions voc (some f) a rest

/-- The options of a command, which nothing may follow. -/
def readCommand (c : Command) (rest : List String) : Except Stop Command := do
  let (c, rest) ← readOptions (commandVocabulary c) none c rest
  if rest = [] then return c else .error .misuse

def isCommandName (s : String) : Bool := s == "collect" || s == "check" || s == "help"

def Arguments.read (args : List String) : Except Stop Arguments := do
  let (a, rest) ← readOptions programVocabulary none {} args
  match rest with
  | [] => return a
  | "collect" :: rest => return { a with command := some (← readCommand (.collect none false) rest) }
  | "check" :: rest => return { a with command := some (← readCommand (.check false) rest) }
  | "help" :: rest => .error (if rest.all isCommandName then .help else .misuse)
  | _ => .error .misuse

end PlatformSnapshot.CommandLine
