/-!
# Commands

What can be asked for on a command line, and how words become a request. Options may stand before and
behind the path; a word `--` ends them; an option that is given twice counts the last time. Files have
to exist when they are named.

A line that is no request has no meaning here, whatever is wrong with it.
-/

set_option autoImplicit false

namespace NodeFlow

/-- Something to be done. -/
inductive Command
  /-- checks a description -/
  | validate (path : String)
  /-- runs a description in a context, which may be given as JSON, in a file, or both -/
  | run (path : String) (shared sharedFile : Option String)
  /-- draws a description -/
  | draw (path : String)
  /-- lists the kinds of nodes -/
  | kinds
  deriving DecidableEq

namespace Command

/-- The words of a command: what is no option, and the options with their values. -/
structure Words where
  positional : List String
  options : List (String × String)

/-- An option, and whether it takes a value. -/
structure OptionName where
  name : String
  takesValue : Bool

/-- The name of a long option and the value behind its first equals sign, if there is one. -/
def cutAtEquals (word : String) : String × Option String :=
  match word.toList.span (· != '=') with
  | (name, '=' :: value) => (String.ofList name, some (String.ofList value))
  | (name, _) => (String.ofList name, none)

/-- Is a word an option? A single dash is not. -/
def isOption (word : String) : Bool :=
  match word.toList with
  | '-' :: _ :: _ => true
  | _ => false

/-- Adds a word that is no option. -/
def Words.addWord (word : String) (ws : Words) : Words :=
  { ws with positional := word :: ws.positional }

/-- Adds an option behind those that come later in the line: the last one given is found first. -/
def Words.addOption (name value : String) (ws : Words) : Words :=
  { ws with options := ws.options ++ [(name, value)] }

/-- Sorts words into options and others. No option is known but the given ones. -/
def sortWords (known : List OptionName) : List String → Option Words
  | [] => some ⟨[], []⟩
  | "--" :: rest => some ⟨rest, []⟩
  | word :: rest =>
    if !isOption word then (sortWords known rest).map (Words.addWord word)
    else
      let parts := cutAtEquals word
      match known.find? fun o => o.name = parts.1 with
      | none => none
      | some o =>
        match o.takesValue, parts.2 with
        | false, none => (sortWords known rest).map (Words.addOption o.name "")
        | false, some _ => none
        | true, some value => (sortWords known rest).map (Words.addOption o.name value)
        | true, none =>
          match rest with
          | value :: more => (sortWords known more).map (Words.addOption o.name value)
          | [] => none

/-- The value of an option. -/
def Words.value? (ws : Words) (name : String) : Option String := ws.options.lookup name

/-- A command about one file. -/
def aboutFile (exists? : String → Bool) (make : String → Command) (words : List String) :
    Option Command :=
  match sortWords [] words with
  | some ⟨[path], _⟩ => if exists? path then some (make path) else none
  | _ => none

/-- The options of a run. -/
def runOptions : List OptionName := [⟨"--shared", true⟩, ⟨"--shared-file", true⟩, ⟨"--verbose", false⟩]

/-- The command to run a description. -/
def runCommand (exists? : String → Bool) (words : List String) : Option Command :=
  match sortWords runOptions words with
  | some ⟨[path], options⟩ =>
    let ws : Words := ⟨[path], options⟩
    let file := ws.value? "--shared-file"
    if exists? path && file.all exists? then some (.run path (ws.value? "--shared") file) else none
  | _ => none

/-- The command of a line that starts with its name. -/
def ofNamed (exists? : String → Bool) : List String → Option Command
  | "validate" :: words => aboutFile exists? .validate words
  | "show" :: words => aboutFile exists? .draw words
  | "run" :: words => runCommand exists? words
  | "kinds" :: words =>
    match sortWords [] words with
    | some ⟨[], _⟩ => some .kinds
    | _ => none
  | _ => none

/-- The command of a line, given which files exist. -/
def ofWords (exists? : String → Bool) : List String → Option Command
  | "--" :: words => ofNamed exists? words
  | words => ofNamed exists? words

end Command

end NodeFlow
