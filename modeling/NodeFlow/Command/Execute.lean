import NodeFlow.Command.Parse
import NodeFlow.Compile.Compiler
import NodeFlow.Description.Load
import NodeFlow.Diagram.Description
/-!
# Carrying out commands

What a command writes and how it ends, given the files it names, the settings, and what comes back over
a session. A run writes its diagnostics as they come up, then its result and the context it leaves,
without the last result, which is of no use outside.

Failures of the library's own are written as messages. Others are not the command's to explain: they
end it, and whoever runs it learns of them.
-/

set_option autoImplicit false

namespace NodeFlow

namespace Command

/-- How a command ends: its exit code, what it writes, what has happened, and the failure that it does
not explain, if that is what ended it. -/
structure Report where
  exitCode : Nat
  out : String
  err : String
  journal : List Event
  failure : Option Failure

namespace Report

/-- A command that has done its work. -/
def success (out : String) : Report := ⟨0, out, "", [], none⟩

/-- A line that is no request, or that names a context which is no object. -/
def usage : Report := ⟨2, "", "", [], none⟩

end Report

/-- Does the library explain a failure itself? -/
def isExplained : Failure → Bool
  | .execution _ | .undecodable | .notDescription _ | .invalid _ | .notNode _ _
  | .missingCollaborator _ _ | .generation _ => true
  | _ => false

/-- The end of a command that fails, behind what it has written of diagnostics. -/
def failing (diagnostics : String) (journal : List Event) (e : Failure) : Report :=
  if isExplained e then ⟨1, "", diagnostics ++ "Error: " ++ e.message ++ "\n", journal, none⟩
  else ⟨1, "", diagnostics, journal, some e⟩

/-- What commands are carried out with. -/
structure Surroundings where
  files : String → Option String
  settings : Except Fault Settings
  session : Nat → SessionAnswer

/-- The world at the start: nothing in memory, and one subscriber, who writes diagnostics down. -/
def startWorld : World where
  heap := .empty
  channel := (Channel.ofLimit (some Channel.standardLimit)).subscribe ⟨0, "", false⟩
  memory := #[]
  calls := .none
  journal := []

/-- The compiler of a command: no model, and a client over the session. -/
def compilerFor (s : Surroundings) : Compiler :=
  .ofEnvironment ⟨none, none, some s.session, .null, s.settings⟩

/-- The description in a file. A file that has gone is an empty one. -/
def loadFile (s : Surroundings) (path : String) : Except Failure Value :=
  Description.load ((s.files path).getD "")

/-! ## 1. Checking, drawing, listing -/

/-- Checks a description. -/
def validateFile (s : Surroundings) (path : String) : Report :=
  match loadFile s path with
  | .error e => failing "" [] e
  | .ok d =>
    match (compilerFor s).problems d with
    | .error f => failing "" [] (.fault f)
    | .ok [] => .success ("OK  " ++ path ++ "\n")
    | .ok ps =>
      ⟨1, "", String.join (ps.map fun p => "  ✗ " ++ p.message ++ "\n"), [], none⟩

/-- Draws a description. -/
def drawFile (s : Surroundings) (path : String) : Report :=
  match loadFile s path with
  | .error e => failing "" [] e
  | .ok d =>
    match Diagram.ofDescription d with
    | .error f => failing "" [] (.fault f)
    | .ok text => .success (text ++ "\n")

/-- Lists the kinds. -/
def listKinds (s : Surroundings) : Report :=
  .success (String.join ((compilerFor s).kinds.map (· ++ "\n")))

/-! ## 2. Running -/

/-- The diagnostics that were written down, a line each. -/
def diagnosticLines (journal : List Event) : String :=
  String.join (journal.reverse.filterMap fun
    | .delivered d => some ("  ! [" ++ d.record.code ++ "] " ++ d.record.message ++ "\n")
    | _ => none)

/-- The context that a run starts with: that of the file overlaid with the one that is given. -/
def contextFor (s : Surroundings) (shared sharedFile : Option String) :
    Except Failure (Members Value) := do
  let fromFile ← match sharedFile with
    | some path => loadFile s path
    | none => .ok (.ofMembers [])
  let given ← match shared with
    | none | some "" => .ok (.ofMembers [])
    | some text => Description.load text
  .ok (Members.putAll fromFile.members given.members)

/-- What a run writes at its end. -/
def resultText (label : Value) (context : Members Value) : String :=
  let shown := if label.isNull then defaultLabel else label.plain
  let rest := Members.erase Declared.lastResultKey context
  "result: " ++ shown ++ "\n" ++ Json.renderIndented (.ofMembers rest) ++ "\n"

/-- Runs a compiled description in a context. -/
def runIn (compiled : Compiled) (context : Members Value) (w : World) : Report :=
  let kept := w.heap.keep (.ofMembers context)
  let shared : Shared := ⟨Compiler.addressOf (kept.2.view kept.1), none⟩
  match compiled.run shared { w with heap := kept.2 } with
  | (.error e, w) => failing (diagnosticLines w.journal) w.journal.reverse e
  | (.ok label, w) =>
    ⟨0, resultText (w.heap.view label) (shared.content w.heap).members, diagnosticLines w.journal,
      w.journal.reverse, none⟩

/-- Runs a description. A context that is no object is reported like a line that is no request. -/
def runFile (s : Surroundings) (path : String) (shared sharedFile : Option String) : Report :=
  match s.settings with
  | .error f => failing "" [] (.fault f)
  | .ok _ =>
    match contextFor s shared sharedFile with
    | .error _ => .usage
    | .ok context =>
      match loadFile s path with
      | .error e => failing "" [] e
      | .ok d =>
        match (compilerFor s).compile d startWorld with
        | (.error e, w) => failing (diagnosticLines w.journal) w.journal.reverse e
        | (.ok compiled, w) => runIn compiled context w

/-- Carries out a command. -/
def execute (s : Surroundings) : Command → Report
  | .validate path => validateFile s path
  | .run path shared sharedFile => runFile s path shared sharedFile
  | .draw path => drawFile s path
  | .kinds => listKinds s

/-- Carries out the command of a line. -/
def runLine (s : Surroundings) (words : List String) : Report :=
  match ofWords (fun path => (s.files path).isSome) words with
  | some c => c.execute s
  | none => .usage

end Command

end NodeFlow
