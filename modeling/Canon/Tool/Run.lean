import Canon.Print.Render
import Canon.Program.Validate
import Canon.Text.Quoted
import Canon.Tool.CommandLine
import Canon.Tool.FrontEnd

/-!
# A run

A run takes a source file through the stages: it is loaded, the back end is asked whether it is there, a front end turns
the source into a program, the program is validated, and its text goes to standard output. The first stage that fails
ends the run, and nothing but a line about a syntax error goes to standard output before the last stage.
-/

namespace Canon

/-- What a run asks of the host that it takes place on. -/
structure Host where
  fileContents : String → Except SystemError (List UInt8)
  /-- Runs a command with a text on its standard input. -/
  runFrontEnd : Command → String → Except SystemError Response
  /-- Tells why bytes are no reply. -/
  explain : List UInt8 → String

/-! ## The log -/

/-- What is written to standard error about a run: the failure that ended it, or a note on how it goes. -/
inductive Note where
  | loaded (path : String) (source : String)
  | backend (backend : Backend)
  | starting (command : Command)
  | ended (response : Response)
  | rendered (program : Program) (text : String)
  | structural (failure : Failure)
  | failed (failure : Failure)
  deriving DecidableEq, Repr

namespace Note

/-- Notes are written only if they have been asked for, and a failure always. -/
def isQuiet : Note → Bool
  | .failed _ => false
  | _ => true

def text : Note → String
  | .loaded path source =>
    "[DEBUG mvm] loaded " ++ toString source.utf8ByteSize ++ " bytes from " ++ path
  | .backend b => "[INFO  mvm] back end: " ++ b.name
  | .starting command =>
    "[DEBUG mvm::frontend] running front end: " ++ command.program ++ " " ++ Text.quotedList command.args
  | .ended response =>
    "[DEBUG mvm::frontend] front end exited with " ++ response.status.text ++ ", " ++
      toString response.bytes.length ++ " bytes of reply"
  | .rendered program text =>
    "[DEBUG mvm] rendered " ++ toString program.nodes.size ++ " nodes into " ++ toString text.utf8ByteSize ++ " bytes"
  | .structural failure => "[DEBUG mvm] " ++ failure.message
  | .failed failure => "error: " ++ failure.message

/-- A message with all of its lines but the first indented. -/
def indentLines (message : List Char) : List Char :=
  message.flatMap fun c => if c = '\n' then "\n    ".toList else [c]

/-- What is written for a note. -/
def record (n : Note) : String :=
  (if n.isQuiet then String.ofList (indentLines n.text.toList) else n.text) ++ "\n"

end Note

/-! ## The stages -/

/-- A stage notes what it does, and may fail. -/
abbrev Stage := ExceptT Failure (StateM (List Note))

namespace Stage

def note (n : Note) : Stage Unit := fun notes => (.ok (), notes ++ [n])

def ofExcept {α : Type} (result : Except Failure α) : Stage α := fun notes => (result, notes)

end Stage

def Program.accept (program : Program) : Stage Unit :=
  Stage.ofExcept (program.validate.mapError fun
    | .defect defect => .invalidTree defect
    | .fault fault => .fault fault)

def Program.canonicalText (program : Program) (width : Nat) : Stage String := do
  let text ← Stage.ofExcept ((program.render width).mapError .fault)
  Stage.note (.rendered program text)
  pure text

namespace Host

def load (host : Host) (path : String) : Stage String := do
  let bytes ← Stage.ofExcept ((host.fileContents path).mapError (.unreadable path))
  let source ← match String.fromUTF8? ⟨bytes.toArray⟩ with
    | some source => pure source
    | none => Stage.ofExcept (.error (.unreadable path .notText))
  Stage.note (.loaded path source)
  pure source

def parse (host : Host) (command : Command) (source : String) : Stage Program := do
  Stage.note (.starting command)
  let response ← Stage.ofExcept ((host.runFrontEnd command source).mapError (.notStarted command.program))
  Stage.note (.ended response)
  Stage.ofExcept (command.settle host.explain response)

def canonicalText (host : Host) (options : Options) (source : String) : Stage String := do
  Stage.note (.backend options.backend)
  if !options.backend.isAvailable then Stage.ofExcept (.error (.unavailable options.backend))
  let command ← Stage.ofExcept (options.frontEnd.elim (.error .noFrontEnd) Command.ofLine)
  let program ← host.parse command source
  program.accept
  program.canonicalText options.indent

end Host

/-! ## The whole run -/

structure Place where
  file : String
  position : Text.Position
  deriving DecidableEq, Repr

def Place.text (p : Place) : String :=
  p.file ++ ":" ++ toString p.position.line ++ ":" ++ toString p.position.column

structure Outcome where
  exitCode : Nat
  stdout : String := ""
  notes : List Note := []
  report : Option Place := none
  deriving DecidableEq, Repr

def Outcome.stderr (o : Outcome) (verbose : Nat) : String :=
  String.join ((o.notes.filter fun n => 0 < verbose || !n.isQuiet).map Note.record)

def faultCode : Nat := 101

/-- What comes of a failure. A syntax error has its line on standard output and its report. -/
def Outcome.ofFailure (path source : String) (notes : List Note) (failure : Failure) : Outcome :=
  match failure with
  | .syntaxError e =>
    { exitCode := 1, stdout := e.line source, notes := notes ++ [.structural failure],
      report := (e.reported? source).map fun position => ⟨path, position⟩ }
  | .fault _ => { exitCode := faultCode, notes }
  | _ => { exitCode := 1, notes := notes ++ [.failed failure] }

namespace Host

def runFile (host : Host) (options : Options) (path : String) : Outcome :=
  match host.load path [] with
  | (.error failure, notes) => Outcome.ofFailure path "" notes failure
  | (.ok source, notes) =>
    match host.canonicalText options source notes with
    | (.error failure, notes) => Outcome.ofFailure path source notes failure
    | (.ok text, notes) => { exitCode := 0, stdout := text, notes }

/-- Runs the tool on an accepted command line. A request for completions needs no file, and nothing is printed for one.
-/
def run (host : Host) (options : Options) : Outcome :=
  if options.completions.isSome then { exitCode := 0 }
  else match options.file with
    | none => { exitCode := 0 }
    | some path => host.runFile options path

end Host

end Canon
