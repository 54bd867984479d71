import Canon.Json.Reader
import Canon.Program.Decode
import Canon.Program.Defect
import Canon.Text.Blank
import Canon.Tool.Backend
import Canon.Tool.SyntaxError

/-!
# Front ends

A front end is a program of its own. It reads a source and replies with one JSON text: an object with the one member
`ok`, which holds the program, or with the one member `error`, which says where and why the source was turned down.
-/

namespace Canon

/-! ## The outside world -/

/-- Why the system did not do what it was asked for. -/
inductive SystemError where
  | noSuchFile
  | notADirectory
  | isADirectory
  | permissionDenied
  /-- A file was read whose bytes are no text. -/
  | notText
  | other (message : String)
  deriving DecidableEq, Repr, Inhabited

def SystemError.message : SystemError → String
  | .noSuchFile => "No such file or directory (os error 2)"
  | .permissionDenied => "Permission denied (os error 13)"
  | .notADirectory => "Not a directory (os error 20)"
  | .isADirectory => "Is a directory (os error 21)"
  | .notText => "stream did not contain valid UTF-8"
  | .other message => message

inductive ExitStatus where
  | code (code : UInt8)
  | signal (number : Nat)
  deriving DecidableEq, Repr, Inhabited

def signalNames : List String :=
  ["SIGHUP", "SIGINT", "SIGQUIT", "SIGILL", "SIGTRAP", "SIGABRT", "SIGBUS", "SIGFPE", "SIGKILL", "SIGUSR1", "SIGSEGV",
    "SIGUSR2", "SIGPIPE", "SIGALRM", "SIGTERM", "SIGSTKFLT", "SIGCHLD", "SIGCONT", "SIGSTOP", "SIGTSTP", "SIGTTIN",
    "SIGTTOU", "SIGURG", "SIGXCPU", "SIGXFSZ", "SIGVTALRM", "SIGPROF", "SIGWINCH", "SIGIO", "SIGPWR", "SIGSYS"]

namespace ExitStatus

def isSuccess (s : ExitStatus) : Bool := s = .code 0

/-- Signals are numbered from one. -/
def text : ExitStatus → String
  | .code n => "exit status: " ++ toString n.toNat
  | .signal 0 => "signal: 0"
  | .signal (n + 1) =>
    "signal: " ++ toString (n + 1) ++ (match signalNames[n]? with
      | some name => " (" ++ name ++ ")"
      | none => "")

end ExitStatus

/-- All that a front end leaves behind: the bytes of its reply, and how it ended. -/
structure Response where
  bytes : List UInt8
  status : ExitStatus
  deriving DecidableEq, Repr, Inhabited

/-! ## Failures -/

inductive Failure where
  | unreadable (path : String) (cause : SystemError)
  | noFrontEnd
  | notStarted (program : String) (cause : SystemError)
  | noReply (program : String) (status : ExitStatus)
  /-- The cause is what the reader of the reply says. -/
  | malformedReply (cause : String)
  | syntaxError (error : SyntaxError)
  | invalidTree (defect : Defect)
  | unavailable (backend : Backend)
  | fault (fault : Fault)
  deriving DecidableEq, Repr

namespace Failure

def message : Failure → String
  | .unreadable path cause => "cannot read file '" ++ path ++ "': " ++ cause.message
  | .noFrontEnd => "no front end configured (use --frontend or MVM_FRONTEND)"
  | .notStarted program cause => "cannot run front end '" ++ program ++ "': " ++ cause.message
  | .noReply program status => "front end '" ++ program ++ "' exited with " ++ status.text ++ " without a reply"
  | .malformedReply cause => "malformed front-end reply: " ++ cause
  | .syntaxError e => e.text
  | .invalidTree defect => "front end produced an invalid tree: " ++ defect.message
  | .unavailable backend => "back end '" ++ backend.name ++ "' is not available in this build"
  | .fault f => f.message

/-- A failure that the user has already been shown, at its place in the source. -/
def isStructural : Failure → Bool
  | .syntaxError _ => true
  | _ => false

end Failure

/-! ## Replies -/

inductive Reply where
  | ok (program : Program)
  | error (error : SyntaxError)
  deriving DecidableEq, Repr

open Json in
def SyntaxError.decode? (j : Json) : Option SyntaxError := do
  match ← j.record? ["offset", "message"] with
  | [some offset, some message] => some ⟨← offset.natural?, ← message.text?⟩
  | _ => none

def Reply.decode? : Json → Option Reply
  | .object [(some "ok", value)] => (Program.decodeAt? 1 value).map .ok
  | .object [(some "error", value)] => (SyntaxError.decode? value).map .error
  | _ => none

def Reply.ofBytes? (bytes : List UInt8) : Option Reply := (Json.read? bytes).bind Reply.decode?

/-! ## Commands -/

structure Command where
  program : String
  args : List String
  deriving DecidableEq, Repr, Inhabited

namespace Command

/-- The first word of a line is the program and the other words are its arguments. -/
def ofLine (line : String) : Except Failure Command :=
  match Text.words line with
  | program :: args => .ok ⟨program, args⟩
  | [] => .error .noFrontEnd

/-- What a response comes to. A reply counts however the front end ended; its status is looked at only without one. Of
bytes that are no reply `explain` tells why. -/
def settle (explain : List UInt8 → String) (command : Command) (response : Response) : Except Failure Program :=
  match Reply.ofBytes? response.bytes with
  | some (.ok program) => .ok program
  | some (.error e) => .error (.syntaxError e)
  | none =>
    .error (if response.status.isSuccess then .malformedReply (explain response.bytes)
      else .noReply command.program response.status)

end Command

end Canon
