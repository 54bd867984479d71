import Canon.Tool.Run

/-!
# The command

Hands the arguments and the environment to the library, and its outcome to the system.

The front end is started by whoever starts the tool, and its reply is taken from standard input, as in
`front-end < source | main --print --frontend front-end source`. Standard input is read only if a front end is named.
-/

namespace Canon.Main

def systemError : IO.Error → SystemError
  | .noFileOrDirectory .. => .noSuchFile
  | .permissionDenied .. => .permissionDenied
  | .inappropriateType _ 21 _ => .isADirectory
  | .inappropriateType .. => .notADirectory
  | e => .other (toString e)

def readFile (path : String) : IO (Except SystemError (List UInt8)) := do
  match ← (IO.FS.readBinFile path).toBaseIO with
  | .ok bytes => pure (.ok bytes.toList)
  | .error e => pure (.error (systemError e))

partial def readAll (stream : IO.FS.Stream) (before : ByteArray) : IO ByteArray := do
  let more ← stream.read 65536
  if more.isEmpty then pure before else readAll stream (before ++ more)

/-- The host of one run: the file that the command line names, and the reply that is waiting. -/
def hostFor (options : Options) : IO Host := do
  let contents ← match options.file with
    | some path => readFile path
    | none => pure (.error .noSuchFile)
  let reply ← if options.frontEnd.isSome then readAll (← IO.getStdin) ByteArray.empty else pure ByteArray.empty
  pure {
    fileContents := fun _ => contents
    runFrontEnd := fun _ _ => .ok ⟨reply.toList, .code 0⟩
    explain := fun bytes => toString bytes.length ++ " bytes that are no reply" }

def usageText : String := "usage: mvm [-p | -i | -j] [-v] [--indent N] [--frontend CMD] [--completions SHELL] [FILE]"

def refuse (usage : Usage) : IO UInt32 := do
  match usage with
  | .help => IO.println usageText
  | .version => IO.print Usage.versionText
  | _ => IO.eprintln usageText
  pure (UInt32.ofNat usage.exitCode)

def report (options : Options) (outcome : Outcome) : IO UInt32 := do
  IO.print outcome.stdout
  IO.eprint (outcome.stderr options.verbose)
  outcome.report.toList.forM fun place => IO.eprintln place.text
  pure (UInt32.ofNat outcome.exitCode)

end Canon.Main

open Canon Canon.Main in
def main (args : List String) : IO UInt32 := do
  let env : Environment := { indent := ← IO.getEnv "MVM_INDENT", frontEnd := ← IO.getEnv "MVM_FRONTEND" }
  match CommandLine.read args env with
  | .error usage => refuse usage
  | .ok options => report options ((← hostFor options).run options)
