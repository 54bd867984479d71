import Canon.Print.Render
import Canon.Tool.Backend

/-!
# The command line

Arguments are read from left to right and the first error wins. The value of an option and the file are set aside when
they are met, and settled when the next argument has been recognised or the arguments end; so an argument that is not
known hides a value that is not good. Once the arguments have been read the environment stands in for options that were
not given, and then it is checked that what was given goes together.
-/

namespace Canon

inductive Shell where
  | bash | elvish | fish | powershell | zsh
  deriving DecidableEq, Repr, Inhabited

def Shell.name : Shell → String
  | .bash => "bash"
  | .elvish => "elvish"
  | .fish => "fish"
  | .powershell => "powershell"
  | .zsh => "zsh"

def Shell.all : List Shell := [.bash, .elvish, .fish, .powershell, .zsh]

def Shell.ofName? (name : String) : Option Shell := Shell.all.find? (·.name = name)

/-- Why the tool does not run: something is wrong with the arguments, or they ask for its help or version. -/
inductive Usage where
  | unknownArgument
  | conflict
  | missingRequired
  | badValue
  | invalidValue
  | tooManyValues
  | help
  | version
  deriving DecidableEq, Repr

def Usage.versionText : String := "mvm 0.1.0\n"

def Usage.exitCode : Usage → Nat
  | .help | .version => 0
  | _ => 1

/-- What the environment says, where it says anything. -/
structure Environment where
  indent : Option String := none
  frontEnd : Option String := none
  deriving DecidableEq, Repr, Inhabited

structure Options where
  print : Bool
  interpret : Bool
  jit : Bool
  indent : Nat
  frontEnd : Option String
  verbose : Nat
  completions : Option Shell
  file : Option String
  deriving DecidableEq, Repr, Inhabited

/-- Without a flag the program would be interpreted. -/
def Options.backend (o : Options) : Backend := if o.print then .print else if o.jit then .jit else .interpret

namespace CommandLine

/-! ## Flags and settings -/

inductive Flag where
  | print | interpret | jit | verbose | help | version
  deriving DecidableEq, Repr

/-- What takes a value. The file is the only one without a name. -/
inductive Setting where
  | indent | frontEnd | completions | file
  deriving DecidableEq, Repr

def longFlag? : String → Option Flag
  | "print" => some .print
  | "interpret" => some .interpret
  | "jit" => some .jit
  | "verbose" => some .verbose
  | "help" => some .help
  | "version" => some .version
  | _ => none

def shortFlag? : Char → Option Flag
  | 'p' => some .print
  | 'i' => some .interpret
  | 'j' => some .jit
  | 'v' => some .verbose
  | 'h' => some .help
  | 'V' => some .version
  | _ => none

def longSetting? : String → Option Setting
  | "indent" => some .indent
  | "frontend" => some .frontEnd
  | "completions" => some .completions
  | _ => none

/-! ## Values -/

/-- A number of digits, behind one plus sign if there is any. -/
def natural? (s : String) : Option Nat :=
  let digits := match s.toList with
    | '+' :: rest => rest
    | chars => chars
  if !digits.isEmpty && digits.all Char.isDigit then
    some (digits.foldl (fun n c => n * 10 + (c.toNat - '0'.toNat)) 0)
  else none

def widthOf (s : String) : Except Usage Nat :=
  match natural? s with
  | some n => if n ≤ maxWidth then .ok n else .error .badValue
  | none => .error .badValue

structure Given where
  print : Bool := false
  interpret : Bool := false
  jit : Bool := false
  verbose : Nat := 0
  indent : Option Nat := none
  frontEnd : Option String := none
  completions : Option Shell := none
  file : Option String := none
  deriving DecidableEq, Repr, Inhabited

def maxVerbose : Nat := 255

def Given.set (g : Given) : Flag → Except Usage Given
  | .print => if g.print then .error .conflict else .ok { g with print := true }
  | .interpret => if g.interpret then .error .conflict else .ok { g with interpret := true }
  | .jit => if g.jit then .error .conflict else .ok { g with jit := true }
  | .verbose => .ok { g with verbose := min (g.verbose + 1) maxVerbose }
  | .help => .error .help
  | .version => .error .version

/-- Gives a setting its value. A second value is a conflict, whether it is good or not. -/
def Given.assign (g : Given) (setting : Setting) (value : String) : Except Usage Given :=
  match setting with
  | .indent => if g.indent.isSome then .error .conflict else do pure { g with indent := some (← widthOf value) }
  | .frontEnd => if g.frontEnd.isSome then .error .conflict else .ok { g with frontEnd := some value }
  | .completions =>
    if g.completions.isSome then .error .conflict
    else match Shell.ofName? value with
      | some shell => .ok { g with completions := some shell }
      | none => .error .invalidValue
  | .file =>
    if g.file.isSome then .error .conflict
    else if value.isEmpty then .error .invalidValue
    else .ok { g with file := some value }

/-! ## Arguments -/

/-- A setting that has been met and not been settled. Its value may be still to come. -/
inductive Pending where
  | nothing
  | awaits (setting : Setting)
  | holds (setting : Setting) (value : String)
  deriving DecidableEq, Repr, Inhabited

structure State where
  given : Given := {}
  pending : Pending := .nothing
  fileSeen : Bool := false
  /-- Whether `--` has been met: all that follows is a file. -/
  onlyFiles : Bool := false
  deriving DecidableEq, Repr, Inhabited

namespace State

/-- Settles what is pending. A value that never came is an error. -/
def settle (s : State) : Except Usage State :=
  match s.pending with
  | .nothing => .ok s
  | .awaits _ => .error .invalidValue
  | .holds setting value => do pure { s with given := ← s.given.assign setting value, pending := .nothing }

def setFlag (s : State) (flag : Flag) : Except Usage State := do
  let s ← s.settle
  pure { s with given := ← s.given.set flag }

/-- An argument that is no option. There is room for one file. -/
def positional (s : State) (arg : String) : Except Usage State :=
  if s.fileSeen then .error .unknownArgument
  else do
    let s ← s.settle
    pure { s with pending := .holds .file arg, fileSeen := true }

/-- An argument behind two dashes, with the value that is attached to it by an equals sign. -/
def long (s : State) (name : String) (attached : Option String) : Except Usage State :=
  match longFlag? name, longSetting? name, attached with
  | some flag, _, none => s.setFlag flag
  | some _, _, some _ => .error .tooManyValues
  | none, some setting, none => do
    let s ← s.settle
    pure { s with pending := .awaits setting }
  | none, some setting, some value => do
    let s ← s.settle
    pure { s with given := ← s.given.assign setting value }
  | none, none, _ => .error .unknownArgument

def shorts (s : State) : List Char → Except Usage State
  | [] => .ok s
  | c :: rest =>
    match shortFlag? c with
    | some flag => do
      let s ← s.setFlag flag
      s.shorts rest
    | none => .error .unknownArgument

/-- An argument that does not look like an option: the value that is waited for, or else the file. -/
def plain (s : State) (arg : String) : Except Usage State :=
  match s.pending with
  | .awaits setting => .ok { s with pending := .holds setting arg }
  | _ => s.positional arg

def argument (s : State) (arg : String) : Except Usage State :=
  if s.onlyFiles then s.positional arg
  else match arg.toList with
    | ['-', '-'] => .ok { s with onlyFiles := true }
    | '-' :: '-' :: rest =>
      let name := rest.takeWhile (· != '=')
      match rest.dropWhile (· != '=') with
      | [] => s.long (String.ofList name) none
      | _ :: value => s.long (String.ofList name) (some (String.ofList value))
    | ['-'] => s.plain arg
    | '-' :: letters => s.shorts letters
    | _ => s.plain arg

end State

/-! ## The whole line -/

def Given.backends (g : Given) : Nat := [g.print, g.interpret, g.jit].count true

/-- The environment stands in for what was not given, and defaults for what it does not say either. -/
def Given.complete (g : Given) (env : Environment) : Except Usage Options := do
  let width ← match g.indent, env.indent with
    | some n, _ => pure n
    | none, some value => widthOf value
    | none, none => pure defaultWidth
  if 1 < g.backends then throw .conflict
  if g.file.isNone && g.completions.isNone then throw .missingRequired
  pure {
    print := g.print, interpret := g.interpret, jit := g.jit, indent := width, frontEnd := g.frontEnd <|> env.frontEnd,
    verbose := g.verbose, completions := g.completions, file := g.file }

def read (args : List String) (env : Environment) : Except Usage Options := do
  let s ← args.foldlM State.argument {}
  let s ← s.settle
  s.given.complete env

end CommandLine

end Canon
