import Canon.Json.Writer
import Canon.Program.Encode
import Canon.Proofs.Arguments
import Canon.Proofs.Faultless
import Canon.Proofs.Safety
import Canon.Proofs.Words

/-!
# What a run comes to

A run ends at the first stage that fails. Here it is said of each stage what it asks of the host and of the command line,
and so of each outcome when it comes about: the text of the program, the line about a syntax error, or one report of a
failure and nothing on standard output.
-/

namespace Canon

/-! ## Stages -/

namespace Stage

theorem bind_run {α β : Type} (x : Stage α) (f : α → Stage β) (notes : List Note) :
    (x >>= f) notes = match x notes with
      | (.ok a, after) => f a after
      | (.error failure, after) => (.error failure, after) := by
  simp only [bind, ExceptT.bind, ExceptT.mk, ExceptT.bindCont, StateT.bind]
  rcases x notes with ⟨_ | _, _⟩ <;> rfl

theorem note_run (n : Note) (notes : List Note) : note n notes = (.ok (), notes ++ [n]) := rfl

theorem ofExcept_run {α : Type} (result : Except Failure α) (notes : List Note) :
    ofExcept result notes = (result, notes) := rfl

theorem pure_run {α : Type} (a : α) (notes : List Note) : (pure a : Stage α) notes = (.ok a, notes) := rfl

end Stage

/-- The options name a front end, and this is the command that it comes to: the words of its line. -/
def Options.Configures (options : Options) (command : Command) : Prop :=
  ∃ line, options.frontEnd = some line ∧
    Text.HasWords line.toList (command.program.toList :: command.args.map String.toList)

namespace Host

variable (host : Host) (options : Options) (path : String)

/-- The file can be read and holds a text. -/
def Loads (source : String) : Prop :=
  ∃ bytes, host.fileContents path = .ok bytes ∧ String.fromUTF8? ⟨bytes.toArray⟩ = some source

/-- A front end has run on the source. -/
structure Responds (source : String) (command : Command) (response : Response) : Prop where
  loads : host.Loads path source
  backend : options.backend = .print
  configures : options.Configures command
  starts : host.runFrontEnd command source = .ok response

/-- A front end has replied, however it ended. -/
def Replies (source : String) (reply : Reply) : Prop :=
  ∃ command response, host.Responds options path source command response ∧
    Reply.ofBytes? response.bytes = some reply

/-- The front end has replied with a sound program. -/
def Accepts (program : Program) : Prop :=
  (∃ source, host.Replies options path source (.ok program)) ∧ program.validate = .ok ()

/-- The first stage that fails, and how it fails. A source that is turned down is not among the failures. -/
inductive Fails : Failure → Prop
  | unreadable {cause : SystemError} (hfile : host.fileContents path = .error cause) : Fails (.unreadable path cause)
  | notText {bytes : List UInt8} (hfile : host.fileContents path = .ok bytes)
    (htext : String.fromUTF8? ⟨bytes.toArray⟩ = none) : Fails (.unreadable path .notText)
  | unavailable {source : String} (hloads : host.Loads path source) (hbackend : options.backend ≠ .print) :
    Fails (.unavailable options.backend)
  | noFrontEnd {source : String} (hloads : host.Loads path source) (hbackend : options.backend = .print)
    (hblank : ∀ line ∈ options.frontEnd, ∀ c ∈ line.toList, Text.isBlank c = true) : Fails .noFrontEnd
  | notStarted {source : String} {command : Command} {cause : SystemError} (hloads : host.Loads path source)
    (hbackend : options.backend = .print) (hconfigures : options.Configures command)
    (hstart : host.runFrontEnd command source = .error cause) : Fails (.notStarted command.program cause)
  | malformedReply {source : String} {command : Command} {response : Response}
    (hresponds : host.Responds options path source command response) (hreply : Reply.ofBytes? response.bytes = none)
    (hstatus : response.status.isSuccess = true) : Fails (.malformedReply (host.explain response.bytes))
  | noReply {source : String} {command : Command} {response : Response}
    (hresponds : host.Responds options path source command response) (hreply : Reply.ofBytes? response.bytes = none)
    (hstatus : response.status.isSuccess = false) : Fails (.noReply command.program response.status)
  | invalidTree {source : String} {program : Program} {defect : Defect}
    (hreplies : host.Replies options path source (.ok program))
    (hinvalid : program.validate = .error (.defect defect)) : Fails (.invalidTree defect)

end Host

/-- A line of the log does not begin as the report of a failure does. -/
structure IsLogLine (line : String) : Prop where
  single : '\n' ∉ line.toList
  noReport : ¬ "error: ".toList <+: line.toList

/-- Standard error shows the lines of a log, if it has been asked for, and then the reports of these failures. -/
def Outcome.Shows (outcome : Outcome) (failures : List Failure) : Prop :=
  ∃ log : List String, (∀ line ∈ log, IsLogLine line) ∧ ∀ verbose, outcome.stderr verbose =
    String.join (if 0 < verbose then log.map (· ++ "\n") else []) ++
      String.join (failures.map fun failure => "error: " ++ failure.message ++ "\n")

/-- The whole of an outcome. The place is that of the report which shows the source. -/
structure Outcome.Ends (outcome : Outcome) (exitCode : Nat) (stdout : String) (place : Option Place)
    (failures : List Failure) : Prop where
  exitCode : outcome.exitCode = exitCode
  stdout : outcome.stdout = stdout
  place : outcome.report = place
  failures : outcome.Shows failures

/-! ## The stages, one by one -/

variable {host : Host} {options : Options} {path source : String}

theorem Options.command_of_configures {command : Command} (h : options.Configures command) :
    options.frontEnd.elim (.error .noFrontEnd) Command.ofLine = .ok command := by
  obtain ⟨line, hline, hwords⟩ := h
  have hsplit : Text.words line = command.program :: command.args := Text.words_eq_iff.mpr hwords
  rw [hline, Option.elim_some, Command.ofLine, hsplit]

theorem Options.command_of_blank (h : ∀ line ∈ options.frontEnd, ∀ c ∈ line.toList, Text.isBlank c = true) :
    options.frontEnd.elim (.error .noFrontEnd) Command.ofLine = .error .noFrontEnd := by
  cases hline : options.frontEnd with
  | none => rfl
  | some line =>
    have hwords : Text.words line = [] := Text.words_eq_iff.mpr (Text.hasWords_nil_iff.mpr (h line hline))
    rw [Option.elim_some, Command.ofLine, hwords]

theorem Options.configures_or_blank (options : Options) : (∃ command, options.Configures command) ∨
    ∀ line ∈ options.frontEnd, ∀ c ∈ line.toList, Text.isBlank c = true := by
  cases hline : options.frontEnd with
  | none => exact .inr (by simp)
  | some line =>
    cases hwords : Text.words line with
    | nil =>
      have hblank := Text.hasWords_nil_iff.mp (Text.words_eq_iff.mp hwords)
      exact .inr fun other hother => Option.some.inj hother ▸ hblank
    | cons program args => exact .inl ⟨⟨program, args⟩, line, hline, Text.words_eq_iff.mp hwords⟩

namespace Host

theorem load_of_loads (h : host.Loads path source) (notes : List Note) :
    host.load path notes = (.ok source, notes ++ [.loaded path source]) := by
  obtain ⟨bytes, hfile, htext⟩ := h
  unfold load
  simp only [hfile, htext, Except.mapError, Stage.bind_run, Stage.ofExcept_run, Stage.note_run, Stage.pure_run]

theorem parse_of_starts {command : Command} {response : Response} (h : host.runFrontEnd command source = .ok response)
    (notes : List Note) : host.parse command source notes =
      (command.settle host.explain response, notes ++ [.starting command, .ended response]) := by
  unfold parse
  simp only [h, Except.mapError, Stage.bind_run, Stage.ofExcept_run, Stage.note_run, List.append_assoc,
    List.cons_append, List.nil_append]

theorem canonicalText_of_configures {command : Command} (hbackend : options.backend = .print)
    (hconfigures : options.Configures command) (notes : List Note) : host.canonicalText options source notes =
      (do let program ← host.parse command source
          program.accept
          program.canonicalText options.indent : Stage String) (notes ++ [.backend .print]) := by
  unfold canonicalText
  have havailable : Backend.print.isAvailable = true := rfl
  rw [Options.command_of_configures hconfigures, hbackend, havailable]
  rfl

theorem canonicalText_of_responds {command : Command} {response : Response}
    (h : host.Responds options path source command response) (notes : List Note) :
    host.canonicalText options source notes =
      (do let program ← Stage.ofExcept (command.settle host.explain response)
          program.accept
          program.canonicalText options.indent : Stage String)
        (notes ++ [.backend .print, .starting command, .ended response]) := by
  rw [canonicalText_of_configures h.backend h.configures, Stage.bind_run, parse_of_starts h.starts, Stage.bind_run,
    Stage.ofExcept_run, List.append_assoc]
  rfl

theorem canonicalText_unavailable (h : options.backend ≠ .print) (notes : List Note) :
    host.canonicalText options source notes =
      (.error (.unavailable options.backend), notes ++ [.backend options.backend]) := by
  have havailable : options.backend.isAvailable = false := by simp [Backend.isAvailable, h]
  unfold canonicalText
  rw [havailable]
  rfl

theorem canonicalText_noFrontEnd (hbackend : options.backend = .print)
    (h : ∀ line ∈ options.frontEnd, ∀ c ∈ line.toList, Text.isBlank c = true) (notes : List Note) :
    host.canonicalText options source notes = (.error .noFrontEnd, notes ++ [.backend .print]) := by
  have havailable : Backend.print.isAvailable = true := rfl
  unfold canonicalText
  rw [Options.command_of_blank h, hbackend, havailable]
  rfl

theorem canonicalText_notStarted {command : Command} {cause : SystemError} (hbackend : options.backend = .print)
    (hconfigures : options.Configures command) (h : host.runFrontEnd command source = .error cause)
    (notes : List Note) : host.canonicalText options source notes =
      (.error (.notStarted command.program cause), notes ++ [.backend .print, .starting command]) := by
  rw [canonicalText_of_configures hbackend hconfigures, Stage.bind_run, parse, h, Stage.bind_run, Stage.note_run,
    List.append_assoc]
  rfl

end Host

theorem Program.accept_of_valid {program : Program} (h : program.validate = .ok ()) (notes : List Note) :
    program.accept notes = (.ok (), notes) := by
  rw [Program.accept, h]
  rfl

theorem Program.accept_of_defect {program : Program} {defect : Defect}
    (h : program.validate = .error (.defect defect)) (notes : List Note) :
    program.accept notes = (.error (.invalidTree defect), notes) := by
  rw [Program.accept, h]
  rfl

theorem Program.canonicalText_of_render {program : Program} {width : Nat} {text : String}
    (h : program.render width = .ok text) (notes : List Note) :
    program.canonicalText width notes = (.ok text, notes ++ [.rendered program text]) := by
  rw [Program.canonicalText, h]
  rfl

theorem Program.canonicalText_of_fault {program : Program} {width : Nat} {fault : Fault}
    (h : program.render width = .error fault) (notes : List Note) :
    program.canonicalText width notes = (.error (.fault fault), notes) := by
  rw [Program.canonicalText, h]
  rfl

section Settle

variable {explain : List UInt8 → String} {command : Command} {response : Response}

theorem Command.settle_program {program : Program} (h : Reply.ofBytes? response.bytes = some (.ok program)) :
    command.settle explain response = .ok program := by
  unfold Command.settle
  rw [h]

theorem Command.settle_syntaxError {e : SyntaxError} (h : Reply.ofBytes? response.bytes = some (.error e)) :
    command.settle explain response = .error (.syntaxError e) := by
  unfold Command.settle
  rw [h]

theorem Command.settle_none (h : Reply.ofBytes? response.bytes = none) : command.settle explain response =
    .error (if response.status.isSuccess then .malformedReply (explain response.bytes)
      else .noReply command.program response.status) := by
  unfold Command.settle
  rw [h]

end Settle

/-! ## Outcomes -/

theorem head?_append_of_head? {a b : String} {c : Char} (h : a.toList.head? = some c) :
    (a ++ b).toList.head? = some c := by
  rw [String.toList_append, List.head?_append, h]
  rfl

namespace Note

theorem indentLines_lines (message : List Char) : ∃ first rest,
    indentLines message ++ ['\n'] = (first :: rest).flatMap (· ++ ['\n']) ∧
    '\n' ∉ first ∧ ∀ line ∈ rest, '\n' ∉ line ∧ line.head? = some ' ' := by
  induction message with
  | nil => exact ⟨[], [], rfl, by simp, by simp⟩
  | cons c message ih =>
    obtain ⟨first, rest, hlines, hfirst, hrest⟩ := ih
    have hcons : indentLines (c :: message) ++ ['\n'] =
        (if c = '\n' then "\n    ".toList else [c]) ++ (first :: rest).flatMap (· ++ ['\n']) := by
      rw [← hlines, indentLines, List.flatMap_cons, List.append_assoc]
      rfl
    by_cases hc : c = '\n'
    · refine ⟨[], ("    ".toList ++ first) :: rest, ?_, by simp, ?_⟩
      · rw [hcons, if_pos hc]
        simp
      · exact List.forall_mem_cons.mpr ⟨⟨by simpa using hfirst, rfl⟩, hrest⟩
    · refine ⟨c :: first, rest, ?_, by simp [Ne.symm hc, hfirst], hrest⟩
      rw [hcons, if_neg hc]
      simp

theorem text_of_isQuiet {n : Note} (h : n.isQuiet = true) : n.text.toList.head? = some '[' := by
  have happend (a b : String) := @head?_append_of_head? a b '['
  cases n with
  | loaded path source => exact happend _ _ (happend _ _ (happend _ _ rfl))
  | backend b => exact happend _ _ rfl
  | starting command => exact happend _ _ (happend _ _ (happend _ _ rfl))
  | ended response => exact happend _ _ (happend _ _ (happend _ _ (happend _ _ rfl)))
  | rendered program text => exact happend _ _ (happend _ _ (happend _ _ (happend _ _ rfl)))
  | structural failure => exact happend _ _ rfl
  | failed failure => cases h

theorem isLogLine_of_head {line : List Char} (hsingle : '\n' ∉ line) (h : line.head? ≠ some 'e') :
    IsLogLine (String.ofList line) := by
  refine ⟨by rwa [String.toList_ofList], ?_⟩
  rintro ⟨rest, hreport⟩
  have hline : "error: ".toList ++ rest = line := hreport.trans String.toList_ofList
  rw [← hline] at h
  exact h rfl

theorem record_of_isQuiet {n : Note} (h : n.isQuiet = true) : ∃ log : List String, (∀ line ∈ log, IsLogLine line) ∧
    n.record = String.join (log.map (· ++ "\n")) := by
  obtain ⟨text, htext⟩ := List.head?_eq_some_iff.mp (text_of_isQuiet h)
  obtain ⟨first, rest, hlines, hfirst, hrest⟩ := indentLines_lines text
  refine ⟨(('[' :: first) :: rest).map String.ofList, ?_, ?_⟩
  · refine List.forall_mem_map.mpr (List.forall_mem_cons.mpr ⟨isLogLine_of_head (by simpa using hfirst) (by simp), ?_⟩)
    intro line hline
    obtain ⟨hsingle, hhead⟩ := hrest line hline
    exact isLogLine_of_head hsingle (by simp [hhead])
  · apply String.toList_inj.mp
    have hopens : indentLines ('[' :: text) = '[' :: indentLines text := rfl
    rw [record, if_pos h, htext, hopens]
    simpa [String.toList_join, List.flatMap_map] using hlines

theorem records_of_isQuiet {notes : List Note} (h : ∀ note ∈ notes, note.isQuiet = true) : ∃ log : List String,
    (∀ line ∈ log, IsLogLine line) ∧ String.join (notes.map record) = String.join (log.map (· ++ "\n")) := by
  induction notes with
  | nil => exact ⟨[], by simp, rfl⟩
  | cons note notes ih =>
    obtain ⟨hnote, hnotes⟩ := List.forall_mem_cons.mp h
    obtain ⟨first, hfirst, hrecord⟩ := record_of_isQuiet hnote
    obtain ⟨rest, hrest, hrecords⟩ := ih hnotes
    refine ⟨first ++ rest, List.forall_mem_append.mpr ⟨hfirst, hrest⟩, ?_⟩
    rw [List.map_cons, String.join_cons, hrecord, hrecords, List.map_append, String.join_append]

end Note

theorem Outcome.shows_of_notes {outcome : Outcome} {notes : List Note} {failures : List Failure}
    (hquiet : ∀ note ∈ notes, note.isQuiet = true) (hnotes : outcome.notes = notes ++ failures.map .failed) :
    outcome.Shows failures := by
  obtain ⟨log, hlog, hrecords⟩ := Note.records_of_isQuiet hquiet
  refine ⟨log, hlog, fun verbose => ?_⟩
  have hfailures : (failures.map Note.failed).filter (fun n => 0 < verbose || !n.isQuiet) = failures.map .failed := by
    simp [Note.isQuiet]
  have hreports : (failures.map Note.failed).map Note.record =
      failures.map fun failure => "error: " ++ failure.message ++ "\n" := by
    rw [List.map_map]
    rfl
  have hfiltered : notes.filter (fun n => 0 < verbose || !n.isQuiet) = if 0 < verbose then notes else [] := by
    by_cases hverbose : 0 < verbose
    · simp [hverbose]
    · simpa [hverbose] using hquiet
  rw [Outcome.stderr, hnotes, List.filter_append, List.map_append, String.join_append, hfailures, hreports, hfiltered]
  split
  · rw [hrecords]
  · rfl

namespace Host

theorem runFile_of_loads (h : host.Loads path source) : host.runFile options path =
    match host.canonicalText options source [.loaded path source] with
    | (.error failure, notes) => Outcome.ofFailure path source notes failure
    | (.ok text, notes) => { exitCode := 0, stdout := text, notes } := by
  unfold runFile
  rw [load_of_loads h]
  rfl

theorem runFile_of_responds {command : Command} {response : Response}
    (h : host.Responds options path source command response) : ∃ log : List Note,
    (∀ note ∈ log, note.isQuiet = true) ∧ host.runFile options path =
      match (do let program ← Stage.ofExcept (command.settle host.explain response)
                program.accept
                program.canonicalText options.indent : Stage String) log with
      | (.error failure, notes) => Outcome.ofFailure path source notes failure
      | (.ok text, notes) => { exitCode := 0, stdout := text, notes } := by
  refine ⟨[.loaded path source, .backend .print, .starting command, .ended response], by simp [Note.isQuiet], ?_⟩
  rw [runFile_of_loads h.loads, canonicalText_of_responds h]
  rfl

theorem runFile_of_valid {program : Program} (h : host.Replies options path source (.ok program))
    (hvalid : program.validate = .ok ()) : ∃ log : List Note, (∀ note ∈ log, note.isQuiet = true) ∧
      host.runFile options path = match program.canonicalText options.indent log with
        | (.error failure, notes) => Outcome.ofFailure path source notes failure
        | (.ok text, notes) => { exitCode := 0, stdout := text, notes } := by
  obtain ⟨command, response, hresponds, hreply⟩ := h
  obtain ⟨log, hquiet, hrun⟩ := runFile_of_responds hresponds
  rw [Stage.bind_run, Stage.ofExcept_run, Command.settle_program hreply] at hrun
  dsimp only at hrun
  rw [Stage.bind_run, Program.accept_of_valid hvalid] at hrun
  exact ⟨log, hquiet, hrun⟩

theorem runFile_printed {program : Program} {text : String} (h : host.Replies options path source (.ok program))
    (hvalid : program.validate = .ok ()) (hrender : program.render options.indent = .ok text) :
    (host.runFile options path).Ends 0 text none [] := by
  obtain ⟨log, hquiet, hrun⟩ := runFile_of_valid h hvalid
  rw [hrun, Program.canonicalText_of_render hrender]
  have hshown : ∀ note ∈ log ++ [.rendered program text], note.isQuiet = true := by
    simpa [or_imp, forall_and, Note.isQuiet] using hquiet
  exact ⟨rfl, rfl, rfl, Outcome.shows_of_notes hshown (by simp)⟩

theorem runFile_fault {program : Program} {fault : Fault} (h : host.Replies options path source (.ok program))
    (hvalid : program.validate = .ok ()) (hrender : program.render options.indent = .error fault) :
    (host.runFile options path).Ends faultCode "" none [] := by
  obtain ⟨log, hquiet, hrun⟩ := runFile_of_valid h hvalid
  rw [hrun, Program.canonicalText_of_fault hrender]
  exact ⟨rfl, rfl, rfl, Outcome.shows_of_notes hquiet (by simp [Outcome.ofFailure])⟩

theorem runFile_rejected {e : SyntaxError} (h : host.Replies options path source (.error e)) :
    (host.runFile options path).Ends 1 (e.line source) ((e.reported? source).map (.mk path)) [] := by
  obtain ⟨command, response, hresponds, hreply⟩ := h
  obtain ⟨log, hquiet, hrun⟩ := runFile_of_responds hresponds
  rw [Stage.bind_run, Stage.ofExcept_run, Command.settle_syntaxError hreply] at hrun
  rw [hrun]
  have hshown : ∀ note ∈ log ++ [.structural (.syntaxError e)], note.isQuiet = true := by
    simpa [or_imp, forall_and, Note.isQuiet] using hquiet
  exact ⟨rfl, rfl, rfl, Outcome.shows_of_notes hshown (by simp [Outcome.ofFailure])⟩

theorem runFile_of_fails {failure : Failure} (h : host.Fails options path failure) : ∃ log : List Note,
    (∀ note ∈ log, note.isQuiet = true) ∧
      host.runFile options path = { exitCode := 1, notes := log ++ [.failed failure] } := by
  cases h with
  | unreadable hfile =>
    refine ⟨[], by simp, ?_⟩
    unfold runFile load
    rw [hfile]
    rfl
  | notText hfile htext =>
    refine ⟨[], by simp, ?_⟩
    unfold runFile load
    simp only [hfile, htext, Except.mapError, Stage.bind_run, Stage.ofExcept_run]
    rfl
  | @unavailable source hloads hbackend =>
    refine ⟨[.loaded path source, .backend options.backend], by simp [Note.isQuiet], ?_⟩
    rw [runFile_of_loads hloads, canonicalText_unavailable hbackend]
    rfl
  | @noFrontEnd source hloads hbackend hblank =>
    refine ⟨[.loaded path source, .backend .print], by simp [Note.isQuiet], ?_⟩
    rw [runFile_of_loads hloads, canonicalText_noFrontEnd hbackend hblank]
    rfl
  | @notStarted source command cause hloads hbackend hconfigures hstart =>
    refine ⟨[.loaded path source, .backend .print, .starting command], by simp [Note.isQuiet], ?_⟩
    rw [runFile_of_loads hloads, canonicalText_notStarted hbackend hconfigures hstart]
    rfl
  | malformedReply hresponds hreply hstatus =>
    obtain ⟨log, hquiet, hrun⟩ := runFile_of_responds hresponds
    refine ⟨log, hquiet, ?_⟩
    rw [hrun, Stage.bind_run, Stage.ofExcept_run, Command.settle_none hreply, if_pos hstatus]
    rfl
  | noReply hresponds hreply hstatus =>
    obtain ⟨log, hquiet, hrun⟩ := runFile_of_responds hresponds
    refine ⟨log, hquiet, ?_⟩
    rw [hrun, Stage.bind_run, Stage.ofExcept_run, Command.settle_none hreply, hstatus]
    rfl
  | invalidTree hreplies hinvalid =>
    obtain ⟨command, response, hresponds, hreply⟩ := hreplies
    obtain ⟨log, hquiet, hrun⟩ := runFile_of_responds hresponds
    refine ⟨log, hquiet, ?_⟩
    rw [hrun, Stage.bind_run, Stage.ofExcept_run, Command.settle_program hreply]
    dsimp only
    rw [Stage.bind_run, Program.accept_of_defect hinvalid]
    rfl

theorem runFile_failed {failure : Failure} (h : host.Fails options path failure) :
    (host.runFile options path).Ends 1 "" none [failure] := by
  obtain ⟨log, hquiet, hrun⟩ := runFile_of_fails h
  rw [hrun]
  exact ⟨rfl, rfl, rfl, Outcome.shows_of_notes hquiet rfl⟩

/-! ## Every run comes to something -/

theorem loads_or_fails (host : Host) (options : Options) (path : String) :
    (∃ source, host.Loads path source) ∨ ∃ failure, host.Fails options path failure := by
  cases hfile : host.fileContents path with
  | error cause => exact .inr ⟨_, .unreadable hfile⟩
  | ok bytes =>
    cases htext : String.fromUTF8? ⟨bytes.toArray⟩ with
    | none => exact .inr ⟨_, .notText hfile htext⟩
    | some source => exact .inl ⟨source, bytes, hfile, htext⟩

theorem responds_or_fails (h : host.Loads path source) : (∃ command response,
    host.Responds options path source command response) ∨ ∃ failure, host.Fails options path failure := by
  by_cases hbackend : options.backend = .print
  · rcases options.configures_or_blank with ⟨command, hconfigures⟩ | hblank
    · cases hstart : host.runFrontEnd command source with
      | error cause => exact .inr ⟨_, .notStarted h hbackend hconfigures hstart⟩
      | ok response => exact .inl ⟨command, response, h, hbackend, hconfigures, hstart⟩
    · exact .inr ⟨_, .noFrontEnd h hbackend hblank⟩
  · exact .inr ⟨_, .unavailable h hbackend⟩

theorem replies_or_fails (host : Host) (options : Options) (path : String) :
    (∃ source reply, host.Replies options path source reply) ∨ ∃ failure, host.Fails options path failure := by
  rcases loads_or_fails host options path with ⟨source, hloads⟩ | hfails
  · rcases responds_or_fails hloads with ⟨command, response, hresponds⟩ | hfails
    · cases hreply : Reply.ofBytes? response.bytes with
      | some reply => exact .inl ⟨source, reply, command, response, hresponds, hreply⟩
      | none =>
        cases hstatus : response.status.isSuccess with
        | true => exact .inr ⟨_, .malformedReply hresponds hreply hstatus⟩
        | false => exact .inr ⟨_, .noReply hresponds hreply hstatus⟩
    · exact .inr hfails
  · exact .inr hfails

/-- A program is accepted, or the source is turned down, or a stage fails. -/
theorem run_cases (host : Host) (options : Options) (path : String) :
    (∃ program, host.Accepts options path program) ∨
    (∃ source e, host.Replies options path source (.error e)) ∨ ∃ failure, host.Fails options path failure := by
  rcases replies_or_fails host options path with ⟨source, reply, hreplies⟩ | hfails
  · cases reply with
    | error e => exact .inr (.inl ⟨source, e, hreplies⟩)
    | ok program =>
      cases hvalid : program.validate with
      | ok _ => exact .inl ⟨program, ⟨source, hreplies⟩, hvalid⟩
      | error rejection =>
        cases rejection with
        | defect defect => exact .inr (.inr ⟨_, .invalidTree hreplies hvalid⟩)
        | fault fault => exact absurd hvalid (program.validate_faultless fault)
  · exact .inr (.inr hfails)

theorem Fails.unique {f g : Failure} (hf : host.Fails options path f) (hg : host.Fails options path g) : f = g := by
  obtain ⟨log, -, hrun⟩ := runFile_of_fails hf
  obtain ⟨other, -, hother⟩ := runFile_of_fails hg
  have hnotes : log ++ [Note.failed f] = other ++ [.failed g] := congrArg Outcome.notes (hrun.symm.trans hother)
  have hlast := congrArg List.getLast? hnotes
  simpa using hlast

end Host

theorem append_ne_empty (a : String) {b : String} (h : b ≠ "") : a ++ b ≠ "" := by
  simp [h]

theorem SyntaxError.line_ne_empty (e : SyntaxError) (source : String) : e.line source ≠ "" := by
  unfold line
  exact append_ne_empty _ (by decide)

/-- A run prints the program that its front end has replied with, if all stages pass, or the line about a syntax error,
or nothing on standard output and one report of the first stage that fails. -/
theorem run_all_or_nothing (host : Host) {args : List String} {env : Environment}
    (hread : CommandLine.read args env = .ok options) (hcompletions : options.completions = none)
    (hwidth : ∀ path program, options.file = some path → host.Accepts options path program →
      program.render options.indent ≠ .error .indentTooWide) :
    ∃ path, options.file = some path ∧
      ((host.run options).exitCode = 0 ↔ ∃ program, host.Accepts options path program) ∧
      (∀ program, host.Accepts options path program →
        ∃ text, program.render options.indent = .ok text ∧ (host.run options).Ends 0 text none []) ∧
      ((host.run options).exitCode = 1 ∧ (host.run options).stdout ≠ "" ↔
        ∃ source e, host.Replies options path source (.error e)) ∧
      (∀ source e, host.Replies options path source (.error e) →
        (host.run options).Ends 1 (e.line source) ((e.reported? source).map (.mk path)) []) ∧
      ((¬ ∃ program, host.Accepts options path program) →
        (¬ ∃ source e, host.Replies options path source (.error e)) →
        ∃! failure, host.Fails options path failure ∧ (host.run options).Ends 1 "" none [failure]) := by
  obtain ⟨path, hfile⟩ := CommandLine.exists_file hread hcompletions
  rw [Host.run_eq_runFile hcompletions hfile]
  have haccepted : ∀ program, host.Accepts options path program →
      ∃ text, program.render options.indent = .ok text ∧ (host.runFile options path).Ends 0 text none [] := by
    intro program haccepts
    have hlinked := (Program.wellFormed_of_validate haccepts.2).toLinked
    rcases Program.render_cases (hlinked.safe_walk (Nat.lt_succ_self _)) options.indent with ⟨text, hrender⟩ | hwide
    · obtain ⟨⟨source, hreplies⟩, hvalid⟩ := haccepts
      exact ⟨text, hrender, Host.runFile_printed hreplies hvalid hrender⟩
    · exact absurd hwide (hwidth path program hfile haccepts)
  have hrejected : ∀ source e, host.Replies options path source (.error e) →
      (host.runFile options path).Ends 1 (e.line source) ((e.reported? source).map (.mk path)) [] :=
    fun source e => Host.runFile_rejected
  refine ⟨path, hfile, ⟨fun hexit => ?_, ?_⟩, haccepted, ⟨fun hexit => ?_, ?_⟩, hrejected, fun hno hnot => ?_⟩
  · rcases host.run_cases options path with haccepts | ⟨source, e, hreplies⟩ | ⟨failure, hfails⟩
    · exact haccepts
    · exact absurd hexit (by rw [(hrejected source e hreplies).exitCode]; decide)
    · exact absurd hexit (by rw [(Host.runFile_failed hfails).exitCode]; decide)
  · rintro ⟨program, haccepts⟩
    obtain ⟨text, -, hends⟩ := haccepted program haccepts
    exact hends.exitCode
  · rcases host.run_cases options path with ⟨program, haccepts⟩ | hreplies | ⟨failure, hfails⟩
    · obtain ⟨text, -, hends⟩ := haccepted program haccepts
      exact absurd hexit.1 (by rw [hends.exitCode]; decide)
    · exact hreplies
    · exact absurd (Host.runFile_failed hfails).stdout hexit.2
  · rintro ⟨source, e, hreplies⟩
    have hends := hrejected source e hreplies
    exact ⟨hends.exitCode, hends.stdout ▸ e.line_ne_empty source⟩
  · rcases host.run_cases options path with haccepts | hreplies | ⟨failure, hfails⟩
    · exact absurd haccepts hno
    · exact absurd hreplies hnot
    · exact ⟨failure, ⟨hfails, Host.runFile_failed hfails⟩, fun other hother => hother.1.unique hfails⟩

/-- A host whose front end replies the same to every source. -/
def constantHost (reply : String) (status : ExitStatus) : Host where
  fileContents _ := .ok "a := 1".toUTF8.toList
  runFrontEnd _ _ := .ok ⟨reply.toUTF8.toList, status⟩
  explain _ := "EOF while parsing a value at line 1 column 0"

def constantOptions : Options := ⟨true, false, false, 2, some "fe -x", 0, none, some "a.mvm"⟩

theorem constantHost_responds (reply : String) (status : ExitStatus) : (constantHost reply status).Responds
    constantOptions "a.mvm" "a := 1" ⟨"fe", ["-x"]⟩ ⟨reply.toUTF8.toList, status⟩ where
  loads := ⟨_, rfl, by decide +kernel⟩
  backend := rfl
  configures :=
    have hwords : Text.words "fe -x" = ["fe", "-x"] := by decide +kernel
    ⟨"fe -x", rfl, Text.words_eq_iff.mp hwords⟩
  starts := rfl

theorem ofBytes?_of_constantHost {text : String} {status : ExitStatus} {reply : Reply}
    (h : (constantHost text status).Replies constantOptions path source reply) :
    Reply.ofBytes? text.toUTF8.toList = some reply := by
  obtain ⟨command, response, hresponds, hreply⟩ := h
  cases hresponds.starts
  exact hreply

/-- The program `print(1);`. -/
def printOne : Program := ⟨#[.block ⟨0⟩ [⟨1⟩], .print [⟨2⟩], .int 1], #[{}], #[], #[], ⟨0⟩⟩

def acceptance : String := (Json.ofMembers [("ok", printOne.encodeWith fun _ => .null)]).render

def refusal : String :=
  (Json.ofMembers [("error", Json.ofMembers [("offset", .ofInt 2), ("message", Json.ofString "oops")])]).render

/-- One run for each way to end: with a program, with a syntax error, and with a front end that says nothing. -/
theorem run_all_or_nothing_replies :
    ((constantHost acceptance (.code 3)).run constantOptions).Ends 0 "print(1);\n" none [] ∧
    ((constantHost refusal (.code 0)).run constantOptions).Ends 1
      "Cannot parse program: expression at 1,3; error 'oops'\n" (some ⟨"a.mvm", ⟨1, 3⟩⟩) [] ∧
    ((constantHost "" (.code 3)).run constantOptions).Ends 1 "" none [.noReply "fe" (.code 3)] := by
  have hread : CommandLine.read ["--print", "--indent=2", "--frontend", "fe -x", "a.mvm"] {} = .ok constantOptions := by
    decide +kernel
  have haccepted : Reply.ofBytes? acceptance.toUTF8.toList = some (.ok printOne) := by decide +kernel
  have hrefused : Reply.ofBytes? refusal.toUTF8.toList = some (.error ⟨2, "oops"⟩) := by decide +kernel
  have hsilent : Reply.ofBytes? "".toUTF8.toList = none := by decide +kernel
  refine ⟨?_, ?_, ?_⟩
  · have hrender : printOne.render 2 = .ok "print(1);\n" := by decide +kernel
    obtain ⟨path, hpath, -, hends, -⟩ := run_all_or_nothing (constantHost acceptance (.code 3)) hread rfl
      fun path program _ haccepts => by
        obtain ⟨⟨source, hreplies⟩, -⟩ := haccepts
        cases haccepted.symm.trans (ofBytes?_of_constantHost hreplies)
        simp [constantOptions, hrender]
    cases hpath
    obtain ⟨text, htext, hends⟩ := hends printOne
      ⟨⟨_, _, _, constantHost_responds acceptance (.code 3), haccepted⟩, by decide +kernel⟩
    cases hrender.symm.trans htext
    exact hends
  · have hnone : ∀ path program, ¬ (constantHost refusal (.code 0)).Accepts constantOptions path program := by
      rintro path program ⟨⟨source, hreplies⟩, -⟩
      cases hrefused.symm.trans (ofBytes?_of_constantHost hreplies)
    obtain ⟨path, hpath, -, -, -, hends, -⟩ := run_all_or_nothing (constantHost refusal (.code 0)) hread rfl
      fun path program _ haccepts => absurd haccepts (hnone path program)
    cases hpath
    exact hends "a := 1" ⟨2, "oops"⟩ ⟨_, _, constantHost_responds refusal (.code 0), hrefused⟩
  · have hnone : ∀ path source reply, ¬ (constantHost "" (.code 3)).Replies constantOptions path source reply := by
      intro path source reply hreplies
      cases hsilent.symm.trans (ofBytes?_of_constantHost hreplies)
    obtain ⟨path, hpath, -, -, -, -, hends⟩ := run_all_or_nothing (constantHost "" (.code 3)) hread rfl
      fun path program _ haccepts => absurd haccepts.1.choose_spec (hnone path _ _)
    cases hpath
    obtain ⟨failure, ⟨hfails, hends⟩, -⟩ := hends
      (fun ⟨program, haccepts⟩ => hnone _ _ _ haccepts.1.choose_spec) (fun ⟨source, e, hreplies⟩ => hnone _ _ _ hreplies)
    cases hfails.unique (.noReply (constantHost_responds "" (.code 3)) hsilent (by decide))
    exact hends

end Canon
