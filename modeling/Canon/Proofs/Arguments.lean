import Canon.Proofs.Checks
import Canon.Tool.Run

/-!
# Accepted command lines

Arguments are read one by one, and what has been read so far is known from the names in them: each step adds the flags
and the settings that its argument names, and a value that is kept is good. So the options of a line that is accepted
are those that its arguments name, a run of it has what it needs, and the environment is asked only for settings that
are not named.
-/

namespace Canon

namespace CommandLine

/-! ## What arguments name -/

/-- The name behind two dashes, without the value that is attached to it. -/
def longName? (arg : String) : Option String :=
  match arg.toList with
  | '-' :: '-' :: rest => some (String.ofList (rest.takeWhile (· != '=')))
  | _ => none

/-- The letters behind one dash. -/
def letters (arg : String) : List Char :=
  match arg.toList with
  | '-' :: '-' :: _ => []
  | '-' :: letters => letters
  | _ => []

theorem longName?_eq_none {arg : String} (h : ∀ rest, arg.toList ≠ '-' :: '-' :: rest) : longName? arg = none := by
  unfold longName?
  split
  · next rest harg => exact absurd harg (h rest)
  · rfl

theorem letters_eq_nil {arg : String} (h : ∀ rest, arg.toList ≠ '-' :: rest) : letters arg = [] := by
  unfold letters
  split
  · rfl
  · next rest _ harg => exact absurd harg (h rest)
  · rfl

def flagsOf (arg : String) : List Flag :=
  ((longName? arg).bind longFlag?).toList ++ (letters arg).filterMap shortFlag?

def settingsOf (arg : String) : List Setting := ((longName? arg).bind longSetting?).toList

/-- The arguments that may be options: all that follows `--` is a file. -/
def optionsOf (args : List String) : List String := args.takeWhile (· != "--")

def flagsGiven (args : List String) : List Flag := (optionsOf args).flatMap flagsOf

def settingsGiven (args : List String) : List Setting := (optionsOf args).flatMap settingsOf

/-! ## What has been read -/

def Given.has (g : Given) : Flag → Bool
  | .print => g.print
  | .interpret => g.interpret
  | .jit => g.jit
  | .verbose => 0 < g.verbose
  | .help | .version => false

def Given.holds (g : Given) : Setting → Bool
  | .indent => g.indent.isSome
  | .frontEnd => g.frontEnd.isSome
  | .completions => g.completions.isSome
  | .file => g.file.isSome

def Given.WidthFits (g : Given) : Prop := ∀ width ∈ g.indent, width ≤ maxWidth

def Pending.setting? : Pending → Option Setting
  | .nothing => none
  | .awaits setting => some setting
  | .holds setting _ => some setting

/-- A setting has been met, whether or not its value is settled. -/
def State.Mentions (s : State) (setting : Setting) : Prop :=
  s.given.holds setting = true ∨ s.pending.setting? = some setting

/-- One record has these flags and settings more than the other. -/
structure Given.Gains (g g' : Given) (flags : List Flag) (settings : List Setting) : Prop where
  flags : ∀ flag, g'.has flag = true ↔ g.has flag = true ∨ flag ∈ flags
  settings : ∀ setting, g'.holds setting = true ↔ g.holds setting = true ∨ setting ∈ settings
  widthFits : g.WidthFits → g'.WidthFits

/-- From one state to the other these flags and settings have been met. The file has no name, so nothing is said of it.
-/
structure State.Meets (s s' : State) (flags : List Flag) (settings : List Setting) : Prop where
  flags : ∀ flag, s'.given.has flag = true ↔ s.given.has flag = true ∨ flag ∈ flags
  settings : ∀ setting, setting ≠ .file → (s'.Mentions setting ↔ s.Mentions setting ∨ setting ∈ settings)
  widthFits : s.given.WidthFits → s'.given.WidthFits

/-- They have been met without `--`. -/
structure State.Adds (s s' : State) (flags : List Flag) (settings : List Setting) : Prop
    extends s.Meets s' flags settings where
  onlyFiles : s'.onlyFiles = s.onlyFiles

/-! ## One flag, one value -/

theorem widthOf_le {value : String} {width : Nat} (h : widthOf value = .ok width) : width ≤ maxWidth := by
  unfold widthOf at h
  split at h
  · split at h
    · cases h
      assumption
    · cases h
  · cases h

section

variable {g g' : Given} {flag : Flag} {setting : Setting} {value : String}

theorem Given.set_gains (h : g.set flag = .ok g') : g.Gains g' [flag] [] := by
  unfold Given.set at h
  cases flag with
  | print | interpret | jit =>
    simp only at h
    split at h
    · cases h
    · cases h
      exact ⟨fun f => by cases f <;> simp [Given.has], fun other => by cases other <;> simp [Given.holds], id⟩
  | verbose =>
    cases h
    have hpos : 0 < min (g.verbose + 1) maxVerbose := Nat.lt_min.mpr ⟨Nat.succ_pos _, by decide⟩
    exact ⟨fun f => by cases f <;> simp [Given.has, hpos], fun other => by cases other <;> simp [Given.holds], id⟩
  | help | version => cases h

theorem Given.assign_gains (h : g.assign setting value = .ok g') : g.Gains g' [] [setting] := by
  unfold Given.assign at h
  cases setting with
  | indent =>
    simp only at h
    split at h
    · cases h
    · obtain ⟨width, hwidth, hg⟩ := bind_eq_ok.mp h
      cases hg
      refine ⟨fun f => by cases f <;> simp [Given.has], fun other => by cases other <;> simp [Given.holds], ?_⟩
      rintro - n ⟨⟩
      exact widthOf_le hwidth
  | frontEnd =>
    simp only at h
    split at h
    · cases h
    · cases h
      exact ⟨fun f => by cases f <;> simp [Given.has], fun other => by cases other <;> simp [Given.holds], id⟩
  | completions | file =>
    simp only at h
    split at h
    · cases h
    · split at h <;> cases h
      exact ⟨fun f => by cases f <;> simp [Given.has], fun other => by cases other <;> simp [Given.holds], id⟩

end

/-! ## One argument -/

namespace State

variable {s t u : State} {flags flags' : List Flag} {settings settings' : List Setting}

theorem Meets.trans (h : s.Meets t flags settings) (h' : t.Meets u flags' settings') :
    s.Meets u (flags ++ flags') (settings ++ settings') where
  flags flag := by rw [h'.flags, h.flags, List.mem_append, or_assoc]
  settings setting hnamed := by rw [h'.settings setting hnamed, h.settings setting hnamed, List.mem_append, or_assoc]
  widthFits := h'.widthFits ∘ h.widthFits

theorem Adds.trans (h : s.Adds t flags settings) (h' : t.Adds u flags' settings') :
    s.Adds u (flags ++ flags') (settings ++ settings') where
  toMeets := h.toMeets.trans h'.toMeets
  onlyFiles := h'.onlyFiles.trans h.onlyFiles

theorem Meets.of_eq (hgiven : t.given = s.given) (hpending : t.pending = s.pending) : s.Meets t [] [] where
  flags flag := by simp [hgiven]
  settings setting _ := by simp [Mentions, hgiven, hpending]
  widthFits := by simp [hgiven]

theorem Adds.refl (s : State) : s.Adds s [] [] := ⟨.of_eq rfl rfl, rfl⟩

theorem Adds.of_gains {g : Given} (h : s.given.Gains g flags settings) :
    s.Adds { s with given := g } flags settings := by
  refine ⟨⟨h.flags, ?_, h.widthFits⟩, rfl⟩
  intro setting _
  simp only [Mentions, h.settings, or_right_comm]

theorem Adds.of_pending {setting : Setting} (hs : s.pending = .nothing) (ht : t.pending.setting? = some setting)
    (hgiven : t.given = s.given) (hfiles : t.onlyFiles = s.onlyFiles) : s.Adds t [] [setting] := by
  refine ⟨⟨by simp [hgiven], ?_, by simp [hgiven]⟩, hfiles⟩
  intro other _
  have hnothing : Pending.nothing.setting? = none := rfl
  simp [Mentions, hs, ht, hgiven, hnothing, @eq_comm _ other setting]

theorem Adds.of_file (h : s.Adds t flags [.file]) : s.Adds t flags [] := by
  -- The file has no name, so it makes no difference that it has been met.
  refine ⟨⟨h.flags, ?_, h.widthFits⟩, h.onlyFiles⟩
  intro setting hnamed
  simp [h.settings setting hnamed, hnamed]

theorem settle_adds (h : s.settle = .ok t) : s.Adds t [] [] ∧ t.pending = .nothing := by
  -- What is pending was met when it became pending.
  unfold settle at h
  split at h
  · next hpending =>
    cases h
    exact ⟨.refl s, hpending⟩
  · cases h
  · next setting value hpending =>
    obtain ⟨g, hassign, ht⟩ := bind_eq_ok.mp h
    cases ht
    have hgains := Given.assign_gains hassign
    refine ⟨⟨⟨hgains.flags, ?_, hgains.widthFits⟩, rfl⟩, rfl⟩
    intro other _
    simp [Mentions, hgains.settings, hpending, Pending.setting?, @eq_comm _ other setting]

theorem setFlag_adds {flag : Flag} (h : s.setFlag flag = .ok t) : s.Adds t [flag] [] := by
  unfold setFlag at h
  obtain ⟨settled, hsettle, h⟩ := bind_eq_ok.mp h
  obtain ⟨g, hset, ht⟩ := bind_eq_ok.mp h
  cases ht
  exact (settle_adds hsettle).1.trans (.of_gains (Given.set_gains hset))

theorem positional_adds {arg : String} (h : s.positional arg = .ok t) : s.Adds t [] [] := by
  unfold positional at h
  split at h
  · cases h
  · obtain ⟨settled, hsettle, ht⟩ := bind_eq_ok.mp h
    cases ht
    obtain ⟨hadds, hpending⟩ := settle_adds hsettle
    apply Adds.of_file
    exact hadds.trans (.of_pending hpending rfl rfl rfl)

theorem plain_adds {arg : String} (h : s.plain arg = .ok t) : s.Adds t [] [] := by
  unfold plain at h
  split at h
  · next setting hpending =>
    cases h
    refine ⟨⟨by simp, ?_, id⟩, rfl⟩
    intro other _
    simp [Mentions, Pending.setting?, hpending]
  · exact positional_adds h

theorem shorts_adds {letters : List Char} (h : s.shorts letters = .ok t) :
    s.Adds t (letters.filterMap shortFlag?) [] := by
  induction letters generalizing s with
  | nil =>
    cases h
    exact .refl _
  | cons c rest ih =>
    unfold shorts at h
    split at h
    · next flag hflag =>
      obtain ⟨after, hset, h⟩ := bind_eq_ok.mp h
      rw [List.filterMap_cons_some hflag]
      exact (setFlag_adds hset).trans (ih h)
    · cases h

theorem longSetting?_eq_none {name : String} {flag : Flag} (h : longFlag? name = some flag) :
    longSetting? name = none := by
  unfold longFlag? at h
  split at h
  all_goals first
    | rfl
    | cases h

theorem long_adds {name : String} {attached : Option String} (h : s.long name attached = .ok t) :
    s.Adds t (longFlag? name).toList (longSetting? name).toList := by
  unfold long at h
  split at h
  · next flag _ hflag =>
    rw [hflag, longSetting?_eq_none hflag]
    exact setFlag_adds h
  · cases h
  · next setting hflag hsetting =>
    obtain ⟨settled, hsettle, ht⟩ := bind_eq_ok.mp h
    cases ht
    obtain ⟨hadds, hpending⟩ := settle_adds hsettle
    rw [hflag, hsetting]
    exact hadds.trans (.of_pending hpending rfl rfl rfl)
  · next setting value hflag hsetting =>
    obtain ⟨settled, hsettle, h⟩ := bind_eq_ok.mp h
    obtain ⟨g, hassign, ht⟩ := bind_eq_ok.mp h
    cases ht
    rw [hflag, hsetting]
    exact (settle_adds hsettle).1.trans (.of_gains (Given.assign_gains hassign))
  · cases h

theorem argument_files {arg : String} (hfiles : s.onlyFiles = true) (h : s.argument arg = .ok t) :
    s.Adds t [] [] := by
  unfold argument at h
  rw [if_pos hfiles] at h
  exact positional_adds h

theorem argument_adds {arg : String} (hoptions : s.onlyFiles = false) (hdashes : arg ≠ "--")
    (h : s.argument arg = .ok t) : s.Adds t (flagsOf arg) (settingsOf arg) := by
  unfold argument at h
  rw [hoptions, if_neg Bool.false_ne_true] at h
  unfold flagsOf settingsOf
  split at h
  · next harg => exact absurd (String.toList_inj.mp harg) hdashes
  · next rest _ harg =>
    have hname : longName? arg = some (String.ofList (rest.takeWhile (· != '='))) := by simp only [longName?, harg]
    have hletters : letters arg = [] := by simp only [letters, harg]
    rw [hname, hletters, Option.bind_some, Option.bind_some, List.filterMap_nil, List.append_nil]
    split at h <;> exact long_adds h
  · next harg =>
    have hname : longName? arg = none := longName?_eq_none (by simp [harg])
    have hletters : letters arg = [] := by simp only [letters, harg]
    rw [hname, hletters]
    exact plain_adds h
  · next rest _ hshort _ harg =>
    have hname : longName? arg = none := by
      apply longName?_eq_none
      intro name heq
      exact hshort name (List.cons_inj_right _ |>.mp (harg.symm.trans heq))
    have hletters : letters arg = rest := by simp only [letters, harg]
    rw [hname, hletters]
    exact shorts_adds h
  · next _ _ _ hplain =>
    have hname : longName? arg = none := longName?_eq_none fun rest => hplain _
    rw [hname, letters_eq_nil hplain]
    exact plain_adds h

/-! ## All arguments -/

theorem files_add {args : List String} (hfiles : s.onlyFiles = true) (h : args.foldlM argument s = .ok t) :
    s.Adds t [] [] := by
  induction args generalizing s with
  | nil =>
    cases h
    exact .refl _
  | cons arg rest ih =>
    rw [List.foldlM_cons] at h
    obtain ⟨after, harg, h⟩ := bind_eq_ok.mp h
    have hadds := argument_files hfiles harg
    exact hadds.trans (ih (hadds.onlyFiles.trans hfiles) h)

theorem arguments_meet {args : List String} (hoptions : s.onlyFiles = false) (h : args.foldlM argument s = .ok t) :
    s.Meets t (flagsGiven args) (settingsGiven args) := by
  induction args generalizing s with
  | nil =>
    cases h
    exact .of_eq rfl rfl
  | cons arg rest ih =>
    rw [List.foldlM_cons] at h
    obtain ⟨after, harg, h⟩ := bind_eq_ok.mp h
    unfold flagsGiven settingsGiven optionsOf
    by_cases hdashes : arg = "--"
    · subst hdashes
      have hafter : { s with onlyFiles := true } = after := by simpa [argument, hoptions] using harg
      subst hafter
      rw [List.takeWhile_cons_of_neg (by simp)]
      have hopen : s.Meets { s with onlyFiles := true } [] [] := .of_eq rfl rfl
      exact hopen.trans (files_add rfl h).toMeets
    · have hadds := argument_adds hoptions hdashes harg
      rw [List.takeWhile_cons_of_pos (by simpa using hdashes)]
      exact hadds.toMeets.trans (ih (hadds.onlyFiles.trans hoptions) h)

end State

/-- A record that holds what these arguments name, and a width only if it is good. -/
structure Given.Reads (g : Given) (args : List String) : Prop where
  flags : ∀ flag, g.has flag = true ↔ flag ∈ flagsGiven args
  settings : ∀ setting, setting ≠ .file → (g.holds setting = true ↔ setting ∈ settingsGiven args)
  widthFits : g.WidthFits

theorem reads_of_settle {args : List String} {met settled : State} (hmet : args.foldlM State.argument {} = .ok met)
    (hsettle : met.settle = .ok settled) : settled.given.Reads args := by
  obtain ⟨hadds, hpending⟩ := State.settle_adds hsettle
  have hmeets := (State.arguments_meet rfl hmet).trans hadds.toMeets
  rw [List.append_nil, List.append_nil] at hmeets
  refine ⟨?_, ?_, hmeets.widthFits (by simp [Given.WidthFits])⟩
  · intro flag
    rw [hmeets.flags]
    cases flag <;> simp [Given.has]
  · intro setting hnamed
    have hmet := hmeets.settings setting hnamed
    simp only [State.Mentions, hpending, Pending.setting?] at hmet
    cases setting <;> simpa [Given.holds] using hmet

/-! ## The whole line -/

/-- The width that is settled on: the environment stands in if there is none. -/
def Given.width (g : Given) (env : Environment) : Except Usage Nat :=
  match g.indent, env.indent with
  | some width, _ => .ok width
  | none, some value => widthOf value
  | none, none => .ok defaultWidth

def Given.options (g : Given) (env : Environment) (width : Nat) : Options where
  print := g.print
  interpret := g.interpret
  jit := g.jit
  indent := width
  frontEnd := g.frontEnd <|> env.frontEnd
  verbose := g.verbose
  completions := g.completions
  file := g.file

theorem Given.complete_eq (g : Given) (env : Environment) : g.complete env = (do
    let width ← g.width env
    if 1 < g.backends then .error .conflict
    else if g.file.isNone && g.completions.isNone then .error .missingRequired
    else .ok (g.options env width)) := by
  unfold complete width
  cases g.indent with
  | some width => rfl
  | none =>
    cases env.indent with
    | some value => rfl
    | none => rfl

theorem Given.complete_eq_ok {g : Given} {env : Environment} {options : Options} (h : g.complete env = .ok options) :
    ∃ width, g.width env = .ok width ∧ options = g.options env width ∧ g.backends ≤ 1 ∧
      (g.file.isNone && g.completions.isNone) = false := by
  rw [complete_eq] at h
  obtain ⟨width, hwidth, h⟩ := bind_eq_ok.mp h
  split at h
  · cases h
  · next hbackends =>
    split at h
    · cases h
    · next hpresent =>
      cases h
      exact ⟨width, hwidth, rfl, Nat.le_of_not_lt hbackends, Bool.eq_false_iff.mpr hpresent⟩

theorem read_eq_ok {args : List String} {env : Environment} {options : Options} (h : read args env = .ok options) :
    ∃ g : Given, g.Reads args ∧ g.complete env = .ok options := by
  unfold read at h
  obtain ⟨met, hmet, h⟩ := bind_eq_ok.mp h
  obtain ⟨settled, hsettle, h⟩ := bind_eq_ok.mp h
  exact ⟨settled.given, reads_of_settle hmet hsettle, h⟩

theorem read_congr {args : List String} {env other : Environment}
    (h : ∀ g : Given, g.Reads args → g.complete env = g.complete other) : read args env = read args other := by
  unfold read
  cases hmet : args.foldlM State.argument {} with
  | error usage => rfl
  | ok met =>
    cases hsettle : met.settle with
    | error usage =>
      simp only [bind, Except.bind, hsettle]
    | ok settled =>
      simp only [bind, Except.bind, hsettle]
      exact h settled.given (reads_of_settle hmet hsettle)

theorem exists_file {args : List String} {env : Environment} {options : Options} (h : read args env = .ok options)
    (hcompletions : options.completions = none) : ∃ path, options.file = some path := by
  obtain ⟨g, -, hcomplete⟩ := read_eq_ok h
  obtain ⟨width, -, rfl, -, hpresent⟩ := Given.complete_eq_ok hcomplete
  have hnone : g.completions = none := hcompletions
  rw [hnone] at hpresent
  have hfile : g.file.isSome = true := by simpa using hpresent
  exact Option.isSome_iff_exists.mp hfile

/-! ## The options of an accepted line -/

theorem Given.complete_indent {g : Given} {env : Environment} (h : g.indent.isSome = true) (value : Option String) :
    g.complete { env with indent := value } = g.complete env := by
  obtain ⟨width, hwidth⟩ := Option.isSome_iff_exists.mp h
  simp only [complete_eq, Given.width, hwidth, Given.options]

theorem Given.complete_frontEnd {g : Given} {env : Environment} (h : g.frontEnd.isSome = true) (value : Option String) :
    g.complete { env with frontEnd := value } = g.complete env := by
  obtain ⟨command, hcommand⟩ := Option.isSome_iff_exists.mp h
  simp [complete_eq, Given.width, hcommand, Given.options]

theorem Given.width_of_none {g : Given} (h : g.indent = none) (env : Environment) :
    g.width env = env.indent.elim (.ok defaultWidth) widthOf := by
  unfold Given.width
  rw [h]
  cases env.indent <;> rfl

theorem Given.width_le {g : Given} {env : Environment} {width : Nat} (hfits : g.WidthFits)
    (h : g.width env = .ok width) : width ≤ maxWidth := by
  unfold Given.width at h
  split at h
  · next given _ hgiven =>
    cases h
    exact hfits width hgiven
  · exact widthOf_le h
  · cases h
    decide

theorem Given.count_options (g : Given) (env : Environment) (width : Nat) :
    [(g.options env width).print, (g.options env width).interpret, (g.options env width).jit].count true =
      g.backends := rfl

end CommandLine

theorem Host.run_eq_runFile {host : Host} {options : Options} {path : String} (hcompletions : options.completions = none)
    (hfile : options.file = some path) : host.run options = host.runFile options path := by
  unfold run
  rw [hcompletions, hfile]
  rfl

open CommandLine

theorem Options.backend_iff {options : Options}
    (h : [options.print, options.interpret, options.jit].count true ≤ 1) :
    (options.backend = .print ↔ options.print = true) ∧ (options.backend = .jit ↔ options.jit = true) ∧
      (options.backend = .interpret ↔ options.print = false ∧ options.jit = false) := by
  unfold backend
  cases hprint : options.print <;> cases hjit : options.jit <;> simp_all
  cases hinterpret : options.interpret <;> simp_all

/-- What can be relied on in the options of a line that is accepted: they are what its arguments name, with the
environment and the defaults behind them, and they are fit for a run. -/
structure Options.FollowFrom (options : Options) (args : List String) (env : Environment) : Prop where
  width : options.indent ≤ maxWidth
  width_unnamed : Setting.indent ∉ settingsGiven args →
    env.indent.elim (.ok defaultWidth) widthOf = .ok options.indent
  frontEnd_unnamed : Setting.frontEnd ∉ settingsGiven args → options.frontEnd = env.frontEnd
  exclusive : [options.print, options.interpret, options.jit].count true ≤ 1
  flags : (options.print = true ↔ Flag.print ∈ flagsGiven args) ∧
    (options.interpret = true ↔ Flag.interpret ∈ flagsGiven args) ∧ (options.jit = true ↔ Flag.jit ∈ flagsGiven args)
  print : options.backend = .print ↔ Flag.print ∈ flagsGiven args
  jit : options.backend = .jit ↔ Flag.jit ∈ flagsGiven args
  interpret : options.backend = .interpret ↔ Flag.print ∉ flagsGiven args ∧ Flag.jit ∉ flagsGiven args
  completions : options.completions.isSome = true ↔ Setting.completions ∈ settingsGiven args
  runs : Setting.completions ∉ settingsGiven args →
    ∃ path, options.file = some path ∧ ∀ host : Host, host.run options = host.runFile options path

theorem CommandLine.followFrom_of_read {args : List String} {env : Environment} {options : Options}
    (h : read args env = .ok options) : options.FollowFrom args env := by
  obtain ⟨g, hreads, hcomplete⟩ := read_eq_ok h
  obtain ⟨width, hwidth, hoptions, hbackends, -⟩ := Given.complete_eq_ok hcomplete
  have hexclusive : [options.print, options.interpret, options.jit].count true ≤ 1 := by
    rw [hoptions, Given.count_options]
    exact hbackends
  have hprint : options.print = true ↔ Flag.print ∈ flagsGiven args := by
    rw [hoptions]
    exact hreads.flags .print
  have hinterpret : options.interpret = true ↔ Flag.interpret ∈ flagsGiven args := by
    rw [hoptions]
    exact hreads.flags .interpret
  have hjit : options.jit = true ↔ Flag.jit ∈ flagsGiven args := by
    rw [hoptions]
    exact hreads.flags .jit
  have hcompletions : options.completions.isSome = true ↔ Setting.completions ∈ settingsGiven args := by
    rw [hoptions]
    exact hreads.settings .completions (by decide)
  obtain ⟨hasPrint, hasJit, hasNeither⟩ := Options.backend_iff hexclusive
  refine ⟨?_, ?_, ?_, hexclusive, ⟨hprint, hinterpret, hjit⟩, hasPrint.trans hprint, hasJit.trans hjit, ?_,
    hcompletions, ?_⟩
  · rw [hoptions]
    exact Given.width_le hreads.widthFits hwidth
  · intro hnamed
    rw [← hreads.settings .indent (by decide)] at hnamed
    have hnone : g.indent = none := by simpa [Given.holds] using hnamed
    rw [hoptions, ← Given.width_of_none hnone]
    exact hwidth
  · intro hnamed
    rw [← hreads.settings .frontEnd (by decide)] at hnamed
    have hnone : g.frontEnd = none := by simpa [Given.holds] using hnamed
    simp [hoptions, Given.options, hnone]
  · rw [hasNeither, ← hprint, ← hjit, Bool.not_eq_true, Bool.not_eq_true]
  · intro hnamed
    rw [← hcompletions] at hnamed
    have hnone : options.completions = none := by simpa using hnamed
    obtain ⟨path, hfile⟩ := exists_file h hnone
    exact ⟨path, hfile, fun host => Host.run_eq_runFile hnone hfile⟩

/-- Every line that is accepted has options that the tool can act on, and what a line comes to does not depend on what
the environment says of a setting that the line names. -/
theorem accepted_line_can_run (args : List String) (env : Environment) :
    (∀ options, CommandLine.read args env = .ok options → options.FollowFrom args env) ∧
    (Setting.indent ∈ settingsGiven args →
      ∀ value, CommandLine.read args { env with indent := value } = CommandLine.read args env) ∧
    (Setting.frontEnd ∈ settingsGiven args →
      ∀ value, CommandLine.read args { env with frontEnd := value } = CommandLine.read args env) := by
  refine ⟨fun options h => followFrom_of_read h, ?_, ?_⟩
  · intro hnamed value
    apply read_congr
    intro g hreads
    exact Given.complete_indent ((hreads.settings .indent (by decide)).mpr hnamed) value
  · intro hnamed value
    apply read_congr
    intro g hreads
    exact Given.complete_frontEnd ((hreads.settings .frontEnd (by decide)).mpr hnamed) value

/-- A line with a flag among others, two settings, and a file whose name is that of a flag. -/
def clusteredLine : List String := ["-vp", "--indent=7", "--frontend", "cat -", "--", "--jit"]

def wideEnvironment : Environment := { indent := some "wide", frontEnd := some "fe" }

def clusteredOptions : Options := ⟨true, false, false, 7, some "cat -", 1, none, some "--jit"⟩

theorem accepted_line_can_run_clustered :
    CommandLine.read clusteredLine wideEnvironment = .ok clusteredOptions ∧ clusteredOptions.backend = .print ∧
    (∃ path, clusteredOptions.file = some path ∧
      ∀ host : Host, host.run clusteredOptions = host.runFile clusteredOptions path) ∧
    CommandLine.read clusteredLine { indent := some "wide" } = .ok clusteredOptions ∧
    CommandLine.read clusteredLine { indent := some "65", frontEnd := some "fe" } = .ok clusteredOptions := by
  obtain ⟨haccepted, hindent, hfrontEnd⟩ := accepted_line_can_run clusteredLine wideEnvironment
  have hread : CommandLine.read clusteredLine wideEnvironment = .ok clusteredOptions := by decide +kernel
  have hfollows := haccepted clusteredOptions hread
  refine ⟨hread, hfollows.print.mpr (by decide), hfollows.runs (by decide), ?_, ?_⟩
  · exact (hfrontEnd (by decide) none).trans hread
  · exact (hindent (by decide) (some "65")).trans hread

end Canon
