import Canon.Proofs.Walk

/-!
# Sinks that fill up

A sink with a limit cuts the text off, and that is all it does: the printer is left as it was, and what it prints next
is what a new printer would print.
-/

namespace Canon

open Print

namespace Program

/-- The report of a job if its sink takes no more than a budget. -/
def Report.within (report : Report) : Option Nat → Report
  | none => report
  | some budget =>
    if report.written.length ≤ budget then report
    else ⟨.error .full, String.ofList (report.written.toList.take budget)⟩

/-- Whether the printing itself failed, and not the sink. -/
def Report.isFault (report : Report) : Bool :=
  match report.result with
  | .error (.fault _) => true
  | _ => false

/-- The report of a job whose sink takes everything. -/
def reportOf (t : Transcript) : Report where
  result := match t.fault with
    | none => .ok ()
    | some fault => .error (.fault fault)
  written := t.text

theorem reportOf_ne_full (t : Transcript) : (reportOf t).result ≠ .error .full := by
  obtain ⟨text, fault⟩ := t
  cases fault <;> simp [reportOf]

theorem ofRun_leave_new (t : Transcript) (printer : Printer) (budget : Option Nat) :
    (Report.ofRun (t.leave printer (Sink.write { room := budget } t.text))).1 = (reportOf t).within budget := by
  obtain ⟨text, fault⟩ := t
  cases budget with
  | none => cases fault <;> simp [Sink.write, Report.within, reportOf, Transcript.leave, Report.ofRun]
  | some budget =>
    by_cases hfits : text.length ≤ budget
    · cases fault <;> simp [Sink.write, Report.within, reportOf, Transcript.leave, Report.ofRun, hfits]
    · simp [Sink.write, Report.within, reportOf, Transcript.leave, Report.ofRun, hfits]

theorem ofRun_eq_none {run : Except Break (Except Full Unit × Printer)} :
    (Report.ofRun run).2 = none ↔ (Report.ofRun run).1.isFault = true := by
  rcases run with broken | ⟨_ | _, printer⟩ <;> simp [Report.ofRun, Report.isFault]

theorem ofRun_eq_some {run : Except Break (Except Full Unit × Printer)} {after : Printer}
    (h : (Report.ofRun run).2 = some after) : ∃ result, run = .ok (result, after) := by
  rcases run with broken | ⟨_ | _, printer⟩
  · cases h
  · cases h
    exact ⟨_, rfl⟩
  · cases h
    exact ⟨_, rfl⟩

variable (p : Program) (depth : Nat)

/-- What a new printer reports of a node if its sink takes everything. -/
def unlimited (width : Nat) (id : NodeId) : Report := (p.printJobWithin depth (Printer.start width) { node := id }).1

/-! ## One job -/

theorem printWithin_after {id : NodeId} {printer after : Printer} {result : Except Full Unit}
    (h : p.printWithin depth id printer = .ok (result, after)) :
    after.indent = printer.indent ∧ after.width = printer.width := by
  rw [printWithin_run, deliver_run] at h
  rw [Transcript.after_of_leave h]
  exact ⟨rfl, rfl⟩

theorem printJobWithin_report (printer : Printer) (job : Job) :
    (p.printJobWithin depth printer job).1 =
      (reportOf (transcript p printer.indent printer.width (p.walkWithin depth job.node))).within job.budget := by
  rw [← ofRun_leave_new, printJobWithin, printWithin_run, deliver_run]

theorem printJobWithin_after {printer after : Printer} {job : Job}
    (h : (p.printJobWithin depth printer job).2 = some after) :
    after.indent = printer.indent ∧ after.width = printer.width := by
  obtain ⟨result, hrun⟩ := ofRun_eq_some h
  obtain ⟨hindent, hwidth⟩ := p.printWithin_after depth hrun
  exact ⟨hindent, hwidth⟩

theorem unlimited_eq (width : Nat) (id : NodeId) :
    p.unlimited depth width id = reportOf (transcript p 0 width (p.walkWithin depth id)) := by
  rw [unlimited, printJobWithin_report]
  rfl

theorem printJobWithin_eq {printer : Printer} (hindent : printer.indent = 0) (job : Job) :
    (p.printJobWithin depth printer job).1 = (p.unlimited depth printer.width job.node).within job.budget := by
  rw [printJobWithin_report, unlimited_eq, hindent]

theorem renderFrom_eq_ok (width : Nat) (id : NodeId) (text : String) :
    p.renderFrom width id = .ok text ↔
      transcript p 0 width (p.walkWithin (p.nodes.size + 1) id) = ⟨text, none⟩ := by
  rw [renderFrom_eq, Transcript.rendered_eq_ok]

/-! ## A session -/

theorem printSessionWithin_cons (printer : Printer) (job : Job) (rest : List Job) :
    p.printSessionWithin depth printer (job :: rest) = (p.printJobWithin depth printer job).1 ::
      ((p.printJobWithin depth printer job).2.map fun after => p.printSessionWithin depth after rest).getD [] := by
  rw [printSessionWithin]
  rcases p.printJobWithin depth printer job with ⟨report, _ | after⟩ <;> rfl

theorem printSessionWithin_getElem? {printer : Printer} (hindent : printer.indent = 0) {jobs : List Job} {k : Nat}
    {job : Job} (hjob : jobs[k]? = some job)
    (hbefore : ∀ report ∈ (p.printSessionWithin depth printer jobs).take k, report.isFault = false) :
    (p.printSessionWithin depth printer jobs)[k]? =
      some ((p.unlimited depth printer.width job.node).within job.budget) := by
  induction jobs generalizing printer k with
  | nil => cases hjob
  | cons first rest ih =>
    rw [printSessionWithin_cons] at hbefore ⊢
    cases k with
    | zero =>
      obtain rfl : first = job := Option.some.inj hjob
      rw [List.getElem?_cons_zero, printJobWithin_eq p depth hindent]
    | succ k =>
      rw [List.take_succ_cons, List.forall_mem_cons] at hbefore
      obtain ⟨hfirst, hbefore⟩ := hbefore
      cases hafter : (p.printJobWithin depth printer first).2 with
      | none =>
        have hfault : (p.printJobWithin depth printer first).1.isFault = true := ofRun_eq_none.mp hafter
        rw [hfirst] at hfault
        cases hfault
      | some after =>
        obtain ⟨hkept, hwidth⟩ := p.printJobWithin_after depth hafter
        rw [hafter] at hbefore
        have hrest := ih (hkept.trans hindent) hjob hbefore
        rw [hwidth] at hrest
        exact hrest

/-- A sink that fills up cuts the text of a job off and changes nothing else. Every job of a session writes what a new
printer writes, up to its budget, and ends as it does if all of the text fits. -/
theorem session_only_truncates (width : Nat) (jobs : List Job) :
    (∀ k job, jobs[k]? = some job →
      (∀ report ∈ (p.printSessionWithin depth (Printer.start width) jobs).take k, report.isFault = false) →
      (p.printSessionWithin depth (Printer.start width) jobs)[k]? =
        some ((p.unlimited depth width job.node).within job.budget)) ∧
    (∀ job, (p.printJobWithin depth (Printer.start width) job).1 =
      (p.unlimited depth width job.node).within job.budget) ∧
    (∀ id, (p.unlimited depth width id).result ≠ .error .full) ∧
    (∀ id text, p.unlimited (p.nodes.size + 1) width id = ⟨.ok (), text⟩ ↔ p.renderFrom width id = .ok text) ∧
    ∀ id printer result after, p.printWithin depth id printer = .ok (result, after) →
      after.indent = printer.indent ∧ after.width = printer.width := by
  refine ⟨fun k job hjob hbefore => p.printSessionWithin_getElem? depth rfl hjob hbefore,
    fun job => p.printJobWithin_eq depth rfl job, fun id => ?_, fun id text => ?_,
    fun id printer result after => p.printWithin_after depth⟩
  · rw [unlimited_eq]
    exact reportOf_ne_full _
  · rw [unlimited_eq, renderFrom_eq_ok]
    rcases transcript p 0 width (p.walkWithin (p.nodes.size + 1) id) with ⟨written, _ | fault⟩ <;>
      simp [reportOf]

/-- The first job fills its sink inside a body, and the second is printed in full. -/
theorem session_only_truncates_in_body :
    let p : Program :=
      { nodes := #[.block ⟨0⟩ [⟨1⟩], .whileLoop ⟨2⟩ ⟨3⟩, .int 1, .block ⟨1⟩ [⟨4⟩], .print []]
        scopes := #[{}, {}]
        vars := #[]
        functions := #[]
        root := ⟨0⟩ }
    let jobs : List Job := [⟨⟨0⟩, some 20⟩, ⟨⟨0⟩, none⟩]
    (p.printSessionWithin 6 (Printer.start 2) jobs)[1]? = some ((p.unlimited 6 2 ⟨0⟩).within none) ∧
      (p.unlimited 6 2 ⟨0⟩).written = "while (1) \x7b\n  print();\n\x7d\n\n" ∧
      ((p.printSessionWithin 6 (Printer.start 2) jobs).map Report.written) =
        ["while (1) \x7b\n  print(", "while (1) \x7b\n  print();\n\x7d\n\n"] := by
  intro p jobs
  have hbefore : ∀ report ∈ (p.printSessionWithin 6 (Printer.start 2) jobs).take 1, report.isFault = false := by
    decide +kernel
  exact ⟨(p.session_only_truncates 6 2 jobs).1 1 ⟨⟨0⟩, none⟩ rfl hbefore, by decide +kernel, by decide +kernel⟩

end Program

end Canon
