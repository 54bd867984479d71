import Canon.Print.Printer

/-!
# Rendering

The text of a whole program, or of one node at the left margin, and sessions in which one printer prints one node after
the other.
-/

namespace Canon

def defaultWidth : Nat := 4

def maxWidth : Nat := 64

def Printer.start (width : Nat) : Printer := { width, indent := 0, sink := {} }

namespace Program

/-- The text of a node at the left margin. -/
def renderFrom (p : Program) (width : Nat) (id : NodeId) : Except Fault String :=
  match p.print id (Printer.start width) with
  | .ok (_, printer) => .ok printer.sink.written
  | .error broken => .error broken.fault

def render (p : Program) (width : Nat) : Except Fault String := p.renderFrom width p.root

def renderNode (p : Program) (id : NodeId) : Except Fault String := p.renderFrom defaultWidth id

/-! ## Sessions -/

/-- A node to print, and how many characters the sink takes of it. -/
structure Job where
  node : NodeId
  budget : Option Nat := none
  deriving DecidableEq, Repr, Inhabited

/-- How a job can end before its text does. -/
inductive Stop where
  | full
  | fault (fault : Fault)
  deriving DecidableEq, Repr

structure Report where
  result : Except Stop Unit
  written : String

/-- What is reported of the printing of a node, and the printer that goes on. There is none after a fault. -/
def Report.ofRun : Except Break (Except Full Unit × Printer) → Report × Option Printer
  | .ok (.ok (), printer) => (⟨.ok (), printer.sink.written⟩, some printer)
  | .ok (.error .full, printer) => (⟨.error .full, printer.sink.written⟩, some printer)
  | .error broken => (⟨.error (.fault broken.fault), broken.sink.written⟩, none)

/-- Does one job with at most `depth` nodes around each other. The sink is emptied before it. -/
def printJobWithin (p : Program) (depth : Nat) (printer : Printer) (job : Job) : Report × Option Printer :=
  Report.ofRun (p.printWithin depth job.node { printer with sink := { room := job.budget } })

/-- Does the jobs in turn on one printer. A fault ends the session. -/
def printSessionWithin (p : Program) (depth : Nat) (printer : Printer) : List Job → List Report
  | [] => []
  | job :: rest =>
    match p.printJobWithin depth printer job with
    | (report, some printer) => report :: p.printSessionWithin depth printer rest
    | (report, none) => [report]

def printSession (p : Program) (printer : Printer) (jobs : List Job) : List Report :=
  p.printSessionWithin (p.nodes.size + 1) printer jobs

end Program

end Canon
