import Canon.Double.Text
import Canon.Print.Sink
import Canon.Program.Basic
import Canon.Text.Escape

/-!
# The printer

A program is printed as source text in one canonical layout. Binary and unary expressions are always in parentheses, so
the text does not depend on precedence. A block is its declarations and then its statements, one to a line, each line
indented by the nesting of the block times the width of a step.

A printer goes on after a sink has refused to take more: the indentation is then what it was before. After a fault there
is no printer to go on with, only what it has written.
-/

namespace Canon

def maxIndent : Nat := 65535

structure Printer where
  width : Nat
  indent : Nat
  sink : Sink
  deriving DecidableEq, Repr, Inhabited

/-- The sink is full. -/
inductive Full where
  | full
  deriving DecidableEq, Repr

/-- A fault, and the sink as it is then. -/
structure Break where
  fault : Fault
  sink : Sink
  deriving DecidableEq, Repr

/-- Printing changes the printer, and may stop because the sink is full. A fault breaks it off. -/
abbrev Print := ExceptT Full (StateT Printer (Except Break))

namespace Print

def write (text : String) : Print Unit := fun printer =>
  match printer.sink.write text with
  | (true, sink) => .ok (.ok (), { printer with sink })
  | (false, sink) => .ok (.error .full, { printer with sink })

def look {α : Type} : Except Fault α → Print α
  | .ok a => pure a
  | .error fault => fun printer => .error ⟨fault, printer.sink⟩

def writeIndent : Print Unit := fun printer =>
  if maxIndent < printer.indent then look (.error .indentTooWide) printer
  else write (String.ofList (List.replicate printer.indent ' ')) printer

/-- Prints one step deeper. The step is taken back when the printing is done, and when it stops. -/
def indented (body : Print Unit) : Print Unit := fun printer =>
  match body { printer with indent := printer.indent + printer.width } with
  | .ok (result, after) => .ok (result, { after with indent := after.indent - after.width })
  | .error broken => .error broken

def commaSeparated {α : Type} (item : α → Print Unit) : List α → Print Unit
  | [] => pure ()
  | [a] => item a
  | a :: rest => do
    item a
    write ", "
    commaSeparated item rest

end Print

open Print

/-! ## Parts of the text

Each takes the printing of the nodes below as its argument `self`. -/

namespace Program

/-- A body between braces, without the line that opens it. -/
def printBody (self : NodeId → Print Unit) (body : NodeId) (close : String) : Print Unit := do
  indented (self body)
  writeIndent
  write close

def printArgs (self : NodeId → Print Unit) (args : List NodeId) : Print Unit := do
  write "("
  commaSeparated self args
  write ")"

def printVar (p : Program) (id : VarId) : Print Unit := do
  let var ← look (p.var id)
  writeIndent
  write (var.type.keyword ++ " " ++ var.name ++ ";\n")

def printFunction (p : Program) (self : NodeId → Print Unit) (id : FunctionId) : Print Unit := do
  let function ← look (p.function id)
  writeIndent
  write ("function " ++ function.returnType.keyword ++ " " ++ function.name ++ "(")
  commaSeparated (fun param => write (param.type.keyword ++ " " ++ param.name)) function.params
  write ")"
  match function.body with
  | .native symbol => write (" native '" ++ (Text.escape symbol).text ++ "';\n")
  | .block body => do
    write " \x7b\n"
    printBody self body "\x7d\n"

/-- A statement ends its line, with a semicolon unless it brings its own braces. -/
def printStmt (p : Program) (self : NodeId → Print Unit) (id : NodeId) : Print Unit := do
  writeIndent
  self id
  let node ← look (p.node id)
  if !node.isCompound then write ";"
  write "\n"

def printBlock (p : Program) (self : NodeId → Print Unit) (scope : ScopeId) (stmts : List NodeId) : Print Unit := do
  let scope ← look (p.scope scope)
  scope.vars.forM (printVar p)
  scope.functions.forM (printFunction p self)
  stmts.forM (printStmt p self)

/-- One node. A variable that the node names is looked up before anything is written. -/
def printNode (p : Program) (self : NodeId → Print Unit) (id : NodeId) : Print Unit := do
  match ← look (p.node id) with
  | .binary op left right =>
    write "("
    self left
    write (" " ++ op.symbol ++ " ")
    self right
    write ")"
  | .unary op operand =>
    write ("(" ++ op.symbol)
    self operand
    write ")"
  | .block scope stmts => printBlock p self scope stmts
  | .store var op value =>
    let var ← look (p.var var)
    write (var.name ++ " " ++ op.symbol ++ " ")
    self value
  | .string value => write ("\"" ++ (Text.escape value).text ++ "\"")
  | .double value => write value.text
  | .int value => write (toString value.toInt)
  | .load var =>
    let var ← look (p.var var)
    write var.name
  | .forIn var range body =>
    let var ← look (p.var var)
    write ("for (" ++ var.name ++ " in ")
    self range
    write ") \x7b\n"
    printBody self body "\x7d\n"
  | .whileLoop cond body =>
    write "while ("
    self cond
    write ") \x7b\n"
    printBody self body "\x7d\n"
  | .ifElse cond thenBlock elseBlock =>
    write "if ("
    self cond
    write ") \x7b\n"
    printBody self thenBlock "\x7d"
    match elseBlock with
    | some elseBlock =>
      write " else \x7b\n"
      printBody self elseBlock "\x7d"
    | none => pure ()
  | .call name args =>
    write name
    printArgs self args
  | .print args =>
    write "print"
    printArgs self args
  | .ret value =>
    write "return"
    match value with
    | some value =>
      write " "
      self value
    | none => pure ()

/-- Prints a node with at most `depth` nodes around each other. -/
def printWithin (p : Program) : Nat → NodeId → Print Unit
  | 0, _ => look (.error .endless)
  | depth + 1, id => p.printNode (p.printWithin depth) id

/-- Prints a node and all below it. On a walk without a cycle no node is met inside itself, so as many nodes around each
other as there are, and one that does not exist, are deep enough. -/
def print (p : Program) (id : NodeId) : Print Unit := p.printWithin (p.nodes.size + 1) id

end Program

end Canon
