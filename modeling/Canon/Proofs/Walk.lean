import Canon.Print.Render
import Mathlib.Data.List.Basic

/-!
# The walk of the printer

What the printer does at a node is laid out as a list of pieces, and all it does below a node as a list of acts: it
enters nodes, looks ids up, and writes texts and margins. The acts do not depend on the sink or on the width. To print
is to write the text of the acts in one go, up to the first of them that fails.
-/

namespace Canon

open Print

inductive Ref where
  | node (id : NodeId)
  | scope (id : ScopeId)
  | var (id : VarId)
  | function (id : FunctionId)
  deriving DecidableEq, Repr

inductive Piece where
  | look (ref : Ref)
  | text (s : String)
  | margin
  /-- A node printed in place. -/
  | node (id : NodeId)
  /-- A node printed one step deeper. -/
  | body (id : NodeId)
  deriving DecidableEq, Repr

inductive Act where
  | enter (id : NodeId)
  | look (ref : Ref)
  | text (s : String)
  /-- The indentation of a line, so many steps deeper than where the printing began. -/
  | margin (level : Nat)
  /-- The walk is cut off, because it has gone too deep. -/
  | endless
  deriving DecidableEq, Repr

namespace Program

/-! ## Layout -/

def fetchRef (p : Program) : Ref → Except Fault Unit
  | .node id => (p.node id).map fun _ => ()
  | .scope id => (p.scope id).map fun _ => ()
  | .var id => (p.var id).map fun _ => ()
  | .function id => (p.function id).map fun _ => ()

/-- A look-up, and what follows it when something is found. -/
def found {α : Type} (ref : Ref) (part : Option α) (pieces : α → List Piece) : List Piece :=
  .look ref :: (part.map pieces).getD []

def commas {α : Type} (item : α → List Piece) : List α → List Piece
  | [] => []
  | [a] => item a
  | a :: rest => item a ++ .text ", " :: commas item rest

def layoutArgs (args : List NodeId) : List Piece := .text "(" :: commas (fun id => [.node id]) args ++ [.text ")"]

def layoutBody (body : NodeId) (close : String) : List Piece := [.body body, .margin, .text close]

def layoutVar (p : Program) (id : VarId) : List Piece :=
  found (.var id) (p.var? id) fun var => [.margin, .text (var.type.keyword ++ " " ++ var.name ++ ";\n")]

def layoutFunction (p : Program) (id : FunctionId) : List Piece :=
  found (.function id) (p.function? id) fun function =>
    .margin :: .text ("function " ++ function.returnType.keyword ++ " " ++ function.name ++ "(") ::
      commas (fun param => [.text (param.type.keyword ++ " " ++ param.name)]) function.params ++ .text ")" ::
      match function.body with
      | .native symbol => [.text (" native '" ++ (Text.escape symbol).text ++ "';\n")]
      | .block body => .text " \x7b\n" :: layoutBody body "\x7d\n"

def layoutStmt (p : Program) (id : NodeId) : List Piece :=
  .margin :: .node id :: found (.node id) (p.node? id) fun node =>
    (if node.isCompound then [] else [.text ";"]) ++ [.text "\n"]

def layoutBlock (p : Program) (scope : ScopeId) (stmts : List NodeId) : List Piece :=
  found (.scope scope) (p.scope? scope) fun scope =>
    scope.vars.flatMap p.layoutVar ++ (scope.functions.flatMap p.layoutFunction ++ stmts.flatMap p.layoutStmt)

def layout (p : Program) : Node → List Piece
  | .binary op left right => [.text "(", .node left, .text (" " ++ op.symbol ++ " "), .node right, .text ")"]
  | .unary op operand => [.text ("(" ++ op.symbol), .node operand, .text ")"]
  | .block scope stmts => p.layoutBlock scope stmts
  | .store var op value =>
    found (.var var) (p.var? var) fun var => [.text (var.name ++ " " ++ op.symbol ++ " "), .node value]
  | .string value => [.text ("\"" ++ (Text.escape value).text ++ "\"")]
  | .double value => [.text value.text]
  | .int value => [.text (toString value.toInt)]
  | .load var => found (.var var) (p.var? var) fun var => [.text var.name]
  | .forIn var range body =>
    found (.var var) (p.var? var) fun var =>
      .text ("for (" ++ var.name ++ " in ") :: .node range :: .text ") \x7b\n" :: layoutBody body "\x7d\n"
  | .whileLoop cond body => .text "while (" :: .node cond :: .text ") \x7b\n" :: layoutBody body "\x7d\n"
  | .ifElse cond thenBlock elseBlock =>
    .text "if (" :: .node cond :: .text ") \x7b\n" :: layoutBody thenBlock "\x7d" ++
      match elseBlock with
      | some elseBlock => .text " else \x7b\n" :: layoutBody elseBlock "\x7d"
      | none => []
  | .call name args => .text name :: layoutArgs args
  | .print args => .text "print" :: layoutArgs args
  | .ret value => .text "return" :: match value with
    | some value => [.text " ", .node value]
    | none => []

end Program

/-! ## Acts -/

def Act.deeper : Act → Act
  | .margin level => .margin (level + 1)
  | act => act

def Piece.acts (below : NodeId → List Act) : Piece → List Act
  | .look ref => [.look ref]
  | .text s => [.text s]
  | .margin => [.margin 0]
  | .node id => below id
  | .body id => (below id).map Act.deeper

namespace Program

/-- What the printer does to print a node with at most `depth` nodes around each other. -/
def walkWithin (p : Program) : Nat → NodeId → List Act
  | 0, _ => [.endless]
  | depth + 1, id =>
    .enter id :: ((p.node? id).map fun node => (p.layout node).flatMap (Piece.acts (p.walkWithin depth))).getD []

end Program

/-! ## Playing -/

namespace Print

theorem look_ok {α : Type} (a : α) : look (.ok a) = (pure a : Print α) := rfl

def marginAt (level : Nat) : Print Unit := fun printer =>
  if maxIndent < printer.indent + level * printer.width then look (.error .indentTooWide) printer
  else write (String.ofList (List.replicate (printer.indent + level * printer.width) ' ')) printer

theorem writeIndent_eq : writeIndent = marginAt 0 := by
  funext printer
  simp [writeIndent, marginAt]

/-- Playing the parts of one node, if it is known how the nodes below are printed. -/
def playPiece (p : Program) (self : NodeId → Print Unit) : Piece → Print Unit
  | .look ref => look (p.fetchRef ref)
  | .text s => write s
  | .margin => writeIndent
  | .node id => self id
  | .body id => indented (self id)

def playAct (p : Program) : Act → Print Unit
  | .enter id => look (p.fetchRef (.node id))
  | .look ref => look (p.fetchRef ref)
  | .text s => write s
  | .margin level => marginAt level
  | .endless => look (.error .endless)

end Print

namespace Program

variable {p : Program} {self : NodeId → Print Unit}

theorem play_found {α : Type} {ref : Ref} {part : Except Fault α} (hpart : p.fetchRef ref = part.map fun _ => ())
    (pieces : α → List Piece) :
    forM (found ref part.toOption pieces) (playPiece p self) =
      (do let a ← look part; forM (pieces a) (playPiece p self)) := by
  rw [found, List.forM_cons, playPiece, hpart]
  cases part <;> rfl

theorem toOption_fetch {α : Type} (store : Array α) (i : UInt32) : (fetch store i).toOption = store[i.toNat]? := by
  unfold fetch
  cases store[i.toNat]? <;> rfl

theorem node?_eq (id : NodeId) : p.node? id = (p.node id).toOption := (toOption_fetch _ _).symm

theorem scope?_eq (id : ScopeId) : p.scope? id = (p.scope id).toOption := (toOption_fetch _ _).symm

theorem var?_eq (id : VarId) : p.var? id = (p.var id).toOption := (toOption_fetch _ _).symm

theorem function?_eq (id : FunctionId) : p.function? id = (p.function id).toOption := (toOption_fetch _ _).symm

theorem play_commas {α : Type} (item : α → List Piece) (as : List α) :
    forM (commas item as) (playPiece p self) = commaSeparated (fun a => forM (item a) (playPiece p self)) as := by
  induction as with
  | nil => rfl
  | cons a rest ih =>
    cases rest with
    | nil => rfl
    | cons b rest =>
      simp only [commas, commaSeparated, List.forM_append, List.forM_cons, ih]
      rfl

theorem play_flatMap {α : Type} (f : α → List Piece) (as : List α) :
    forM (as.flatMap f) (playPiece p self) = forM as fun a => forM (f a) (playPiece p self) := by
  induction as with
  | nil => rfl
  | cons a as ih => rw [List.flatMap_cons, List.forM_append, List.forM_cons, ih]

theorem play_layoutBody (body : NodeId) (close : String) :
    forM (layoutBody body close) (playPiece p self) = printBody self body close := by
  simp [layoutBody, printBody, playPiece]

theorem play_layoutArgs (args : List NodeId) :
    forM (layoutArgs args) (playPiece p self) = printArgs self args := by
  simp [layoutArgs, printArgs, playPiece, play_commas]

theorem play_layoutVar (id : VarId) : forM (p.layoutVar id) (playPiece p self) = p.printVar id := by
  rw [layoutVar, printVar, var?_eq, play_found rfl]
  simp [playPiece]

theorem play_layoutFunction (id : FunctionId) :
    forM (p.layoutFunction id) (playPiece p self) = p.printFunction self id := by
  rw [layoutFunction, printFunction, function?_eq, play_found rfl]
  refine bind_congr fun function => ?_
  cases hbody : function.body with
  | native symbol => simp [playPiece, play_commas]
  | block body => simp [playPiece, play_commas, play_layoutBody]

theorem play_layoutStmt (id : NodeId) : forM (p.layoutStmt id) (playPiece p self) = p.printStmt self id := by
  rw [layoutStmt, printStmt, List.forM_cons, List.forM_cons, node?_eq, play_found rfl]
  refine bind_congr fun _ => bind_congr fun _ => bind_congr fun node => ?_
  cases node.isCompound <;> simp [playPiece]

theorem play_layoutBlock (scope : ScopeId) (stmts : List NodeId) :
    forM (p.layoutBlock scope stmts) (playPiece p self) = p.printBlock self scope stmts := by
  rw [layoutBlock, printBlock, scope?_eq, play_found rfl]
  simp only [List.forM_append, play_flatMap, play_layoutVar, play_layoutFunction, play_layoutStmt]
  rfl

theorem play_layout (id : NodeId) : p.printNode self id =
    (do let node ← look (p.node id); forM (p.layout node) (playPiece p self)) := by
  unfold printNode
  refine bind_congr fun node => ?_
  cases node with
  | binary op left right => simp [layout, playPiece]
  | unary op operand => simp [layout, playPiece]
  | block scope stmts => rw [layout, play_layoutBlock]
  | store var op value =>
    rw [layout, var?_eq, play_found rfl]
    simp [playPiece]
  | string value => simp [layout, playPiece]
  | double value => simp [layout, playPiece]
  | int value => simp [layout, playPiece]
  | load var =>
    rw [layout, var?_eq, play_found rfl]
    simp [playPiece]
  | forIn var range body =>
    rw [layout, var?_eq, play_found rfl]
    simp [playPiece, play_layoutBody]
  | whileLoop cond body => simp [layout, playPiece, play_layoutBody]
  | ifElse cond thenBlock elseBlock => cases elseBlock <;> simp [layout, playPiece, play_layoutBody]
  | call name args => simp [layout, playPiece, play_layoutArgs]
  | print args => simp [layout, playPiece, play_layoutArgs]
  | ret value => cases value <;> simp [layout, playPiece]

end Program

/-! ## Transcripts -/

/-- The text of some acts up to the first that fails, and how it fails. -/
structure Transcript where
  text : String
  fault : Option Fault
  deriving DecidableEq, Repr

def Act.output (p : Program) (indent width : Nat) : Act → Except Fault String
  | .enter id => (p.fetchRef (.node id)).map fun _ => ""
  | .look ref => (p.fetchRef ref).map fun _ => ""
  | .text s => .ok s
  | .margin level =>
    if maxIndent < indent + level * width then .error .indentTooWide
    else .ok (String.ofList (List.replicate (indent + level * width) ' '))
  | .endless => .error .endless

def transcript (p : Program) (indent width : Nat) : List Act → Transcript
  | [] => ⟨"", none⟩
  | act :: rest =>
    match act.output p indent width with
    | .ok s => ⟨s ++ (transcript p indent width rest).text, (transcript p indent width rest).fault⟩
    | .error fault => ⟨"", some fault⟩

theorem transcript_fault_eq_none {p : Program} {indent width : Nat} {acts : List Act} :
    (transcript p indent width acts).fault = none ↔ ∀ act ∈ acts, ∃ s, act.output p indent width = .ok s := by
  induction acts with
  | nil => simp [transcript]
  | cons act acts ih =>
    rw [transcript, List.forall_mem_cons, ← ih]
    cases act.output p indent width <;> simp

/-- What becomes of a printer whose sink has been given the text of a transcript, and has taken all of it or not. -/
def Transcript.leave (t : Transcript) (printer : Printer) : Bool × Sink → Except Break (Except Full Unit × Printer)
  | (false, sink) => .ok (.error .full, { printer with sink })
  | (true, sink) =>
    match t.fault with
    | none => .ok (.ok (), { printer with sink })
    | some fault => .error ⟨fault, sink⟩

theorem Transcript.fault_of_leave {t : Transcript} {printer : Printer} {written : Bool × Sink} {broken : Break}
    (h : t.leave printer written = .error broken) : t.fault = some broken.fault := by
  obtain ⟨text, fault⟩ := t
  rcases written with ⟨_ | _, sink⟩ <;> cases fault <;> cases h
  rfl

theorem Transcript.after_of_leave {t : Transcript} {printer after : Printer} {written : Bool × Sink}
    {result : Except Full Unit} (h : t.leave printer written = .ok (result, after)) :
    after = { printer with sink := written.2 } := by
  obtain ⟨text, fault⟩ := t
  rcases written with ⟨_ | _, sink⟩ <;> cases fault <;> cases h <;> rfl

/-- What a transcript comes to if all of its text is kept. -/
def Transcript.rendered (t : Transcript) : Except Fault String :=
  match t.fault with
  | none => .ok t.text
  | some fault => .error fault

theorem Transcript.rendered_eq_ok {t : Transcript} {text : String} : t.rendered = .ok text ↔ t = ⟨text, none⟩ := by
  obtain ⟨written, _ | fault⟩ := t <;> simp [rendered]

theorem Transcript.exists_rendered_iff {t : Transcript} : (∃ text, t.rendered = .ok text) ↔ t.fault = none := by
  obtain ⟨written, _ | fault⟩ := t <;> simp [rendered]

namespace Print

/-- Writes the text of a transcript in one go, and then fails as it does. -/
def deliver (t : Transcript) : Print Unit := do
  write t.text
  match t.fault with
  | none => pure ()
  | some fault => look (.error fault)

theorem write_empty : write "" = pure () := by
  funext printer
  obtain ⟨width, indent, written, room⟩ := printer
  cases room <;> simp [write, Sink.write] <;> rfl

theorem run_bind {α β : Type} (x : Print α) (f : α → Print β) (printer : Printer) :
    (x >>= f) printer = match x printer with
      | .ok (.ok a, after) => f a after
      | .ok (.error stop, after) => .ok (.error stop, after)
      | .error broken => .error broken := by
  simp only [bind, ExceptT.bind, ExceptT.mk, ExceptT.bindCont, StateT.bind, Except.bind]
  rcases x printer with _ | ⟨_ | _, _⟩ <;> rfl

theorem write_append (a b : String) : write (a ++ b) = (do write a; write b) := by
  funext printer
  obtain ⟨width, indent, written, room⟩ := printer
  rw [run_bind]
  cases room with
  | none => simp [write, Sink.write, String.append_assoc]
  | some room =>
    by_cases ha : a.length ≤ room
    · by_cases hb : b.length ≤ room - a.length
      · have hab : a.length + b.length ≤ room := by omega
        simp [write, Sink.write, ha, hb, hab, String.append_assoc, Nat.sub_add_eq]
      · have hab : ¬ a.length + b.length ≤ room := by omega
        have htake : List.take room (a.toList ++ b.toList) = a.toList ++ List.take (room - a.length) b.toList := by
          rw [List.take_append, String.length_toList, List.take_of_length_le (by rw [String.length_toList]; exact ha)]
        simp [write, Sink.write, ha, hb, hab, htake, String.append_assoc]
    · have hab : ¬ a.length + b.length ≤ room := by omega
      have htake : List.take room (a.toList ++ b.toList) = List.take room a.toList :=
        List.take_append_of_le_length (by rw [String.length_toList]; omega)
      simp [write, Sink.write, ha, hab, htake]

theorem deliver_nil : deliver ⟨"", none⟩ = pure () := by simp [deliver, write_empty]

theorem deliver_text (s : String) (t : Transcript) : deliver ⟨s ++ t.text, t.fault⟩ = (do write s; deliver t) := by
  simp [deliver, write_append]

theorem deliver_fault (fault : Fault) : deliver ⟨"", some fault⟩ = look (.error fault) := by
  simp [deliver, write_empty]

theorem write_run (s : String) (printer : Printer) :
    write s printer = .ok (if (printer.sink.write s).1 then .ok () else .error .full,
      { printer with sink := (printer.sink.write s).2 }) := by
  unfold write
  rcases printer.sink.write s with ⟨_ | _, _⟩ <;> rfl

theorem deliver_run (t : Transcript) (printer : Printer) :
    deliver t printer = t.leave printer (printer.sink.write t.text) := by
  rw [deliver, run_bind, write_run]
  obtain ⟨text, fault⟩ := t
  rcases printer.sink.write text with ⟨_ | _, sink⟩ <;> cases fault <;> rfl

theorem playAct_run (p : Program) (act : Act) (printer : Printer) :
    playAct p act printer = match act.output p printer.indent printer.width with
      | .ok s => write s printer
      | .error fault => look (.error fault) printer := by
  cases act with
  | enter id =>
    simp only [playAct, Act.output]
    cases p.fetchRef (.node id) <;> simp [Except.map, write_empty, look_ok]
  | look ref =>
    simp only [playAct, Act.output]
    cases p.fetchRef ref <;> simp [Except.map, write_empty, look_ok]
  | text s => rfl
  | margin level =>
    simp only [playAct, Act.output, marginAt]
    split <;> rfl
  | endless => rfl

/-- To play acts is to deliver their transcript. -/
theorem play_run (p : Program) (acts : List Act) (printer : Printer) :
    forM acts (playAct p) printer = deliver (transcript p printer.indent printer.width acts) printer := by
  induction acts generalizing printer with
  | nil => rw [List.forM_nil, transcript, deliver_nil]
  | cons act acts ih =>
    rw [List.forM_cons, run_bind, playAct_run, transcript]
    cases act.output p printer.indent printer.width with
    | error fault => rw [deliver_fault]; rfl
    | ok s =>
      rw [deliver_text, run_bind]
      simp only [write_run]
      cases (printer.sink.write s).1 with
      | false => rfl
      | true => exact ih _

theorem output_deeper (p : Program) (indent width : Nat) (act : Act) :
    act.deeper.output p indent width = act.output p (indent + width) width := by
  cases act with
  | margin level =>
    have hlevel : indent + (level + 1) * width = indent + width + level * width := by rw [Nat.succ_mul]; omega
    simp [Act.deeper, Act.output, hlevel]
  | _ => rfl

theorem transcript_deeper (p : Program) (indent width : Nat) (acts : List Act) :
    transcript p indent width (acts.map Act.deeper) = transcript p (indent + width) width acts := by
  induction acts with
  | nil => rfl
  | cons act acts ih => simp only [List.map_cons, transcript, output_deeper, ih]

/-- Acts played one step deeper. The step is taken back, unless a fault leaves no printer. -/
theorem indented_play (p : Program) (acts : List Act) :
    indented (forM acts (playAct p)) = forM (acts.map Act.deeper) (playAct p) := by
  funext printer
  simp only [indented, play_run, deliver_run, transcript_deeper]
  obtain ⟨text, fault⟩ := transcript p (printer.indent + printer.width) printer.width acts
  rcases printer.sink.write text with ⟨_ | _, sink⟩ <;> cases fault <;> simp [Transcript.leave]

end Print

namespace Program

theorem playPiece_acts (p : Program) (below : NodeId → List Act) (piece : Piece) :
    playPiece p (fun id => forM (below id) (playAct p)) piece = forM (piece.acts below) (playAct p) := by
  cases piece with
  | body id => rw [playPiece, Piece.acts, indented_play]
  | margin => simp [playPiece, Piece.acts, playAct, writeIndent_eq]
  | node id => rfl
  | look ref => simp [playPiece, Piece.acts, playAct]
  | text s => simp [playPiece, Piece.acts, playAct]

theorem play_acts (p : Program) (below : NodeId → List Act) (pieces : List Piece) :
    forM pieces (playPiece p fun id => forM (below id) (playAct p)) =
      forM (pieces.flatMap (Piece.acts below)) (playAct p) := by
  induction pieces with
  | nil => rfl
  | cons piece pieces ih => rw [List.forM_cons, List.flatMap_cons, List.forM_append, playPiece_acts, ih]

/-- To print a node is to play its walk. -/
theorem printWithin_eq_play (p : Program) (depth : Nat) :
    p.printWithin depth = fun id => forM (p.walkWithin depth id) (playAct p) := by
  induction depth with
  | zero => funext id; simp [printWithin, walkWithin, playAct]
  | succ depth ih =>
    funext id
    rw [printWithin, ih, play_layout, walkWithin, List.forM_cons, node?_eq, playAct, fetchRef]
    cases p.node id with
    | error fault => rfl
    | ok node =>
      rw [look_ok, pure_bind, play_acts]
      rfl

theorem printWithin_run (p : Program) (depth : Nat) (id : NodeId) (printer : Printer) :
    p.printWithin depth id printer =
      deliver (transcript p printer.indent printer.width (p.walkWithin depth id)) printer := by
  rw [printWithin_eq_play]
  exact play_run p (p.walkWithin depth id) printer

theorem renderFrom_eq (p : Program) (width : Nat) (id : NodeId) :
    p.renderFrom width id = (transcript p 0 width (p.walkWithin (p.nodes.size + 1) id)).rendered := by
  have hindent : (Printer.start width).indent = 0 := rfl
  have hwidth : (Printer.start width).width = width := rfl
  rw [renderFrom, print, printWithin_run, deliver_run, hindent, hwidth]
  rcases transcript p 0 width (p.walkWithin (p.nodes.size + 1) id) with ⟨written, _ | fault⟩ <;>
    simp [Printer.start, Sink.write, Transcript.leave, Transcript.rendered]

end Program

end Canon
