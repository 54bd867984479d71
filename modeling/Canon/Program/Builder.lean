import Canon.Program.Basic

/-!
# Building a program

A builder appends parts to its stores and answers with their ids, which count up from zero in each store. Children are
built before their parents. Ids are meaningful only for the program that the builder ends in.
-/

namespace Canon

structure Builder where
  nodes : Array Node := #[]
  scopes : Array Scope := #[]
  vars : Array Var := #[]
  functions : Array FunctionDecl := #[]
  deriving DecidableEq, Repr, Inhabited

def nextIndex {α : Type} (store : Array α) : UInt32 := UInt32.ofNat store.size

namespace Builder

def empty : Builder := {}

def push (b : Builder) (node : Node) : NodeId × Builder :=
  (⟨nextIndex b.nodes⟩, { b with nodes := b.nodes.push node })

/-! ## Expressions -/

def int (b : Builder) (value : Int64) : NodeId × Builder := b.push (.int value)

def double (b : Builder) (value : Double) : NodeId × Builder := b.push (.double value)

def string (b : Builder) (value : String) : NodeId × Builder := b.push (.string value)

def load (b : Builder) (var : VarId) : NodeId × Builder := b.push (.load var)

def binary (b : Builder) (op : BinaryOp) (left right : NodeId) : NodeId × Builder := b.push (.binary op left right)

def unary (b : Builder) (op : UnaryOp) (operand : NodeId) : NodeId × Builder := b.push (.unary op operand)

def call (b : Builder) (name : String) (args : List NodeId) : NodeId × Builder := b.push (.call name args)

/-! ## Statements -/

def store (b : Builder) (var : VarId) (op : AssignOp) (value : NodeId) : NodeId × Builder := b.push (.store var op value)

def print (b : Builder) (args : List NodeId) : NodeId × Builder := b.push (.print args)

def ret (b : Builder) (value : Option NodeId) : NodeId × Builder := b.push (.ret value)

def forIn (b : Builder) (var : VarId) (range body : NodeId) : NodeId × Builder := b.push (.forIn var range body)

def whileLoop (b : Builder) (cond body : NodeId) : NodeId × Builder := b.push (.whileLoop cond body)

def ifElse (b : Builder) (cond thenBlock : NodeId) (elseBlock : Option NodeId) : NodeId × Builder :=
  b.push (.ifElse cond thenBlock elseBlock)

def block (b : Builder) (scope : ScopeId) (stmts : List NodeId) : NodeId × Builder := b.push (.block scope stmts)

/-! ## Declarations -/

def addScope (b : Builder) (parent : Option ScopeId) : ScopeId × Builder :=
  (⟨nextIndex b.scopes⟩, { b with scopes := b.scopes.push { parent } })

/-- Changes a scope in place. A scope that does not exist is a fault, and the builder stays as it is. -/
def declareIn (b : Builder) (scope : ScopeId) (declare : Scope → Scope) : Except Fault Unit × Builder :=
  let i := scope.index.toNat
  match b.scopes[i]? with
  | some s => (.ok (), { b with scopes := b.scopes.setIfInBounds i (declare s) })
  | none => (.error (.dangling b.scopes.size i), b)

/-- Declares a variable at the end of a scope. If the scope does not exist the variable keeps its id, undeclared. -/
def addVar (b : Builder) (scope : ScopeId) (var : Var) : Except Fault VarId × Builder :=
  let id : VarId := ⟨nextIndex b.vars⟩
  let stored := { b with vars := b.vars.push var }
  let (result, b) := stored.declareIn scope fun s => { s with vars := s.vars ++ [id] }
  (result.map fun _ => id, b)

/-- Declares a function at the end of a scope. If the scope does not exist the function keeps its id, undeclared. -/
def addFunction (b : Builder) (scope : ScopeId) (function : FunctionDecl) : Except Fault FunctionId × Builder :=
  let id : FunctionId := ⟨nextIndex b.functions⟩
  let stored := { b with functions := b.functions.push function }
  let (result, b) := stored.declareIn scope fun s => { s with functions := s.functions ++ [id] }
  (result.map fun _ => id, b)

def finish (b : Builder) (root : NodeId) : Program :=
  { nodes := b.nodes, scopes := b.scopes, vars := b.vars, functions := b.functions, root }

end Builder

end Canon
