import Canon.Double.Basic
import Canon.Fault
import Canon.Program.Symbol

/-!
# Programs

A program keeps its parts in four stores: nodes, scopes, variables and functions. The parts refer to each other by
their index in a store. Nothing in the type makes such an id lead anywhere, or keeps a node from containing itself;
that is what validation is for.
-/

namespace Canon

/-! ## Ids -/

structure NodeId where
  index : UInt32
  deriving DecidableEq, Repr, Inhabited

structure ScopeId where
  index : UInt32
  deriving DecidableEq, Repr, Inhabited

structure VarId where
  index : UInt32
  deriving DecidableEq, Repr, Inhabited

structure FunctionId where
  index : UInt32
  deriving DecidableEq, Repr, Inhabited

def indexText (index : UInt32) : String := "#" ++ toString index.toNat

def NodeId.text (id : NodeId) : String := indexText id.index

def ScopeId.text (id : ScopeId) : String := indexText id.index

def VarId.text (id : VarId) : String := indexText id.index

def FunctionId.text (id : FunctionId) : String := indexText id.index

/-! ## Parts -/

inductive Node where
  | binary (op : BinaryOp) (left right : NodeId)
  | unary (op : UnaryOp) (operand : NodeId)
  /-- A list of statements with a scope of its own. -/
  | block (scope : ScopeId) (stmts : List NodeId)
  | store (var : VarId) (op : AssignOp) (value : NodeId)
  | string (value : String)
  | double (value : Double)
  | int (value : Int64)
  | load (var : VarId)
  | forIn (var : VarId) (range body : NodeId)
  | whileLoop (cond body : NodeId)
  | ifElse (cond thenBlock : NodeId) (elseBlock : Option NodeId)
  | call (name : String) (args : List NodeId)
  | print (args : List NodeId)
  | ret (value : Option NodeId)
  deriving DecidableEq, Repr, Inhabited

structure Var where
  name : String
  type : VarType
  deriving DecidableEq, Repr, Inhabited

/-- The declarations of one block, in order. -/
structure Scope where
  vars : List VarId := []
  functions : List FunctionId := []
  parent : Option ScopeId := none
  deriving DecidableEq, Repr, Inhabited

structure Param where
  name : String
  type : VarType
  deriving DecidableEq, Repr, Inhabited

inductive FunctionBody where
  | block (id : NodeId)
  /-- Implemented outside the program, under this symbol. -/
  | native (symbol : String)
  deriving DecidableEq, Repr, Inhabited

structure FunctionDecl where
  name : String
  returnType : VarType
  params : List Param
  body : FunctionBody
  deriving DecidableEq, Repr, Inhabited

structure Program where
  nodes : Array Node
  scopes : Array Scope
  vars : Array Var
  functions : Array FunctionDecl
  root : NodeId
  deriving DecidableEq, Repr, Inhabited

namespace Node

/-- The statements that bring braces of their own and take no semicolon. -/
def isCompound : Node → Bool
  | .forIn .. | .whileLoop .. | .ifElse .. => true
  | _ => false

def isBlock : Node → Bool
  | .block .. => true
  | _ => false

/-- The nodes directly below, in the order in which they are printed. -/
def children : Node → List NodeId
  | .binary _ left right => [left, right]
  | .unary _ operand => [operand]
  | .block _ stmts => stmts
  | .store _ _ value => [value]
  | .string _ | .double _ | .int _ | .load _ => []
  | .forIn _ range body => [range, body]
  | .whileLoop cond body => [cond, body]
  | .ifElse cond thenBlock elseBlock => cond :: thenBlock :: elseBlock.toList
  | .call _ args => args
  | .print args => args
  | .ret value => value.toList

end Node

namespace Program

/-! ## Looking ids up -/

def node? (p : Program) (id : NodeId) : Option Node := p.nodes[id.index.toNat]?

def scope? (p : Program) (id : ScopeId) : Option Scope := p.scopes[id.index.toNat]?

def var? (p : Program) (id : VarId) : Option Var := p.vars[id.index.toNat]?

def function? (p : Program) (id : FunctionId) : Option FunctionDecl := p.functions[id.index.toNat]?

/-- What a store holds at an index, or the fault that it holds nothing there. -/
def fetch {α : Type} (store : Array α) (index : UInt32) : Except Fault α :=
  match store[index.toNat]? with
  | some part => .ok part
  | none => .error (.dangling store.size index.toNat)

def node (p : Program) (id : NodeId) : Except Fault Node := fetch p.nodes id.index

def scope (p : Program) (id : ScopeId) : Except Fault Scope := fetch p.scopes id.index

def var (p : Program) (id : VarId) : Except Fault Var := fetch p.vars id.index

def function (p : Program) (id : FunctionId) : Except Fault FunctionDecl := fetch p.functions id.index

def nodesWithId (p : Program) : List (NodeId × Node) :=
  p.nodes.toList.zipIdx.map fun (node, i) => (⟨UInt32.ofNat i⟩, node)

end Program

end Canon
