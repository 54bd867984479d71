import Canon.Proofs.Safety

/-!
# Source trees

The source tree of a program is what its text says: the lines of the outermost block, and in them expressions and the
lines of inner blocks. Names stand in it and no ids, so it does not depend on how a program is stored.
-/

namespace Canon

namespace Source

inductive Expr where
  | binary (op : BinaryOp) (left right : Expr)
  | unary (op : UnaryOp) (operand : Expr)
  | string (value : String)
  | double (value : Double)
  | int (value : Int64)
  | load (name : String)
  | call (name : String) (args : List Expr)
  deriving Repr, Inhabited

inductive Line where
  | var (type : VarType) (name : String)
  | native (type : VarType) (name : String) (params : List Param) (symbol : String)
  | function (type : VarType) (name : String) (params : List Param) (body : List Line)
  | expr (value : Expr)
  | store (name : String) (op : AssignOp) (value : Expr)
  | forIn (name : String) (range : Expr) (body : List Line)
  | whileLoop (cond : Expr) (body : List Line)
  | ifThen (cond : Expr) (body : List Line)
  | ifElse (cond : Expr) (body other : List Line)
  | print (args : List Expr)
  | ret (value : Option Expr)
  deriving Repr, Inhabited

end Source

open Source

/-! ## The source tree of a program -/

namespace Program

variable (p : Program)

def exprOf (expr : NodeId → Option Expr) : Node → Option Expr
  | .binary op left right => do return .binary op (← expr left) (← expr right)
  | .unary op operand => do return .unary op (← expr operand)
  | .string value => some (.string value)
  | .double value => some (.double value)
  | .int value => some (.int value)
  | .load var => do return .load (← p.var? var).name
  | .call name args => do return .call name (← args.mapM expr)
  | _ => none

def lineOf (expr : NodeId → Option Expr) (body : NodeId → Option (List Line)) : Node → Option Line
  | .block .. => none
  | .store var op value => do return .store (← p.var? var).name op (← expr value)
  | .forIn var range block => do return .forIn (← p.var? var).name (← expr range) (← body block)
  | .whileLoop cond block => do return .whileLoop (← expr cond) (← body block)
  | .ifElse cond thenBlock none => do return .ifThen (← expr cond) (← body thenBlock)
  | .ifElse cond thenBlock (some elseBlock) => do
    return .ifElse (← expr cond) (← body thenBlock) (← body elseBlock)
  | .print args => do return .print (← args.mapM expr)
  | .ret none => some (.ret none)
  | .ret (some value) => do return .ret (some (← expr value))
  | node => do return .expr (← p.exprOf expr node)

def varLine (id : VarId) : Option Line := do
  let var ← p.var? id
  return .var var.type var.name

def functionLine (body : NodeId → Option (List Line)) (id : FunctionId) : Option Line := do
  let function ← p.function? id
  match function.body with
  | .native symbol => return .native function.returnType function.name function.params symbol
  | .block block => return .function function.returnType function.name function.params (← body block)

/-- The lines of a block: its variables, its functions, and its statements. -/
def linesOf (body : NodeId → Option (List Line)) (line : NodeId → Option Line) : Node → Option (List Line)
  | .block scope stmts => do
    let scope ← p.scope? scope
    let vars ← scope.vars.mapM p.varLine
    let functions ← scope.functions.mapM (p.functionLine body)
    return vars ++ (functions ++ (← stmts.mapM line))
  | _ => none

def exprWithin : Nat → NodeId → Option Expr
  | 0, _ => none
  | depth + 1, id => (p.node? id).bind (p.exprOf (exprWithin depth))

mutual

def lineWithin : Nat → NodeId → Option Line
  | 0, _ => none
  | depth + 1, id => (p.node? id).bind (p.lineOf (p.exprWithin depth) (linesWithin depth))

def linesWithin : Nat → NodeId → Option (List Line)
  | 0, _ => none
  | depth + 1, id => (p.node? id).bind (p.linesOf (linesWithin depth) (lineWithin depth))

end

def source? : Option (List Line) := p.linesWithin (p.nodes.size + 1) p.root

end Program

/-! ## Well-shaped programs -/

def keywords : List String :=
  VarType.all.map VarType.keyword ++ ["for", "in", "while", "if", "else", "print", "return", "function", "native"]

def isNameStart (c : Char) : Bool := c.isAlpha || c = '_'

def isNameChar (c : Char) : Bool := c.isAlphanum || c = '_'

/-- Whether a text is an identifier and not a keyword. -/
def isName (name : String) : Bool :=
  name.toList.head?.any isNameStart && name.toList.all isNameChar && !keywords.contains name

namespace Node

def isExpr : Node → Bool
  | .binary .. | .unary .. | .string _ | .double _ | .int _ | .load _ | .call .. => true
  | _ => false

/-- The children that have to be expressions. -/
def operands : Node → List NodeId
  | .binary _ left right => [left, right]
  | .unary _ operand => [operand]
  | .store _ _ value => [value]
  | .forIn _ range _ => [range]
  | .whileLoop cond _ => [cond]
  | .ifElse cond _ _ => [cond]
  | .call _ args => args
  | .print args => args
  | .ret value => value.toList
  | .block .. | .string _ | .double _ | .int _ | .load _ => []

/-- The children that have to be statements. -/
def stmts : Node → List NodeId
  | .block _ stmts => stmts
  | _ => []

/-- Whether a literal is finite, if it is a double, and free of double quotes, if it is a string. -/
def isPlain : Node → Bool
  | .double value => value.isFinite
  | .string value => !value.toList.contains '"'
  | _ => true

end Node

def FunctionDecl.names (function : FunctionDecl) : List String := function.name :: function.params.map Param.name

namespace Program

def varNames (p : Program) (ids : List VarId) : List String := ids.flatMap fun id => ((p.var? id).map Var.name).toList

/-- The names that the text of a node shows, but for those that the nodes below it show. -/
def namesIn (p : Program) : Node → List String
  | .block scope _ => ((p.scope? scope).map fun scope => p.varNames scope.vars ++
      scope.functions.flatMap fun id => ((p.function? id).map FunctionDecl.names).getD []).getD []
  | .call name _ => [name]
  | node => p.varNames node.vars

/-- A node whose operands are expressions, whose statements are not blocks, and whose names are names. -/
structure Shaped (p : Program) (node : Node) : Prop where
  operands : ∀ id ∈ node.operands, (p.node? id).any Node.isExpr = true
  stmts : ∀ id ∈ node.stmts, (p.node? id).any (!·.isBlock) = true
  names : ∀ name ∈ p.namesIn node, isName name = true

instance (p : Program) (node : Node) : Decidable (p.Shaped node) :=
  decidable_of_iff ((∀ id ∈ node.operands, (p.node? id).any Node.isExpr = true) ∧
    (∀ id ∈ node.stmts, (p.node? id).any (!·.isBlock) = true) ∧ ∀ name ∈ p.namesIn node, isName name = true)
    ⟨fun ⟨operands, stmts, names⟩ => ⟨operands, stmts, names⟩, fun h => ⟨h.operands, h.stmts, h.names⟩⟩

/-- A node that is met when the program is printed from its root. -/
def Met (p : Program) (id : NodeId) : Prop := Relation.ReflTransGen (fun a b => b ∈ p.below a) p.root id

/-- A validated program in which every node that is printed has the shape of what it is printed as. -/
structure WellShaped (p : Program) : Prop where
  valid : p.validate = .ok ()
  nodes : ∀ id node, p.Met id → p.node? id = some node → p.Shaped node

/-- No double that is printed is infinite or not a number, and no string has a double quote. -/
def PlainLiterals (p : Program) : Prop := ∀ id node, p.Met id → p.node? id = some node → node.isPlain = true

end Program

end Canon
