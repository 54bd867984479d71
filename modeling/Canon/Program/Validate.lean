import Canon.Program.Defect

/-!
# Validation

A program is sound when every id leads somewhere, every body is a block, and what can be reached is a tree: no node has
two parents, no scope two owners, no function two declarations, and no function is declared inside its own body.

The checks run in a fixed order and the first defect ends them: the root; every node, by index; every scope; the bodies
of functions; and then who owns and declares what. A look-up that a later check makes without asking first would be a
fault if it failed; the earlier checks are there so that it does not.
-/

namespace Canon

abbrev Check := Except Rejection

def reject {α : Type} (d : Defect) : Check α := .error (.defect d)

def Check.look {α : Type} (found : Except Fault α) : Check α := found.mapError .fault

/-! ## Marks -/

/-- Which parts of a store have been met. -/
structure Marks where
  met : Array Bool
  deriving DecidableEq, Repr

def Marks.empty (size : Nat) : Marks := ⟨Array.replicate size false⟩

/-- Marks a part, and tells whether it was marked before. -/
def Marks.visit (m : Marks) (index : UInt32) : Except Fault (Bool × Marks) :=
  match m.met[index.toNat]? with
  | some before => .ok (before, ⟨m.met.setIfInBounds index.toNat true⟩)
  | none => .error (.dangling m.met.size index.toNat)

/-- Marks a part that must not have been met before. -/
def Marks.claim (m : Marks) (index : UInt32) (shared : Defect) : Check Marks := do
  let (before, m) ← Check.look (m.visit index)
  if before then reject shared else pure m

namespace Program

/-! ## References -/

def expectNode (p : Program) (id : NodeId) : Check Unit :=
  if (p.node? id).isSome then pure () else reject (.missingNode id)

def expectScope (p : Program) (id : ScopeId) : Check Unit :=
  if (p.scope? id).isSome then pure () else reject (.missingScope id)

def expectVar (p : Program) (id : VarId) : Check Unit :=
  if (p.var? id).isSome then pure () else reject (.missingVar id)

def expectFunction (p : Program) (id : FunctionId) : Check Unit :=
  if (p.function? id).isSome then pure () else reject (.missingFunction id)

def expectBlock (p : Program) (id : NodeId) : Check Unit :=
  match p.node? id with
  | some node => if node.isBlock then pure () else reject (.notABlock id)
  | none => reject (.missingNode id)

/-- The children of a node exist, then its scope or variable, and its bodies are blocks. -/
def checkReferences (p : Program) (node : Node) : Check Unit := do
  node.children.forM p.expectNode
  match node with
  | .block scope _ => p.expectScope scope
  | .store var _ _ => p.expectVar var
  | .load var => p.expectVar var
  | .forIn var _ body => do
    p.expectVar var
    p.expectBlock body
  | .whileLoop _ body => p.expectBlock body
  | .ifElse _ thenBlock elseBlock => do
    p.expectBlock thenBlock
    elseBlock.toList.forM p.expectBlock
  | .binary .. | .unary .. | .string _ | .double _ | .int _ | .call .. | .print _ | .ret _ => pure ()

/-! ## Parents -/

def claimNode (parents : Marks) (id : NodeId) : Check Marks := parents.claim id.index (.sharedNode id)

def checkNode (p : Program) (parents : Marks) (node : Node) : Check Marks := do
  p.checkReferences node
  node.children.foldlM claimNode parents

def checkScope (p : Program) (scope : Scope) : Check Unit := do
  scope.parent.toList.forM p.expectScope
  scope.vars.forM p.expectVar
  scope.functions.forM p.expectFunction

def checkBody (p : Program) (parents : Marks) (function : FunctionDecl) : Check Marks :=
  match function.body with
  | .block body => do
    p.expectBlock body
    claimNode parents body
  | .native _ => pure parents

/-! ## Declarations -/

def claimScope (owned : Marks) (node : Node) : Check Marks :=
  match node with
  | .block scope _ => owned.claim scope.index (.sharedScope scope)
  | _ => pure owned

def claimFunctions (declared : Marks) (scope : Scope) : Check Marks :=
  scope.functions.foldlM (fun declared id => declared.claim id.index (.sharedFunction id)) declared

/-- Whether a block below the nodes on the stack owns a scope that declares the function. The nodes that are taken off
the stack are counted, and more of them than there are nodes would mean that the walk goes round in circles. -/
def declaresBelow (p : Program) (f : FunctionId) : Nat → List NodeId → Except Fault Bool
  | _, [] => pure false
  | 0, _ :: _ => .error .endless
  | fuel + 1, id :: stack => do
    let node ← p.node id
    let here ← match node with
      | .block scope _ => do pure ((← p.scope scope).functions.contains f)
      | _ => pure false
    if here then pure true else declaresBelow p f fuel (node.children.reverse ++ stack)

def checkSelfDeclaration (p : Program) (f : FunctionId) (function : FunctionDecl) : Check Unit :=
  match function.body with
  | .block body => do
    if ← Check.look (p.declaresBelow f p.nodes.size [body]) then reject (.selfDeclaring f)
  | .native _ => pure ()

def checkDeclarations (p : Program) : Check Unit := do
  let _ ← p.nodes.toList.foldlM claimScope (Marks.empty p.scopes.size)
  let _ ← p.scopes.toList.foldlM claimFunctions (Marks.empty p.functions.size)
  p.functions.toList.zipIdx.forM fun (function, i) => p.checkSelfDeclaration ⟨UInt32.ofNat i⟩ function

/-! ## The whole program -/

def validate (p : Program) : Check Unit := do
  p.expectBlock p.root
  -- The root hangs below nothing else.
  let parents ← claimNode (Marks.empty p.nodes.size) p.root
  let parents ← p.nodes.toList.foldlM p.checkNode parents
  p.scopes.toList.forM p.checkScope
  let _ ← p.functions.toList.foldlM p.checkBody parents
  p.checkDeclarations

end Program

end Canon
