import Canon.Program.Basic

/-!
# Defects

The rules that a program can break, each with the id that breaks it.
-/

namespace Canon

inductive Defect where
  | missingNode (id : NodeId)
  | missingScope (id : ScopeId)
  | missingVar (id : VarId)
  | missingFunction (id : FunctionId)
  | notABlock (id : NodeId)
  | sharedNode (id : NodeId)
  | sharedScope (id : ScopeId)
  | sharedFunction (id : FunctionId)
  | selfDeclaring (id : FunctionId)
  deriving DecidableEq, Repr

def Defect.message : Defect → String
  | .missingNode id => "node " ++ id.text ++ " does not exist"
  | .missingScope id => "scope " ++ id.text ++ " does not exist"
  | .missingVar id => "variable " ++ id.text ++ " does not exist"
  | .missingFunction id => "function " ++ id.text ++ " does not exist"
  | .notABlock id => "node " ++ id.text ++ " is used as a block but is not one"
  | .sharedNode id => "node " ++ id.text ++ " has more than one parent"
  | .sharedScope id => "scope " ++ id.text ++ " is owned by more than one block"
  | .sharedFunction id => "function " ++ id.text ++ " is declared in more than one scope"
  | .selfDeclaring id => "function " ++ id.text ++ " is declared inside its own body"

/-- Why a program is turned down: it breaks a rule, or looking it over went wrong. -/
inductive Rejection where
  | defect (defect : Defect)
  | fault (fault : Fault)
  deriving DecidableEq, Repr

end Canon
