import Canon.Json.Record
import Canon.Program.Basic

/-!
# Decoding a program

The exchange format of programs. A program, a scope, a variable, a parameter and a function are records; a node is a
record whose first field says what kind it is. What is not of this form decodes to nothing, whatever the reason.
-/

namespace Canon

open Json

/-! ## Ids and names -/

def NodeId.decode? (j : Json) : Option NodeId := j.uint32?.map NodeId.mk

def ScopeId.decode? (j : Json) : Option ScopeId := j.uint32?.map ScopeId.mk

def VarId.decode? (j : Json) : Option VarId := j.uint32?.map VarId.mk

def FunctionId.decode? (j : Json) : Option FunctionId := j.uint32?.map FunctionId.mk

/-- A name is written as a string, or as the only member of an object, with nothing in it. -/
def nameIn? (isNothing : Json → Bool) : Json → Option String
  | .string text => text
  | .object [(name, value)] => if isNothing value then name else none
  | _ => none

def isNull : Json → Bool
  | .null => true
  | _ => false

/-- Inside a node an empty object is nothing, too. -/
def isNullOrEmpty : Json → Bool
  | .null | .object [] => true
  | _ => false

def BinaryOp.decode? (j : Json) : Option BinaryOp := (nameIn? isNull j).bind BinaryOp.ofName?

def UnaryOp.decode? (j : Json) : Option UnaryOp := (nameIn? isNull j).bind UnaryOp.ofName?

def AssignOp.decode? (j : Json) : Option AssignOp := (nameIn? isNull j).bind AssignOp.ofName?

def VarType.decode? (j : Json) : Option VarType := (nameIn? isNull j).bind VarType.ofName?

/-! ## Nodes -/

/-- The fields of each kind of node, behind the kind. -/
def Node.fieldNames : String → Option (List String)
  | "binary_op" => some ["op", "left", "right"]
  | "unary_op" => some ["op", "operand"]
  | "block" => some ["scope", "stmts"]
  | "store" => some ["var", "op", "value"]
  | "string_literal" => some ["value"]
  | "double_literal" => some ["value"]
  | "int_literal" => some ["value"]
  | "load" => some ["var"]
  | "for" => some ["var", "range", "body"]
  | "while" => some ["cond", "body"]
  | "if" => some ["cond", "then_block", "else_block"]
  | "call" => some ["name", "args"]
  | "print" => some ["args"]
  | "return" => some ["value"]
  | _ => none

def Node.ofFields? : String → List (Option Json) → Option Node
  | "binary_op", [some op, some left, some right] => do
    let op ← (nameIn? isNullOrEmpty op).bind BinaryOp.ofName?
    some (.binary op (← NodeId.decode? left) (← NodeId.decode? right))
  | "unary_op", [some op, some operand] => do
    let op ← (nameIn? isNullOrEmpty op).bind UnaryOp.ofName?
    some (.unary op (← NodeId.decode? operand))
  | "block", [some scope, some stmts] => do
    some (.block (← ScopeId.decode? scope) (← listOf NodeId.decode? stmts))
  | "store", [some var, some op, some value] => do
    let op ← (nameIn? isNullOrEmpty op).bind AssignOp.ofName?
    some (.store (← VarId.decode? var) op (← NodeId.decode? value))
  | "string_literal", [some value] => do some (.string (← value.text?))
  | "double_literal", [some value] => do some (.double (← value.double?))
  | "int_literal", [some value] => do some (.int (← value.int64?))
  | "load", [some var] => do some (.load (← VarId.decode? var))
  | "for", [some var, some range, some body] => do
    some (.forIn (← VarId.decode? var) (← NodeId.decode? range) (← NodeId.decode? body))
  | "while", [some cond, some body] => do
    some (.whileLoop (← NodeId.decode? cond) (← NodeId.decode? body))
  | "if", [some cond, some thenBlock, elseBlock] => do
    some (.ifElse (← NodeId.decode? cond) (← NodeId.decode? thenBlock)
      (← orDefault none (nullable NodeId.decode?) elseBlock))
  | "call", [some name, some args] => do some (.call (← name.text?) (← listOf NodeId.decode? args))
  | "print", [some args] => do some (.print (← listOf NodeId.decode? args))
  | "return", [value] => do some (.ret (← orDefault none (nullable NodeId.decode?) value))
  | _, _ => none

/-- A node is looked at as a whole before its kind is known, so all of it must fit. In an array no field may be left
off. -/
def Node.decode? (room : Nat) (j : Json) : Option Node :=
  if j.fits room then
    match j with
    | .object members => do
      let kind ← (← (← member? "kind" members)).text?
      Node.ofFields? kind (← membersNamed? (← Node.fieldNames kind) members)
    | .array (kind :: fields) => do
      let kind ← kind.text?
      if fields.length = (← Node.fieldNames kind).length then Node.ofFields? kind (fields.map some) else none
    | _ => none
  else none

/-! ## Declarations -/

def Var.decode? (j : Json) : Option Var := do
  match ← j.record? ["name", "ty"] with
  | [some name, some type] => some ⟨← name.text?, ← VarType.decode? type⟩
  | _ => none

def Param.decode? (j : Json) : Option Param := do
  match ← j.record? ["name", "ty"] with
  | [some name, some type] => some ⟨← name.text?, ← VarType.decode? type⟩
  | _ => none

def Scope.decode? (j : Json) : Option Scope := do
  match ← j.record? ["vars", "functions", "parent"] with
  | [vars, functions, parent] =>
    some ⟨← orDefault [] (listOf VarId.decode?) vars, ← orDefault [] (listOf FunctionId.decode?) functions,
      ← orDefault none (nullable ScopeId.decode?) parent⟩
  | _ => none

def FunctionBody.decode? : Json → Option FunctionBody
  | .object [(some "block", id)] => (NodeId.decode? id).map .block
  | .object [(some "native", symbol)] => symbol.text?.map .native
  | _ => none

def FunctionDecl.decode? (j : Json) : Option FunctionDecl := do
  match ← j.record? ["name", "return_type", "params", "body"] with
  | [some name, some type, some params, some body] =>
    some ⟨← name.text?, ← VarType.decode? type, ← listOf Param.decode? params, ← FunctionBody.decode? body⟩
  | _ => none

/-! ## Programs -/

/-- Decodes a program that stands inside `depth` arrays and objects. -/
def Program.decodeAt? (depth : Nat) (j : Json) : Option Program := do
  match ← j.record? ["nodes", "scopes", "vars", "functions", "root"] with
  | [some nodes, some scopes, some vars, functions, some root] =>
    let nodes ← listOf (Node.decode? (maxDepth - (depth + 2))) nodes
    let scopes ← listOf Scope.decode? scopes
    let vars ← listOf Var.decode? vars
    let functions ← orDefault [] (listOf FunctionDecl.decode?) functions
    some ⟨nodes.toArray, scopes.toArray, vars.toArray, functions.toArray, ← NodeId.decode? root⟩
  | _ => none

def Program.decode? (j : Json) : Option Program := Program.decodeAt? 0 j

end Canon
